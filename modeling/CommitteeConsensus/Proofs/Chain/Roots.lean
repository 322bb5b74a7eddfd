import CommitteeConsensus.Proofs.Chain.Commitment

/-! # What the roots of lists commit to

    A transaction is hashed as its fields in a row. The byte before a recipient says whether there
    is one, and the data, which comes last, is the rest of the message. So the fields can be told
    apart, whatever their lengths (`Transaction.preimage_injective`), as those of a receipt can.

    The root of a list is the digest of the items' hashes in a row. Hashes are all of one width, and
    so the row has one reading (`flatMap_toList_injective`). Where the hash function has no collision
    on what is hashed on the way to two roots, the lists with one root are equal item by item.
-/

namespace CommitteeConsensus

/-! ## Transactions and receipts -/

namespace Transaction

/-- The marker tells how long a recipient is. -/
theorem recipient_append_inj {r q : Option Address} {s t : List UInt8} :
    recipientBytes r ++ s = recipientBytes q ++ t ↔ r = q ∧ s = t := by
  cases r with
  | none =>
    cases q with
    | none => simp [recipientBytes]
    | some address => simp [recipientBytes]
  | some address =>
    cases q with
    | none => simp [recipientBytes]
    | some other => simp [recipientBytes, Bytes.append_inj]

/-- The bytes that a transaction is hashed from are those of no other. -/
theorem preimage_injective : Function.Injective preimage := by
  intro tx ux heq
  simp only [preimage, List.append_assoc, Bytes.append_inj, recipient_append_inj,
    Amount.append_inj, word_append_inj] at heq
  rw [Transaction.mk.injEq]
  exact heq

end Transaction

namespace Receipt

theorem mark_inj {b c : Bool} : (if b then 1 else 0 : UInt8) = (if c then 1 else 0) ↔ b = c := by
  cases b <;> cases c <;> decide

/-- The bytes that a receipt is hashed from are those of no other. -/
theorem preimage_injective : Function.Injective preimage := by
  intro r q heq
  have hfields : r.preimage ++ [] = q.preimage ++ [] := by rw [heq]
  simp only [preimage, List.append_assoc, Bytes.append_inj] at hfields
  simp only [List.singleton_append, List.cons.injEq, mark_inj, word_append_inj, and_true]
    at hfields
  rw [Receipt.mk.injEq]
  exact hfields

end Receipt

/-! ## Lists of digests -/

/-- Strings of one width in a row can be told apart. -/
theorem flatMap_toList_injective {n : Nat} (hwidth : 0 < n) :
    Function.Injective fun strings : List (Bytes n) => strings.flatMap Bytes.toList := by
  intro strings
  induction strings with
  | nil =>
    intro others heq
    cases others with
    | nil => rfl
    | cons first rest =>
      -- no string is empty, so only an empty list makes an empty row
      have hlength := congrArg List.length heq
      simp only [List.flatMap_nil, List.flatMap_cons, List.length_nil, List.length_append,
        Bytes.length_toList] at hlength
      omega
  | cons first rest ih =>
    intro others heq
    cases others with
    | nil =>
      have hlength := congrArg List.length heq
      simp only [List.flatMap_nil, List.flatMap_cons, List.length_nil, List.length_append,
        Bytes.length_toList] at hlength
      omega
    | cons first' rest' =>
      obtain ⟨rfl, hrest⟩ := Bytes.append_inj.1 heq
      rw [ih hrest]

section Lists

variable {α : Type} {preimage : α → List UInt8} {items others : List α}

/-- The hashes of the items in a row, which are hashed to a root. -/
def rootMessage (preimage : α → List UInt8) (items : List α) : List UInt8 :=
  (items.map fun item => keccak256 (preimage item)).flatMap Bytes.toList

/-- All that is hashed on the way to the root of a list. -/
def rootMessages (preimage : α → List UInt8) (items : List α) : List (List UInt8) :=
  rootMessage preimage items :: items.map preimage

/-- Without collisions a list can be told from the hashes of its items. -/
theorem eq_of_digests_eq (hinj : Function.Injective preimage)
    (hdigest : DigestsIdentify (· ∈ items.map preimage ++ others.map preimage))
    (heq : (items.map fun item => keccak256 (preimage item))
      = others.map fun item => keccak256 (preimage item)) : items = others := by
  induction items generalizing others with
  | nil => exact (List.map_eq_nil_iff.1 heq.symm).symm
  | cons item rest ih =>
    cases others with
    | nil => exact absurd heq (List.cons_ne_nil _ _)
    | cons item' rest' =>
      -- the hashes agree one by one, and without collisions each is that of one item
      obtain ⟨hfirst, hrest⟩ := List.cons.inj heq
      have hitem : item = item' := by
        apply hinj
        exact hdigest _ _ (by simp) (by simp) hfirst
      have hother : rest = rest' := by
        apply ih _ hrest
        apply hdigest.mono
        intro message hmem
        simp only [List.mem_append, List.map_cons, List.mem_cons] at hmem ⊢
        exact hmem.imp .inr .inr
      rw [hitem, hother]

/-- Without collisions a list can be told from its root. -/
theorem root_inj (hinj : Function.Injective preimage)
    (hdigest : DigestsIdentify (· ∈ rootMessages preimage items ++ rootMessages preimage others)) :
    keccak256 (rootMessage preimage items) = keccak256 (rootMessage preimage others)
      ↔ items = others := by
  constructor
  · intro hroot
    have hrow : rootMessage preimage items = rootMessage preimage others :=
      hdigest _ _ (by simp [rootMessages]) (by simp [rootMessages]) hroot
    apply eq_of_digests_eq hinj
    · apply hdigest.mono
      intro message hmem
      simp only [rootMessages, List.mem_append, List.mem_cons] at hmem ⊢
      exact hmem.imp .inr .inr
    · exact flatMap_toList_injective (by decide) hrow
  · rintro rfl
    rfl

end Lists

theorem transactionsRoot_eq (transactions : List Transaction) :
    transactionsRoot transactions = keccak256 (rootMessage Transaction.preimage transactions) := rfl

theorem receiptsRoot_eq (receipts : List Receipt) :
    receiptsRoot receipts = keccak256 (rootMessage Receipt.preimage receipts) := rfl

/-! ## The digests of a block -/

/-- What is hashed for a header, a transaction, a receipt and a list of such hashes is read in one
    way only. So where no two of the strings involved have one digest, headers with one hash are
    equal, and lists of transactions or of receipts with one root are equal. -/
theorem digests_commit :
    (Function.Injective Header.preimage ∧ Function.Injective Transaction.preimage
        ∧ Function.Injective Receipt.preimage
        ∧ Function.Injective fun hashes : List Hash => hashes.flatMap Bytes.toList)
      ∧ (∀ h g : Header, DigestsIdentify (· ∈ [h.preimage, g.preimage]) →
          (h.hash = g.hash ↔ h = g))
      ∧ (∀ ts us : List Transaction,
          DigestsIdentify (· ∈ rootMessages Transaction.preimage ts
            ++ rootMessages Transaction.preimage us) →
          (transactionsRoot ts = transactionsRoot us ↔ ts = us))
      ∧ ∀ rs qs : List Receipt,
          DigestsIdentify (· ∈ rootMessages Receipt.preimage rs
            ++ rootMessages Receipt.preimage qs) →
          (receiptsRoot rs = receiptsRoot qs ↔ rs = qs) := by
  refine ⟨⟨Header.preimage_injective, Transaction.preimage_injective, Receipt.preimage_injective,
    flatMap_toList_injective (by decide)⟩, ?_, ?_, ?_⟩
  · intro h g hdigest
    constructor
    · intro hhash
      apply Header.preimage_injective
      exact hdigest _ _ (by simp) (by simp) hhash
    · rintro rfl
      rfl
  · intro ts us hdigest
    rw [transactionsRoot_eq, transactionsRoot_eq]
    exact root_inj Transaction.preimage_injective hdigest
  · intro rs qs hdigest
    rw [receiptsRoot_eq, receiptsRoot_eq]
    exact root_inj Receipt.preimage_injective hdigest

/-- A transaction that pays an account. -/
def transfer : Transaction where
  sender := .zero 20
  recipient := some (.zero 20)
  value := .coin
  nonce := 0
  data := []

/-- A transaction that creates a contract, hashed from as many bytes as the transfer. -/
def creation : Transaction :=
  { transfer with recipient := none, data := List.replicate 20 0 }

def receiptOf (tx : Transaction) (success : Bool) : Receipt where
  transactionHash := tx.hash
  success := success
  gasUsed := 21000

/-- Another extra-data, another kind of transaction and other receipts give other digests. -/
theorem digests_commit_transfer :
    (DigestsIdentify (· ∈ [({} : Header).preimage, { extra := [0] : Header }.preimage])
        ∧ ({} : Header).hash ≠ { extra := [0] : Header }.hash)
      ∧ (DigestsIdentify (· ∈ rootMessages Transaction.preimage [transfer]
            ++ rootMessages Transaction.preimage [creation])
        ∧ transactionsRoot [transfer] ≠ transactionsRoot [creation])
      ∧ DigestsIdentify (· ∈ rootMessages Receipt.preimage [receiptOf transfer true]
            ++ rootMessages Receipt.preimage [receiptOf transfer false, receiptOf creation true])
        ∧ receiptsRoot [receiptOf transfer true]
          ≠ receiptsRoot [receiptOf transfer false, receiptOf creation true] := by
  obtain ⟨-, hheaders, htransactions, hreceipts⟩ := digests_commit
  have hh : DigestsIdentify (· ∈ [({} : Header).preimage, { extra := [0] : Header }.preimage]) :=
    digestsIdentify_of_nodup (by decide +kernel)
  have ht : DigestsIdentify (· ∈ rootMessages Transaction.preimage [transfer]
      ++ rootMessages Transaction.preimage [creation]) :=
    digestsIdentify_of_nodup (by decide +kernel)
  have hr : DigestsIdentify (· ∈ rootMessages Receipt.preimage [receiptOf transfer true]
      ++ rootMessages Receipt.preimage [receiptOf transfer false, receiptOf creation true]) :=
    digestsIdentify_of_nodup (by decide +kernel)
  refine ⟨⟨hh, ?_⟩, ⟨ht, ?_⟩, hr, ?_⟩
  · rw [Ne, hheaders _ _ hh]
    decide
  · rw [Ne, htransactions _ _ ht]
    decide
  · rw [Ne, hreceipts _ _ hr]
    exact fun heq => absurd (congrArg List.length heq) (by decide)

end CommitteeConsensus
