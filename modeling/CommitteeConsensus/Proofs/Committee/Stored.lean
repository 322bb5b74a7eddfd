import CommitteeConsensus.Committee.Snapshot
import CommitteeConsensus.Proofs.Table

/-! # Stored snapshots read back

    `ofStored_stored`: the record of a snapshot is read as that snapshot, whatever follows the
    record. The number of items of a list is stored as a word, so the lists of the snapshot must
    be shorter than `Word.bound`; `Storable` says so.

    A record that ends early is not read at all (`ofStored_framed`). Every boundary in it is found
    from the front, so a reader that succeeds takes the same however much follows (`Steady`); from
    part of a record it would have to take less than from the whole.
-/

namespace CommitteeConsensus

namespace Binary

/-- The reader takes exactly what was written for `a` off the front of its input. -/
def Undoes {α : Type} (read : Reader α) (write : α → List UInt8) (a : α) : Prop :=
  ∀ rest, read (write a ++ rest) = some (a, rest)

theorem undoes_bytes {n : Nat} (b : Bytes n) : Undoes (readBytes n) Bytes.toList b :=
  readBytes_append b

theorem undoes_word (n : UInt64) : Undoes readWord word n := readWord_append n

/-- What is read first is handed on with the rest of the input. -/
theorem bind_append {α β : Type} {read : Reader α} {write : α → List UInt8} {a : α}
    (h : Undoes read write a) (next : α → Reader β) (rest : List UInt8) :
    (read >>= next) (write a ++ rest) = next a rest := by
  show (read (write a ++ rest)).bind (fun out => next out.1 out.2) = next a rest
  rw [h rest]
  rfl

theorem word_ofNat {n : Nat} (h : n < Word.bound) : word (UInt64.ofNat n) = littleEndian 8 n := by
  have hn : (UInt64.ofNat n).toNat = n := by
    rw [UInt64.toNat_ofNat']
    exact Nat.mod_eq_of_lt h
  rw [word, hn]

theorem readMany_flatMap {α : Type} {item : Reader α} {write : α → List UInt8} {items : List α}
    (h : ∀ a ∈ items, Undoes item write a) (rest : List UInt8) :
    readMany item items.length (items.flatMap write ++ rest) = some (items, rest) := by
  induction items with
  | nil => rfl
  | cons a items ih =>
    have hrest := ih fun b hb => h b (List.mem_cons_of_mem a hb)
    rw [List.flatMap_cons, List.append_assoc, List.length_cons, readMany,
      bind_append (h a (by simp))]
    show (readMany item items.length (items.flatMap write ++ rest)).bind _ = _
    rw [hrest]
    rfl

theorem undoes_list {α : Type} {item : Reader α} {write : α → List UInt8} {items : List α}
    (hlength : items.length < Word.bound) (h : ∀ a ∈ items, Undoes item write a) :
    Undoes (readList item) (list write) items := by
  intro rest
  have hn : (UInt64.ofNat items.length).toNat = items.length := by
    rw [UInt64.toNat_ofNat']
    exact Nat.mod_eq_of_lt hlength
  rw [list, ← word_ofNat hlength, List.append_assoc, readList, bind_append (undoes_word _), hn]
  exact readMany_flatMap h rest

theorem undoes_pair {α β : Type} {read : Reader α} {read' : Reader β} {first : α → List UInt8}
    {second : β → List UInt8} {x : α × β} (hfirst : Undoes read first x.1)
    (hsecond : Undoes read' second x.2) : Undoes (readPair read read') (pair first second) x := by
  intro rest
  rw [pair, List.append_assoc, readPair, bind_append hfirst, bind_append hsecond]
  rfl

theorem undoes_table {κ α : Type} [LT κ] [DecidableLT κ] [KeyOrder κ] {read : Reader κ}
    {read' : Reader α} {key : κ → List UInt8} {value : α → List UInt8} {t : Table κ α}
    (hsize : t.size < Word.bound)
    (h : ∀ e ∈ t.entries, Undoes read key e.1 ∧ Undoes read' value e.2) :
    Undoes (readTable read read') (table key value) t := by
  intro rest
  have hentries := undoes_list hsize fun e he => undoes_pair (h e he).1 (h e he).2
  rw [table, readTable, bind_append hentries, Table.ofList_entries]
  rfl

/-! ## Input that ends early -/

/-- What the reader takes off the front of its input, it takes however much follows. -/
def Steady {α : Type} (read : Reader α) : Prop :=
  ∀ input a rest more, read input = some (a, rest) → read (input ++ more) = some (a, rest ++ more)

theorem steady_pure {α : Type} (a : α) : Steady (pure a : Reader α) := by
  intro input b rest more hread
  obtain ⟨rfl, rfl⟩ := Prod.mk.inj (Option.some.inj hread)
  rfl

theorem Steady.bind {α β : Type} {read : Reader α} {next : α → Reader β} (h : Steady read)
    (hnext : ∀ a, Steady (next a)) : Steady (read >>= next) := by
  intro input b rest more hread
  obtain ⟨⟨a, middle⟩, ha, hb⟩ := Option.bind_eq_some_iff.1 hread
  show (read (input ++ more)).bind (fun out => next out.1 out.2) = some (b, rest ++ more)
  rw [h input a middle more ha]
  exact hnext a middle b rest more hb

theorem steady_bytes (n : Nat) : Steady (readBytes n) := by
  intro input b rest more hread
  simp only [readBytes, Option.map_eq_some_iff, Prod.mk.injEq] at hread ⊢
  obtain ⟨c, hc, rfl, rfl⟩ := hread
  have hlength : n ≤ input.length := by
    unfold Bytes.ofList? at hc
    split at hc
    · next hn =>
      rw [List.length_take] at hn
      omega
    · simp at hc
  exact ⟨c, by rwa [List.take_append_of_le_length hlength], rfl,
    List.drop_append_of_le_length hlength⟩

theorem steady_word : Steady readWord := (steady_bytes 8).bind fun _ => steady_pure _

theorem steady_many {α : Type} {item : Reader α} (h : Steady item) (count : Nat) :
    Steady (readMany item count) := by
  induction count with
  | zero => exact steady_pure []
  | succ count ih => exact h.bind fun _ => ih.bind fun _ => steady_pure _

theorem steady_list {α : Type} {item : Reader α} (h : Steady item) : Steady (readList item) :=
  steady_word.bind fun n => steady_many h n.toNat

theorem steady_pair {α β : Type} {first : Reader α} {second : Reader β} (hfirst : Steady first)
    (hsecond : Steady second) : Steady (readPair first second) :=
  hfirst.bind fun _ => hsecond.bind fun _ => steady_pure _

theorem steady_table {κ α : Type} [LT κ] [DecidableLT κ] [KeyOrder κ] {key : Reader κ}
    {value : Reader α} (hkey : Steady key) (hvalue : Steady value) :
    Steady (readTable key value) :=
  (steady_list (steady_pair hkey hvalue)).bind fun _ => steady_pure _

/-- Nothing is read from a record that ends early. -/
theorem read?_eq_none_of_prefix {α : Type} {read : Reader α} {write : α → List UInt8} {a : α}
    {cut : List UInt8} (hundoes : Undoes read write a) (hsteady : Steady read)
    (hcut : cut <+: write a) (hne : cut ≠ write a) : read? read cut = none := by
  obtain ⟨more, hmore⟩ := hcut
  cases hread : read cut with
  | none => rw [read?, StateT.run, hread, Option.map_none]
  | some out =>
    obtain ⟨b, rest⟩ := out
    have hwhole : read (write a) = some (b, rest ++ more) := by
      rw [← hmore]
      exact hsteady cut b rest more hread
    have hown : read (write a) = some (a, []) := by simpa using hundoes []
    -- the whole record leaves nothing over, so nothing was cut off
    have hnothing : rest ++ more = [] := (Prod.mk.inj (Option.some.inj (hwhole.symm.trans hown))).2
    rw [(List.append_eq_nil_iff.1 hnothing).2, List.append_nil] at hmore
    exact absurd hmore hne

end Binary

open Binary

namespace Snapshot

/-- The lists of the snapshot can be counted by words. -/
structure Storable (s : Snapshot) : Prop where
  rank : s.rank.length < Word.bound
  proportion : s.proportion.length < Word.bound
  members : s.members.size < Word.bound
  accountBinding : s.accountBinding.size < Word.bound
  boundAccounts : ∀ e ∈ s.accountBinding.entries, e.2.length < Word.bound

theorem undoes_member (m : Member) : Undoes readMember storedMember m := by
  intro rest
  simp only [storedMember, readMember, List.append_assoc]
  rw [bind_append (undoes_bytes _), bind_append (undoes_word _), bind_append (undoes_word _)]
  rfl

theorem undoes_stored {s : Snapshot} (h : s.Storable) : Undoes reader stored s := by
  intro rest
  have hrank := undoes_list h.rank fun a _ => undoes_bytes a
  have hproportion := undoes_list h.proportion fun n _ => undoes_word n
  have hmembers := undoes_table h.members fun e _ => ⟨undoes_bytes e.1, undoes_member e.2⟩
  have hbinding := undoes_table h.accountBinding fun e he =>
    ⟨undoes_bytes e.1, undoes_list (h.boundAccounts e he) fun a _ => undoes_bytes a⟩
  simp only [stored, reader, List.append_assoc]
  rw [bind_append (undoes_word _), bind_append (undoes_word _), bind_append (undoes_bytes _),
    bind_append hrank, bind_append hproportion, bind_append hmembers, bind_append hbinding,
    bind_append (undoes_word _), bind_append (undoes_word _)]
  rfl

/-- A stored snapshot is read back, whatever follows its record. -/
theorem ofStored_stored {s : Snapshot} (h : s.Storable) (key rest : List UInt8) :
    ofStored key (s.stored ++ rest) = .ok s := by
  rw [ofStored, read?, StateT.run, undoes_stored h rest]
  rfl

/-! ## Records that end early -/

theorem steady_member : Steady readMember :=
  (steady_bytes 20).bind fun _ => steady_word.bind fun _ => steady_word.bind fun _ => steady_pure _

theorem steady_reader : Steady reader :=
  steady_word.bind fun _ => steady_word.bind fun _ => (steady_bytes 32).bind fun _ =>
    (steady_list (steady_bytes 20)).bind fun _ => (steady_list steady_word).bind fun _ =>
      (steady_table (steady_bytes 20) steady_member).bind fun _ =>
        (steady_table (steady_bytes 20) (steady_list (steady_bytes 20))).bind fun _ =>
          steady_word.bind fun _ => steady_word.bind fun _ => steady_pure _

/-- A stored snapshot is read back, whatever follows its record; where the record ends early it is
    reported as corrupted, under its key. -/
theorem ofStored_framed {s : Snapshot} (h : s.Storable) (key : List UInt8) :
    (∀ rest, ofStored key (s.stored ++ rest) = .ok s)
      ∧ ∀ cut, cut <+: s.stored → cut ≠ s.stored →
        ofStored key cut = .error (.corrupted (hex key) "<bincode>") := by
  constructor
  · intro rest
    exact ofStored_stored h key rest
  · intro cut hcut hne
    rw [ofStored, read?_eq_none_of_prefix (undoes_stored h) steady_reader hcut hne]

/-- The snapshot of two members, one of which has accounts bound to it. -/
def duo : Snapshot where
  epoch := 2
  publishedAt := 99
  publishedBy := .ofNat 32 4
  rank := [.ofNat 20 4, .ofNat 20 1]
  proportion := [6000, 4000]
  members := .ofList [(.ofNat 20 4, ⟨.ofNat 20 4, 60, 7⟩), (.ofNat 20 1, ⟨.ofNat 20 1, 40, 0⟩)]
  accountBinding := .ofList [(.ofNat 20 1, [.ofNat 20 2, .ofNat 20 3])]
  epochLength := 100
  blockInterval := 5

theorem storable_duo : duo.Storable :=
  ⟨by decide, by decide, by decide, by decide, by decide⟩

/-- A byte may follow the record, but its last byte may not be missing. -/
theorem ofStored_framed_duo : duo.Storable
    ∧ ofStored (storeKey 2) (duo.stored ++ [0]) = .ok duo
    ∧ ofStored (storeKey 2) duo.stored.dropLast
      = .error (.corrupted (hex (storeKey 2)) "<bincode>") := by
  obtain ⟨hlonger, hshorter⟩ := ofStored_framed storable_duo (storeKey 2)
  have hcut : duo.stored.dropLast ≠ duo.stored := by
    intro h
    have hlength := congrArg List.length h
    simp only [List.length_dropLast] at hlength
    exact absurd hlength (by decide +kernel)
  exact ⟨storable_duo, hlonger [0], hshorter _ duo.stored.dropLast_prefix hcut⟩

end Snapshot

end CommitteeConsensus
