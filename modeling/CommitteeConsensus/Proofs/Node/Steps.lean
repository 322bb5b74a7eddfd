import CommitteeConsensus.Node.Basic
import CommitteeConsensus.Proofs.Engine.Governance
import CommitteeConsensus.Proofs.Engine.Verification

/-! # Runs of a node's steps

    What the building and sealing steps do when they succeed: the header that `prepare` fills in,
    the stages of `finalize`, and the seal that `sealBlock` adds. Each is stated once here, so
    that a statement about a run is made of these and opens no step itself.

    `Lone` is the smallest network there is: a committee of one, and the chain of its genesis.
-/

namespace CommitteeConsensus

namespace Step

variable {α β : Type}

/-- Outcomes are pairs, though their type does not show it. -/
@[simp] theorem outcome_eq_iff {r r' : Except Failure α} {n n' : Node} :
    @Eq (Id (Except Failure α × Node)) (r, n) (r', n') ↔ r = r' ∧ n = n' :=
  ⟨fun h => Prod.mk.inj h, fun ⟨hr, hn⟩ => by rw [hr, hn]⟩

theorem bind_apply (x : Step α) (f : α → Step β) (n : Node) :
    (x >>= f) n = match x n with
      | (.ok a, n) => f a n
      | (.error e, n) => (.error e, n) := by
  show (x n >>= fun r => ExceptT.bindCont f r.1 r.2 : Id (Except Failure β × Node)) = _
  rcases x n with ⟨_ | _, _⟩ <;> rfl

@[simp] theorem pure_apply (a : α) (n : Node) : (pure a : Step α) n = (.ok a, n) := rfl

@[simp] theorem throw_apply (e : Failure) (n : Node) :
    (throw e : Step α) n = (.error e, n) := rfl

@[simp] theorem get_apply (n : Node) : (get : Step Node) n = (.ok n, n) := rfl

@[simp] theorem count_apply (change : Counters → Counters) (n : Node) :
    count change n = (.ok (), { n with counters := change n.counters }) := rfl

theorem ofLookup_apply (lookup : Node → SnapshotCache → Except Error α × SnapshotCache) (n : Node) :
    ofLookup lookup n = ((lookup n n.snapshots).1.mapError .error,
      { n with snapshots := (lookup n n.snapshots).2 }) := rfl

/-- A sequence of steps succeeds when both do, the second from where the first ends. -/
theorem bind_eq_ok_iff {x : Step α} {f : α → Step β} {n n' : Node} {b : β} :
    (x >>= f) n = (.ok b, n') ↔ ∃ a m, x n = (.ok a, m) ∧ f a m = (.ok b, n') := by
  rw [bind_apply]
  rcases x n with ⟨_ | _, _⟩ <;> simp [and_assoc]

/-- A step that succeeds with a value of some kind has an outcome with such a value. -/
theorem exists_outcome {x : Step α} {n : Node} {p : α → Bool}
    (h : (x n).1.toOption.any p = true) : ∃ a n', x n = (.ok a, n') ∧ p a = true := by
  obtain ⟨a, ha, hp⟩ := toOption_any_iff.1 h
  exact ⟨a, (x n).2, Prod.ext ha rfl, hp⟩

/-- A step that fails with an error, in such a way, has an outcome of that kind. -/
theorem exists_failure {x : Step α} {n : Node} {p : Error → Node → Bool}
    (h : (match x n with
      | (.error (.error e), n') => p e n'
      | _ => false) = true) : ∃ e n', x n = (.error (.error e), n') ∧ p e n' = true := by
  split at h
  · next e n' hx => exact ⟨e, n', hx, h⟩
  · simp at h

end Step

namespace Node

open Step

/-! ## Building -/

/-- The header that `prepare` fills in for a signer under a snapshot. -/
def prepared (n : Node) (parent : Header) (s : Snapshot) (signer : Address) (h : Header) : Header :=
  { h with
    coinbase := signer
    difficulty := s.difficulty signer h.number
    mixDigest := .zero 32
    time := max (earliestTime n.config parent s signer h.number) n.now }

/-- A header whose parent is on the chain is prepared as soon as its snapshot resolves. -/
theorem prepare_eq_ok {n : Node} {h parent : Header} {auth : Authorization} {s : Snapshot}
    {cache : SnapshotCache} (hnumber : h.number ≠ 0) (hauth : n.authorization = some auth)
    (hparent : n.chain.header? h.parentHash (h.number - 1) = some parent)
    (hs : governingSnapshot n.config n.chain [] h.number n.snapshots = (.ok s, cache)) :
    prepare h n
      = (.ok (n.prepared parent s auth.account h), { n with snapshots := cache }) := by
  unfold prepare
  rw [if_neg hnumber]
  simp only [bind_apply, get_apply, requireAuthorization, hauth, orError, hparent, snapshotAt,
    ofLookup, hs, pure_apply, mapError_ok]
  rfl

/-- No header is prepared without its snapshot. -/
theorem snapshotAt_of_prepare {n n' : Node} {h g : Header} (hprepared : prepare h n = (.ok g, n')) :
    ∃ s, (snapshotAt [] h.number n).1 = .ok s := by
  unfold prepare at hprepared
  by_cases hnumber : h.number = 0
  · simp [hnumber, bind_apply] at hprepared
  · rw [if_neg hnumber] at hprepared
    cases hauth : n.authorization with
    | none => simp [bind_apply, requireAuthorization, hauth, orError] at hprepared
    | some auth =>
      cases hparent : n.chain.header? h.parentHash (h.number - 1) with
      | none =>
        simp [bind_apply, requireAuthorization, hauth, orError, hparent] at hprepared
      | some parent =>
        -- signer and parent are there, so the outcome is that of the lookup
        simp only [bind_apply, get_apply, requireAuthorization, hauth, orError, pure_apply,
          hparent] at hprepared
        rcases hs : snapshotAt [] h.number n with ⟨_ | s, m⟩
        · simp [hs] at hprepared
        · exact ⟨s, rfl⟩

theorem uncles_of_finalize {n n' : Node} {h : Header} {transactions : List Transaction}
    {uncles : List Header} {receipts : List Receipt} {b : Block}
    (hfinal : finalize h transactions uncles receipts n = (.ok b, n')) : uncles = [] := by
  cases uncles with
  | nil => rfl
  | cons u uncles =>
    unfold finalize CommitteeConsensus.finalize at hfinal
    simp at hfinal

/-- The stages of a block that was finalized. -/
theorem finalize_eq_ok_iff {n n' : Node} {h : Header} {transactions : List Transaction}
    {receipts : List Receipt} {b : Block} :
    finalize h transactions [] receipts n = (.ok b, n')
      ↔ h.number ≠ 0 ∧ ∃ x s cache h' state, ExtraData.decodeOrDefault h.extra = .ok x
        ∧ governingSnapshot n.config n.chain [] h.number n.snapshots = (.ok s, cache)
        ∧ settle n.config s h x transactions receipts n.state = (.ok h', state)
        ∧ b = ⟨h', transactions, []⟩ ∧ n' = { n with state, snapshots := cache } := by
  unfold finalize CommitteeConsensus.finalize
  by_cases hnumber : h.number = 0
  · simp [hnumber]
  · cases hx : ExtraData.decodeOrDefault h.extra with
    | error e => simp [hnumber]
    | ok x =>
      rcases hs : governingSnapshot n.config n.chain [] h.number n.snapshots with ⟨_ | s, cache⟩
      · simp [hnumber]
      · rcases hsettle : settle n.config s h x transactions receipts n.state with ⟨_ | h', state⟩
        · simp [hnumber, hsettle]
        · simp [hnumber, hsettle, and_assoc, eq_comm (b := b), eq_comm (b := n')]

/-! ## Verification -/

@[simp] theorem record_config (n : Node) (r : Except Error Unit) :
    (n.record r).config = n.config := by
  cases r <;> rfl

@[simp] theorem record_chain (n : Node) (r : Except Error Unit) :
    (n.record r).chain = n.chain := by
  cases r <;> rfl

@[simp] theorem record_now (n : Node) (r : Except Error Unit) : (n.record r).now = n.now := by
  cases r <;> rfl

@[simp] theorem record_snapshots (n : Node) (r : Except Error Unit) :
    (n.record r).snapshots = n.snapshots := by
  cases r <;> rfl

/-- A node answers a verification as its engine does, from its own cache. -/
theorem verifyHeader_fst (n : Node) (h : Header) (withSeal : Bool) :
    (verifyHeader h withSeal n).1 = (CommitteeConsensus.verifyHeader n.config n.chain n.now [] h
      withSeal n.snapshots).1.mapError .error := rfl

/-! ## Sealing -/

end Node

/-- The header with a seal signature written into its extra-data. -/
def Header.withSignature (h : Header) (signature : Signature) : Except Error Header := do
  let x ← ExtraData.decodeOrDefault h.extra
  h.withExtra { x with signature := signature.toList }

theorem Header.withSignature_eq_ok_iff {h h' : Header} {signature : Signature} :
    h.withSignature signature = .ok h' ↔ ∃ x, ExtraData.decodeOrDefault h.extra = .ok x
      ∧ h.withExtra { x with signature := signature.toList } = .ok h' := by
  rw [withSignature, CommitteeConsensus.bind_eq_ok_iff]

namespace Node

open Step

/-- An account seals a header by writing its signature of the seal hash into it. -/
theorem sealHeader_eq_ok {auth : Authorization} {h h' : Header}
    (hseal : sealHeader auth h = .ok h') :
    ∃ digest signature, h'.sealHash = .ok digest
      ∧ auth.signer.signFor auth.account digest = .ok signature
      ∧ h.withSignature signature = .ok h' := by
  unfold sealHeader at hseal
  simp only [CommitteeConsensus.bind_eq_ok_iff] at hseal
  obtain ⟨x, hx, g, hg, digest, hdigest, signature, hsign, hwrite⟩ := hseal
  rw [Header.withExtra_withExtra hg] at hwrite
  -- the signature is no part of what is signed, so the seal hash is that of the sealed header
  have hsigned : h'.sealHash = .ok digest := by
    rw [Header.sealHash_withExtra hg] at hdigest
    rw [Header.sealHash_withExtra hwrite]
    exact hdigest
  have hsignature := mapError_eq_ok_iff.1 hsign
  exact ⟨digest, signature, hsigned, hsignature, Header.withSignature_eq_ok_iff.2 ⟨x, hx, hwrite⟩⟩

/-- A signer signs for its own account what it would sign at all. -/
theorem sign_of_signFor {signer : Signer} {digest : Hash} {signature : Signature}
    (h : signer.signFor signer.address digest = .ok signature) :
    signer.sign digest = .ok signature := by
  rw [Signer.signFor, if_pos rfl] at h
  exact mapError_eq_ok_iff.1 h

/-- The assumption on the signature scheme, for the one digest that a sealed header needs it for:
    what the signer signs is recovered to its account. -/
def RecoversSeal (signer : Signer) (h : Header) : Prop :=
  ∀ digest signature, h.sealHash = .ok digest → signer.sign digest = .ok signature →
    recoverAuthor digest signature = .ok signer.address

/-- The author of the header is whoever the signer's signature of its seal hash recovers to. -/
def SignedBy (signer : Signer) (h : Header) : Prop :=
  ∃ digest signature, h.sealHash = .ok digest ∧ signer.sign digest = .ok signature
    ∧ h.author = recoverAuthor digest signature

theorem SignedBy.author_eq_ok {signer : Signer} {h : Header} (hsigned : SignedBy signer h)
    (hrecover : RecoversSeal signer h) : h.author = .ok signer.address := by
  obtain ⟨digest, signature, hdigest, hsign, hauthor⟩ := hsigned
  rw [hauthor]
  exact hrecover digest signature hdigest hsign

/-- The signer's name on what it signed is evidence for the assumption. -/
theorem SignedBy.recoversSeal {signer : Signer} {h : Header} (hsigned : SignedBy signer h)
    (hauthor : h.author = .ok signer.address) : RecoversSeal signer h := by
  intro digest signature hdigest hsign
  obtain ⟨digest', signature', hdigest', hsign', hrecover⟩ := hsigned
  have hsame : digest' = digest := Except.ok.inj (hdigest'.symm.trans hdigest)
  subst hsame
  have hsame : signature' = signature := Except.ok.inj (hsign'.symm.trans hsign)
  subst hsame
  exact hrecover.symm.trans hauthor

/-- A seal adds its signature to the extra-data and is the signer's own. -/
theorem signedBy_of_sealHeader {signer : Signer} {h h' : Header} {x : ExtraData}
    (hx : ExtraData.decode h.extra = .ok x)
    (hseal : sealHeader ⟨signer.address, signer⟩ h = .ok h') :
    SignedBy signer h' ∧ ∃ signature : Signature,
      h.withExtra { x with signature := signature.toList } = .ok h' := by
  obtain ⟨digest, signature, hdigest, hsign, hwritten⟩ := sealHeader_eq_ok hseal
  obtain ⟨y, hy, hextra⟩ := Header.withSignature_eq_ok_iff.1 hwritten
  have hread : y = x := Except.ok.inj (hy.symm.trans (ExtraData.decodeOrDefault_of_decode hx))
  subst hread
  have hauthor := author_of_signature (Header.decode_withExtra hextra) rfl hdigest
  exact ⟨⟨digest, signature, hdigest, sign_of_signFor hsign, hauthor⟩, signature, hextra⟩

/-- A block that comes out of the wait is sealed by the account that the node has authorized. -/
theorem sealBlock_eq_ok {n n' : Node} {b b' : Block} {abort : Abort} {waited : UInt64}
    (hseal : sealBlock b abort n = (.ok (some b', waited), n')) :
    ∃ auth h, n.authorization = some auth ∧ sealHeader auth b.header = .ok h
      ∧ b' = { b with header := h } := by
  unfold sealBlock at hseal
  by_cases hnumber : b.number = 0
  · simp [hnumber, bind_apply] at hseal
  · rw [if_neg hnumber] at hseal
    cases hauth : n.authorization with
    | none => simp [bind_apply, requireAuthorization, hauth, orError] at hseal
    | some auth =>
      simp only [bind_apply, get_apply, requireAuthorization, hauth, orError, pure_apply] at hseal
      split at hseal
      · simp [bind_apply] at hseal
      · cases hh : sealHeader auth b.header with
        | error e => simp [bind_apply, Step.ofExcept, hh] at hseal
        | ok h =>
          simp only [bind_apply, Step.ofExcept, hh, mapError_ok, count_apply, pure_apply,
            outcome_eq_iff, Except.ok.injEq, Prod.mk.injEq, Option.some.injEq] at hseal
          exact ⟨auth, h, rfl, hh, hseal.1.1.symm⟩

end Node

/-! ## A smallest network -/

namespace Lone

/-- Epochs of two blocks, so that block one closes an epoch already. -/
def config : Config := { epoch := 2 }

/-- What a header says that puts one member into office. -/
def office (member : Address) : ExtraData :=
  { committee := { rank := [member], proportion := [10000] } }

/-- A genesis header that puts one member into office. -/
def genesis (member : Address) : Header :=
  { extra := ExtraData.frame (office member).payload }

/-- A node that has nothing but the genesis header. -/
def node (member : Address) : Node :=
  { config, chain := .ofGenesis (genesis member), snapshots := .ofStore 128 {}, state := {} }

/-- The header that extends the genesis header. -/
def next (member : Address) : Header := ({} : Header).childOf (genesis member)

/-- A child that is in order, a second after its parent. -/
def child (parent : Header) (x : ExtraData) : Header :=
  { ({ difficulty := 1, time := parent.time + 1 } : Header).childOf parent with
    uncleHash := emptyUncleHash
    extra := ExtraData.frame x.payload }

/-- The signer whose secret is one. -/
def signer : Signer where
  secret := 1
  address := ⟨[0x7e, 0x5f, 0x45, 0x52, 0x09, 0x1a, 0x69, 0x12, 0x5d, 0x5d,
    0xfc, 0xb7, 0xb8, 0xc2, 0x65, 0x90, 0x29, 0x39, 0x5b, 0xdf], rfl⟩

/-- A node that seals for the only member, a second after the genesis header. -/
def producer : Node :=
  { node signer.address with authorization := some ⟨signer.address, signer⟩, clock := 1 }

/-! ## What is known of it -/

theorem checkHeader_child {config : Config} {chain : Chain} {now : UInt64} {pending : List Header}
    {parent : Header} {x : ExtraData} (hlength : x.payload.length < 0x100000000)
    (hnumber : parent.number + 1 ≠ 0) (hsync : config.syncWindow = 0)
    (hnow : parent.time + 1 ≤ now) (htime : parent.time ≤ parent.time + 1)
    (hcommittee : config.isEpochEnd (parent.number + 1) →
      x.committee.publicationFlaw? config.committeeMaxSize = none)
    (hparent : parentCandidate? chain pending (child parent x) = some parent) :
    checkHeader config chain now pending (child parent x) = .ok parent := by
  have hread : ExtraData.decode (child parent x).extra = .ok x :=
    ExtraData.decode_frame hlength x.parse?_payload
  have hfind : findParent chain pending (child parent x) = .ok parent :=
    findParent_eq_ok_iff.2 ⟨hparent, rfl, rfl⟩
  exact checkHeader_eq_ok_iff.2
    ⟨hnumber, x, hread, .inl hsync, hnow, hcommittee, rfl, hfind, htime⟩

/-- The snapshot of a committee of one. -/
def term (config : Config) (h : Header) (turn : UInt64) (member : Address) : Snapshot where
  epoch := turn
  publishedAt := h.number
  publishedBy := h.hash
  rank := [member]
  proportion := [10000]
  members := .ofList [(member, ⟨member, 0, 0⟩)]
  accountBinding := .empty
  epochLength := config.epoch
  blockInterval := config.blockInterval

theorem publishedSnapshot_office {config : Config} {h : Header} {turn : UInt64} {member : Address}
    (hextra : h.extra = ExtraData.frame (office member).payload)
    (hlength : (office member).payload.length < 0x100000000)
    (hflaw : (office member).committee.snapshotFlaw? config.committeeMaxSize = none) :
    publishedSnapshot config h turn = .ok (term config h turn member) := by
  have hread : ExtraData.decode h.extra = .ok (office member) := by
    rw [hextra]
    exact ExtraData.decode_frame hlength (office member).parse?_payload
  exact publishedSnapshot_eq_ok_iff.2
    ⟨office member, hread, Snapshot.ofRecord_eq_ok_iff.2 ⟨hflaw, rfl⟩⟩

/-- The first turns have the committee of the genesis header. -/
theorem canonicalSnapshot_ofGenesis {config : Config} {turn : UInt64} {member : Address}
    (hturn : config.usesGenesisCommittee turn)
    (hlength : (office member).payload.length < 0x100000000)
    (hflaw : (office member).committee.snapshotFlaw? config.committeeMaxSize = none) :
    canonicalSnapshot config (.ofGenesis (genesis member)) turn
      = .ok (term config (genesis member) turn member) := by
  have hgenesis : (Chain.ofGenesis (genesis member)).genesis? = some (genesis member) :=
    Chain.headerAt?_insert_self {} (genesis member)
  have hpublisher : publisher config (.ofGenesis (genesis member)) [] turn
      = .ok (genesis member, true) := by
    rw [publisher, if_pos hturn, hgenesis]
  rw [canonicalSnapshot, freshSnapshot, hpublisher, ok_bind]
  exact publishedSnapshot_office rfl hlength hflaw

/-- A node with an empty cache finds it there. -/
theorem governingSnapshot_ofGenesis {config : Config} {number : UInt64} {member : Address}
    (hturn : config.usesGenesisCommittee (config.turnOf number))
    (hlength : (office member).payload.length < 0x100000000)
    (hflaw : (office member).committee.snapshotFlaw? config.committeeMaxSize = none) :
    (governingSnapshot config (.ofGenesis (genesis member)) [] number (.ofStore 128 {})).1
      = .ok (term config (genesis member) (config.turnOf number) member) := by
  obtain ⟨cache, hlookup, -⟩ :=
    governingSnapshot_nil (SnapshotCache.holds_ofStore_empty 128) rfl number
  rw [hlookup]
  exact canonicalSnapshot_ofGenesis hturn hlength hflaw

theorem canonicalSnapshot_genesis {member : Address}
    (hlength : (office member).payload.length < 0x100000000) :
    canonicalSnapshot config (.ofGenesis (genesis member)) 0
      = .ok (term config (genesis member) 0 member) :=
  canonicalSnapshot_ofGenesis rfl hlength rfl

end Lone

end CommitteeConsensus
