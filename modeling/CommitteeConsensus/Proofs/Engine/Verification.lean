import CommitteeConsensus.Engine.Verification
import CommitteeConsensus.Proofs.Chain.ExtraData
import CommitteeConsensus.Proofs.Chain.Index

/-! # When a header is accepted

    The conditions of verification, each as an equivalence: `checkHeader_eq_ok_iff` for all that
    a header must satisfy apart from its seal, `checkSeal_eq_ok_iff` for the seal. No statement
    about accepted headers opens the checks themselves.
-/

namespace CommitteeConsensus

variable {config : Config} {chain : Chain} {now : UInt64} {pending : List Header}
  {parent h : Header} {s : Snapshot}

/-! ## Header -/

theorem checkSyncCheckpoint_eq_ok_iff {number lastSync : UInt64} :
    checkSyncCheckpoint config number lastSync = .ok () ↔
      config.syncWindow = 0 ∨ Word.satSub number lastSync ≤ config.syncWindow + 1 := by
  simp [checkSyncCheckpoint]

theorem checkEpochCommittee_eq_ok_iff {number : UInt64} {r : CommitteeRecord} :
    checkEpochCommittee config number r = .ok ()
      ↔ r.publicationFlaw? config.committeeMaxSize = none := by
  unfold checkEpochCommittee
  cases r.publicationFlaw? config.committeeMaxSize <;> simp

/-- The header that a child may name as its parent: the last pending one, or one of the chain. -/
def parentCandidate? (chain : Chain) (pending : List Header) (h : Header) : Option Header :=
  match pending.getLast? with
  | some parent => some parent
  | none => chain.header? h.parentHash (h.number - 1)

theorem findParent_eq_ok_iff : findParent chain pending h = .ok parent ↔
    parentCandidate? chain pending h = some parent
      ∧ parent.number + 1 = h.number ∧ parent.hash = h.parentHash := by
  have hunfold : findParent chain pending h
      = match parentCandidate? chain pending h with
        | some parent => do
          ensure (parent.number + 1 = h.number && parent.hash = h.parentHash) .unknownAncestor
          return parent
        | none => .error .unknownAncestor := rfl
  rw [hunfold]
  cases parentCandidate? chain pending h with
  | none => simp
  | some g =>
    simp only [check_bind_eq_ok_iff, ensure_eq_ok_iff, Bool.and_eq_true, decide_eq_true_eq,
      pure_eq_ok, Except.ok.injEq, Option.some.injEq]
    constructor
    · rintro ⟨hlink, rfl⟩
      exact ⟨rfl, hlink⟩
    · rintro ⟨rfl, hlink⟩
      exact ⟨hlink, rfl⟩

theorem checkHeader_eq_ok_iff : checkHeader config chain now pending h = .ok parent ↔
    h.number ≠ 0 ∧ ∃ x, ExtraData.decode h.extra = .ok x
      ∧ (config.syncWindow = 0 ∨ Word.satSub h.number x.lastSyncNumber ≤ config.syncWindow + 1)
      ∧ h.time ≤ now
      ∧ (config.isEpochEnd h.number → x.committee.publicationFlaw? config.committeeMaxSize = none)
      ∧ h.uncleHash = emptyUncleHash
      ∧ findParent chain pending h = .ok parent
      ∧ parent.time ≤ h.time := by
  -- the committee is looked at in the last block of an epoch only
  have hcommittee : ∀ (x : ExtraData) (next : Unit → Except Error Header),
      (if config.isEpochEnd h.number then
        checkEpochCommittee config h.number x.committee >>= next
      else next ()) = .ok parent
        ↔ (config.isEpochEnd h.number →
            x.committee.publicationFlaw? config.committeeMaxSize = none) ∧ next () = .ok parent := by
    intro x next
    by_cases hend : config.isEpochEnd h.number
    · simp [hend, check_bind_eq_ok_iff, checkEpochCommittee_eq_ok_iff]
    · simp [hend]
  have hparent : (do
      let g ← findParent chain pending h
      ensure (g.time ≤ h.time) (.invalidBlockTime h.number h.time g.time)
      pure g) = .ok parent ↔ findParent chain pending h = .ok parent ∧ parent.time ≤ h.time := by
    rw [bind_eq_ok_iff]
    simp only [check_bind_eq_ok_iff, ensure_eq_ok_iff, decide_eq_true_eq, pure_eq_ok,
      Except.ok.injEq]
    constructor
    · rintro ⟨g, hfind, htime, rfl⟩
      exact ⟨hfind, htime⟩
    · rintro ⟨hfind, htime⟩
      exact ⟨parent, hfind, htime, rfl⟩
  unfold checkHeader
  rw [check_bind_eq_ok_iff, bind_eq_ok_iff]
  simp only [check_bind_eq_ok_iff, ensure_eq_ok_iff, decide_eq_true_eq,
    checkSyncCheckpoint_eq_ok_iff, hcommittee, hparent]

/-! ## Seal -/

/-- A seal is accepted when a member made it, with its difficulty and not before its time. -/
theorem checkSeal_eq_ok_iff : checkSeal config s parent h = .ok () ↔
    ∃ signer, h.author = .ok signer ∧ s.isMember signer = true
      ∧ h.difficulty = s.difficulty signer h.number
      ∧ earliestTime config parent s signer h.number ≤ h.time := by
  unfold checkSeal
  rw [bind_eq_ok_iff]
  simp only [check_bind_eq_ok_iff, ensure_eq_ok_iff, decide_eq_true_eq]

theorem checkSeal_of_not_isMember {signer : Address} (hauthor : h.author = .ok signer)
    (hmember : ¬ s.isMember signer = true) :
    checkSeal config s parent h = .error (.unauthorized signer) := by
  rw [checkSeal, hauthor, ok_bind, ensure, if_neg hmember, error_bind]

theorem Word.left_le_max (a b : UInt64) : a ≤ Max.max a b := by
  show a ≤ if a ≤ b then b else a
  by_cases h : a ≤ b
  · rwa [if_pos h]
  · rw [if_neg h]
    exact UInt64.le_refl a

/-- Nobody may seal a header before its parent. -/
theorem time_le_earliestTime (config : Config) (parent : Header) (s : Snapshot) (signer : Address)
    (number : UInt64) : parent.time ≤ earliestTime config parent s signer number := by
  have hmax := Word.toNat_le_max parent.time
  rw [UInt64.le_iff_toNat_le, earliestTime, Word.toNat_satAdd, Word.toNat_satAdd]
  omega

/-- The author of a header is whoever its signature of the seal hash recovers to. -/
theorem author_of_signature {x : ExtraData} {signature : Signature} {digest : Hash}
    (hx : ExtraData.decode h.extra = .ok x) (hsignature : x.signature = signature.toList)
    (hdigest : h.sealHash = .ok digest) : h.author = recoverAuthor digest signature := by
  have hempty : ¬ x.signature.isEmpty := by
    have hlength : x.signature.length = 65 := by
      rw [hsignature]
      exact signature.length_toList
    intro hnil
    rw [List.isEmpty_iff] at hnil
    simp [hnil] at hlength
  have hread : x.sealSignature = .ok signature := by
    rw [ExtraData.sealSignature, if_neg hempty, hsignature, Bytes.ofList?_toList]
  rw [Header.author, hx, ok_bind, hread, ok_bind, hdigest, ok_bind]

/-- A header has an author if it carries a signature that recovers to an account. -/
theorem exists_signature_of_author {a : Address} (hauthor : h.author = .ok a) :
    ∃ (x : ExtraData) (signature : Signature) (digest : Hash),
      ExtraData.decode h.extra = .ok x ∧ x.signature = signature.toList
        ∧ h.sealHash = .ok digest ∧ recoverAuthor digest signature = .ok a := by
  unfold Header.author at hauthor
  obtain ⟨x, hx, hauthor⟩ := bind_eq_ok_iff.1 hauthor
  obtain ⟨signature, hsignature, hauthor⟩ := bind_eq_ok_iff.1 hauthor
  obtain ⟨digest, hdigest, hrecover⟩ := bind_eq_ok_iff.1 hauthor
  refine ⟨x, signature, digest, hx, ?_, hdigest, hrecover⟩
  unfold ExtraData.sealSignature Bytes.ofList? at hsignature
  split at hsignature
  · simp at hsignature
  · split at hsignature
    · next hread =>
      split at hread
      · rw [← Except.ok.inj hsignature, ← Option.some.inj hread]
      · simp at hread
    · simp at hsignature

/-! ## Verification -/

/-- A header is accepted with its seal when it is in order and the snapshot that the lookup
    gives accepts the seal. -/
theorem verifyHeader_eq_ok_iff {cache : SnapshotCache} :
    (verifyHeader config chain now pending h true cache).1 = .ok ()
      ↔ ∃ parent s, checkHeader config chain now pending h = .ok parent
        ∧ (governingSnapshot config chain pending h.number cache).1 = .ok s
        ∧ checkSeal config s parent h = .ok () := by
  unfold verifyHeader verifySealWith
  cases hcheck : checkHeader config chain now pending h with
  | error e => simp
  | ok parent =>
    rcases hs : governingSnapshot config chain pending h.number cache with ⟨_ | s, cache'⟩
    · simp
    · simp

/-- An accepted header is in order, with or without its seal. -/
theorem checkHeader_of_verifyHeader {withSeal : Bool} {cache : SnapshotCache}
    (hok : (verifyHeader config chain now pending h withSeal cache).1 = .ok ()) :
    ∃ parent, checkHeader config chain now pending h = .ok parent := by
  unfold verifyHeader at hok
  cases hcheck : checkHeader config chain now pending h with
  | ok parent => exact ⟨parent, rfl⟩
  | error e => simp [hcheck] at hok

/-- The verdict on a header, given what the lookup of its snapshot answers. -/
def verdict (config : Config) (chain : Chain) (now : UInt64) (pending : List Header) (h : Header)
    (withSeal : Bool) (snapshot : Except Error Snapshot) : Except Error Unit :=
  match checkHeader config chain now pending h with
  | .error e => .error e
  | .ok parent =>
    if withSeal then snapshot >>= fun s => checkSeal config s parent h else .ok ()

theorem checkHeader_of_verdict {withSeal : Bool} {snapshot : Except Error Snapshot}
    (hok : verdict config chain now pending h withSeal snapshot = .ok ()) :
    ∃ parent, checkHeader config chain now pending h = .ok parent := by
  unfold verdict at hok
  cases hcheck : checkHeader config chain now pending h with
  | ok parent => exact ⟨parent, rfl⟩
  | error e => simp [hcheck] at hok

/-- Nothing is looked up for a header that is not in order or is verified without its seal. -/
theorem verifyHeader_of_not_sought {withSeal : Bool} {cache : SnapshotCache}
    (hsought : ¬ ∃ parent, checkHeader config chain now pending h = .ok parent ∧ withSeal = true)
    (snapshot : Except Error Snapshot) :
    verifyHeader config chain now pending h withSeal cache
      = (verdict config chain now pending h withSeal snapshot, cache) := by
  unfold verifyHeader verdict
  cases hcheck : checkHeader config chain now pending h with
  | error e => rfl
  | ok parent =>
    have hseal : ¬ withSeal = true := fun hseal => hsought ⟨parent, hcheck, hseal⟩
    simp [hseal]

/-- The verdict is reached with what the lookup answers, and leaves behind what the lookup does. -/
theorem verifyHeader_of_sought {cache cache' : SnapshotCache} {snapshot : Except Error Snapshot}
    (hcheck : checkHeader config chain now pending h = .ok parent)
    (hlookup : governingSnapshot config chain pending h.number cache = (snapshot, cache')) :
    verifyHeader config chain now pending h true cache
      = (verdict config chain now pending h true snapshot, cache') := by
  unfold verifyHeader verifySealWith verdict
  rw [hcheck]
  simp only [if_true, hlookup]
  cases snapshot <;> rfl

/-- A header that is in order is judged by its seal, under the snapshot that the lookup gives. -/
theorem verifyHeader_of_snapshot {cache cache' : SnapshotCache}
    (hcheck : checkHeader config chain now pending h = .ok parent)
    (hs : governingSnapshot config chain pending h.number cache = (.ok s, cache')) :
    verifyHeader config chain now pending h true cache = (checkSeal config s parent h, cache') := by
  rw [verifyHeader_of_sought hcheck hs, verdict, hcheck]
  rfl

end CommitteeConsensus
