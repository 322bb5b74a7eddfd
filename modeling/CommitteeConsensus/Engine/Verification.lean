import CommitteeConsensus.Committee.Rotation
import CommitteeConsensus.Engine.Governance

/-! # Header verification

    A header is accepted when its extra-data can be read and its checkpoint is recent enough,
    when it is not from the future, publishes a committee at the end of an epoch, has no uncles
    and follows its parent, and when its seal is by a member of the governing committee with the
    difficulty and at a time that the member's turn allows.

    `checkHeader` and `checkSeal` are the conditions; `verifyHeader` looks up the snapshot between
    them and returns the cache it leaves behind. Pending headers are the ancestors in the same
    batch, the parent last.
-/

namespace CommitteeConsensus

/-- Refuses with the error unless the condition holds. -/
def ensure (holds : Bool) (e : Error) : Except Error Unit := if holds then .ok () else .error e

@[simp] theorem ensure_eq_ok_iff {holds : Bool} {e : Error} :
    ensure holds e = .ok () ↔ holds = true := by
  cases holds <;> simp [ensure]

/-! ## Conditions -/

def checkSyncCheckpoint (config : Config) (number lastSync : UInt64) : Except Error Unit :=
  ensure (config.syncWindow = 0 || Word.satSub number lastSync ≤ config.syncWindow + 1)
    (.staleSyncCheckpoint number lastSync config.syncWindow)

def checkEpochCommittee (config : Config) (number : UInt64) (r : CommitteeRecord) :
    Except Error Unit :=
  match r.publicationFlaw? config.committeeMaxSize with
  | some flaw => .error (flaw.error number)
  | none => .ok ()

/-- The parent of a header, among pending headers or on the chain. -/
def findParent (chain : Chain) (pending : List Header) (h : Header) : Except Error Header := do
  let candidate := match pending.getLast? with
    | some parent => some parent
    | none => chain.header? h.parentHash (h.number - 1)
  match candidate with
  | some parent =>
    ensure (parent.number + 1 = h.number && parent.hash = h.parentHash) .unknownAncestor
    return parent
  | none => .error .unknownAncestor

/-- Everything but the seal. Returns the parent. -/
def checkHeader (config : Config) (chain : Chain) (now : UInt64) (pending : List Header)
    (h : Header) : Except Error Header := do
  ensure (h.number ≠ 0) .unknownBlock
  let x ← ExtraData.decode h.extra
  checkSyncCheckpoint config h.number x.lastSyncNumber
  ensure (h.time ≤ now) (.futureBlock h.time now)
  if config.isEpochEnd h.number then checkEpochCommittee config h.number x.committee
  ensure (h.uncleHash = emptyUncleHash) .unclesNotAllowed
  let parent ← findParent chain pending h
  ensure (parent.time ≤ h.time) (.invalidBlockTime h.number h.time parent.time)
  return parent

/-- Earliest time at which an account may seal a child of `parent`. -/
def earliestTime (config : Config) (parent : Header) (s : Snapshot) (signer : Address)
    (number : UInt64) : UInt64 :=
  Word.satAdd (Word.satAdd parent.time config.period)
    (s.sealDelay config.period signer number)

/-- The seal is by a member, with its difficulty and not before its time. -/
def checkSeal (config : Config) (s : Snapshot) (parent h : Header) : Except Error Unit := do
  let signer ← h.author
  ensure (s.isMember signer) (.unauthorized signer)
  let expected := s.difficulty signer h.number
  ensure (h.difficulty = expected) (.invalidDifficulty expected h.difficulty)
  let earliest := earliestTime config parent s signer h.number
  ensure (earliest ≤ h.time) (.invalidBlockTime h.number h.time earliest)

/-! ## Verification -/

def verifySealWith (config : Config) (chain : Chain) (pending : List Header) (parent h : Header)
    (cache : SnapshotCache) : Except Error Unit × SnapshotCache :=
  match governingSnapshot config chain pending h.number cache with
  | (.error e, cache) => (.error e, cache)
  | (.ok s, cache) => (checkSeal config s parent h, cache)

/-- Verifies the seal alone, of a header whose parent is on the chain. -/
def verifySeal (config : Config) (chain : Chain) (h : Header) (cache : SnapshotCache) :
    Except Error Unit × SnapshotCache :=
  if h.number = 0 then (.error .unknownBlock, cache)
  else
    match chain.header? h.parentHash (h.number - 1) with
    | none => (.error .unknownAncestor, cache)
    | some parent => verifySealWith config chain [] parent h cache

def verifyHeader (config : Config) (chain : Chain) (now : UInt64) (pending : List Header)
    (h : Header) (withSeal : Bool) (cache : SnapshotCache) : Except Error Unit × SnapshotCache :=
  match checkHeader config chain now pending h with
  | .error e => (.error e, cache)
  | .ok parent =>
    if withSeal then verifySealWith config chain pending parent h cache else (.ok (), cache)

def verifyUncles (uncles : List Header) : Except Error Unit :=
  ensure uncles.isEmpty .unclesNotAllowed

end CommitteeConsensus
