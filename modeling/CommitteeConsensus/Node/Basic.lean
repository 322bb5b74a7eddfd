import CommitteeConsensus.Engine.Settlement
import CommitteeConsensus.Engine.Verification

/-! # Nodes

    A node runs the engine over its own chain, snapshots and state, with a clock and at most one
    authorized signer. Every operation is a step of the node: an answer or a failure, and the
    node afterwards, which keeps what the operation did before it failed.
-/

namespace CommitteeConsensus

/-- The account that a node seals for, and the signer that it asks. -/
structure Authorization where
  account : Address
  signer : Signer

/-- What a node has verified, refused, sealed and given up so far. -/
structure Counters where
  verified : Nat := 0
  sealed : Nat := 0
  aborted : Nat := 0
  /-- Labels of the refused headers, the latest first. -/
  rejected : List String := []

structure Node where
  config : Config
  chain : Chain
  snapshots : SnapshotCache
  state : State
  authorization : Option Authorization := none
  /-- The node's own clock. -/
  clock : UInt64 := 0
  /-- The time that the engine reads in place of the clock. -/
  systemTime : Option UInt64 := none
  counters : Counters := {}

/-- A step of a node. -/
abbrev Step (α : Type) := ExceptT Failure (StateM Node) α

namespace Node

/-! ## Starting -/

/-- A node that starts with a valid configuration. -/
def start (config : Config) (chain : Chain) (state : State) (clock : UInt64) :
    Except Error Node := do
  config.validate
  return { config, chain, state, clock, snapshots := .ofStore config.snapshotCacheSize.toNat {} }

/-- Starts the engine anew over the same chain, store, state and clock. -/
def restart (n : Node) (config : Config) (systemTime : Option UInt64) : Except Error Node := do
  config.validate
  return { n with
    config, systemTime
    snapshots := n.snapshots.reopen config.snapshotCacheSize.toNat
    authorization := none }

/-- The time that the engine reads. -/
def now (n : Node) : UInt64 := n.systemTime.getD n.clock

def account? (n : Node) : Option Address := n.authorization.map Authorization.account

end Node

namespace Step

/-- An operation on the snapshots alone. -/
def ofLookup {α : Type} (lookup : Node → SnapshotCache → Except Error α × SnapshotCache) :
    Step α := fun n =>
  let (result, snapshots) := lookup n n.snapshots
  (result.mapError .error, { n with snapshots })

def ofExcept {α : Type} (result : Except Error α) : Step α := fun n =>
  (result.mapError .error, n)

def orError {α : Type} (e : Error) (value : Option α) : Step α :=
  match value with
  | some a => pure a
  | none => throw (.error e)

def count (change : Counters → Counters) : Step Unit :=
  modify fun n => { n with counters := change n.counters }

end Step

namespace Node

open Step

/-! ## Snapshots -/

def snapshotForTurn (pending : List Header) (turn : UInt64) : Step Snapshot :=
  ofLookup fun n => CommitteeConsensus.snapshotForTurn n.config n.chain pending turn

def snapshotAt (pending : List Header) (number : UInt64) : Step Snapshot :=
  ofLookup fun n => governingSnapshot n.config n.chain pending number

/-- The committee that governs a block, in rank order. -/
def committeeRankAt (number : UInt64) : Step (List Address) :=
  return (← snapshotAt [] number).rank

/-- The committee that governs the head. -/
def committee : Step (List Address) := do
  let head ← orError .unknownBlock (← get).chain.head?
  committeeRankAt head.number

/-! ## Verification -/

/-- Counts an outcome of verification. -/
def record (n : Node) : Except Error Unit → Node
  | .ok () => { n with counters.verified := n.counters.verified + 1 }
  | .error e => { n with counters.rejected := e.label :: n.counters.rejected }

/-- Verifies a header and counts the outcome. -/
def verify (n : Node) (pending : List Header) (h : Header) (withSeal : Bool) :
    Except Error Unit × Node :=
  let (result, snapshots) :=
    CommitteeConsensus.verifyHeader n.config n.chain n.now pending h withSeal n.snapshots
  (result, { n with snapshots }.record result)

def verifyHeader (h : Header) (withSeal : Bool) : Step Unit := fun n =>
  let (result, n) := n.verify [] h withSeal
  (result.mapError .error, n)

def verifySeal (h : Header) : Step Unit :=
  ofLookup fun n => CommitteeConsensus.verifySeal n.config n.chain h

/-! ## Building -/

def authorize (account : Address) (signer : Signer) : Step Unit :=
  modify fun n => { n with authorization := some ⟨account, signer⟩ }

def requireAuthorization : Step Authorization := do
  orError .noSigner (← get).authorization

/-- Fills in the fields of a header that follow from the signer and its turn. -/
def prepare (h : Header) : Step Header := do
  if h.number = 0 then throw (.error .unknownBlock)
  let signer := (← requireAuthorization).account
  let parent ← orError .unknownAncestor ((← get).chain.header? h.parentHash (h.number - 1))
  let s ← snapshotAt [] h.number
  let n ← get
  return { h with
    coinbase := signer
    difficulty := s.difficulty signer h.number
    mixDigest := .zero 32
    time := max (earliestTime n.config parent s signer h.number) n.now }

/-- The difficulty with which the signer would seal a child of `parent`. -/
def calcDifficulty (parent : Header) : Step UInt64 := do
  let signer := (← requireAuthorization).account
  let number := parent.number + 1
  return (← snapshotAt [] number).difficulty signer number

def finalize (h : Header) (transactions : List Transaction) (uncles : List Header)
    (receipts : List Receipt) : Step Block := fun n =>
  let (result, state, snapshots) := CommitteeConsensus.finalize n.config n.chain h transactions
    uncles receipts n.state n.snapshots
  (result, { n with state, snapshots })

/-! ## Sealing -/

/-- When a wait is given up. -/
inductive Abort
  | never
  | before
  | after (seconds : UInt64)
deriving DecidableEq

/-- The most seconds that a single wait takes: thirty years of 365 days. -/
def longestWait : UInt64 := 30 * 365 * 24 * 60 * 60

/-- How long a wait lasts, and whether it is given up. One that should take more than `longestWait`
    is over by then, and a signal at the very second at which a wait is over comes too late. -/
def wait (delay : UInt64) : Abort → UInt64 × Bool
  | .never => (min delay longestWait, false)
  | .before => (0, true)
  | .after seconds =>
    if seconds < min delay longestWait then (seconds, true) else (min delay longestWait, false)

/-- The header with the seal of an account. -/
def sealHeader (auth : Authorization) (h : Header) : Except Error Header := do
  let x ← ExtraData.decodeOrDefault h.extra
  let h ← h.withExtra x.unsigned
  let digest ← h.sealHash
  let signature ← (auth.signer.signFor auth.account digest).mapError .signFailed
  h.withExtra { x with signature := signature.toList }

/-- Waits for the header's time, then seals the block. Returns the sealed block, if the wait was
    not given up, and the seconds waited. -/
def sealBlock (b : Block) (abort : Abort) : Step (Option Block × UInt64) := do
  if b.number = 0 then throw (.error .unknownBlock)
  let auth ← requireAuthorization
  -- nothing of the block is looked at before its time
  let (waited, aborted) := wait (Word.satSub b.header.time (← get).now) abort
  if aborted then
    count fun c => { c with aborted := c.aborted + 1 }
    return (none, waited)
  let h ← ofExcept (sealHeader auth b.header)
  count fun c => { c with sealed := c.sealed + 1 }
  return (some { b with header := h }, waited)

end Node

end CommitteeConsensus
