import CommitteeConsensus.Node.Basic

/-! # Producing and importing blocks

    A producer extends its chain by blocks of the members whose turn it is; a follower verifies
    such blocks, settles them on its own state and compares the outcome. Both move their clock on
    to the time of the block.
-/

namespace CommitteeConsensus

/-- Why no block is produced. -/
inductive Halt
  | failure (f : Failure)
  | noHeader
  | noSlot
  | noKey (account : Address)
deriving DecidableEq

/-- A block with what the producer's state then holds. -/
structure BlockReport where
  header : Header
  totalBalance : Amount
  ledger : RewardLedger

/-- How a follower's outcome compares with the block. -/
structure ImportReport where
  number : UInt64
  sameStateRoot : Bool
  sameCommittee : Bool

namespace Node

/-- The header that extends a head. -/
def nextHeader (head : Header) : Header :=
  ({ gasLimit := head.gasLimit } : Header).childOf head

def advanceClock (time : UInt64) : Step Unit :=
  modify fun n => { n with clock := max n.clock time }

def insertHeader (h : Header) : Step Unit :=
  modify fun n => { n with chain := n.chain.insert h }

/-! ## Producing -/

/-- Builds and seals a block on `head`, without inserting it. -/
def buildOn (head : Header) (signer : Signer) : Step Block := do
  authorize signer.address signer
  let h ← prepare (nextHeader head)
  -- the producer waits for the time it has chosen
  advanceClock h.time
  let b ← finalize h [] [] []
  match ← sealBlock b .never with
  | (some b, _) => return b
  | (none, _) => return b

def report (b : Block) : Step BlockReport := do
  let n ← get
  return ⟨b.header, n.state.totalBalance, n.state.ledger⟩

/-- A step that may halt for reasons of its own. -/
abbrev Production (α : Type) := ExceptT Halt (StateM Node) α

def Production.ofStep {α : Type} (step : Step α) : Production α := fun n =>
  let (result, n) := step.run n
  (result.mapError .failure, n)

/-- Builds a block on the head of the chain. -/
def build (signer : Signer) : Production Block := do
  match (← get).chain.head? with
  | none => throw .noHeader
  | some head => .ofStep (buildOn head signer)

/-- Builds a block and reports on it. -/
def buildReport (signer : Signer) : Production BlockReport := do
  .ofStep (report (← build signer))

/-- Builds the next block with the signer whose turn it is and inserts it. -/
def produceOne (signers : List Signer) : Production BlockReport := do
  let number := ((← get).chain.height?.getD 0) + 1
  let s ← .ofStep (snapshotAt [] number)
  match (s.activeSlot? number).bind (s.rank[·]?) with
  | none => throw .noSlot
  | some account =>
    match signers.find? (·.address = account) with
    | none => throw (.noKey account)
    | some signer =>
      let r ← buildReport signer
      .ofStep (insertHeader r.header)
      return r

/-- Produces blocks up to a number of them or the first failure, which ends the list. -/
def produce (signers : List Signer) : Nat → Node → List (Except Halt BlockReport) × Node
  | 0, n => ([], n)
  | count + 1, n =>
    match (produceOne signers).run n with
    | (.error e, n) => ([.error e], n)
    | (.ok r, n) =>
      let (rest, n) := produce signers count n
      (.ok r :: rest, n)

/-! ## Importing -/

/-- The committee that a header's extra-data carries. -/
def publishedCommittee? (h : Header) : Option CommitteeRecord :=
  (ExtraData.decodeOrDefault h.extra).toOption.map ExtraData.committee

/-- Verifies a block without transactions, settles it and inserts it as it came. -/
def importOne (h : Header) : Step ImportReport := do
  advanceClock h.time
  verifyHeader h true
  .ofExcept (verifyUncles [])
  let b ← finalize h [] [] []
  -- the block goes onto the chain as it came, not as it was settled here
  insertHeader h
  return ⟨h.number, b.header.stateRoot = h.stateRoot,
    publishedCommittee? b.header = publishedCommittee? h⟩

/-- Imports blocks up to the first failure, which ends the list. -/
def importAll : List Header → Node → List (Except Failure ImportReport) × Node
  | [], n => ([], n)
  | h :: rest, n =>
    match (importOne h).run n with
    | (.error e, n) => ([.error e], n)
    | (.ok r, n) =>
      let (reports, n) := importAll rest n
      (.ok r :: reports, n)

end Node

end CommitteeConsensus
