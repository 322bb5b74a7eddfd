import CommitteeConsensus.Config.Basic

/-! # The calendar of epochs

    Block numbers are divided into epochs (turns). The committee of a turn is elected `validPeriod`
    turns ahead, on material from `electionPeriod` turns before that, and published in the last
    block of the turn in which it is elected. Subtractions stop at zero, so the first turns
    need no case of their own; they are governed by the committee of the genesis header.

    `Question` lists what can be asked about a number; `ask` refuses the questions that divide by
    an epoch of length zero. A valid configuration has none.
-/

namespace CommitteeConsensus.Config

open Word

/-- The turn of a block. -/
def turnOf (c : Config) (block : UInt64) : UInt64 := block / c.epoch

/-- The turn on whose material the committee of a turn is elected. -/
def dependTurn (c : Config) (turn : UInt64) : UInt64 :=
  satSub (satSub turn c.electionPeriod) c.validPeriod

/-- The block whose header publishes the committee of a turn. -/
def publishingBlock (c : Config) (turn : UInt64) : UInt64 :=
  satSub (satMul (satSub (turn + 1) c.validPeriod) c.epoch) 1

/-- First block of the contribution window of an epoch. -/
def firstBlockOfEpoch (c : Config) (epoch : UInt64) : UInt64 :=
  satMul c.epoch (satSub epoch 1) + 1

/-- Last block of the contribution window of an epoch. -/
def lastBlockOfEpoch (c : Config) (epoch : UInt64) : UInt64 :=
  satSub (satMul c.epoch (epoch + 1)) 1

/-- First and last block of the window that the election at a block looks at. -/
def electionWindow (c : Config) (n : UInt64) : UInt64 × UInt64 :=
  (c.firstBlockOfEpoch (c.dependTurn (c.turnOf n + c.validPeriod)),
    c.lastBlockOfEpoch (c.dependTurn (c.turnOf n + c.validPeriod)))

/-- First and last block of the window whose contributions a block pays for. -/
def storageWindow (c : Config) (n : UInt64) : UInt64 × UInt64 := (satMul (c.turnOf n) c.epoch, n)

/-- Whether the committee of a turn is that of the genesis header. -/
def usesGenesisCommittee (c : Config) (turn : UInt64) : Bool :=
  turn < c.electionPeriod + c.validPeriod

/-- Whether a block is the last of its epoch. -/
def isEpochEnd (c : Config) (block : UInt64) : Bool := (block + 1) % c.epoch = 0

/-- Whether a block is the first of a reward year. -/
def isYearStart (c : Config) (block : UInt64) : Bool :=
  0 < block && 0 < c.blocksPerYear && block % c.blocksPerYear = 0

/-! ## Questions -/

inductive Question
  | turnOfBlock
  | dependTurnOfBlock
  | dependTurn
  | publishingBlock
  | firstBlockOfEpoch
  | lastBlockOfEpoch
  | usesGenesisCommittee
  | isEpochEnd
  | isYearStart
deriving DecidableEq

inductive Answer
  | number (n : UInt64)
  | truth (b : Bool)
deriving DecidableEq

namespace Question

/-- Whether the answer divides by the length of an epoch. -/
def divides : Question → Bool
  | turnOfBlock | dependTurnOfBlock | isEpochEnd => true
  | _ => false

def answer (c : Config) (n : UInt64) : Question → Answer
  | turnOfBlock => .number (c.turnOf n)
  | dependTurnOfBlock => .number (c.dependTurn (c.turnOf n))
  | dependTurn => .number (c.dependTurn n)
  | publishingBlock => .number (c.publishingBlock n)
  | firstBlockOfEpoch => .number (c.firstBlockOfEpoch n)
  | lastBlockOfEpoch => .number (c.lastBlockOfEpoch n)
  | usesGenesisCommittee => .truth (c.usesGenesisCommittee n)
  | isEpochEnd => .truth (c.isEpochEnd n)
  | isYearStart => .truth (c.isYearStart n)

end Question

def ask (c : Config) (q : Question) (n : UInt64) : Except Fault Answer :=
  if q.divides && c.epoch = 0 then .error .divisionByZero else .ok (q.answer c n)

theorem ask_of_epoch_ne_zero {c : Config} (h : c.epoch ≠ 0) (q : Question) (n : UInt64) :
    c.ask q n = .ok (q.answer c n) := by
  simp [ask, h]

end CommitteeConsensus.Config
