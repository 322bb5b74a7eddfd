import CommitteeConsensus.Committee.Record

/-! # Elections

    Candidates with stake are ordered by stake, then by contribution, both descending, then by
    address; the first ones form the committee. Reward shares are shares of the elected stake,
    rounded down, and the first member takes what rounding leaves of `base`.
-/

namespace CommitteeConsensus

structure Candidate where
  address : Address
  stake : UInt64
  heft : UInt64
deriving DecidableEq

namespace Candidate

/-- Whether `a` is ranked no later than `b`. -/
def ranksBefore (a b : Candidate) : Bool :=
  if a.stake = b.stake then
    if a.heft = b.heft then ¬ b.address < a.address else b.heft < a.heft
  else b.stake < a.stake

end Candidate

/-- Of neighbours with one address the first stays. -/
def dropRepeats : List Candidate → List Candidate
  | [] => []
  | [c] => [c]
  | c :: d :: rest =>
    if c.address = d.address then dropRepeats (c :: rest) else c :: dropRepeats (d :: rest)
termination_by l => l.length

/-- The candidates that are elected, in rank order. -/
def elected (candidates : List Candidate) (maxSize : UInt64) : List Candidate :=
  (dropRepeats ((candidates.filter (0 < ·.stake)).mergeSort Candidate.ranksBefore)).take maxSize.toNat

def totalStake (members : List Candidate) : Nat := Word.total (members.map Candidate.stake)

/-- Shares of `base` by stake, rounded down. -/
def stakeShares (base : UInt64) (members : List Candidate) : List Nat :=
  members.map fun m => m.stake.toNat * base.toNat / totalStake members

/-- The first share is raised so that the shares sum to `base`. -/
def raiseFirst (base : UInt64) : List Nat → List Nat
  | [] => []
  | first :: rest => (first + (base.toNat - rest.foldr (· + ·) first)) :: rest

/-- The committee that the candidates elect; it is empty when none has stake. -/
def rankCandidates (candidates : List Candidate) (base maxSize : UInt64) : CommitteeRecord :=
  let members := elected candidates maxSize
  if members.isEmpty then {}
  else {
    rank := members.map Candidate.address
    proportion := (raiseFirst base (stakeShares base members)).map UInt64.ofNat
    committeeStake := members.map Candidate.stake
    sentinelContribution := members.map Candidate.heft }

end CommitteeConsensus
