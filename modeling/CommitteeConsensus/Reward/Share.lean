import CommitteeConsensus.Amount
import CommitteeConsensus.Bytes
import CommitteeConsensus.Word

/-! # Shares of a reward

    How an amount is split over accounts in proportion to their weights. Each account's part is
    rounded down. A producer's reward is split over its bound accounts and the producer takes
    what rounding leaves; storage rewards leave it unpaid.
-/

namespace CommitteeConsensus

/-- Accounts with their weights. -/
abbrev Weights := List (Address × UInt64)

/-- Accounts with the amounts they are paid. -/
abbrev Shares := List (Address × Amount)

def totalWeight (weights : Weights) : Nat := Word.total (weights.map Prod.snd)

/-- The part `weight / total` of an amount, rounded down. -/
def proportionalPart (amount : Amount) (weight : UInt64) (total : Nat) : Except Fault Amount := do
  Amount.div (← Amount.mul amount (.ofWord weight)) (.clamp total)

def proportionalShares (amount : Amount) (total : Nat) (weights : Weights) : Except Fault Shares :=
  weights.mapM fun (address, weight) => return (address, ← proportionalPart amount weight total)

def sumShares (shares : Shares) : Except Fault Amount :=
  shares.foldlM (fun sum s => sum.add s.2) 0

/-- Splits a producer's reward between its main account, which comes first and takes the
    remainder, and the bound accounts. Without bound accounts or stake it is not split. -/
def splitByStake (amount : Amount) (main : Address) (mainStake : UInt64) (subs : Weights) :
    Except Fault Shares := do
  let total := totalWeight subs + mainStake.toNat
  if subs.isEmpty || total = 0 then return [(main, amount)]
  let shares ← proportionalShares amount total subs
  return (main, ← amount.sub (← sumShares shares)) :: shares

/-- Splits storage rewards over the accounts that contributed; there are no shares when none
    did. -/
def storageShares (plan : Amount) (contributions : Weights) : Except Fault (Option Shares) := do
  let total := totalWeight contributions
  if total = 0 then return none
  return some (← proportionalShares plan total (contributions.filter (0 < ·.2)))

end CommitteeConsensus
