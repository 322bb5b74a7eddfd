import CommitteeConsensus.Config.Basic
import CommitteeConsensus.Reward.Ledger

/-! # Reward plans

    Two streams are paid from the pool: coin interest to the producer of each block, and storage
    rewards at the end of each epoch. What an epoch plans for a stream is scaled by a
    coefficient that compares the plan with what the epoch before paid. Divisions round down and
    are applied in the order written, which the rounding depends on.
-/

namespace CommitteeConsensus

open Amount

/-- What one epoch plans for a stream with the issuance share `ratio`. -/
def epochPlan (params : RewardParams) (surplus : Amount) (ratio : UInt64) : Except Fault Amount := do
  let base := ofWord params.base
  let yearly ← div (← mul surplus (ofWord ratio)) base
  let yearly ← div (← mul yearly (ofWord params.ratioPerYear)) base
  div yearly (ofWord params.epochsPerYear)

/-- Scale of a stream's plan, in units of `base`: `base` itself when nothing was paid before,
    else the plan over what was. -/
def coefficient (params : RewardParams) (surplus : Amount) (ratio : UInt64)
    (previousActual : Amount) : Except Fault Amount := do
  if previousActual = 0 then return ofWord params.base
  div (← mul (← epochPlan params surplus ratio) (ofWord params.base)) previousActual

/-- A stream's plan after scaling. -/
def scaledPlan (params : RewardParams) (surplus : Amount) (ratio : UInt64)
    (previousActual : Amount) : Except Fault Amount := do
  let scale ← coefficient params surplus ratio previousActual
  div (← mul (← epochPlan params surplus ratio) scale) (ofWord params.base)

/-- Blocks of an epoch that fall to each member, at least one. -/
def blocksPerMember (epoch : UInt64) (committeeSize : Nat) : Nat :=
  max (epoch.toNat / max committeeSize 1) 1

/-- Coin interest for the producer of one block. -/
def blockCoinReward (params : RewardParams) (ledger : RewardLedger) (surplus : Amount)
    (proportion epoch : UInt64) (committeeSize : Nat) : Except Fault Amount := do
  let plan ← scaledPlan params surplus params.coinRewardsRatio ledger.previousEpochCoinRewards
  let share ← div (← mul plan (ofWord proportion)) (ofWord params.base)
  div share (ofWord (UInt64.ofNat (blocksPerMember epoch committeeSize)))

/-- Storage rewards that the closing epoch plans. -/
def epochStoragePlan (params : RewardParams) (ledger : RewardLedger) (surplus : Amount) :
    Except Fault Amount :=
  scaledPlan params surplus params.storageRewardsRatio ledger.previousEpochStorageRewards

end CommitteeConsensus
