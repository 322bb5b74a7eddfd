import CommitteeConsensus.Amount
import CommitteeConsensus.Json.Basic

/-! # The reward ledger

    Counters that travel in the state from block to block: the pool, what the open epoch has
    paid of each stream, what the last one paid, and what the closed epochs of the year paid.
    Payments are booked in the open epoch; `rolloverEpoch` folds them into the year and
    `rolloverYear` takes the year's payments out of the pool. Counters saturate.
-/

namespace CommitteeConsensus

structure RewardLedger where
  /-- The pool that is left for this year. -/
  surplusCoin : Amount := 0
  /-- The pool before the last year was closed. -/
  previousYearSurplus : Amount := 0
  /-- Paid by the closed epochs of this year. -/
  totalActualRewards : Amount := 0
  actualCoinRewards : Amount := 0
  actualStorageRewards : Amount := 0
  previousEpochCoinRewards : Amount := 0
  previousEpochStorageRewards : Amount := 0
deriving DecidableEq

namespace RewardLedger

def seed (l : RewardLedger) (genesisSurplus : Amount) : RewardLedger :=
  { l with surplusCoin := genesisSurplus }

/-- The pool that plans are made from: on the first block of a year, the pool before the year
    was closed. -/
def planSurplus (l : RewardLedger) (yearStart : Bool) : Amount :=
  if yearStart then l.previousYearSurplus else l.surplusCoin

def recordCoin (l : RewardLedger) (amount : Amount) : RewardLedger :=
  { l with actualCoinRewards := l.actualCoinRewards.satAdd amount }

def recordStorage (l : RewardLedger) (amount : Amount) : RewardLedger :=
  { l with actualStorageRewards := l.actualStorageRewards.satAdd amount }

def rolloverEpoch (l : RewardLedger) : RewardLedger :=
  { l with
    previousEpochCoinRewards := l.actualCoinRewards
    previousEpochStorageRewards := l.actualStorageRewards
    totalActualRewards :=
      (l.totalActualRewards.satAdd l.actualCoinRewards).satAdd l.actualStorageRewards
    actualCoinRewards := 0
    actualStorageRewards := 0 }

def rolloverYear (l : RewardLedger) : RewardLedger :=
  { l with
    previousYearSurplus := l.surplusCoin
    surplusCoin := l.surplusCoin.satSub l.totalActualRewards
    totalActualRewards := 0 }

/-! ## What each step leaves alone -/

@[simp] theorem surplusCoin_recordCoin (l : RewardLedger) (a : Amount) :
    (l.recordCoin a).surplusCoin = l.surplusCoin := rfl

@[simp] theorem surplusCoin_recordStorage (l : RewardLedger) (a : Amount) :
    (l.recordStorage a).surplusCoin = l.surplusCoin := rfl

@[simp] theorem surplusCoin_rolloverEpoch (l : RewardLedger) :
    l.rolloverEpoch.surplusCoin = l.surplusCoin := rfl

@[simp] theorem previousYearSurplus_recordCoin (l : RewardLedger) (a : Amount) :
    (l.recordCoin a).previousYearSurplus = l.previousYearSurplus := rfl

@[simp] theorem previousYearSurplus_recordStorage (l : RewardLedger) (a : Amount) :
    (l.recordStorage a).previousYearSurplus = l.previousYearSurplus := rfl

@[simp] theorem previousYearSurplus_rolloverEpoch (l : RewardLedger) :
    l.rolloverEpoch.previousYearSurplus = l.previousYearSurplus := rfl

end RewardLedger

/-! ## Written form -/

/-- The hexadecimal digits of a number, the most significant first. -/
def hexDigits (n : Nat) : List UInt8 :=
  if n < 16 then [UInt8.ofNat (hexDigit (UInt8.ofNat n)).toNat]
  else hexDigits (n / 16) ++ [UInt8.ofNat (hexDigit (UInt8.ofNat (n % 16))).toNat]

/-- An amount is written in hexadecimal without leading zeros. -/
def Amount.toJson (a : Amount) : Json := .text (ascii "0x" ++ hexDigits a.toNat)

def RewardLedger.toJson (l : RewardLedger) : Json := .ofFields [
  ("surplus_coin", l.surplusCoin.toJson),
  ("previous_year_surplus", l.previousYearSurplus.toJson),
  ("total_actual_rewards", l.totalActualRewards.toJson),
  ("actual_coin_rewards", l.actualCoinRewards.toJson),
  ("actual_storage_rewards", l.actualStorageRewards.toJson),
  ("previous_epoch_coin_rewards", l.previousEpochCoinRewards.toJson),
  ("previous_epoch_storage_rewards", l.previousEpochStorageRewards.toJson)]

end CommitteeConsensus
