import CommitteeConsensus.Proofs.Reward.Booking
import CommitteeConsensus.Proofs.Reward.Plan
import Mathlib.Algebra.Order.Field.Rat
import Mathlib.Tactic.GCongr
import Mathlib.Tactic.Linarith
import Mathlib.Tactic.Positivity
import Mathlib.Tactic.Ring

/-! # What a year takes out of the pool

    The counters of a ledger are bounded by its pool (`Within`): what the open epoch has paid by
    the part of the coin plans that was drawn, what the closed epochs have paid by their number.
    Booking a block keeps the bounds, with one more epoch when it closes one. At the start of a
    year the pool shrinks, by no more than what a year of epochs may pay, and the bounds hold for
    the smaller pool as well (`Within.rolloverYear`).

    Plans are made from the pool of the year, but for the first block of a year, whose plans are
    made from the pool of the year before, and for the last block of a year, whose producer is
    paid in the first epoch of the next. So a bound in terms of the pool leaves room for two years
    in which the pool shrinks, each time to no less than `θ` of what it was.
-/

namespace CommitteeConsensus

/-- What a year may plan for: each epoch at most `coin` of the pool for blocks that draw it once,
    at most `w` times an epoch, and at most `storage` of it once. The `epochs` of a year leave `θ`
    of the pool, with room for the pools of two years before. -/
structure Budget where
  θ : ℚ
  coin : ℚ
  storage : ℚ
  w : ℚ
  epochs : Nat
  θ_pos : 0 < θ
  θ_le_one : θ ≤ 1
  coin_nonneg : 0 ≤ coin
  storage_nonneg : 0 ≤ storage
  w_nonneg : 0 ≤ w
  year_le : epochs * (coin * w + storage) ≤ θ ^ 2 * (1 - θ)

namespace Budget

/-- What an epoch may pay, as a part of the pool. -/
def epoch (B : Budget) : ℚ := B.coin * B.w + B.storage

/-- The budget allots to the streams of a configuration what they plan for, `u` times. -/
structure Allots (B : Budget) (params : RewardParams) (u : ℚ) : Prop where
  coin : B.coin = u * params.rate params.coinRewardsRatio
  storage : B.storage = u * params.rate params.storageRewardsRatio
  epochs : B.epochs = params.epochsPerYear.toNat
  one_le : 1 ≤ u

theorem epoch_nonneg (B : Budget) : 0 ≤ B.epoch :=
  add_nonneg (mul_nonneg B.coin_nonneg B.w_nonneg) B.storage_nonneg

/-- There is a budget for valid parameters whose yearly ratio leaves enough of the pool. -/
theorem exists_of_plan {params : RewardParams} {θ u w : ℚ} (hvalid : params.validate = .ok ())
    (hθ : 0 < θ) (hθ' : θ ≤ 1) (hu : 1 ≤ u) (hw : 0 ≤ w)
    (hplan : u * (params.coinRewardsRatio.toNat * w + params.storageRewardsRatio.toNat)
      * params.ratioPerYear.toNat ≤ θ ^ 2 * (1 - θ) * params.base.toNat ^ 2) :
    ∃ B : Budget, B.θ = θ ∧ B.w = w ∧ B.Allots params u := by
  obtain ⟨hbase, hepochs, -⟩ := (RewardParams.validate_eq_ok_iff params).1 hvalid
  have hbase' : (0 : ℚ) < params.base.toNat ^ 2 :=
    pow_pos (Nat.cast_pos.2 (Word.toNat_pos hbase)) 2
  have hu' : 0 ≤ u := zero_le_one.trans hu
  have hyear : (params.epochsPerYear.toNat : ℚ) * (u * params.rate params.coinRewardsRatio * w
      + u * params.rate params.storageRewardsRatio) ≤ θ ^ 2 * (1 - θ) := by
    calc (params.epochsPerYear.toNat : ℚ) * (u * params.rate params.coinRewardsRatio * w
            + u * params.rate params.storageRewardsRatio)
        = u * (params.epochsPerYear.toNat * params.rate params.coinRewardsRatio * w
            + params.epochsPerYear.toNat * params.rate params.storageRewardsRatio) := by ring
      _ = u * (params.coinRewardsRatio.toNat * w + params.storageRewardsRatio.toNat)
            * params.ratioPerYear.toNat / params.base.toNat ^ 2 := by
          rw [params.year_rate hbase hepochs, params.year_rate hbase hepochs]
          ring
      _ ≤ θ ^ 2 * (1 - θ) := (div_le_iff₀ hbase').2 hplan
  exact ⟨{
    θ, w
    coin := u * params.rate params.coinRewardsRatio
    storage := u * params.rate params.storageRewardsRatio
    epochs := params.epochsPerYear.toNat
    θ_pos := hθ
    θ_le_one := hθ'
    coin_nonneg := mul_nonneg hu' (params.rate_nonneg _)
    storage_nonneg := mul_nonneg hu' (params.rate_nonneg _)
    w_nonneg := hw
    year_le := hyear }, rfl, rfl, rfl, rfl, rfl, hu⟩

end Budget

namespace RewardLedger

/-- The counters are within the budget after so many closed epochs of the year, the open one having
    drawn `spent` of its coin plan. -/
structure Within (B : Budget) (closed : Nat) (spent : ℚ) (l : RewardLedger) : Prop where
  storage : l.actualStorageRewards = 0
  previous : B.θ * l.previousYearSurplus.toNat ≤ l.surplusCoin.toNat
  coin : B.θ ^ 2 * l.actualCoinRewards.toNat ≤ B.coin * spent * l.surplusCoin.toNat
  total : B.θ ^ 2 * l.totalActualRewards.toNat ≤ closed * B.epoch * l.surplusCoin.toNat

variable {B : Budget} {closed : Nat} {spent : ℚ} {l : RewardLedger}

/-- A ledger that is seeded anew has paid nothing. -/
theorem within_seed (B : Budget) (closed : Nat) (surplus : Amount) :
    (({} : RewardLedger).seed surplus).Within B closed 0 where
  storage := rfl
  previous := by simp [seed]
  coin := by simp [seed]
  total := by
    have hepoch := B.epoch_nonneg
    simp only [seed, Amount.toNat_zero, Nat.cast_zero, mul_zero]
    positivity

/-- A year takes no more than `1 - θ` out of the pool. -/
theorem Within.total_le (h : l.Within B closed spent) (hclosed : closed ≤ B.epochs) :
    (l.totalActualRewards.toNat : ℚ) ≤ (1 - B.θ) * l.surplusCoin.toNat := by
  have hθ : 0 < B.θ ^ 2 := pow_pos B.θ_pos 2
  have hyear : (closed : ℚ) * B.epoch ≤ B.θ ^ 2 * (1 - B.θ) := by
    calc (closed : ℚ) * B.epoch ≤ B.epochs * B.epoch := by
          gcongr
          exact B.epoch_nonneg
      _ ≤ B.θ ^ 2 * (1 - B.θ) := B.year_le
  apply le_of_mul_le_mul_left _ hθ
  calc B.θ ^ 2 * l.totalActualRewards.toNat ≤ closed * B.epoch * l.surplusCoin.toNat := h.total
    _ ≤ B.θ ^ 2 * (1 - B.θ) * l.surplusCoin.toNat := by gcongr
    _ = B.θ ^ 2 * ((1 - B.θ) * l.surplusCoin.toNat) := by ring

theorem Within.le_surplusCoin_rolloverYear (h : l.Within B closed spent)
    (hclosed : closed ≤ B.epochs) :
    B.θ * l.surplusCoin.toNat ≤ l.rolloverYear.surplusCoin.toNat := by
  have hle := h.total_le hclosed
  have hrest : (l.surplusCoin.toNat : ℚ)
      ≤ l.rolloverYear.surplusCoin.toNat + l.totalActualRewards.toNat := by
    exact_mod_cast (show _ ≤ l.surplusCoin.toNat - _ + l.totalActualRewards.toNat by omega)
  linarith

/-- At the start of a year the counters are within the budget of the smaller pool, as long as the
    open epoch was planned from the last two. -/
theorem Within.rolloverYear (h : l.Within B closed spent) (hclosed : closed ≤ B.epochs)
    (hspent : 0 ≤ spent)
    (hlast : B.θ * l.actualCoinRewards.toNat ≤ B.coin * spent * l.surplusCoin.toNat) :
    l.rolloverYear.Within B 0 spent where
  storage := h.storage
  previous := h.le_surplusCoin_rolloverYear hclosed
  coin := by
    have hθ := B.θ_pos
    have hcoin := mul_nonneg B.coin_nonneg hspent
    have hpool := h.le_surplusCoin_rolloverYear hclosed
    -- one factor of θ is spent on the open epoch, the other on the pool that shrinks
    calc B.θ ^ 2 * (l.rolloverYear.actualCoinRewards.toNat : ℚ)
        = B.θ * (B.θ * l.actualCoinRewards.toNat) := by
          rw [pow_two, mul_assoc]
          rfl
      _ ≤ B.θ * (B.coin * spent * l.surplusCoin.toNat) := by gcongr
      _ = B.coin * spent * (B.θ * l.surplusCoin.toNat) := by ring
      _ ≤ B.coin * spent * l.rolloverYear.surplusCoin.toNat := by gcongr
  total := by simp [RewardLedger.rolloverYear]

/-- What a block may be planned from: the pool, or that of the year before. -/
theorem Within.planSurplus_le (h : l.Within B closed spent) (yearStart : Bool) :
    B.θ * (l.planSurplus yearStart).toNat ≤ l.surplusCoin.toNat := by
  cases yearStart with
  | true => exact h.previous
  | false =>
    exact mul_le_of_le_one_left (Nat.cast_nonneg _) B.θ_le_one

/-- The pool that a block plans from, twice reduced, is no more than the pool. -/
theorem sq_mul_le {pool surplus : Nat} (hpool : B.θ * pool ≤ surplus) :
    B.θ ^ 2 * pool ≤ surplus := by
  have hθ := B.θ_pos
  calc B.θ ^ 2 * pool = B.θ * (B.θ * pool) := by ring
    _ ≤ B.θ * surplus := by gcongr
    _ ≤ surplus := mul_le_of_le_one_left (Nat.cast_nonneg _) B.θ_le_one

theorem actualCoinRewards_book_open_le (l : RewardLedger) (storage producer : Nat) :
    (l.book false storage producer).actualCoinRewards.toNat
      ≤ l.actualCoinRewards.toNat + producer := by
  simp only [book, Bool.false_eq_true, if_false, recordCoin, Amount.toNat_satAdd,
    Amount.toNat_clamp]
  omega

/-- The counter of the new epoch starts at zero. -/
theorem actualCoinRewards_book_end_le (l : RewardLedger) (storage producer : Nat) :
    (l.book true storage producer).actualCoinRewards.toNat ≤ producer := by
  simp only [book, if_true, recordCoin, rolloverEpoch, Amount.toNat_satAdd, Amount.toNat_clamp,
    Amount.toNat_zero]
  omega

/-- The closed epoch adds its coin rewards and its storage rewards to the year. -/
theorem totalActualRewards_book_end_le (l : RewardLedger) (storage producer : Nat) :
    (l.book true storage producer).totalActualRewards.toNat
      ≤ l.totalActualRewards.toNat + l.actualCoinRewards.toNat
        + (l.actualStorageRewards.toNat + storage) := by
  simp only [book, if_true, recordCoin, recordStorage, rolloverEpoch, Amount.toNat_satAdd,
    Amount.toNat_clamp]
  omega

/-- A block that stays within its plan, drawing `d` of it, keeps the counters within the budget. -/
theorem Within.book_open {pool producer : Nat} {d : ℚ} (h : l.Within B closed spent)
    (hpool : B.θ * pool ≤ l.surplusCoin.toNat) (hd : 0 ≤ d)
    (hproducer : (producer : ℚ) ≤ B.coin * pool * d) :
    (l.book false 0 producer).Within B closed (spent + d) where
  storage := h.storage
  previous := h.previous
  coin := by
    -- a counter at the top of its range shows less than was paid
    have hadd : ((l.book false 0 producer).actualCoinRewards.toNat : ℚ)
        ≤ l.actualCoinRewards.toNat + producer := by
      exact_mod_cast l.actualCoinRewards_book_open_le 0 producer
    have hcoin := mul_nonneg B.coin_nonneg hd
    calc B.θ ^ 2 * ((l.book false 0 producer).actualCoinRewards.toNat : ℚ)
        ≤ B.θ ^ 2 * (l.actualCoinRewards.toNat + B.coin * pool * d) := by
          gcongr
          exact hadd.trans (by gcongr)
      _ = B.θ ^ 2 * l.actualCoinRewards.toNat + B.coin * d * (B.θ ^ 2 * pool) := by ring
      _ ≤ B.coin * spent * l.surplusCoin.toNat + B.coin * d * l.surplusCoin.toNat :=
          add_le_add h.coin (mul_le_mul_of_nonneg_left (sq_mul_le hpool) hcoin)
      _ = B.coin * (spent + d) * l.surplusCoin.toNat := by ring
  total := h.total

/-- The producer of the last block of an epoch is paid in the new epoch, from a plan of the block's
    own. -/
theorem actualCoinRewards_book_end_drawn {pool producer : Nat} {d : ℚ} (storage : Nat)
    (hpool : B.θ * pool ≤ l.surplusCoin.toNat) (hd : 0 ≤ d)
    (hproducer : (producer : ℚ) ≤ B.coin * pool * d) :
    B.θ * (l.book true storage producer).actualCoinRewards.toNat
      ≤ B.coin * d * l.surplusCoin.toNat := by
  have hθ := B.θ_pos
  have hcoin := mul_nonneg B.coin_nonneg hd
  have hpaid : ((l.book true storage producer).actualCoinRewards.toNat : ℚ) ≤ producer := by
    exact_mod_cast l.actualCoinRewards_book_end_le storage producer
  calc B.θ * ((l.book true storage producer).actualCoinRewards.toNat : ℚ)
      ≤ B.θ * (B.coin * pool * d) := by
        gcongr
        exact hpaid.trans hproducer
    _ = B.coin * d * (B.θ * pool) := by ring
    _ ≤ B.coin * d * l.surplusCoin.toNat := by gcongr

/-- The last block of an epoch keeps the counters within the budget of one more closed epoch. -/
theorem Within.book_end {pool storage producer : Nat} {d : ℚ} (h : l.Within B closed spent)
    (hspent : spent ≤ B.w) (hpool : B.θ * pool ≤ l.surplusCoin.toNat) (hd : 0 ≤ d)
    (hstorage : (storage : ℚ) ≤ B.storage * pool)
    (hproducer : (producer : ℚ) ≤ B.coin * pool * d) :
    (l.book true storage producer).Within B (closed + 1) d where
  storage := rfl
  previous := h.previous
  coin := by
    have hθ := B.θ_pos
    have hcoin := mul_nonneg B.coin_nonneg hd
    have hdrawn := actualCoinRewards_book_end_drawn storage hpool hd hproducer
    calc B.θ ^ 2 * ((l.book true storage producer).actualCoinRewards.toNat : ℚ)
        = B.θ * (B.θ * (l.book true storage producer).actualCoinRewards.toNat) := by ring
      _ ≤ B.θ * (B.coin * d * l.surplusCoin.toNat) := by gcongr
      _ ≤ B.coin * d * l.surplusCoin.toNat :=
          mul_le_of_le_one_left (mul_nonneg hcoin (Nat.cast_nonneg _)) B.θ_le_one
  total := by
    -- the year gets what the epoch has paid for coins before this block, and the storage rewards
    have hadd : ((l.book true storage producer).totalActualRewards.toNat : ℚ)
        ≤ l.totalActualRewards.toNat + l.actualCoinRewards.toNat + storage := by
      have hbooked := l.totalActualRewards_book_end_le storage producer
      rw [h.storage, Amount.toNat_zero, Nat.zero_add] at hbooked
      exact_mod_cast hbooked
    have hdrawn : B.θ ^ 2 * l.actualCoinRewards.toNat
        ≤ B.coin * B.w * l.surplusCoin.toNat := by
      have hcoin := B.coin_nonneg
      exact h.coin.trans (by gcongr)
    have hstored := mul_le_mul_of_nonneg_left (sq_mul_le hpool) B.storage_nonneg
    calc B.θ ^ 2 * ((l.book true storage producer).totalActualRewards.toNat : ℚ)
        ≤ B.θ ^ 2 * (l.totalActualRewards.toNat + l.actualCoinRewards.toNat
            + B.storage * pool) := by
          gcongr
          exact hadd.trans (by gcongr)
      _ = B.θ ^ 2 * l.totalActualRewards.toNat + B.θ ^ 2 * l.actualCoinRewards.toNat
            + B.storage * (B.θ ^ 2 * pool) := by ring
      _ ≤ closed * B.epoch * l.surplusCoin.toNat + B.coin * B.w * l.surplusCoin.toNat
            + B.storage * l.surplusCoin.toNat :=
          add_le_add (add_le_add h.total hdrawn) hstored
      _ = (closed + 1 : Nat) * B.epoch * l.surplusCoin.toNat := by
          rw [Budget.epoch]
          push_cast
          ring

end RewardLedger

end CommitteeConsensus
