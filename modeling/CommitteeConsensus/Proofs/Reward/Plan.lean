import CommitteeConsensus.Proofs.Reward.Share
import CommitteeConsensus.Reward.Plan
import Mathlib.Algebra.Order.Field.Rat
import Mathlib.Data.Nat.Cast.Order.Field
import Mathlib.Tactic.FieldSimp
import Mathlib.Tactic.GCongr
import Mathlib.Tactic.Positivity
import Mathlib.Tactic.Ring

/-! # What a plan pays at most

    Rounding only lowers a plan, so an epoch plans for a stream no more than `rate` of the pool.
    The coefficient raises the plan as far as the epoch before has paid less than it; as long as
    the plan is at most `u` times what was paid then, the scaled plan is at most `u` times the
    plan (`scaledPlan_le`). A producer draws its share of the scaled plan (`blockCoinReward_le`),
    and the storage rewards of an epoch are at most the whole of it (`total_storageShares_le`).
-/

namespace CommitteeConsensus

/-- The part of the pool that an epoch plans for a stream, before rounding. -/
def RewardParams.rate (params : RewardParams) (ratio : UInt64) : ℚ :=
  ratio.toNat * params.ratioPerYear.toNat
    / (params.base.toNat * params.base.toNat * params.epochsPerYear.toNat)

/-- What an epoch plans for a stream. -/
def RewardParams.planned (params : RewardParams) (surplus : Amount) (ratio : UInt64) : Nat :=
  surplus.toNat * ratio.toNat / params.base.toNat * params.ratioPerYear.toNat
    / params.base.toNat / params.epochsPerYear.toNat

/-- The share of an epoch's coin plan that one block draws. -/
def RewardParams.drawn (params : RewardParams) (proportion epoch : UInt64) (committeeSize : Nat) :
    ℚ :=
  proportion.toNat / (params.base.toNat * blocksPerMember epoch committeeSize)

section

variable {params : RewardParams} {surplus previous a : Amount} {ratio : UInt64} {u : ℚ}

theorem RewardParams.rate_nonneg (params : RewardParams) (ratio : UInt64) :
    0 ≤ params.rate ratio := by
  unfold rate
  positivity

theorem RewardParams.drawn_nonneg (params : RewardParams) (proportion epoch : UInt64)
    (committeeSize : Nat) : 0 ≤ params.drawn proportion epoch committeeSize := by
  unfold drawn
  positivity

/-- The epochs of a year plan together for the yearly ratio of the pool. -/
theorem RewardParams.year_rate (hbase : params.base ≠ 0) (hepochs : params.epochsPerYear ≠ 0)
    (ratio : UInt64) :
    params.epochsPerYear.toNat * params.rate ratio
      = ratio.toNat * params.ratioPerYear.toNat / params.base.toNat ^ 2 := by
  have hbase' : (params.base.toNat : ℚ) ≠ 0 :=
    Nat.cast_ne_zero.2 (Word.toNat_pos hbase).ne'
  have hepochs' : (params.epochsPerYear.toNat : ℚ) ≠ 0 :=
    Nat.cast_ne_zero.2 (Word.toNat_pos hepochs).ne'
  unfold rate
  field_simp

/-- Each of the three divisions rounds down. -/
theorem RewardParams.planned_le (params : RewardParams) (surplus : Amount) (ratio : UInt64) :
    (params.planned surplus ratio : ℚ) ≤ params.rate ratio * surplus.toNat := by
  unfold planned rate
  generalize surplus.toNat = s
  generalize ratio.toNat = k
  generalize params.base.toNat = b
  generalize params.ratioPerYear.toNat = r
  generalize params.epochsPerYear.toNat = y
  calc ((s * k / b * r / b / y : Nat) : ℚ)
      ≤ ((s * k / b * r / b : Nat) : ℚ) / y := Nat.cast_div_le
    _ ≤ ((s * k / b * r : Nat) : ℚ) / b / y := by gcongr; exact Nat.cast_div_le
    _ = ((s * k / b : Nat) : ℚ) * r / b / y := by push_cast; rfl
    _ ≤ ((s * k : Nat) : ℚ) / b * r / b / y := by gcongr; exact Nat.cast_div_le
    _ = k * r / (b * b * y) * s := by push_cast; ring

theorem toNat_epochPlan (h : epochPlan params surplus ratio = .ok a) :
    a.toNat = params.planned surplus ratio := by
  unfold epochPlan at h
  obtain ⟨m, hm, h⟩ := bind_eq_ok_iff.1 h
  obtain ⟨d, hd, h⟩ := bind_eq_ok_iff.1 h
  obtain ⟨m', hm', h⟩ := bind_eq_ok_iff.1 h
  obtain ⟨d', hd', h⟩ := bind_eq_ok_iff.1 h
  rw [(Amount.div_eq_ok_iff.1 h).2, (Amount.div_eq_ok_iff.1 hd').2, Amount.mul_eq_ok_iff.1 hm',
    (Amount.div_eq_ok_iff.1 hd).2, Amount.mul_eq_ok_iff.1 hm]
  rfl

/-- The epoch before paid nothing for the stream, or the plan is at most `u` times what it paid. -/
def RewardParams.MakesUp (params : RewardParams) (u : ℚ) (surplus : Amount) (ratio : UInt64)
    (previous : Amount) : Prop :=
  previous = 0 ∨ (params.planned surplus ratio : ℚ) ≤ u * previous.toNat

/-- Nothing was paid, or at least the `u`-th part of what an epoch plans from the whole pool. -/
def RewardParams.KeepsUp (params : RewardParams) (u : ℚ) (ratio : UInt64) (paid : Nat) : Prop :=
  paid = 0 ∨ params.rate ratio * params.genesisSurplus.toNat ≤ u * paid

/-- No epoch plans for a stream more than the pool. -/
theorem RewardParams.rate_le_one (hvalid : params.validate = .ok ())
    (hratio : ratio ≤ params.base) : params.rate ratio ≤ 1 := by
  obtain ⟨hbase, hepochs, -, -, hyearly⟩ := (validate_eq_ok_iff params).1 hvalid
  have hbase' := Word.toNat_pos hbase
  have hepochs' := Word.toNat_pos hepochs
  have hle : ratio.toNat * params.ratioPerYear.toNat
      ≤ params.base.toNat * params.base.toNat * params.epochsPerYear.toNat := by
    calc ratio.toNat * params.ratioPerYear.toNat
        ≤ params.base.toNat * params.base.toNat :=
          Nat.mul_le_mul (UInt64.le_iff_toNat_le.1 hratio) (UInt64.le_iff_toNat_le.1 hyearly)
      _ ≤ params.base.toNat * params.base.toNat * params.epochsPerYear.toNat :=
          Nat.le_mul_of_pos_right _ hepochs'
  unfold rate
  apply div_le_one_of_le₀
  · exact_mod_cast hle
  · positivity

/-- The plan from a pool that is no larger than at first makes up for an epoch that has kept up. -/
theorem RewardParams.KeepsUp.makesUp {paid : Nat} (h : params.KeepsUp u ratio paid)
    (hvalid : params.validate = .ok ()) (hratio : ratio ≤ params.base) (hu : 1 ≤ u)
    (hsurplus : surplus.toNat ≤ params.genesisSurplus.toNat) :
    params.MakesUp u surplus ratio (.clamp paid) := by
  rcases h with rfl | hpaid
  · exact .inl rfl
  · right
    have hrate := params.rate_nonneg ratio
    have hplanned : (params.planned surplus ratio : ℚ)
        ≤ params.rate ratio * params.genesisSurplus.toNat := by
      calc (params.planned surplus ratio : ℚ)
          ≤ params.rate ratio * surplus.toNat := params.planned_le surplus ratio
        _ ≤ params.rate ratio * params.genesisSurplus.toNat := by gcongr
    rcases Nat.le_total paid Amount.max with hfits | htop
    · rw [Amount.toNat_clamp, Nat.min_eq_left hfits]
      exact hplanned.trans hpaid
    · -- a counter at the top of its range shows more than any plan
      have hpool : (params.genesisSurplus.toNat : ℚ) ≤ Amount.max :=
        Nat.cast_le.2 params.genesisSurplus.toNat_le_max
      rw [Amount.toNat_clamp, Nat.min_eq_right htop]
      calc (params.planned surplus ratio : ℚ)
          ≤ params.rate ratio * params.genesisSurplus.toNat := hplanned
        _ ≤ 1 * Amount.max := by
            gcongr
            exact RewardParams.rate_le_one hvalid hratio
        _ ≤ u * Amount.max := by gcongr

/-- In units of `base`, the coefficient is one or the plan over what was paid before. -/
theorem coefficient_le (hu : 1 ≤ u) (hprevious : params.MakesUp u surplus ratio previous)
    (h : coefficient params surplus ratio previous = .ok a) :
    (a.toNat : ℚ) ≤ u * params.base.toNat := by
  unfold coefficient at h
  by_cases hnone : previous = 0
  · -- nothing was paid before, and the coefficient is one
    rw [if_pos hnone] at h
    rw [← Except.ok.inj h, Amount.toNat_ofWord]
    exact le_mul_of_one_le_left (Nat.cast_nonneg _) hu
  · rw [if_neg hnone] at h
    obtain ⟨plan, hplan, h⟩ := bind_eq_ok_iff.1 h
    obtain ⟨product, hproduct, h⟩ := bind_eq_ok_iff.1 h
    obtain ⟨hpaid, ha⟩ := Amount.div_eq_ok_iff.1 h
    rw [Amount.mul_eq_ok_iff.1 hproduct, toNat_epochPlan hplan, Amount.toNat_ofWord] at ha
    have hpaid' : (0 : ℚ) < previous.toNat := by exact_mod_cast Nat.pos_of_ne_zero hpaid
    have hbehind := hprevious.resolve_left hnone
    calc (a.toNat : ℚ)
        = ((params.planned surplus ratio * params.base.toNat / previous.toNat : Nat) : ℚ) := by
          rw [ha]
      _ ≤ ((params.planned surplus ratio * params.base.toNat : Nat) : ℚ) / previous.toNat :=
          Nat.cast_div_le
      _ = params.planned surplus ratio * params.base.toNat / previous.toNat := by push_cast; rfl
      _ ≤ u * previous.toNat * params.base.toNat / previous.toNat := by gcongr
      _ = u * params.base.toNat := by field_simp

/-- The coefficient raises a plan no further than the epoch before has fallen behind it. -/
theorem scaledPlan_le (hu : 1 ≤ u) (hprevious : params.MakesUp u surplus ratio previous)
    (h : scaledPlan params surplus ratio previous = .ok a) :
    (a.toNat : ℚ) ≤ u * params.rate ratio * surplus.toNat := by
  unfold scaledPlan at h
  obtain ⟨scale, hscale, h⟩ := bind_eq_ok_iff.1 h
  obtain ⟨plan, hplan, h⟩ := bind_eq_ok_iff.1 h
  obtain ⟨product, hproduct, h⟩ := bind_eq_ok_iff.1 h
  obtain ⟨hbase, ha⟩ := Amount.div_eq_ok_iff.1 h
  rw [Amount.mul_eq_ok_iff.1 hproduct, toNat_epochPlan hplan, Amount.toNat_ofWord] at ha
  rw [Amount.toNat_ofWord] at hbase
  have hbase' : (0 : ℚ) < params.base.toNat := by exact_mod_cast Nat.pos_of_ne_zero hbase
  have hscale_le := coefficient_le hu hprevious hscale
  have hplanned := params.planned_le surplus ratio
  calc (a.toNat : ℚ)
      = ((params.planned surplus ratio * scale.toNat / params.base.toNat : Nat) : ℚ) := by rw [ha]
    _ ≤ ((params.planned surplus ratio * scale.toNat : Nat) : ℚ) / params.base.toNat :=
        Nat.cast_div_le
    _ = params.planned surplus ratio * scale.toNat / params.base.toNat := by push_cast; rfl
    _ ≤ params.rate ratio * surplus.toNat * (u * params.base.toNat) / params.base.toNat := by
        gcongr
        exact mul_nonneg (params.rate_nonneg ratio) (Nat.cast_nonneg _)
    _ = u * params.rate ratio * surplus.toNat := by field_simp

theorem toNat_blocksPerMember (epoch : UInt64) (committeeSize : Nat) :
    (UInt64.ofNat (blocksPerMember epoch committeeSize)).toNat
      = blocksPerMember epoch committeeSize := by
  have hepoch := epoch.toNat_lt
  have hle := Nat.div_le_self epoch.toNat (max committeeSize 1)
  rw [UInt64.toNat_ofNat']
  apply Nat.mod_eq_of_lt
  unfold blocksPerMember
  omega

/-- A block pays its producer's share of the scaled plan. -/
theorem blockCoinReward_le {ledger : RewardLedger} {proportion epoch : UInt64}
    {committeeSize : Nat} (hu : 1 ≤ u) (hprevious : params.MakesUp u surplus
      params.coinRewardsRatio ledger.previousEpochCoinRewards)
    (h : blockCoinReward params ledger surplus proportion epoch committeeSize = .ok a) :
    (a.toNat : ℚ) ≤ u * params.rate params.coinRewardsRatio * surplus.toNat
      * params.drawn proportion epoch committeeSize := by
  unfold blockCoinReward at h
  obtain ⟨plan, hplan, h⟩ := bind_eq_ok_iff.1 h
  obtain ⟨product, hproduct, h⟩ := bind_eq_ok_iff.1 h
  obtain ⟨share, hshare, h⟩ := bind_eq_ok_iff.1 h
  have ha := (Amount.div_eq_ok_iff.1 h).2
  rw [(Amount.div_eq_ok_iff.1 hshare).2, Amount.mul_eq_ok_iff.1 hproduct, Amount.toNat_ofWord,
    Amount.toNat_ofWord, Amount.toNat_ofWord, toNat_blocksPerMember] at ha
  have hplan_le := scaledPlan_le hu hprevious hplan
  unfold RewardParams.drawn
  generalize blocksPerMember epoch committeeSize = m at ha ⊢
  calc (a.toNat : ℚ)
      = ((plan.toNat * proportion.toNat / params.base.toNat / m : Nat) : ℚ) := by rw [ha]
    _ ≤ ((plan.toNat * proportion.toNat / params.base.toNat : Nat) : ℚ) / m := Nat.cast_div_le
    _ ≤ ((plan.toNat * proportion.toNat : Nat) : ℚ) / params.base.toNat / m := by
        gcongr
        exact Nat.cast_div_le
    _ = plan.toNat * (proportion.toNat / (params.base.toNat * m)) := by
        push_cast
        ring
    _ ≤ u * params.rate params.coinRewardsRatio * surplus.toNat
          * (proportion.toNat / (params.base.toNat * m)) := by gcongr

end

end CommitteeConsensus
