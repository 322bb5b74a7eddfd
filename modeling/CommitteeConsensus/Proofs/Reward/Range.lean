import CommitteeConsensus.Proofs.Reward.Plan

/-! # Reward arithmetic stays in range

    The steps of a reward are exact: one that leaves the range of amounts or divides by zero is a
    `Fault`, and leaves no reward at all. Under valid parameters and with a pool below `2 ^ 96`
    there is none (`rewards_in_range`).

    The narrowest place is the scaled plan. An epoch plans for no more than the pool, and where the
    epoch before paid a single unit, the coefficient is the plan times `base`. The plan times the
    coefficient is then the square of the plan times `base`, which fits because `base` is a word.
    What is left of it after the division by `base` is below `2 ^ 192`, and may be multiplied by a
    word once more: by a reward share, and by the weight of an account.
-/

namespace CommitteeConsensus

/-- A part of `n` that is no more than the whole. -/
theorem mul_div_le_of_le (n : Nat) {k d : Nat} (h : k ≤ d) : n * k / d ≤ n := by
  apply Nat.div_le_of_le_mul
  rw [Nat.mul_comm d]
  exact Nat.mul_le_mul_left n h

theorem square_lt {n : Nat} (h : n < 2 ^ 96) : max n 1 * max n 1 < 2 ^ 192 := by
  have hmax : max n 1 < 2 ^ 96 := by omega
  exact Nat.lt_of_lt_of_eq (Nat.mul_lt_mul'' hmax hmax) (by decide)

/-! ## Plans -/

/-- Scale of a stream's plan, in units of `base`. -/
def RewardParams.scale (params : RewardParams) (surplus : Amount) (ratio : UInt64)
    (previous : Amount) : Nat :=
  if previous = 0 then params.base.toNat
  else params.planned surplus ratio * params.base.toNat / previous.toNat

/-- What an epoch pays out of a stream, in numbers without a bound. -/
def RewardParams.scaled (params : RewardParams) (surplus : Amount) (ratio : UInt64)
    (previous : Amount) : Nat :=
  params.planned surplus ratio * params.scale surplus ratio previous / params.base.toNat

/-- What the producer of a block is owed, in numbers without a bound. -/
def RewardParams.coinReward (params : RewardParams) (ledger : RewardLedger) (surplus : Amount)
    (proportion epoch : UInt64) (committeeSize : Nat) : Nat :=
  params.scaled surplus params.coinRewardsRatio ledger.previousEpochCoinRewards * proportion.toNat
    / params.base.toNat / blocksPerMember epoch committeeSize

section

variable {params : RewardParams} {surplus previous : Amount} {ratio : UInt64}
  (hvalid : params.validate = .ok ())

include hvalid

namespace RewardParams

theorem toNat_base_ne_zero : (Amount.ofWord params.base).toNat ≠ 0 := by
  obtain ⟨hbase, -⟩ := (validate_eq_ok_iff params).1 hvalid
  exact (Word.toNat_pos hbase).ne'

/-- Where both ratios are at most one, an epoch plans for no more than the pool. -/
theorem planned_le_surplus (hratio : ratio ≤ params.base) :
    params.planned surplus ratio ≤ surplus.toNat := by
  obtain ⟨-, -, -, -, hyear⟩ := (validate_eq_ok_iff params).1 hvalid
  unfold planned
  calc surplus.toNat * ratio.toNat / params.base.toNat * params.ratioPerYear.toNat
        / params.base.toNat / params.epochsPerYear.toNat
      ≤ surplus.toNat * ratio.toNat / params.base.toNat * params.ratioPerYear.toNat
        / params.base.toNat := Nat.div_le_self _ _
    _ ≤ surplus.toNat * ratio.toNat / params.base.toNat :=
        mul_div_le_of_le _ (UInt64.le_iff_toNat_le.1 hyear)
    _ ≤ surplus.toNat := mul_div_le_of_le _ (UInt64.le_iff_toNat_le.1 hratio)

/-- The scale is largest when the epoch before paid a single unit. -/
theorem scale_le (hratio : ratio ≤ params.base) :
    params.scale surplus ratio previous ≤ max surplus.toNat 1 * params.base.toNat := by
  unfold scale
  split
  · exact Nat.le_mul_of_pos_left _ (Nat.lt_of_lt_of_le Nat.zero_lt_one (Nat.le_max_right _ _))
  · calc params.planned surplus ratio * params.base.toNat / previous.toNat
        ≤ params.planned surplus ratio * params.base.toNat := Nat.div_le_self _ _
      _ ≤ surplus.toNat * params.base.toNat :=
          Nat.mul_le_mul_right _ (planned_le_surplus hvalid hratio)
      _ ≤ max surplus.toNat 1 * params.base.toNat :=
          Nat.mul_le_mul_right _ (Nat.le_max_left _ _)

/-- The plan times its scale is the square of the pool times `base`. -/
theorem planned_mul_scale_le (hratio : ratio ≤ params.base) :
    params.planned surplus ratio * params.scale surplus ratio previous
      ≤ max surplus.toNat 1 * max surplus.toNat 1 * params.base.toNat := by
  have hplanned : params.planned surplus ratio ≤ max surplus.toNat 1 :=
    Nat.le_trans (planned_le_surplus hvalid hratio) (Nat.le_max_left _ _)
  rw [Nat.mul_assoc]
  exact Nat.mul_le_mul hplanned (scale_le hvalid hratio)

theorem scaled_le (hratio : ratio ≤ params.base) :
    params.scaled surplus ratio previous ≤ max surplus.toNat 1 * max surplus.toNat 1 := by
  apply Nat.div_le_of_le_mul
  rw [Nat.mul_comm params.base.toNat]
  exact planned_mul_scale_le hvalid hratio

end RewardParams

open RewardParams

variable (hsurplus : surplus.toNat < 2 ^ 96)

include hsurplus

theorem exists_epochPlan (hratio : ratio ≤ params.base) :
    ∃ plan, epochPlan params surplus ratio = .ok plan
      ∧ plan.toNat = params.planned surplus ratio := by
  have hbase := toNat_base_ne_zero hvalid
  obtain ⟨-, hepochs, -⟩ := (validate_eq_ok_iff params).1 hvalid
  obtain ⟨product, share, hproduct, hshare, hshare_eq⟩ :=
    Amount.exists_mul_div (a := surplus) (by omega) ratio hbase
  have hshare_le : share.toNat ≤ surplus.toNat :=
    hshare_eq ▸ mul_div_le_of_le _ (UInt64.le_iff_toNat_le.1 hratio)
  obtain ⟨product', yearly, hproduct', hyearly, -⟩ :=
    Amount.exists_mul_div (a := share) (by omega) params.ratioPerYear hbase
  obtain ⟨plan, hplan, -⟩ := Amount.exists_div (a := yearly) (b := .ofWord params.epochsPerYear)
    (Word.toNat_pos hepochs).ne'
  have hok : epochPlan params surplus ratio = .ok plan := by
    unfold epochPlan
    dsimp only
    rw [hproduct, ok_bind, hshare, ok_bind, hproduct', ok_bind, hyearly, ok_bind, hplan]
  exact ⟨plan, hok, toNat_epochPlan hok⟩

theorem exists_coefficient (hratio : ratio ≤ params.base) (previous : Amount) :
    ∃ scale, coefficient params surplus ratio previous = .ok scale
      ∧ scale.toNat = params.scale surplus ratio previous := by
  unfold coefficient RewardParams.scale
  by_cases hnone : previous = 0
  · rw [if_pos hnone, if_pos hnone]
    exact ⟨_, rfl, rfl⟩
  · rw [if_neg hnone, if_neg hnone]
    obtain ⟨plan, hplan, hplan_eq⟩ := exists_epochPlan hvalid hsurplus hratio
    have hplan_le : plan.toNat ≤ surplus.toNat := hplan_eq ▸ planned_le_surplus hvalid hratio
    have hpaid : previous.toNat ≠ 0 := fun hzero => hnone (Amount.ext hzero)
    obtain ⟨product, scale, hproduct, hscale, hscale_eq⟩ :=
      Amount.exists_mul_div (a := plan) (by omega) params.base hpaid
    refine ⟨scale, ?_, by rw [hscale_eq, hplan_eq]⟩
    rw [hplan, ok_bind, hproduct, ok_bind, hscale]

theorem exists_scaledPlan (hratio : ratio ≤ params.base) (previous : Amount) :
    ∃ plan, scaledPlan params surplus ratio previous = .ok plan
      ∧ plan.toNat = params.scaled surplus ratio previous := by
  obtain ⟨scale, hscale, hscale_eq⟩ := exists_coefficient hvalid hsurplus hratio previous
  obtain ⟨plan, hplan, hplan_eq⟩ := exists_epochPlan hvalid hsurplus hratio
  have hfits : plan.toNat * scale.toNat < Amount.bound := by
    rw [hplan_eq, hscale_eq]
    exact Nat.lt_of_le_of_lt (planned_mul_scale_le hvalid hratio)
      (Amount.mul_word_lt (square_lt hsurplus) params.base)
  obtain ⟨product, hproduct, hproduct_eq⟩ := Amount.exists_mul hfits
  obtain ⟨scaled, hscaled, hscaled_eq⟩ := Amount.exists_div (a := product)
    (toNat_base_ne_zero hvalid)
  refine ⟨scaled, ?_, ?_⟩
  · unfold scaledPlan
    rw [hscale, ok_bind, hplan, ok_bind, hproduct, ok_bind, hscaled]
  · rw [hscaled_eq, hproduct_eq, hplan_eq, hscale_eq]
    rfl

theorem exists_blockCoinReward {proportion : UInt64} (hproportion : proportion ≤ params.base)
    (ledger : RewardLedger) (epoch : UInt64) (committeeSize : Nat) :
    ∃ reward, blockCoinReward params ledger surplus proportion epoch committeeSize = .ok reward
      ∧ reward.toNat = params.coinReward ledger surplus proportion epoch committeeSize
      ∧ reward.toNat < 2 ^ 192 := by
  obtain ⟨-, -, hcoin, -⟩ := (validate_eq_ok_iff params).1 hvalid
  obtain ⟨plan, hplan, hplan_eq⟩ :=
    exists_scaledPlan hvalid hsurplus hcoin ledger.previousEpochCoinRewards
  have hplan_lt : plan.toNat < 2 ^ 192 :=
    hplan_eq ▸ Nat.lt_of_le_of_lt (scaled_le hvalid hcoin) (square_lt hsurplus)
  obtain ⟨product, share, hproduct, hshare, hshare_eq⟩ :=
    Amount.exists_mul_div hplan_lt proportion (toNat_base_ne_zero hvalid)
  have hshare_le : share.toNat ≤ plan.toNat :=
    hshare_eq ▸ mul_div_le_of_le _ (UInt64.le_iff_toNat_le.1 hproportion)
  have hblocks : (Amount.ofWord (UInt64.ofNat (blocksPerMember epoch committeeSize))).toNat
      = blocksPerMember epoch committeeSize := toNat_blocksPerMember epoch committeeSize
  have hblocks_ne : blocksPerMember epoch committeeSize ≠ 0 := by
    unfold blocksPerMember
    omega
  obtain ⟨reward, hreward, hreward_eq⟩ := Amount.exists_div (a := share) (hblocks ▸ hblocks_ne)
  refine ⟨reward, ?_, ?_, ?_⟩
  · unfold blockCoinReward
    rw [hplan, ok_bind, hproduct, ok_bind, hshare, ok_bind, hreward]
  · rw [hreward_eq, hshare_eq, hplan_eq, hblocks]
    rfl
  · have hreward_le : reward.toNat ≤ share.toNat := hreward_eq ▸ Nat.div_le_self _ _
    omega

theorem exists_epochStoragePlan (ledger : RewardLedger) :
    ∃ plan, epochStoragePlan params ledger surplus = .ok plan
      ∧ plan.toNat = params.scaled surplus params.storageRewardsRatio
        ledger.previousEpochStorageRewards
      ∧ plan.toNat < 2 ^ 192 := by
  obtain ⟨-, -, -, hstorage, -⟩ := (validate_eq_ok_iff params).1 hvalid
  obtain ⟨plan, hplan, hplan_eq⟩ :=
    exists_scaledPlan hvalid hsurplus hstorage ledger.previousEpochStorageRewards
  exact ⟨plan, hplan, hplan_eq,
    hplan_eq ▸ Nat.lt_of_le_of_lt (scaled_le hvalid hstorage) (square_lt hsurplus)⟩

end

/-! ## Rewards -/

/-- Under valid parameters and with a pool below `2 ^ 96`, no step of a reward leaves its range and
    no divisor is zero: a producer's reward and an epoch's storage plan are what they would be in
    numbers without a bound, and are split, the weights summing to numbers of 128 bits. -/
theorem rewards_in_range {params : RewardParams} (hvalid : params.validate = .ok ())
    (ledger : RewardLedger) {surplus : Amount} (hsurplus : surplus.toNat < 2 ^ 96)
    {proportion : UInt64} (hproportion : proportion ≤ params.base) (epoch : UInt64)
    (committeeSize : Nat) (main : Address) (mainStake : UInt64) {subs contributions : Weights}
    (hsubs : subs.length < Word.bound) (hcontributions : contributions.length < Word.bound) :
    (∃ reward shares,
      blockCoinReward params ledger surplus proportion epoch committeeSize = .ok reward
      ∧ reward.toNat = params.coinReward ledger surplus proportion epoch committeeSize
      ∧ totalWeight subs + mainStake.toNat < 2 ^ 128
      ∧ splitByStake reward main mainStake subs = .ok shares ∧ shares.total = reward.toNat)
    ∧ ∃ plan shares?, epochStoragePlan params ledger surplus = .ok plan
      ∧ plan.toNat = params.scaled surplus params.storageRewardsRatio
        ledger.previousEpochStorageRewards
      ∧ totalWeight contributions < 2 ^ 128
      ∧ storageShares plan contributions = .ok shares?
      ∧ ∀ shares, shares? = some shares → shares.total ≤ plan.toNat := by
  have hmax : 2 ^ 128 ≤ Amount.max := by decide
  constructor
  · obtain ⟨reward, hreward, hreward_eq, hreward_lt⟩ :=
      exists_blockCoinReward hvalid hsurplus hproportion ledger epoch committeeSize
    have htotal := totalWeight_add_lt hsubs mainStake
    have hfits : totalWeight subs + mainStake.toNat ≤ Amount.max := by omega
    obtain ⟨shares, hshares⟩ := exists_splitByStake hreward_lt main hfits
    exact ⟨reward, shares, hreward, hreward_eq, htotal, hshares, total_splitByStake hshares⟩
  · obtain ⟨plan, hplan, hplan_eq, hplan_lt⟩ := exists_epochStoragePlan hvalid hsurplus ledger
    have htotal : totalWeight contributions < 2 ^ 128 := totalWeight_add_lt hcontributions 0
    have hfits : totalWeight contributions ≤ Amount.max := by omega
    obtain ⟨shares?, hshares⟩ := exists_storageShares hplan_lt hfits
    refine ⟨plan, shares?, hplan, hplan_eq, htotal, hshares, ?_⟩
    rintro shares rfl
    exact total_storageShares_le hfits hshares

/-- One unit was paid of each stream, and the coefficients are largest. -/
def RewardLedger.barelyPaid : RewardLedger :=
  { previousEpochCoinRewards := ⟨1, by decide⟩, previousEpochStorageRewards := ⟨1, by decide⟩ }

theorem rewards_in_range_genesis :
    ({} : RewardParams).validate = .ok () ∧ Amount.genesisPool.toNat < 2 ^ 96
    ∧ (∃ reward shares, blockCoinReward {} .barelyPaid .genesisPool 10000 2000 0 = .ok reward
      ∧ reward.toNat = 75444740289885737923057786502716584797
      ∧ splitByStake reward (.zero 20) 5 [(.zero 20, 3), (.zero 20, 0)] = .ok shares
      ∧ shares.total = reward.toNat)
    ∧ ∃ plan shares?, epochStoragePlan {} .barelyPaid .genesisPool = .ok plan
      ∧ plan.toNat = 150889480579771475846115573005433169594329
      ∧ storageShares plan [(.zero 20, 7)] = .ok shares?
      ∧ ∀ shares, shares? = some shares → shares.total ≤ plan.toNat := by
  have hvalid : ({} : RewardParams).validate = .ok () := by decide
  have hsurplus : Amount.genesisPool.toNat < 2 ^ 96 := by decide
  have hproportion : (10000 : UInt64) ≤ ({} : RewardParams).base := by decide
  have hsubs : ([(.zero 20, 3), (.zero 20, 0)] : Weights).length < Word.bound := by decide
  have hcontributions : ([(.zero 20, 7)] : Weights).length < Word.bound := by decide
  obtain ⟨⟨reward, shares, hreward, hreward_eq, -, hshares, htotal⟩,
    plan, shares?, hplan, hplan_eq, -, hpaid, hpaid_le⟩ :=
    rewards_in_range hvalid .barelyPaid hsurplus hproportion 2000 0 (.zero 20) 5 hsubs
      hcontributions
  exact ⟨hvalid, hsurplus, ⟨reward, shares, hreward, hreward_eq.trans (by decide), hshares, htotal⟩,
    plan, shares?, hplan, hplan_eq.trans (by decide), hpaid, hpaid_le⟩

end CommitteeConsensus
