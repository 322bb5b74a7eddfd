import CommitteeConsensus.Engine.Settlement
import CommitteeConsensus.Proofs.Outcome
import CommitteeConsensus.Proofs.State.Wealth

/-! # Booking

    The shares of a reward are computed together or not at all (`proportionalShares_of_pos`), and a
    producer's reward is split without a remainder (`total_splitByStake`). What the ledger shows
    as paid grows by what is recorded, is kept when an epoch is closed, and loses the closed epochs
    at the start of a year (`paid_openLedger`). All of this holds up to the top of the range.
-/

namespace CommitteeConsensus

/-! ## Shares of a reward -/

/-- The part of an amount, where it can be computed. -/
def roundedPart (amount : Amount) (total : Nat) (weight : UInt64) : Amount :=
  .clamp (amount.toNat * weight.toNat / (Amount.clamp total).toNat)

/-- With a divisor there is one reason left for which a part cannot be computed. -/
theorem proportionalPart_of_pos (amount : Amount) (weight : UInt64) {total : Nat}
    (htotal : 0 < total) : proportionalPart amount weight total
      = if amount.toNat * weight.toNat < Amount.bound then .ok (roundedPart amount total weight)
        else .error .overflow := by
  have hdivisor : (Amount.clamp total).toNat ≠ 0 := by
    rw [Amount.toNat_clamp]
    exact Nat.ne_of_gt (Nat.lt_min.2 ⟨htotal, by decide⟩)
  unfold proportionalPart Amount.mul Amount.exact
  rw [Amount.toNat_ofWord]
  split
  · next hfits =>
    rw [ok_bind, Amount.div_eq_ok_iff]
    refine ⟨hdivisor, ?_⟩
    have hle : amount.toNat * weight.toNat / (Amount.clamp total).toNat ≤ Amount.max :=
      Nat.le_trans (Nat.div_le_self _ _) (Nat.le_sub_one_of_lt hfits)
    exact Nat.min_eq_left hle
  · rfl

/-- The shares are computed if each of them can be, whatever the order. -/
theorem proportionalShares_of_pos (amount : Amount) {total : Nat} (htotal : 0 < total)
    (weights : Weights) : proportionalShares amount total weights
      = if ∀ w ∈ weights, amount.toNat * w.2.toNat < Amount.bound
        then .ok (weights.map fun w => (w.1, roundedPart amount total w.2))
        else .error .overflow := by
  unfold proportionalShares
  induction weights with
  | nil => simp
  | cons w rest ih =>
    rw [List.mapM_cons, ih]
    dsimp only
    rw [proportionalPart_of_pos amount w.2 htotal]
    simp only [List.forall_mem_cons]
    by_cases hw : amount.toNat * w.2.toNat < Amount.bound
    · by_cases hrest : ∀ w ∈ rest, amount.toNat * w.2.toNat < Amount.bound
      · rw [if_pos hw, if_pos hrest, if_pos ⟨hw, hrest⟩]
        rfl
      · rw [if_pos hw, if_neg hrest, if_neg (not_and_of_not_right _ hrest)]
        rfl
    · rw [if_neg hw, if_neg (not_and_of_not_left _ hw)]
      rfl

theorem toNat_foldlM_add {shares : Shares} {start sum : Amount}
    (h : shares.foldlM (fun sum s => sum.add s.2) start = .ok sum) :
    sum.toNat = start.toNat + shares.total := by
  induction shares generalizing start with
  | nil => exact congrArg Amount.toNat (Except.ok.inj h).symm
  | cons share rest ih =>
    rw [List.foldlM_cons, bind_eq_ok_iff] at h
    obtain ⟨next, hnext, hrest⟩ := h
    rw [ih hrest, Amount.add_eq_ok_iff.1 hnext, Shares.total_cons, Nat.add_assoc]

theorem toNat_sumShares {shares : Shares} {sum : Amount} (h : sumShares shares = .ok sum) :
    sum.toNat = shares.total := by
  have hsum := toNat_foldlM_add h
  rwa [Amount.toNat_zero, Nat.zero_add] at hsum

section

variable {amount : Amount} {main : Address} {mainStake : UInt64} {subs contributions : Weights}
  {shares : Shares}

/-- Without bound accounts or stake there is nothing to split. -/
theorem splitByStake_whole (h : subs = [] ∨ totalWeight subs + mainStake.toNat = 0) :
    splitByStake amount main mainStake subs = .ok [(main, amount)] := by
  unfold splitByStake
  dsimp only
  rw [if_pos]
  · rfl
  · simpa [List.isEmpty_iff] using h

/-- The bound accounts get their parts, and the main account what is left. -/
theorem splitByStake_eq_ok_iff (h : ¬(subs = [] ∨ totalWeight subs + mainStake.toNat = 0)) :
    splitByStake amount main mainStake subs = .ok shares ↔ ∃ others paid share,
      proportionalShares amount (totalWeight subs + mainStake.toNat) subs = .ok others
      ∧ sumShares others = .ok paid ∧ amount.sub paid = .ok share
      ∧ shares = (main, share) :: others := by
  unfold splitByStake
  dsimp only
  rw [if_neg (by simpa [List.isEmpty_iff] using h)]
  simp only [bind_eq_ok_iff, pure_eq_ok, Except.ok.injEq]
  constructor
  · intro hsplit
    obtain ⟨others, hothers, paid, hpaid, share, hshare, hshares⟩ := hsplit
    exact ⟨others, paid, share, hothers, hpaid, hshare, hshares.symm⟩
  · intro hsplit
    obtain ⟨others, paid, share, hothers, hpaid, hshare, hshares⟩ := hsplit
    exact ⟨others, hothers, paid, hpaid, share, hshare, hshares.symm⟩

/-- The main account takes what rounding leaves, so the whole amount is paid. -/
theorem total_splitByStake (h : splitByStake amount main mainStake subs = .ok shares) :
    shares.total = amount.toNat := by
  by_cases hwhole : subs = [] ∨ totalWeight subs + mainStake.toNat = 0
  · rw [splitByStake_whole hwhole] at h
    rw [← Except.ok.inj h]
    rfl
  · obtain ⟨others, paid, share, -, hpaid, hshare, hshares⟩ := (splitByStake_eq_ok_iff hwhole).1 h
    obtain ⟨hle, hshare_eq⟩ := Amount.sub_eq_ok_iff.1 hshare
    have hothers := toNat_sumShares hpaid
    have hpaid_le : paid.toNat ≤ amount.toNat := hle
    rw [hshares, Shares.total_cons]
    dsimp only
    omega

/-- Storage rewards have no shares exactly if there is nothing to share them by. -/
theorem storageShares_eq_none_iff :
    storageShares amount contributions = .ok none ↔ totalWeight contributions = 0 := by
  unfold storageShares
  dsimp only
  split
  · next hnone => exact iff_of_true rfl hnone
  · next hsome =>
    refine iff_of_false ?_ hsome
    intro h
    obtain ⟨paid, -, hpaid⟩ := bind_eq_ok_iff.1 h
    exact Option.some_ne_none paid (Except.ok.inj hpaid)

theorem storageShares_eq_some_iff :
    storageShares amount contributions = .ok (some shares) ↔ totalWeight contributions ≠ 0
      ∧ proportionalShares amount (totalWeight contributions) (contributions.filter (0 < ·.2))
        = .ok shares := by
  unfold storageShares
  dsimp only
  split
  · next hnone => simp [hnone]
  · next hsome => simp [hsome, bind_eq_ok_iff]

end

/-! ## The ledger -/

namespace RewardLedger

/-- All that the ledger shows as paid this year. -/
def paid (l : RewardLedger) : Nat :=
  l.totalActualRewards.toNat + l.actualCoinRewards.toNat + l.actualStorageRewards.toNat

/-- The ledger after a block that paid these sums. The last block of an epoch closes it before its
    producer is paid. -/
def book (l : RewardLedger) (epochEnd : Bool) (storage producer : Nat) : RewardLedger :=
  (if epochEnd then (l.recordStorage (.clamp storage)).rolloverEpoch else l).recordCoin
    (.clamp producer)

/-- No counter passes the top of its range when these sums are booked. -/
def Fits (l : RewardLedger) (epochEnd : Bool) (storage producer : Nat) : Prop :=
  if epochEnd then l.paid + storage ≤ Amount.max ∧ producer ≤ Amount.max
  else l.actualCoinRewards.toNat + producer ≤ Amount.max

@[simp] theorem surplusCoin_book (l : RewardLedger) (epochEnd : Bool) (storage producer : Nat) :
    (l.book epochEnd storage producer).surplusCoin = l.surplusCoin := by
  cases epochEnd <;> rfl

@[simp] theorem previousYearSurplus_book (l : RewardLedger) (epochEnd : Bool)
    (storage producer : Nat) :
    (l.book epochEnd storage producer).previousYearSurplus = l.previousYearSurplus := by
  cases epochEnd <;> rfl

theorem recordCoin_zero (l : RewardLedger) : l.recordCoin 0 = l := by
  rw [recordCoin, Amount.satAdd_zero]

theorem recordStorage_zero (l : RewardLedger) : l.recordStorage 0 = l := by
  rw [recordStorage, Amount.satAdd_zero]

theorem paid_recordCoin {l : RewardLedger} {n : Nat}
    (hfits : l.actualCoinRewards.toNat + n ≤ Amount.max) :
    (l.recordCoin (.clamp n)).paid = l.paid + n := by
  simp only [paid, recordCoin, Amount.toNat_satAdd, Amount.toNat_clamp]
  omega

theorem paid_recordStorage {l : RewardLedger} {n : Nat}
    (hfits : l.actualStorageRewards.toNat + n ≤ Amount.max) :
    (l.recordStorage (.clamp n)).paid = l.paid + n := by
  simp only [paid, recordStorage, Amount.toNat_satAdd, Amount.toNat_clamp]
  omega

/-- Closing an epoch moves what it paid into the year. -/
theorem paid_rolloverEpoch {l : RewardLedger} (hfits : l.paid ≤ Amount.max) :
    l.rolloverEpoch.paid = l.paid := by
  unfold paid at hfits
  simp only [paid, rolloverEpoch, Amount.toNat_satAdd, Amount.toNat_zero]
  omega

/-- What is booked is shown as paid, as long as no counter passes the top of its range. -/
theorem paid_book {l : RewardLedger} {epochEnd : Bool} {storage producer : Nat}
    (hstorage : epochEnd = false → storage = 0) (hfits : l.Fits epochEnd storage producer) :
    (l.book epochEnd storage producer).paid = l.paid + storage + producer := by
  unfold Fits at hfits
  unfold book
  cases epochEnd with
  | false =>
    rw [if_neg Bool.false_ne_true] at hfits ⊢
    rw [paid_recordCoin hfits, hstorage rfl, Nat.add_zero]
  | true =>
    rw [if_pos rfl] at hfits ⊢
    have hrecorded : (l.recordStorage (.clamp storage)).paid = l.paid + storage := by
      apply paid_recordStorage
      unfold paid at hfits
      omega
    have hclosed : (l.recordStorage (.clamp storage)).rolloverEpoch.paid = l.paid + storage := by
      rw [paid_rolloverEpoch (hrecorded ▸ hfits.1), hrecorded]
    -- the counter of the new epoch starts at zero
    have hcoin : (l.recordStorage (.clamp storage)).rolloverEpoch.actualCoinRewards.toNat
        + producer ≤ Amount.max := by
      simpa [rolloverEpoch] using hfits.2
    rw [paid_recordCoin hcoin, hclosed]

theorem paid_rolloverYear (l : RewardLedger) :
    l.rolloverYear.paid + l.totalActualRewards.toNat = l.paid := by
  simp only [paid, rolloverYear, Amount.toNat_zero]
  omega

end RewardLedger

/-! ## Opening a block -/

/-- What the start of a year takes out of the ledger: the closed epochs of the last one. -/
def takenOut (config : Config) (number : UInt64) (l : RewardLedger) : Nat :=
  if config.isYearStart number then l.totalActualRewards.toNat else 0

/-- Opening a block changes nothing about what is paid, apart from the start of a year. -/
theorem paid_openLedger (config : Config) (number : UInt64) (l : RewardLedger) :
    (openLedger config number l).paid + takenOut config number l = l.paid := by
  have hyear : ∀ l' : RewardLedger, l'.paid = l.paid →
      l'.totalActualRewards = l.totalActualRewards →
      (if config.isYearStart number then l'.rolloverYear else l').paid
        + takenOut config number l = l.paid := by
    intro l' hpaid htotal
    unfold takenOut
    split
    · rw [← hpaid, ← htotal, RewardLedger.paid_rolloverYear]
    · rw [hpaid, Nat.add_zero]
  unfold openLedger
  by_cases hone : number = 1
  · rw [if_pos hone]
    exact hyear _ rfl rfl
  · rw [if_neg hone]
    exact hyear l rfl rfl

/-- The pool is opened as it was left, but at block one and at the start of a year. -/
theorem openLedger_of_not_start {config : Config} {number : UInt64} (l : RewardLedger)
    (hone : number ≠ 1) (hyear : config.isYearStart number = false) :
    openLedger config number l = l := by
  unfold openLedger
  simp [hone, hyear]

end CommitteeConsensus
