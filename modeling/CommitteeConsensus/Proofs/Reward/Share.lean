import CommitteeConsensus.Proofs.Reward.Booking
import CommitteeConsensus.Proofs.Word
import Mathlib.Data.List.Forall2

/-! # How much each account gets

    Every account of a list gets its part of the amount, rounded down (`ProRata`). Together the
    parts are no more than the amount, and miss it by less than one unit for each of them. A
    producer's main account takes what is missing, so a split pays the whole reward
    (`splitByStake_exact`); storage rewards leave it unpaid (`storageShares_exact`).

    An amount below `2 ^ 192` may be multiplied by any weight. So many accounts as a word can count
    have weights that sum to a number of 128 bits, which is an amount.
-/

namespace CommitteeConsensus

/-! ## Exact steps -/

namespace Amount

variable {a b : Amount}

theorem exists_exact {n : Nat} (h : n < bound) : ∃ c, exact n = .ok c ∧ c.toNat = n := by
  unfold exact
  rw [dif_pos h]
  exact ⟨_, rfl, rfl⟩

theorem exists_mul (h : a.toNat * b.toNat < bound) :
    ∃ c, mul a b = .ok c ∧ c.toNat = a.toNat * b.toNat :=
  exists_exact h

theorem exists_add (h : a.toNat + b.toNat < bound) :
    ∃ c, add a b = .ok c ∧ c.toNat = a.toNat + b.toNat :=
  exists_exact h

theorem exists_sub (h : b ≤ a) : ∃ c, sub a b = .ok c := by
  unfold sub
  rw [if_pos h]
  exact ⟨_, rfl⟩

theorem exists_div (h : b.toNat ≠ 0) : ∃ c, div a b = .ok c ∧ c.toNat = a.toNat / b.toNat := by
  unfold div
  rw [if_neg h]
  exact ⟨_, rfl, rfl⟩

theorem le_max_of_lt {n : Nat} (h : n < 2 ^ 128) : n ≤ max := by
  have hbits : 2 ^ 128 ≤ max := by decide
  omega

/-- An amount of `192` bits may be multiplied by a word. -/
theorem mul_word_lt {n : Nat} (hn : n < 2 ^ 192) (w : UInt64) : n * w.toNat < bound :=
  Nat.lt_of_lt_of_eq (Nat.mul_lt_mul'' hn w.toNat_lt) (by decide)

theorem exists_mul_div (ha : a.toNat < 2 ^ 192) (w : UInt64) {d : Amount} (hd : d.toNat ≠ 0) :
    ∃ product quotient, mul a (.ofWord w) = .ok product ∧ div product d = .ok quotient
      ∧ quotient.toNat = a.toNat * w.toNat / d.toNat := by
  obtain ⟨product, hproduct, hproduct_eq⟩ := exists_mul (a := a) (b := .ofWord w)
    (mul_word_lt ha w)
  obtain ⟨quotient, hquotient, hquotient_eq⟩ := exists_div (a := product) hd
  refine ⟨product, quotient, hproduct, hquotient, ?_⟩
  rw [hquotient_eq, hproduct_eq, toNat_ofWord]

end Amount

/-! ## Weights -/

section

variable {weights : Weights}

theorem totalWeight_eq_sum (weights : Weights) :
    totalWeight weights = (weights.map fun w => w.2.toNat).sum := by
  rw [totalWeight, Word.total_eq_sum, List.map_map]
  rfl

theorem totalWeight_eq_zero_iff : totalWeight weights = 0 ↔ ∀ w ∈ weights, w.2 = 0 := by
  rw [totalWeight_eq_sum, List.sum_eq_zero_iff_forall_eq_nat, List.forall_mem_map]
  simp only [← UInt64.toNat_inj, UInt64.toNat_zero]

/-- Those without a weight count nothing. -/
theorem totalWeight_filter_pos (weights : Weights) :
    totalWeight (weights.filter (0 < ·.2)) = totalWeight weights := by
  rw [totalWeight_eq_sum, totalWeight_eq_sum]
  induction weights with
  | nil => rfl
  | cons w rest ih =>
    rw [List.filter_cons]
    split
    · rw [List.map_cons, List.map_cons, List.sum_cons, List.sum_cons, ih]
    · next hnone =>
      have hzero : w.2.toNat = 0 := by
        rw [decide_eq_true_eq, UInt64.lt_iff_toNat_lt, UInt64.toNat_zero] at hnone
        omega
      rw [List.map_cons, List.sum_cons, hzero, Nat.zero_add, ih]

theorem totalWeight_le_length_mul (weights : Weights) :
    totalWeight weights ≤ weights.length * Word.max := by
  have hle := Word.total_le_length_mul (weights.map Prod.snd)
  rwa [List.length_map] at hle

/-- So many weights sum to a number of 128 bits, with one more. -/
theorem totalWeight_add_lt (h : weights.length < Word.bound) (w : UInt64) :
    totalWeight weights + w.toNat < 2 ^ 128 := by
  have hle : weights.length * Word.max ≤ Word.max * Word.max :=
    Nat.mul_le_mul_right _ (Nat.le_sub_one_of_lt h)
  have hweights := totalWeight_le_length_mul weights
  have hword := Word.toNat_le_max w
  have hmax : Word.max * Word.max + Word.max < 2 ^ 128 := by decide
  omega

end

/-! ## Parts in proportion -/

/-- What an account gets of an amount in proportion to its weight. -/
def IsShare (amount total : Nat) (w : Address × UInt64) (s : Address × Amount) : Prop :=
  s.1 = w.1 ∧ s.2.toNat = amount * w.2.toNat / total

/-- Each account of the list gets its part, in the order of the list. -/
def ProRata (amount total : Nat) : Weights → Shares → Prop := List.Forall₂ (IsShare amount total)

namespace ProRata

variable {amount total : Nat} {weights : Weights} {shares : Shares}

theorem total_eq (h : ProRata amount total weights shares) : shares.total
    = ((weights.map fun w => w.2.toNat).map fun w => amount * w / total).sum := by
  unfold ProRata at h
  induction h with
  | nil => rfl
  | cons hshare _ ih =>
    rw [Shares.total_cons, List.map_cons, List.map_cons, List.sum_cons, hshare.2, ih]

theorem length_eq (h : ProRata amount total weights shares) : shares.length = weights.length :=
  (List.Forall₂.length_eq h).symm

theorem total_le (h : ProRata amount total weights shares)
    (hweights : totalWeight weights ≤ total) : shares.total ≤ amount := by
  rw [h.total_eq]
  exact sum_map_mul_div_le amount (totalWeight_eq_sum weights ▸ hweights)

theorem lt_total_add_length (h : ProRata amount total weights shares) (hpositive : 0 < total)
    (hweights : totalWeight weights = total) : amount < shares.total + shares.length := by
  have hlt := lt_sum_map_mul_div_add_length amount hpositive (totalWeight_eq_sum weights ▸ hweights)
  rwa [List.length_map, ← h.total_eq, ← h.length_eq] at hlt

/-- What an account gets does not fall with its weight. -/
theorem mono (h : ProRata amount total weights shares) {w w' : Address × UInt64}
    {s s' : Address × Amount} (hs : (w, s) ∈ weights.zip shares)
    (hs' : (w', s') ∈ weights.zip shares) (hle : w.2 ≤ w'.2) : s.2 ≤ s'.2 := by
  obtain ⟨-, hshare⟩ := List.forall₂_iff_zip.1 h
  show s.2.toNat ≤ s'.2.toNat
  rw [(hshare hs).2, (hshare hs').2]
  exact Nat.div_le_div_right (Nat.mul_le_mul_left amount (UInt64.le_iff_toNat_le.1 hle))

end ProRata

section

variable {amount : Amount} {weights : Weights} {shares : Shares} {total : Nat}

theorem proRata_of_proportionalShares (hpositive : 0 < total) (htotal : total ≤ Amount.max)
    (h : proportionalShares amount total weights = .ok shares) :
    ProRata amount.toNat total weights shares := by
  rw [proportionalShares_of_pos amount hpositive] at h
  split at h
  · next hfits =>
    rw [← Except.ok.inj h]
    refine List.forall₂_map_right_iff.2 (List.forall₂_same.2 fun w hw => ⟨rfl, ?_⟩)
    have hle : amount.toNat * w.2.toNat / total ≤ Amount.max :=
      Nat.le_trans (Nat.div_le_self _ _) (Nat.le_sub_one_of_lt (hfits w hw))
    show (roundedPart amount total w.2).toNat = _
    rw [roundedPart, Amount.toNat_clamp, Amount.toNat_clamp, Nat.min_eq_left htotal,
      Nat.min_eq_left hle]
  · simp at h

/-- The parts of an amount below `2 ^ 192` can be computed. -/
theorem exists_proRata (hamount : amount.toNat < 2 ^ 192) (hpositive : 0 < total)
    (htotal : total ≤ Amount.max) (weights : Weights) :
    ∃ shares, proportionalShares amount total weights = .ok shares
      ∧ ProRata amount.toNat total weights shares := by
  have hok : ∃ shares, proportionalShares amount total weights = .ok shares := by
    rw [proportionalShares_of_pos amount hpositive, if_pos]
    · exact ⟨_, rfl⟩
    · intro w _
      exact Amount.mul_word_lt hamount w.2
  obtain ⟨shares, hshares⟩ := hok
  exact ⟨shares, hshares, proRata_of_proportionalShares hpositive htotal hshares⟩

end

/-! ## A producer's reward -/

section

variable {amount : Amount} {main : Address} {mainStake : UInt64} {subs : Weights} {total : Nat}

theorem exists_foldlM_add {shares : Shares} {start : Amount}
    (h : start.toNat + shares.total < Amount.bound) :
    ∃ sum, shares.foldlM (fun sum s => sum.add s.2) start = .ok sum := by
  induction shares generalizing start with
  | nil => exact ⟨start, rfl⟩
  | cons share rest ih =>
    rw [Shares.total_cons] at h
    obtain ⟨next, hnext, hnext_eq⟩ := Amount.exists_add (a := start) (b := share.2) (by omega)
    have hrest : next.toNat + Shares.total rest < Amount.bound := by omega
    obtain ⟨sum, hsum⟩ := ih hrest
    exact ⟨sum, by rw [List.foldlM_cons, hnext, ok_bind, hsum]⟩

/-- The bound accounts never get more than there is, so the main account's share can be computed. -/
theorem exists_splitByStake_parts (hamount : amount.toNat < 2 ^ 192) (main : Address)
    (hsplit : ¬(subs = [] ∨ total = 0)) (htotal : totalWeight subs + mainStake.toNat = total)
    (hmax : total ≤ Amount.max) :
    ∃ share others paid, splitByStake amount main mainStake subs = .ok ((main, share) :: others)
      ∧ sumShares others = .ok paid ∧ amount.sub paid = .ok share
      ∧ ProRata amount.toNat total subs others := by
  have hpositive : 0 < total := Nat.pos_of_ne_zero (not_or.1 hsplit).2
  obtain ⟨others, hothers, hparts⟩ := exists_proRata hamount hpositive hmax subs
  have hothers_le : others.total ≤ amount.toNat := hparts.total_le (by omega)
  have hlt := amount.toNat_lt
  obtain ⟨paid, hpaid⟩ : ∃ paid, sumShares others = .ok paid :=
    exists_foldlM_add (by rw [Amount.toNat_zero]; omega)
  have hpaid_le : paid ≤ amount := by
    show paid.toNat ≤ amount.toNat
    rw [toNat_sumShares hpaid]
    exact hothers_le
  obtain ⟨share, hshare⟩ := Amount.exists_sub hpaid_le
  subst htotal
  exact ⟨share, others, paid,
    (splitByStake_eq_ok_iff hsplit).2 ⟨others, paid, share, hothers, hpaid, hshare, rfl⟩,
    hpaid, hshare, hparts⟩

/-- A producer's reward can be split. -/
theorem exists_splitByStake (hamount : amount.toNat < 2 ^ 192) (main : Address)
    (hmax : totalWeight subs + mainStake.toNat ≤ Amount.max) :
    ∃ shares, splitByStake amount main mainStake subs = .ok shares := by
  by_cases hwhole : subs = [] ∨ totalWeight subs + mainStake.toNat = 0
  · exact ⟨_, splitByStake_whole hwhole⟩
  · obtain ⟨share, others, -, hsplit, -⟩ := exists_splitByStake_parts hamount main hwhole rfl hmax
    exact ⟨_, hsplit⟩

/-- The main account's share lies less than one unit for each account above its part. -/
theorem ProRata.remainder_bounds {amount share : Nat} {others : Shares}
    (h : ProRata amount total subs others) (hpositive : 0 < total)
    (htotal : totalWeight subs + mainStake.toNat = total)
    (hwhole : share + others.total = amount) :
    amount * mainStake.toNat / total ≤ share
      ∧ share ≤ amount * mainStake.toNat / total + subs.length := by
  -- the main account is one more among those whose parts are rounded down
  have hsum : (mainStake.toNat :: subs.map fun w => w.2.toNat).sum = total := by
    rw [List.sum_cons, ← totalWeight_eq_sum, Nat.add_comm, htotal]
  have hle := sum_map_mul_div_le amount hsum.le
  have hlt := lt_sum_map_mul_div_add_length amount hpositive hsum
  rw [List.map_cons, List.sum_cons, ← h.total_eq] at hle hlt
  rw [List.length_cons, List.length_map] at hlt
  omega

/-- A reward below `2 ^ 192` is split to the last unit, over any list of accounts that a word can
    count. The bound accounts get their parts, and what they are paid together can be taken from the
    reward; the main account comes first and gets its part with what rounding has left. -/
theorem splitByStake_exact (hamount : amount.toNat < 2 ^ 192) (main : Address)
    (hlength : subs.length < Word.bound) (htotal : totalWeight subs + mainStake.toNat = total) :
    ∃ share others paid, splitByStake amount main mainStake subs = .ok ((main, share) :: others)
      ∧ sumShares others = .ok paid ∧ amount.sub paid = .ok share
      ∧ Shares.total ((main, share) :: others) = amount.toNat
      ∧ (subs = [] ∨ total = 0 → share = amount ∧ others = [])
      ∧ (subs ≠ [] → 0 < total → ProRata amount.toNat total subs others
        ∧ amount.toNat * mainStake.toNat / total ≤ share.toNat
        ∧ share.toNat ≤ amount.toNat * mainStake.toNat / total + subs.length) := by
  have hmax : total ≤ Amount.max :=
    Amount.le_max_of_lt (htotal ▸ totalWeight_add_lt hlength mainStake)
  by_cases hwhole : subs = [] ∨ total = 0
  · -- nothing is paid before the main account, which gets all
    have hsplit : splitByStake amount main mainStake subs = .ok [(main, amount)] :=
      splitByStake_whole (htotal ▸ hwhole)
    have hsub : amount.sub 0 = .ok amount := Amount.sub_eq_ok_iff.2 ⟨Nat.zero_le _, rfl⟩
    refine ⟨amount, [], 0, hsplit, rfl, hsub, total_splitByStake hsplit, fun _ => ⟨rfl, rfl⟩, ?_⟩
    intro hsubs hpositive
    exact absurd hwhole (not_or.2 ⟨hsubs, hpositive.ne'⟩)
  · obtain ⟨share, others, paid, hsplit, hpaid, hshare, hparts⟩ :=
      exists_splitByStake_parts hamount main hwhole htotal hmax
    have hall : Shares.total ((main, share) :: others) = amount.toNat := total_splitByStake hsplit
    refine ⟨share, others, paid, hsplit, hpaid, hshare, hall, fun h => absurd h hwhole, ?_⟩
    intro _ hpositive
    rw [Shares.total_cons] at hall
    exact ⟨hparts, hparts.remainder_bounds hpositive htotal hall⟩

/-- Accounts bound to the first one: another one twice, and itself without stake. -/
def Weights.repeated : Weights := [(.ofNat 20 2, 1), (.ofNat 20 1, 0), (.ofNat 20 2, 1)]

theorem splitByStake_exact_repeated : (Amount.ofWord 100).toNat < 2 ^ 192
    ∧ Weights.repeated.length < Word.bound
    ∧ ∃ share others, splitByStake (.ofWord 100) (.ofNat 20 1) 1 .repeated
        = .ok ((.ofNat 20 1, share) :: others)
      ∧ ProRata 100 3 .repeated others ∧ share.toNat = 34 := by
  have hamount : (Amount.ofWord 100).toNat < 2 ^ 192 := by decide
  have hlength : Weights.repeated.length < Word.bound := by decide
  have htotal : totalWeight .repeated + (1 : UInt64).toNat = 3 := by decide
  obtain ⟨share, others, paid, hsplit, -, -, hall, -, hparts⟩ :=
    splitByStake_exact hamount (.ofNat 20 1) hlength htotal
  obtain ⟨hothers, -⟩ := hparts (by decide) (by decide)
  have hothers_total : Shares.total others = 66 := hothers.total_eq.trans (by decide)
  rw [Shares.total_cons, hothers_total] at hall
  exact ⟨hamount, hlength, share, others, hsplit, hothers, Nat.add_right_cancel hall⟩

end

/-! ## Storage rewards -/

section

variable {plan : Amount} {contributions : Weights}

/-- The plan is shared out over those who contributed. -/
theorem exists_storageShares_parts (hplan : plan.toNat < 2 ^ 192)
    (hpositive : 0 < totalWeight contributions) (hmax : totalWeight contributions ≤ Amount.max) :
    ∃ shares, storageShares plan contributions = .ok (some shares)
      ∧ ProRata plan.toNat (totalWeight contributions) (contributions.filter (0 < ·.2)) shares := by
  obtain ⟨shares, hshares, hparts⟩ := exists_proRata hplan hpositive hmax
    (contributions.filter (0 < ·.2))
  exact ⟨shares, storageShares_eq_some_iff.2 ⟨hpositive.ne', hshares⟩, hparts⟩

theorem exists_storageShares (hplan : plan.toNat < 2 ^ 192)
    (hmax : totalWeight contributions ≤ Amount.max) :
    ∃ shares?, storageShares plan contributions = .ok shares? := by
  by_cases hnone : totalWeight contributions = 0
  · exact ⟨none, storageShares_eq_none_iff.2 hnone⟩
  · obtain ⟨shares, hshares, -⟩ :=
      exists_storageShares_parts hplan (Nat.pos_of_ne_zero hnone) hmax
    exact ⟨some shares, hshares⟩

/-- The storage rewards of an epoch are together no more than its plan, as long as its
    contributions can be summed up. -/
theorem total_storageShares_le {shares : Shares} (hmax : totalWeight contributions ≤ Amount.max)
    (h : storageShares plan contributions = .ok (some shares)) : shares.total ≤ plan.toNat := by
  obtain ⟨hsome, hshares⟩ := storageShares_eq_some_iff.1 h
  have hparts := proRata_of_proportionalShares (Nat.pos_of_ne_zero hsome) hmax hshares
  exact hparts.total_le (totalWeight_filter_pos contributions).le

/-- A plan below `2 ^ 192` is shared out, over any list of accounts that a word can count. Those who
    contributed are paid in the order of the list, each by its contribution and none more than one
    that contributed more, and less than one unit for each of them is left. There are no shares if
    and only if nobody contributed. -/
theorem storageShares_exact (hplan : plan.toNat < 2 ^ 192)
    (hlength : contributions.length < Word.bound) :
    (storageShares plan contributions = .ok none ↔ ∀ c ∈ contributions, c.2 = 0)
    ∧ ((∃ c ∈ contributions, c.2 ≠ 0) →
      ∃ shares, storageShares plan contributions = .ok (some shares)
        ∧ ProRata plan.toNat (totalWeight contributions) (contributions.filter (0 < ·.2)) shares
        ∧ shares.total ≤ plan.toNat ∧ plan.toNat - shares.total < shares.length
        ∧ ∀ c s c' s', (c, s) ∈ (contributions.filter (0 < ·.2)).zip shares →
          (c', s') ∈ (contributions.filter (0 < ·.2)).zip shares → c.2 ≤ c'.2 → s.2 ≤ s'.2) := by
  have hmax : totalWeight contributions ≤ Amount.max :=
    Amount.le_max_of_lt (totalWeight_add_lt hlength 0)
  refine ⟨storageShares_eq_none_iff.trans totalWeight_eq_zero_iff, ?_⟩
  intro hsome
  obtain ⟨c, hc, hcontributed⟩ := hsome
  have hpositive : 0 < totalWeight contributions :=
    Nat.pos_of_ne_zero fun hnone => hcontributed (totalWeight_eq_zero_iff.1 hnone c hc)
  obtain ⟨shares, hshares, hparts⟩ := exists_storageShares_parts hplan hpositive hmax
  have hall := totalWeight_filter_pos contributions
  have hle := hparts.total_le hall.le
  have hlt := hparts.lt_total_add_length hpositive hall
  refine ⟨shares, hshares, hparts, hle, by omega, ?_⟩
  intro c s c' s' hs hs' hcc'
  exact hparts.mono hs hs' hcc'

/-- Some contributed, one of them twice, and one did not. -/
def Weights.uneven : Weights :=
  [(.ofNat 20 1, 1), (.ofNat 20 2, 3), (.ofNat 20 3, 0), (.ofNat 20 2, 3)]

theorem storageShares_exact_uneven : (Amount.ofWord 1000).toNat < 2 ^ 192
    ∧ Weights.uneven.length < Word.bound ∧ (∃ c ∈ Weights.uneven, c.2 ≠ 0)
    ∧ ∃ shares, storageShares (.ofWord 1000) .uneven = .ok (some shares)
      ∧ ProRata 1000 7 [(.ofNat 20 1, 1), (.ofNat 20 2, 3), (.ofNat 20 2, 3)] shares
      ∧ shares.total = 998 ∧ 1000 - shares.total < shares.length := by
  have hplan : (Amount.ofWord 1000).toNat < 2 ^ 192 := by decide
  have hlength : Weights.uneven.length < Word.bound := by decide
  have hsome : ∃ c ∈ Weights.uneven, c.2 ≠ 0 := ⟨(.ofNat 20 1, 1), by decide, by decide⟩
  obtain ⟨shares, hshares, hparts, -, hleft, -⟩ := (storageShares_exact hplan hlength).2 hsome
  exact ⟨hplan, hlength, hsome, shares, hshares, hparts, hparts.total_eq.trans (by decide), hleft⟩

end

end CommitteeConsensus
