import CommitteeConsensus.SampleLog.Search

/-! # What the searches of an ordered log find

    On an ordered log the samples at or after a block are the last ones of a range, and those at
    or before it the first ones. So a search finds the sample at the border, or there is none
    (`firstAtOrAfter_eq_some_iff`, `lastAtOrBefore_eq_some_iff`).
-/

namespace CommitteeConsensus.SampleLog

variable {log : SampleLog} {samples : Array Sample} {block : UInt64} {low high lo hi i : Nat}
  {x : Sample}

/-- The blocks increase with the index. -/
theorem Ordered.lt (h : log.Ordered) {i j : Nat} (hij : i < j) (hj : j < log.samples.size) :
    log.samples[i].block < log.samples[j].block := by
  have hpairs := List.pairwise_iff_getElem.1 h i j (by simp [blocks, toList]; omega)
    (by simpa [blocks, toList] using hj) hij
  simpa [blocks, toList] using hpairs

theorem Ordered.le (h : log.Ordered) {i j : Nat} (hij : i ≤ j) (hj : j < log.samples.size) :
    log.samples[i].block ≤ log.samples[j].block := by
  rcases Nat.lt_or_eq_of_le hij with hlt | rfl
  · exact UInt64.le_of_lt (h.lt hlt hj)
  · exact UInt64.le_refl _

/-! ## Searches -/

/-- What is left of a range from `low` on has only samples before the block below it, and keeps
    one at or after the block at its upper end. -/
theorem lowerBound_spec (hordered : (⟨samples⟩ : SampleLog).Ordered) (inside : hi < samples.size)
    (hrange : lo ≤ hi)
    (hbelow : ∀ j, (hj : j < samples.size) → low ≤ j → j < lo → samples[j].block < block)
    (hend : block ≤ samples[hi].block) :
    (∀ j, (hj : j < samples.size) → low ≤ j → j < lowerBound samples block lo hi inside →
        samples[j].block < block)
      ∧ ∀ hfound : lowerBound samples block lo hi inside < samples.size,
        block ≤ samples[lowerBound samples block lo hi inside].block := by
  fun_induction lowerBound samples block lo hi inside with
  | case1 lo hi inside hlt mid hmid hle ih => exact ih (by omega) hbelow hle
  | case2 lo hi inside hlt mid hmid hle ih =>
    apply ih (by omega) _ hend
    intro j hj _ hjmid
    have hbefore : samples[j].block ≤ samples[mid].block := hordered.le (by omega) hmid
    exact UInt64.lt_of_le_of_lt hbefore (UInt64.not_le.1 hle)
  | case3 lo hi inside hnot =>
    obtain rfl : lo = hi := by omega
    exact ⟨hbelow, fun _ => hend⟩

/-- Of a range that ends with a sample at or after the block, the lowest such sample is left. -/
theorem lowerBound_lowest (hordered : (⟨samples⟩ : SampleLog).Ordered) (inside : hi < samples.size)
    (hrange : lo ≤ hi) (hend : block ≤ samples[hi].block) :
    ∃ hfound : lowerBound samples block lo hi inside < samples.size,
      lo ≤ lowerBound samples block lo hi inside ∧ lowerBound samples block lo hi inside ≤ hi
        ∧ block ≤ samples[lowerBound samples block lo hi inside].block
        ∧ ∀ j, (hj : j < samples.size) → lo ≤ j → j < lowerBound samples block lo hi inside →
          samples[j].block < block := by
  have hnone : ∀ j, (hj : j < samples.size) → lo ≤ j → j < lo → samples[j].block < block :=
    fun j _ hle hlt => absurd hlt (Nat.not_lt.2 hle)
  obtain ⟨hbelow, hreached⟩ := lowerBound_spec hordered inside hrange hnone hend
  obtain ⟨hlow, hhigh⟩ := le_lowerBound inside hrange
  have hfound := Nat.lt_of_le_of_lt hhigh inside
  exact ⟨hfound, hlow, hhigh, hreached hfound, hbelow⟩

/-- What is left of a range up to `high` has only samples after the block above it, and keeps one
    at or before the block at its lower end. -/
theorem upperBound_spec (hordered : (⟨samples⟩ : SampleLog).Ordered) (inside : hi < samples.size)
    (hrange : lo ≤ hi)
    (habove : ∀ j, (hj : j < samples.size) → j ≤ high → hi < j → block < samples[j].block)
    (hstart : samples[lo].block ≤ block) :
    (∀ j, (hj : j < samples.size) → j ≤ high → upperBound samples block lo hi inside < j →
        block < samples[j].block)
      ∧ ∀ hfound : upperBound samples block lo hi inside < samples.size,
        samples[upperBound samples block lo hi inside].block ≤ block := by
  fun_induction upperBound samples block lo hi inside with
  | case1 lo hi inside hlt mid hmid hle ih => exact ih (by omega) habove hle
  | case2 lo hi inside hlt mid hmid hle ih =>
    apply ih (by omega) _ hstart
    intro j hj _ hjmid
    have hafter : samples[mid].block ≤ samples[j].block := hordered.le (by omega) hj
    exact UInt64.lt_of_lt_of_le (UInt64.not_le.1 hle) hafter
  | case3 lo hi inside hnot =>
    obtain rfl : lo = hi := by omega
    exact ⟨habove, fun _ => hstart⟩

/-- Of a range that starts with a sample at or before the block, the highest such sample is left. -/
theorem upperBound_highest (hordered : (⟨samples⟩ : SampleLog).Ordered) (inside : hi < samples.size)
    (hrange : lo ≤ hi) (hstart : samples[lo].block ≤ block) :
    ∃ hfound : upperBound samples block lo hi inside < samples.size,
      lo ≤ upperBound samples block lo hi inside ∧ upperBound samples block lo hi inside ≤ hi
        ∧ samples[upperBound samples block lo hi inside].block ≤ block
        ∧ ∀ j, (hj : j < samples.size) → j ≤ hi → upperBound samples block lo hi inside < j →
          block < samples[j].block := by
  have hnone : ∀ j, (hj : j < samples.size) → j ≤ hi → hi < j → block < samples[j].block :=
    fun j _ hle hlt => absurd hlt (Nat.not_lt.2 hle)
  obtain ⟨habove, hreached⟩ := upperBound_spec hordered inside hrange hnone hstart
  obtain ⟨hlow, hhigh⟩ := le_upperBound inside hrange
  have hfound := Nat.lt_of_le_of_lt hhigh inside
  exact ⟨hfound, hlow, hhigh, hreached hfound, habove⟩

/-- The search finds the lowest sample of the range at or after the block. -/
theorem firstAtOrAfter_eq_some_iff (h : log.Ordered) :
    log.firstAtOrAfter block lo hi = some (x, i)
      ↔ lo ≤ i ∧ i ≤ hi ∧ hi < log.size ∧ log.samples[i]? = some x ∧ block ≤ x.block
        ∧ ∀ j y, lo ≤ j → j < i → log.samples[j]? = some y → y.block < block := by
  unfold firstAtOrAfter
  constructor
  · intro hfound
    split at hfound
    · next hrange =>
      split at hfound
      · simp at hfound
      · next hend =>
        obtain ⟨hsize, hlow, hhigh, hreached, hbelow⟩ :=
          lowerBound_lowest h hrange.2 hrange.1 (UInt64.not_lt.1 hend)
        simp only [Option.some.injEq, Prod.mk.injEq] at hfound
        obtain ⟨rfl, rfl⟩ := hfound
        refine ⟨hlow, hhigh, hrange.2, Array.getElem?_eq_getElem hsize, hreached, ?_⟩
        intro j y hlow hlt hy
        obtain ⟨hj, rfl⟩ := Array.getElem?_eq_some_iff.1 hy
        exact hbelow j hj hlow hlt
    · simp at hfound
  · rintro ⟨hlow, hhigh, hsize, hx, hreached, hbelow⟩
    change hi < log.samples.size at hsize
    obtain ⟨hi', rfl⟩ := Array.getElem?_eq_some_iff.1 hx
    have hrange : lo ≤ hi ∧ hi < log.samples.size := ⟨Nat.le_trans hlow hhigh, hsize⟩
    have hend : block ≤ log.samples[hi].block := UInt64.le_trans hreached (h.le hhigh hsize)
    rw [dif_pos hrange, if_neg (UInt64.not_lt.2 hend)]
    obtain ⟨hfound, hlow', -, hreached', hbelow'⟩ := lowerBound_lowest h hrange.2 hrange.1 hend
    -- of two lowest samples neither is below the other
    have hsame : lowerBound log.samples block lo hi hrange.2 = i := by
      rcases Nat.lt_trichotomy (lowerBound log.samples block lo hi hrange.2) i with hlt | heq | hgt
      · have hbefore := hbelow _ _ hlow' hlt (Array.getElem?_eq_getElem hfound)
        exact absurd hbefore (UInt64.not_lt.2 hreached')
      · exact heq
      · exact absurd (hbelow' i hi' hlow hgt) (UInt64.not_lt.2 hreached)
    simp only [hsame]

/-- The search finds the highest sample of the range at or before the block. -/
theorem lastAtOrBefore_eq_some_iff (h : log.Ordered) :
    log.lastAtOrBefore block lo hi = some (x, i)
      ↔ lo ≤ i ∧ i ≤ hi ∧ hi < log.size ∧ log.samples[i]? = some x ∧ x.block ≤ block
        ∧ ∀ j y, i < j → j ≤ hi → log.samples[j]? = some y → block < y.block := by
  unfold lastAtOrBefore
  constructor
  · intro hfound
    split at hfound
    · next hrange =>
      dsimp only at hfound
      split at hfound
      · simp at hfound
      · next hstart =>
        obtain ⟨hsize, hlow, hhigh, hreached, habove⟩ :=
          upperBound_highest h hrange.2 hrange.1 (UInt64.not_lt.1 hstart)
        simp only [Option.some.injEq, Prod.mk.injEq] at hfound
        obtain ⟨rfl, rfl⟩ := hfound
        refine ⟨hlow, hhigh, hrange.2, Array.getElem?_eq_getElem hsize, hreached, ?_⟩
        intro j y hlt hhigh hy
        obtain ⟨hj, rfl⟩ := Array.getElem?_eq_some_iff.1 hy
        exact habove j hj hhigh hlt
    · simp at hfound
  · rintro ⟨hlow, hhigh, hsize, hx, hreached, habove⟩
    change hi < log.samples.size at hsize
    obtain ⟨hi', rfl⟩ := Array.getElem?_eq_some_iff.1 hx
    have hrange : lo ≤ hi ∧ hi < log.samples.size := ⟨Nat.le_trans hlow hhigh, hsize⟩
    have hstart : log.samples[lo].block ≤ block := UInt64.le_trans (h.le hlow hi') hreached
    rw [dif_pos hrange]
    dsimp only
    rw [if_neg (UInt64.not_lt.2 hstart)]
    obtain ⟨hfound, -, hhigh', hreached', habove'⟩ :=
      upperBound_highest h hrange.2 hrange.1 hstart
    have hsame : upperBound log.samples block lo hi hrange.2 = i := by
      rcases Nat.lt_trichotomy (upperBound log.samples block lo hi hrange.2) i with hlt | heq | hgt
      · exact absurd (habove' i hi' hhigh hlt) (UInt64.not_lt.2 hreached)
      · exact heq
      · have hafter := habove _ _ hgt hhigh' (Array.getElem?_eq_getElem hfound)
        exact absurd hafter (UInt64.not_lt.2 hreached')
    simp only [hsame]

/-- Over the whole log the range plays no part. -/
theorem firstAtOrAfter_all_iff (h : log.Ordered) :
    log.firstAtOrAfter block 0 (log.size - 1) = some (x, i)
      ↔ log.samples[i]? = some x ∧ block ≤ x.block
        ∧ ∀ j y, j < i → log.samples[j]? = some y → y.block < block := by
  rw [firstAtOrAfter_eq_some_iff h]
  constructor
  · rintro ⟨-, -, -, hx, hreached, hbelow⟩
    exact ⟨hx, hreached, fun j y hlt => hbelow j y (Nat.zero_le j) hlt⟩
  · rintro ⟨hx, hreached, hbelow⟩
    obtain ⟨hi', -⟩ := Array.getElem?_eq_some_iff.1 hx
    change i < log.size at hi'
    exact ⟨Nat.zero_le i, by omega, by omega, hx, hreached, fun j y _ hlt => hbelow j y hlt⟩

theorem lastAtOrBefore_all_iff (h : log.Ordered) :
    log.lastAtOrBefore block 0 (log.size - 1) = some (x, i)
      ↔ log.samples[i]? = some x ∧ x.block ≤ block
        ∧ ∀ j y, i < j → log.samples[j]? = some y → block < y.block := by
  rw [lastAtOrBefore_eq_some_iff h]
  constructor
  · rintro ⟨-, -, -, hx, hreached, habove⟩
    refine ⟨hx, hreached, fun j y hlt hy => ?_⟩
    obtain ⟨hj, -⟩ := Array.getElem?_eq_some_iff.1 hy
    change j < log.size at hj
    exact habove j y hlt (by omega) hy
  · rintro ⟨hx, hreached, habove⟩
    obtain ⟨hi', -⟩ := Array.getElem?_eq_some_iff.1 hx
    change i < log.size at hi'
    exact ⟨Nat.zero_le i, by omega, by omega, hx, hreached, fun j y hlt _ => habove j y hlt⟩

end CommitteeConsensus.SampleLog
