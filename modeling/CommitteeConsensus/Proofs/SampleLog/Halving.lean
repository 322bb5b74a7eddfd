import CommitteeConsensus.Proofs.SampleLog.Growth
import Mathlib.Order.Bounds.Basic

/-! # Searches of a range

    On an ordered log a search finds the lowest index of its range from a block on, or the highest
    one up to a block (`firstAtOrAfter_isLeast`, `lastAtOrBefore_isGreatest`), and nothing only if
    the range is not one of the log or has no such index.

    A log that was read from text may have its samples in any order. What a search finds there
    means little, but it is found without a fault. `lowerRound` and `upperRound` are the rounds of
    the two loops with everything checked that could go wrong in them: looking outside of the range
    that the search was given, and going below index zero. Each round leaves at most half of what
    was left before it, so a range is searched in as many rounds as its width has binary digits
    (`firstWithin_eq_ok`, `lastWithin_eq_ok`).
-/

namespace CommitteeConsensus.SampleLog

variable {log : SampleLog} {block : UInt64} {low high lo hi i : Nat} {x : Sample}

theorem out_of_range_iff :
    hi < lo ∨ log.size ≤ hi ↔ ¬ (lo ≤ hi ∧ hi < log.samples.size) := by
  rw [size]
  omega

/-! ## What is found on an ordered log -/

/-- The indices of a range whose sample is at or after the block. -/
def indicesFrom (log : SampleLog) (block : UInt64) (lo hi : Nat) : Set Nat :=
  {i | lo ≤ i ∧ i ≤ hi ∧ ∃ x, log.samples[i]? = some x ∧ block ≤ x.block}

/-- The indices of a range whose sample is at or before the block. -/
def indicesUpTo (log : SampleLog) (block : UInt64) (lo hi : Nat) : Set Nat :=
  {i | lo ≤ i ∧ i ≤ hi ∧ ∃ x, log.samples[i]? = some x ∧ x.block ≤ block}

theorem firstAtOrAfter_isLeast (h : log.Ordered) :
    log.firstAtOrAfter block lo hi = some (x, i)
      ↔ hi < log.size ∧ IsLeast (log.indicesFrom block lo hi) i ∧ log.samples[i]? = some x := by
  rw [firstAtOrAfter_eq_some_iff h]
  constructor
  · intro hfound
    obtain ⟨hlow, hhigh, hsize, hx, hreached, hbelow⟩ := hfound
    refine ⟨hsize, ⟨⟨hlow, hhigh, x, hx, hreached⟩, ?_⟩, hx⟩
    intro j hj
    obtain ⟨hjlow, -, y, hy, hyreached⟩ := hj
    by_contra hlt
    exact UInt64.not_lt.2 hyreached (hbelow j y hjlow (Nat.lt_of_not_le hlt) hy)
  · intro hfound
    obtain ⟨hsize, ⟨⟨hlow, hhigh, y, hy, hreached⟩, hleast⟩, hx⟩ := hfound
    obtain rfl : y = x := Option.some.inj (hy.symm.trans hx)
    refine ⟨hlow, hhigh, hsize, hx, hreached, ?_⟩
    intro j z hjlow hlt hz
    by_contra hnot
    have hle : i ≤ j := hleast ⟨hjlow, by omega, z, hz, UInt64.not_lt.1 hnot⟩
    omega

theorem lastAtOrBefore_isGreatest (h : log.Ordered) :
    log.lastAtOrBefore block lo hi = some (x, i)
      ↔ hi < log.size ∧ IsGreatest (log.indicesUpTo block lo hi) i
        ∧ log.samples[i]? = some x := by
  rw [lastAtOrBefore_eq_some_iff h]
  constructor
  · intro hfound
    obtain ⟨hlow, hhigh, hsize, hx, hreached, habove⟩ := hfound
    refine ⟨hsize, ⟨⟨hlow, hhigh, x, hx, hreached⟩, ?_⟩, hx⟩
    intro j hj
    obtain ⟨-, hjhigh, y, hy, hyreached⟩ := hj
    by_contra hlt
    exact UInt64.not_lt.2 hyreached (habove j y (Nat.lt_of_not_le hlt) hjhigh hy)
  · intro hfound
    obtain ⟨hsize, ⟨⟨hlow, hhigh, y, hy, hreached⟩, hgreatest⟩, hx⟩ := hfound
    obtain rfl : y = x := Option.some.inj (hy.symm.trans hx)
    refine ⟨hlow, hhigh, hsize, hx, hreached, ?_⟩
    intro j z hlt hjhigh hz
    by_contra hnot
    have hle : j ≤ i := hgreatest ⟨by omega, hjhigh, z, hz, UInt64.not_lt.1 hnot⟩
    omega

/-- Nothing is found in a range of the log whose last sample is before the block. -/
theorem firstAtOrAfter_eq_none (log : SampleLog) :
    log.firstAtOrAfter block lo hi = none
      ↔ ∀ hrange : lo ≤ hi ∧ hi < log.samples.size, log.samples[hi].block < block := by
  unfold firstAtOrAfter
  split
  · next hrange => simp [hrange]
  · next hrange => simp [hrange]

/-- Nothing is found in a range of the log whose first sample is after the block. -/
theorem lastAtOrBefore_eq_none (log : SampleLog) :
    log.lastAtOrBefore block lo hi = none
      ↔ ∀ hrange : lo ≤ hi ∧ hi < log.samples.size, block < log.samples[lo].block := by
  unfold lastAtOrBefore
  split
  · next hrange => simp [hrange]
  · next hrange => simp [hrange]

theorem firstAtOrAfter_eq_none_iff (h : log.Ordered) :
    log.firstAtOrAfter block lo hi = none
      ↔ hi < lo ∨ log.size ≤ hi ∨ log.indicesFrom block lo hi = ∅ := by
  constructor
  · intro hnone
    rw [firstAtOrAfter_eq_none] at hnone
    by_cases hrange : lo ≤ hi ∧ hi < log.samples.size
    · right; right
      rw [Set.eq_empty_iff_forall_notMem]
      intro i hi'
      obtain ⟨-, hhigh, x, hx, hreached⟩ := hi'
      obtain ⟨hsize, rfl⟩ := Array.getElem?_eq_some_iff.1 hx
      -- the last sample of the range would be at or after the block as well
      have hend : block ≤ log.samples[hi].block := UInt64.le_trans hreached (h.le hhigh hrange.2)
      exact UInt64.not_lt.2 hend (hnone hrange)
    · rw [← or_assoc]
      exact .inl (out_of_range_iff.2 hrange)
  · intro hwhy
    cases hfound : log.firstAtOrAfter block lo hi with
    | none => rfl
    | some found =>
      obtain ⟨hsize, hleast, -⟩ := (firstAtOrAfter_isLeast h).1 hfound
      have hrange : lo ≤ hi := Nat.le_trans hleast.1.1 hleast.1.2.1
      rcases hwhy with hinverted | hout | hempty
      · omega
      · omega
      · rw [hempty] at hleast
        exact absurd hleast.1 (Set.notMem_empty _)

theorem lastAtOrBefore_eq_none_iff (h : log.Ordered) :
    log.lastAtOrBefore block lo hi = none
      ↔ hi < lo ∨ log.size ≤ hi ∨ log.indicesUpTo block lo hi = ∅ := by
  constructor
  · intro hnone
    rw [lastAtOrBefore_eq_none] at hnone
    by_cases hrange : lo ≤ hi ∧ hi < log.samples.size
    · right; right
      rw [Set.eq_empty_iff_forall_notMem]
      intro i hi'
      obtain ⟨hlow, -, x, hx, hreached⟩ := hi'
      obtain ⟨hsize, rfl⟩ := Array.getElem?_eq_some_iff.1 hx
      have hstart : log.samples[lo].block ≤ block := UInt64.le_trans (h.le hlow hsize) hreached
      exact UInt64.not_lt.2 hstart (hnone hrange)
    · rw [← or_assoc]
      exact .inl (out_of_range_iff.2 hrange)
  · intro hwhy
    cases hfound : log.lastAtOrBefore block lo hi with
    | none => rfl
    | some found =>
      obtain ⟨hsize, hgreatest, -⟩ := (lastAtOrBefore_isGreatest h).1 hfound
      have hrange : lo ≤ hi := Nat.le_trans hgreatest.1.1 hgreatest.1.2.1
      rcases hwhy with hinverted | hout | hempty
      · omega
      · omega
      · rw [hempty] at hgreatest
        exact absurd hgreatest.1 (Set.notMem_empty _)

/-! ## Rounds of a search -/

/-- What could go wrong in a search. -/
inductive SearchFault
  | outside (index : Nat)
  | belowZero
  | endless
deriving DecidableEq

/-- The sample at an index of the range `[low, high]`. -/
def look (log : SampleLog) (low high i : Nat) : Except SearchFault Sample :=
  match log.samples[i]? with
  | some x => if low ≤ i ∧ i ≤ high then .ok x else .error (.outside i)
  | none => .error (.outside i)

/-- The difference of two indices, which is an index too. -/
def minus (m n : Nat) : Except SearchFault Nat := if n ≤ m then .ok (m - n) else .error .belowZero

/-- What a round of `lowerBound` leaves of a range, in a search of the range `[low, high]`. -/
def lowerRound (log : SampleLog) (block : UInt64) (low high : Nat) (range : Nat × Nat) :
    Except SearchFault (Nat × Nat) := do
  let mid := range.1 + (← minus range.2 range.1) / 2
  if block ≤ (← log.look low high mid).block then return (range.1, mid)
  else return (mid + 1, range.2)

/-- What a round of `upperBound` leaves of a range, in a search of the range `[low, high]`. -/
def upperRound (log : SampleLog) (block : UInt64) (low high : Nat) (range : Nat × Nat) :
    Except SearchFault (Nat × Nat) := do
  let mid := range.1 + ((← minus range.2 range.1) + 1) / 2
  if (← log.look low high mid).block ≤ block then return (mid, range.2)
  else return (range.1, ← minus mid 1)

/-- Round after round until a range has one index left, but no more than `rounds` of them. -/
def narrow (round : Nat × Nat → Except SearchFault (Nat × Nat)) :
    Nat → Nat × Nat → Except SearchFault Nat
  | 0, range => if range.1 < range.2 then .error .endless else .ok range.1
  | rounds + 1, range =>
    if range.1 < range.2 then do narrow round rounds (← round range) else .ok range.1

/-- `firstAtOrAfter` with every round checked, in no more than `rounds` of them. -/
def firstWithin (log : SampleLog) (rounds : Nat) (block : UInt64) (lo hi : Nat) :
    Except SearchFault (Option (Sample × Nat)) := do
  if hi < lo ∨ log.size ≤ hi then return none
  if (← log.look lo hi hi).block < block then return none
  let i ← narrow (log.lowerRound block lo hi) rounds (lo, hi)
  return some (← log.look lo hi i, i)

/-- `lastAtOrBefore` with every round checked, in no more than `rounds` of them. -/
def lastWithin (log : SampleLog) (rounds : Nat) (block : UInt64) (lo hi : Nat) :
    Except SearchFault (Option (Sample × Nat)) := do
  if hi < lo ∨ log.size ≤ hi then return none
  if block < (← log.look lo hi lo).block then return none
  let i ← narrow (log.upperRound block lo hi) rounds (lo, hi)
  return some (← log.look lo hi i, i)

/-! ## No faults -/

theorem look_eq_ok (hi : i < log.samples.size) (hlow : low ≤ i) (hhigh : i ≤ high) :
    log.look low high i = .ok log.samples[i] := by
  simp [look, hi, hlow, hhigh]

theorem minus_eq_ok {m n : Nat} (h : n ≤ m) : minus m n = .ok (m - n) := if_pos h

/-- A range that a round halves can be searched in one round less. -/
theorem narrow_of_round {round : Nat × Nat → Except SearchFault (Nat × Nat)} {rounds : Nat}
    {range next : Nat × Nat} (hlt : range.1 < range.2) (hround : round range = .ok next)
    (hhalf : next.2 - next.1 ≤ (range.2 - range.1) / 2)
    (hrounds : range.2 - range.1 < Nat.pow 2 rounds) :
    ∃ fewer, narrow round rounds range = narrow round fewer next
      ∧ next.2 - next.1 < Nat.pow 2 fewer := by
  cases rounds with
  | zero =>
    have hpow : Nat.pow 2 0 = 1 := rfl
    omega
  | succ fewer =>
    refine ⟨fewer, ?_, ?_⟩
    · rw [narrow, if_pos hlt, hround, ok_bind]
    · have hpow : Nat.pow 2 (fewer + 1) = Nat.pow 2 fewer * 2 := rfl
      omega

theorem narrow_of_one {round : Nat × Nat → Except SearchFault (Nat × Nat)} (rounds : Nat) :
    narrow round rounds (i, i) = .ok i := by
  have hdone : ¬ (i, i).1 < (i, i).2 := Nat.lt_irrefl i
  cases rounds with
  | zero => exact if_neg hdone
  | succ rounds => exact if_neg hdone

theorem lowerRound_eq_ok (hmid : lo + (hi - lo) / 2 < log.samples.size) (hlow : low ≤ lo)
    (hrange : lo ≤ hi) (hhigh : hi ≤ high) :
    log.lowerRound block low high (lo, hi)
      = .ok (if block ≤ log.samples[lo + (hi - lo) / 2].block then (lo, lo + (hi - lo) / 2)
          else (lo + (hi - lo) / 2 + 1, hi)) := by
  unfold lowerRound
  rw [minus_eq_ok hrange, ok_bind]
  dsimp only
  rw [look_eq_ok hmid (by omega) (by omega), ok_bind]
  split
  · rfl
  · rfl

/-- The middle of a range that has two indices is above its lower end, so there is one below it. -/
theorem upperRound_eq_ok (hmid : lo + (hi - lo + 1) / 2 < log.samples.size) (hlow : low ≤ lo)
    (hlt : lo < hi) (hhigh : hi ≤ high) :
    log.upperRound block low high (lo, hi)
      = .ok (if log.samples[lo + (hi - lo + 1) / 2].block ≤ block
          then (lo + (hi - lo + 1) / 2, hi) else (lo, lo + (hi - lo + 1) / 2 - 1)) := by
  unfold upperRound
  rw [minus_eq_ok (Nat.le_of_lt hlt), ok_bind]
  dsimp only
  rw [look_eq_ok hmid (by omega) (by omega), ok_bind]
  split
  · rfl
  · rw [minus_eq_ok (by omega), ok_bind]
    rfl

/-- The rounds of the first search come to the index that it finds. -/
theorem narrow_lowerRound (inside : hi < log.samples.size) (hlow : low ≤ lo) (hrange : lo ≤ hi)
    (hhigh : hi ≤ high) : ∀ rounds, hi - lo < Nat.pow 2 rounds →
      narrow (log.lowerRound block low high) rounds (lo, hi)
        = .ok (lowerBound log.samples block lo hi inside) := by
  fun_induction lowerBound log.samples block lo hi inside with
  | case1 lo hi inside hlt mid hmid hle ih =>
    intro rounds hrounds
    have hround : log.lowerRound block low high (lo, hi) = _ :=
      lowerRound_eq_ok hmid hlow hrange hhigh
    rw [if_pos hle] at hround
    obtain ⟨fewer, hnarrow, hfewer⟩ := narrow_of_round hlt hround (by dsimp only; omega) hrounds
    rw [hnarrow]
    exact ih hlow (by omega) (by omega) fewer hfewer
  | case2 lo hi inside hlt mid hmid hnot ih =>
    intro rounds hrounds
    have hround : log.lowerRound block low high (lo, hi) = _ :=
      lowerRound_eq_ok hmid hlow hrange hhigh
    rw [if_neg hnot] at hround
    obtain ⟨fewer, hnarrow, hfewer⟩ := narrow_of_round hlt hround (by dsimp only; omega) hrounds
    rw [hnarrow]
    exact ih (by omega) (by omega) hhigh fewer hfewer
  | case3 lo hi inside hnot =>
    intro rounds _
    obtain rfl : lo = hi := by omega
    exact narrow_of_one rounds

/-- The rounds of the last search come to the index that it finds. -/
theorem narrow_upperRound (inside : hi < log.samples.size) (hlow : low ≤ lo) (hrange : lo ≤ hi)
    (hhigh : hi ≤ high) : ∀ rounds, hi - lo < Nat.pow 2 rounds →
      narrow (log.upperRound block low high) rounds (lo, hi)
        = .ok (upperBound log.samples block lo hi inside) := by
  fun_induction upperBound log.samples block lo hi inside with
  | case1 lo hi inside hlt mid hmid hle ih =>
    intro rounds hrounds
    have hround : log.upperRound block low high (lo, hi) = _ :=
      upperRound_eq_ok hmid hlow hlt hhigh
    rw [if_pos hle] at hround
    obtain ⟨fewer, hnarrow, hfewer⟩ := narrow_of_round hlt hround (by dsimp only; omega) hrounds
    rw [hnarrow]
    exact ih (by omega) (by omega) hhigh fewer hfewer
  | case2 lo hi inside hlt mid hmid hnot ih =>
    intro rounds hrounds
    have hround : log.upperRound block low high (lo, hi) = _ :=
      upperRound_eq_ok hmid hlow hlt hhigh
    rw [if_neg hnot] at hround
    obtain ⟨fewer, hnarrow, hfewer⟩ := narrow_of_round hlt hround (by dsimp only; omega) hrounds
    rw [hnarrow]
    exact ih hlow (by omega) (by omega) fewer hfewer
  | case3 lo hi inside hnot =>
    intro rounds _
    obtain rfl : lo = hi := by omega
    exact narrow_of_one rounds

/-- Whatever the log and the range, the first search has no fault, and ends. -/
theorem firstWithin_eq_ok (log : SampleLog) (block : UInt64) {rounds : Nat}
    (hrounds : hi - lo < Nat.pow 2 rounds) :
    log.firstWithin rounds block lo hi = .ok (log.firstAtOrAfter block lo hi) := by
  unfold firstWithin firstAtOrAfter
  by_cases hrange : lo ≤ hi ∧ hi < log.samples.size
  · have hin : ¬ (hi < lo ∨ log.size ≤ hi) := fun hout => out_of_range_iff.1 hout hrange
    rw [if_neg hin, dif_pos hrange, look_eq_ok hrange.2 hrange.1 (Nat.le_refl hi), ok_bind]
    split
    · rfl
    · obtain ⟨hlow, hhigh⟩ := le_lowerBound hrange.2 hrange.1
      have hnarrow : narrow (log.lowerRound block lo hi) rounds (lo, hi) = _ :=
        narrow_lowerRound hrange.2 (Nat.le_refl lo) hrange.1 (Nat.le_refl hi) rounds hrounds
      rw [hnarrow, ok_bind, look_eq_ok (Nat.lt_of_le_of_lt hhigh hrange.2) hlow hhigh, ok_bind]
      rfl
  · rw [if_pos (out_of_range_iff.2 hrange), dif_neg hrange, pure_eq_ok]

/-- Whatever the log and the range, the last search has no fault, and ends. -/
theorem lastWithin_eq_ok (log : SampleLog) (block : UInt64) {rounds : Nat}
    (hrounds : hi - lo < Nat.pow 2 rounds) :
    log.lastWithin rounds block lo hi = .ok (log.lastAtOrBefore block lo hi) := by
  unfold lastWithin lastAtOrBefore
  by_cases hrange : lo ≤ hi ∧ hi < log.samples.size
  · have hin : ¬ (hi < lo ∨ log.size ≤ hi) := fun hout => out_of_range_iff.1 hout hrange
    have hfirst : lo < log.samples.size := Nat.lt_of_le_of_lt hrange.1 hrange.2
    rw [if_neg hin, dif_pos hrange, look_eq_ok hfirst (Nat.le_refl lo) hrange.1, ok_bind]
    split
    · rfl
    · obtain ⟨hlow, hhigh⟩ := le_upperBound hrange.2 hrange.1
      have hnarrow : narrow (log.upperRound block lo hi) rounds (lo, hi) = _ :=
        narrow_upperRound hrange.2 (Nat.le_refl lo) hrange.1 (Nat.le_refl hi) rounds hrounds
      rw [hnarrow, ok_bind, look_eq_ok (Nat.lt_of_le_of_lt hhigh hrange.2) hlow hhigh, ok_bind]
      rfl
  · rw [if_pos (out_of_range_iff.2 hrange), dif_neg hrange, pure_eq_ok]

/-! ## Both searches -/

/-- What is found is in the range, with its sample, in whatever order the log is. -/
theorem firstAtOrAfter_inside (hfound : log.firstAtOrAfter block lo hi = some (x, i)) :
    lo ≤ i ∧ i ≤ hi ∧ log.samples[i]? = some x := by
  unfold firstAtOrAfter at hfound
  split at hfound
  · next hrange =>
    split at hfound
    · simp at hfound
    · obtain ⟨rfl, rfl⟩ := Prod.mk.inj (Option.some.inj hfound)
      obtain ⟨hlow, hhigh⟩ := le_lowerBound hrange.2 hrange.1
      exact ⟨hlow, hhigh, Array.getElem?_eq_getElem _⟩
  · simp at hfound

theorem lastAtOrBefore_inside (hfound : log.lastAtOrBefore block lo hi = some (x, i)) :
    lo ≤ i ∧ i ≤ hi ∧ log.samples[i]? = some x := by
  unfold lastAtOrBefore at hfound
  split at hfound
  · next hrange =>
    dsimp only at hfound
    split at hfound
    · simp at hfound
    · obtain ⟨rfl, rfl⟩ := Prod.mk.inj (Option.some.inj hfound)
      obtain ⟨hlow, hhigh⟩ := le_upperBound hrange.2 hrange.1
      exact ⟨hlow, hhigh, Array.getElem?_eq_getElem _⟩
  · simp at hfound

/-- On an ordered log the searches find the lowest index of their range from a block on, and the
    highest one up to it, with the samples that stand there; they find nothing only where the range
    is inverted, is not one of the log, or has no such index. On any log at all they end without a
    fault, after no more rounds than the width of the range has binary digits, and find no index
    outside of the range. -/
theorem searches_exact (log : SampleLog) :
    (log.Ordered → ∀ block lo hi,
      (∀ x i, log.firstAtOrAfter block lo hi = some (x, i)
          ↔ hi < log.size ∧ IsLeast (log.indicesFrom block lo hi) i ∧ log.samples[i]? = some x)
        ∧ (log.firstAtOrAfter block lo hi = none
          ↔ hi < lo ∨ log.size ≤ hi ∨ log.indicesFrom block lo hi = ∅)
        ∧ (∀ x i, log.lastAtOrBefore block lo hi = some (x, i)
          ↔ hi < log.size ∧ IsGreatest (log.indicesUpTo block lo hi) i ∧ log.samples[i]? = some x)
        ∧ (log.lastAtOrBefore block lo hi = none
          ↔ hi < lo ∨ log.size ≤ hi ∨ log.indicesUpTo block lo hi = ∅))
      ∧ ∀ block lo hi,
        (∀ rounds, hi - lo < Nat.pow 2 rounds →
          log.firstWithin rounds block lo hi = .ok (log.firstAtOrAfter block lo hi)
            ∧ log.lastWithin rounds block lo hi = .ok (log.lastAtOrBefore block lo hi))
        ∧ ∀ x i, log.firstAtOrAfter block lo hi = some (x, i)
            ∨ log.lastAtOrBefore block lo hi = some (x, i) →
          lo ≤ i ∧ i ≤ hi ∧ log.samples[i]? = some x := by
  constructor
  · intro h block lo hi
    exact ⟨fun _ _ => firstAtOrAfter_isLeast h, firstAtOrAfter_eq_none_iff h,
      fun _ _ => lastAtOrBefore_isGreatest h, lastAtOrBefore_eq_none_iff h⟩
  · intro block lo hi
    constructor
    · intro rounds hrounds
      exact ⟨firstWithin_eq_ok log block hrounds, lastWithin_eq_ok log block hrounds⟩
    · intro x i hfound
      rcases hfound with hfirst | hlast
      · exact firstAtOrAfter_inside hfirst
      · exact lastAtOrBefore_inside hlast

/-- The samples of `falling` the wrong way round, as only a text can have them. -/
def jumbled : SampleLog := ⟨#[⟨7, 4⟩, ⟨3, 9⟩, ⟨0, 5⟩]⟩

/-- Around block 5 the searches of `falling` find what is there. From block 8 on there is nothing.
    Of the jumbled log the last search sees only the first sample, and misses two up to block 5. -/
theorem searches_exact_falling :
    falling.Ordered
      ∧ falling.firstAtOrAfter 5 0 2 = some (⟨7, 4⟩, 2) ∧ IsLeast (falling.indicesFrom 5 0 2) 2
      ∧ falling.lastAtOrBefore 5 0 2 = some (⟨3, 9⟩, 1) ∧ IsGreatest (falling.indicesUpTo 5 0 2) 1
      ∧ falling.firstAtOrAfter 8 0 2 = none ∧ falling.indicesFrom 8 0 2 = ∅
      ∧ ¬ jumbled.Ordered ∧ jumbled.lastAtOrBefore 5 0 2 = none
      ∧ jumbled.firstAtOrAfter 0 0 2 = some (⟨7, 4⟩, 0) := by
  have hordered : falling.Ordered := by decide
  obtain ⟨hexact, hfinds⟩ := searches_exact falling
  obtain ⟨hfirst, -, hlast, -⟩ := hexact hordered 5 0 2
  obtain ⟨-, hnone, -⟩ := hexact hordered 8 0 2
  -- a range of three is searched in two rounds
  obtain ⟨hfirst5, hlast5⟩ := (hfinds 5 0 2).1 2 (by decide)
  obtain ⟨hfirst8, -⟩ := (hfinds 8 0 2).1 2 (by decide)
  have h5 : falling.firstAtOrAfter 5 0 2 = some (⟨7, 4⟩, 2) :=
    Except.ok.inj (hfirst5.symm.trans (by decide))
  have h5' : falling.lastAtOrBefore 5 0 2 = some (⟨3, 9⟩, 1) :=
    Except.ok.inj (hlast5.symm.trans (by decide))
  have h8 : falling.firstAtOrAfter 8 0 2 = none := Except.ok.inj (hfirst8.symm.trans (by decide))
  have hempty : falling.indicesFrom 8 0 2 = ∅ := by
    rcases hnone.1 h8 with hinverted | hout | hempty
    · exact absurd hinverted (by decide)
    · exact absurd hout (by decide)
    · exact hempty
  have hjumbled := (searches_exact jumbled).2
  obtain ⟨-, hmissed⟩ := (hjumbled 5 0 2).1 2 (by decide)
  obtain ⟨hseen, -⟩ := (hjumbled 0 0 2).1 2 (by decide)
  exact ⟨hordered, h5, ((hfirst _ _).1 h5).2.1, h5', ((hlast _ _).1 h5').2.1, h8, hempty,
    by decide, Except.ok.inj (hmissed.symm.trans (by decide)),
    Except.ok.inj (hseen.symm.trans (by decide))⟩

end CommitteeConsensus.SampleLog
