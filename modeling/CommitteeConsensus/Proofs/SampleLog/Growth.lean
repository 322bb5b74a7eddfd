import CommitteeConsensus.Proofs.SampleLog.Built
import CommitteeConsensus.Proofs.SampleLog.Search

/-! # Growth over a window

    The two searches of `rangeDiff` find the first sample of a window and its last one, or cross if
    it has none (`head?_window_iff`, `getLast?_window_iff`). So growth is what the samples of the
    window say, counted in natural numbers (`toNat_rangeDiff`), and does not depend on what is
    sampled after the window (`rangeDiff_upTo`).
-/

namespace CommitteeConsensus

theorem Word.ne_zero_of_lt {a b : UInt64} (h : a < b) : b ≠ 0 := by
  intro hzero
  rw [hzero] at h
  exact UInt64.not_lt_zero h

namespace SampleLog

variable {log : SampleLog} {x y : Sample} {block start stop : UInt64} {i j : Nat}

/-! ## Samples of a window -/

/-- The samples of a window of blocks, in order. -/
def window (log : SampleLog) (start stop : UInt64) : List Sample :=
  log.toList.filter fun x => start ≤ x.block ∧ x.block ≤ stop

theorem mem_window :
    x ∈ log.window start stop ↔ x ∈ log.toList ∧ start ≤ x.block ∧ x.block ≤ stop := by
  rw [window, List.mem_filter, decide_eq_true_iff]

theorem Ordered.pairwise_window (h : log.Ordered) (start stop : UInt64) :
    (log.window start stop).Pairwise fun x y => x.block < y.block :=
  (ordered_iff.1 h).sublist List.filter_sublist

/-! ## What the searches find -/

theorem getElem?_iff_split :
    log.samples[i]? = some x
      ↔ ∃ before after, log.toList = before ++ x :: after ∧ before.length = i := by
  rw [← Array.getElem?_toList]
  show log.toList[i]? = some x ↔ _
  constructor
  · intro hx
    obtain ⟨hi, rfl⟩ := List.getElem?_eq_some_iff.1 hx
    refine ⟨log.toList.take i, log.toList.drop (i + 1), ?_, ?_⟩
    · rw [← List.drop_eq_getElem_cons hi, List.take_append_drop]
    · exact List.length_take_of_le (Nat.le_of_lt hi)
  · intro hsplit
    obtain ⟨before, after, heq, rfl⟩ := hsplit
    rw [heq, List.getElem?_append_right (Nat.le_refl _), Nat.sub_self]
    rfl

/-- The search finds the sample that has all samples before the block in front of it. -/
theorem firstAtOrAfter_iff_split (h : log.Ordered) :
    log.firstAtOrAfter block 0 (log.size - 1) = some (x, i)
      ↔ block ≤ x.block ∧ ∃ before after, log.toList = before ++ x :: after ∧ before.length = i
        ∧ ∀ y ∈ before, y.block < block := by
  rw [firstAtOrAfter_all_iff h]
  constructor
  · intro hfound
    obtain ⟨hx, hreached, hbelow⟩ := hfound
    obtain ⟨before, after, heq, rfl⟩ := getElem?_iff_split.1 hx
    refine ⟨hreached, before, after, heq, rfl, fun y hy => ?_⟩
    obtain ⟨before', after', rfl⟩ := List.append_of_mem hy
    apply hbelow before'.length y (by simp)
    exact getElem?_iff_split.2 ⟨before', after' ++ x :: after, by simp [heq], rfl⟩
  · intro hsplit
    obtain ⟨hreached, before, after, heq, rfl, hbelow⟩ := hsplit
    refine ⟨getElem?_iff_split.2 ⟨before, after, heq, rfl⟩, hreached, fun j y hj hy => ?_⟩
    rw [← Array.getElem?_toList] at hy
    change log.toList[j]? = some y at hy
    rw [heq, List.getElem?_append_left hj] at hy
    exact hbelow y (List.mem_of_getElem? hy)

/-- The search finds the sample that has all samples after the block behind it. -/
theorem lastAtOrBefore_iff_split (h : log.Ordered) :
    log.lastAtOrBefore block 0 (log.size - 1) = some (x, i)
      ↔ x.block ≤ block ∧ ∃ before after, log.toList = before ++ x :: after ∧ before.length = i
        ∧ ∀ y ∈ after, block < y.block := by
  rw [lastAtOrBefore_all_iff h]
  constructor
  · intro hfound
    obtain ⟨hx, hreached, habove⟩ := hfound
    obtain ⟨before, after, heq, rfl⟩ := getElem?_iff_split.1 hx
    refine ⟨hreached, before, after, heq, rfl, fun y hy => ?_⟩
    obtain ⟨before', after', rfl⟩ := List.append_of_mem hy
    apply habove (before ++ x :: before').length y (by simp)
    exact getElem?_iff_split.2 ⟨before ++ x :: before', after', by simp [heq], rfl⟩
  · intro hsplit
    obtain ⟨hreached, before, after, heq, rfl, habove⟩ := hsplit
    refine ⟨getElem?_iff_split.2 ⟨before, after, heq, rfl⟩, hreached, fun j y hj hy => ?_⟩
    obtain ⟨k, rfl⟩ := Nat.exists_eq_add_of_lt hj
    rw [← Array.getElem?_toList] at hy
    change log.toList[before.length + k + 1]? = some y at hy
    rw [heq, List.append_cons, List.getElem?_append_right (by simp), List.length_append] at hy
    exact habove y (List.mem_of_getElem? hy)

/-- The first sample of a window is the one that the search from its start finds, unless that is
    after the window. -/
theorem head?_window_iff (h : log.Ordered) :
    (log.window start stop).head? = some x
      ↔ x.block ≤ stop ∧ ∃ i, log.firstAtOrAfter start 0 (log.size - 1) = some (x, i) := by
  simp only [firstAtOrAfter_iff_split h]
  rw [window, List.head?_filter, List.find?_eq_some_iff_append, decide_eq_true_iff]
  constructor
  · intro hfound
    obtain ⟨⟨hstart, hstop⟩, before, after, heq, hnone⟩ := hfound
    refine ⟨hstop, before.length, hstart, before, after, heq, rfl, fun y hy => ?_⟩
    have hout := hnone y hy
    have hle := UInt64.le_of_lt ((h.split heq).1 y hy)
    simp only [Bool.not_eq_true', decide_eq_false_iff_not, not_and] at hout
    by_contra hnot
    exact hout (UInt64.not_lt.1 hnot) (UInt64.le_trans hle hstop)
  · intro hfound
    obtain ⟨hstop, i, hstart, before, after, heq, -, hbelow⟩ := hfound
    refine ⟨⟨hstart, hstop⟩, before, after, heq, fun y hy => ?_⟩
    have hlt := hbelow y hy
    simp [UInt64.not_le.2 hlt]

/-- The last sample of a window is the one that the search from its end finds, unless that is
    before the window. -/
theorem getLast?_window_iff (h : log.Ordered) :
    (log.window start stop).getLast? = some x
      ↔ start ≤ x.block ∧ ∃ i, log.lastAtOrBefore stop 0 (log.size - 1) = some (x, i) := by
  simp only [lastAtOrBefore_iff_split h]
  rw [window, List.getLast?_filter, List.find?_eq_some_iff_append, decide_eq_true_iff]
  constructor
  · intro hfound
    obtain ⟨⟨hstart, hstop⟩, after, before, heq, hnone⟩ := hfound
    have heq : log.toList = before.reverse ++ x :: after.reverse := by
      simpa using congrArg List.reverse heq
    refine ⟨hstart, _, hstop, before.reverse, after.reverse, heq, rfl, fun y hy => ?_⟩
    have hout := hnone y (List.mem_reverse.1 hy)
    have hle := UInt64.le_of_lt ((h.split heq).2 y hy)
    simp only [Bool.not_eq_true', decide_eq_false_iff_not, not_and] at hout
    exact UInt64.not_le.1 (hout (UInt64.le_trans hstart hle))
  · intro hfound
    obtain ⟨hstart, i, hstop, before, after, heq, -, habove⟩ := hfound
    refine ⟨⟨hstart, hstop⟩, after.reverse, before.reverse, by simp [heq], fun y hy => ?_⟩
    have hlt := habove y (List.mem_reverse.1 hy)
    simp [UInt64.not_le.2 hlt]

/-! ## Growth -/

/-- Growth over the samples of a window that starts at a block: from the first value to the last,
    if it is higher. A sample of block zero adds its value to a window from there. -/
def growth (start : UInt64) : List Sample → Nat
  | [] => 0
  | first :: rest =>
    let last := (first :: rest).getLast (List.cons_ne_nil first rest)
    last.value.toNat - first.value.toNat
      + if start = 0 ∧ first.block = 0 then first.value.toNat else 0

/-- Growth from one sample that was found to another, at their indices. -/
def climb (first later : Sample × Nat) : UInt64 :=
  if first.2 < later.2 ∧ first.1.value < later.1.value then later.1.value - first.1.value else 0

theorem rangeDiff_of_found {first later : Sample × Nat}
    (hfirst : log.firstAtOrAfter start 0 (log.size - 1) = some first)
    (hlater : log.lastAtOrBefore stop 0 (log.size - 1) = some later) :
    log.rangeDiff start stop
      = if start = 0 ∧ first.1.block = 0 then Word.satAdd (climb first later) first.1.value
        else climb first later := by
  unfold rangeDiff
  dsimp only
  rw [hfirst, hlater]
  rfl

theorem toNat_climb (first later : Sample × Nat) :
    (climb first later).toNat
      = if first.2 < later.2 then later.1.value.toNat - first.1.value.toNat else 0 := by
  unfold climb
  by_cases hindex : first.2 < later.2
  · by_cases hvalue : first.1.value < later.1.value
    · rw [if_pos ⟨hindex, hvalue⟩, if_pos hindex,
        UInt64.toNat_sub_of_le _ _ (UInt64.le_of_lt hvalue)]
    · rw [if_neg (fun h => hvalue h.2), if_pos hindex]
      rw [UInt64.lt_iff_toNat_lt] at hvalue
      exact (Nat.sub_eq_zero_of_le (Nat.not_lt.1 hvalue)).symm
  · rw [if_neg (fun h => hindex h.1), if_neg hindex]
    rfl

/-- What is added for block zero stays in its word: it makes up the last value, or the first one. -/
theorem climb_add_le_max (first later : Sample × Nat) :
    (climb first later).toNat + first.1.value.toNat ≤ Word.max := by
  have hfirst := Word.toNat_le_max first.1.value
  have hlater := Word.toNat_le_max later.1.value
  rw [toNat_climb]
  split <;> omega

theorem toNat_rangeDiff_of_found {first later : Sample × Nat}
    (hfirst : log.firstAtOrAfter start 0 (log.size - 1) = some first)
    (hlater : log.lastAtOrBefore stop 0 (log.size - 1) = some later) :
    (log.rangeDiff start stop).toNat = (climb first later).toNat
      + if start = 0 ∧ first.1.block = 0 then first.1.value.toNat else 0 := by
  rw [rangeDiff_of_found hfirst hlater]
  split
  · rw [Word.toNat_satAdd, Nat.min_eq_left (climb_add_le_max first later)]
  · rfl

theorem Ordered.index_lt_iff (h : log.Ordered) (hx : log.samples[i]? = some x)
    (hy : log.samples[j]? = some y) : i < j ↔ x.block < y.block := by
  obtain ⟨hi, rfl⟩ := Array.getElem?_eq_some_iff.1 hx
  obtain ⟨hj, rfl⟩ := Array.getElem?_eq_some_iff.1 hy
  constructor
  · intro hlt
    exact h.lt hlt hj
  · intro hlt
    by_contra hnot
    exact UInt64.not_le.2 hlt (h.le (Nat.not_lt.1 hnot) hi)

/-- Around a window without samples the searches cross. -/
theorem rangeDiff_of_window_eq_nil (h : log.Ordered) (hnil : log.window start stop = []) :
    log.rangeDiff start stop = 0 := by
  cases hfirst : log.firstAtOrAfter start 0 (log.size - 1) with
  | none => simp [rangeDiff, hfirst]
  | some first =>
    cases hlater : log.lastAtOrBefore stop 0 (log.size - 1) with
    | none => simp [rangeDiff, hfirst, hlater]
    | some later =>
      obtain ⟨first, i⟩ := first
      obtain ⟨later, j⟩ := later
      have hafter : stop < first.block := by
        apply UInt64.not_le.1
        intro hle
        have hhead := (head?_window_iff h).2 ⟨hle, i, hfirst⟩
        simp [hnil] at hhead
      obtain ⟨hx, -⟩ := (firstAtOrAfter_all_iff h).1 hfirst
      obtain ⟨hy, hbefore, -⟩ := (lastAtOrBefore_all_iff h).1 hlater
      have hcross : ¬ i < j := by
        rw [h.index_lt_iff hx hy]
        exact UInt64.not_lt.2 (UInt64.le_trans hbefore (UInt64.le_of_lt hafter))
      have hzero : first.block ≠ 0 := Word.ne_zero_of_lt hafter
      rw [rangeDiff_of_found hfirst hlater, if_neg (fun hboth => hzero hboth.2)]
      exact if_neg fun hboth => hcross hboth.1

/-- Of two samples in a window or more, the last one is after the first. -/
theorem first_lt_getLast (h : log.Ordered) {first second : Sample} {rest : List Sample}
    (hwindow : log.window start stop = first :: second :: rest) :
    first.block < ((first :: second :: rest).getLast (List.cons_ne_nil first _)).block := by
  have hpairs := h.pairwise_window start stop
  rw [hwindow] at hpairs
  rw [List.getLast_cons_cons]
  exact (List.pairwise_cons.1 hpairs).1 _ (List.getLast_mem _)

/-- Growth over a window is what its samples say. -/
theorem toNat_rangeDiff (h : log.Ordered) (start stop : UInt64) :
    (log.rangeDiff start stop).toNat = growth start (log.window start stop) := by
  cases hwindow : log.window start stop with
  | nil =>
    rw [rangeDiff_of_window_eq_nil h hwindow]
    rfl
  | cons first rest =>
    have hnonempty : first :: rest ≠ [] := List.cons_ne_nil first rest
    have hlast : (log.window start stop).getLast? = some ((first :: rest).getLast hnonempty) := by
      rw [hwindow, List.getLast?_eq_some_getLast hnonempty]
    obtain ⟨-, i, hfirst⟩ := (head?_window_iff h).1 (by rw [hwindow]; rfl)
    obtain ⟨-, j, hlater⟩ := (getLast?_window_iff h).1 hlast
    rw [toNat_rangeDiff_of_found hfirst hlater, toNat_climb]
    dsimp only [growth]
    congr 1
    cases rest with
    | nil => simp
    | cons second rest =>
      obtain ⟨hx, -⟩ := (firstAtOrAfter_all_iff h).1 hfirst
      obtain ⟨hy, -⟩ := (lastAtOrBefore_all_iff h).1 hlater
      have hlt : i < j := (h.index_lt_iff hx hy).2 (first_lt_getLast h hwindow)
      rw [if_pos hlt]

/-! ## Samples up to a block -/

/-- The log as it was when the block was the latest one. -/
def upTo (log : SampleLog) (block : UInt64) : SampleLog :=
  ⟨log.samples.filter (·.block ≤ block)⟩

theorem toList_upTo (log : SampleLog) (block : UInt64) :
    (log.upTo block).toList = log.toList.filter (·.block ≤ block) :=
  Array.toList_filter

theorem Ordered.upTo (h : log.Ordered) (block : UInt64) : (log.upTo block).Ordered := by
  have hsub : (log.upTo block).blocks.Sublist log.blocks := by
    rw [blocks, toList_upTo]
    exact List.filter_sublist.map _
  exact h.sublist hsub

theorem window_upTo (hstop : stop ≤ block) :
    (log.upTo block).window start stop = log.window start stop := by
  rw [window, window, toList_upTo, List.filter_filter]
  apply List.filter_congr
  intro x _
  rw [← Bool.decide_and, decide_eq_decide]
  constructor
  · exact And.left
  · intro hin
    exact ⟨hin, UInt64.le_trans hin.2 hstop⟩

/-- Growth over a window does not look at samples after the window. -/
theorem rangeDiff_upTo (h : log.Ordered) (start : UInt64) {stop : UInt64} (hstop : stop ≤ block) :
    (log.upTo block).rangeDiff start stop = log.rangeDiff start stop := by
  apply UInt64.toNat_inj.1
  rw [toNat_rangeDiff (h.upTo block), toNat_rangeDiff h, window_upTo hstop]

/-! ## Logs that are built -/

theorem window_of_inverted (hlt : stop < start) : log.window start stop = [] := by
  rw [window, List.filter_eq_nil_iff]
  intro x _ hin
  obtain ⟨hstart, hstop⟩ := of_decide_eq_true hin
  exact UInt64.not_le.2 hlt (UInt64.le_trans hstart hstop)

/-- Whatever the window of a log that was built, its growth is what the samples of the window say:
    none for an inverted window, and never more than its word can hold, so nothing is cut off where
    the value of block zero is added. -/
theorem Built.growth_over_window (h : log.Built) :
    (∀ start stop, (log.rangeDiff start stop).toNat = growth start (log.window start stop))
      ∧ (∀ start stop, stop < start → log.rangeDiff start stop = 0)
      ∧ ∀ start stop first later, log.firstAtOrAfter start 0 (log.size - 1) = some first →
        log.lastAtOrBefore stop 0 (log.size - 1) = some later →
        (log.rangeDiff start stop
            = if start = 0 ∧ first.1.block = 0 then Word.satAdd (climb first later) first.1.value
              else climb first later)
          ∧ (climb first later).toNat + first.1.value.toNat ≤ Word.max := by
  refine ⟨toNat_rangeDiff h.ordered, ?_, ?_⟩
  · intro start stop hlt
    exact rangeDiff_of_window_eq_nil h.ordered (window_of_inverted hlt)
  · intro start stop first later hfirst hlater
    exact ⟨rangeDiff_of_found hfirst hlater, climb_add_le_max first later⟩

/-! ## A log with a fall -/

/-- The value falls after block 3. -/
def falling : SampleLog := ⟨#[⟨0, 5⟩, ⟨3, 9⟩, ⟨7, 4⟩]⟩

theorem built_falling : falling.Built := by
  have hsamples : ofSamples falling.toList = .ok falling := rfl
  exact .ofSamples hsamples

/-- The first value counts in a window from block zero, and a fall does not count. -/
theorem growth_over_window_falling :
    falling.Built ∧ (falling.rangeDiff 0 3).toNat = 9 ∧ (falling.rangeDiff 1 9).toNat = 0
      ∧ (falling.rangeDiff 0 0).toNat = 5 ∧ falling.rangeDiff 3 0 = 0 := by
  obtain ⟨hgrowth, hinverted, -⟩ := built_falling.growth_over_window
  refine ⟨built_falling, ?_, ?_, ?_, hinverted 3 0 (by decide)⟩
  · rw [hgrowth]
    decide
  · rw [hgrowth]
    decide
  · rw [hgrowth]
    decide

end SampleLog

end CommitteeConsensus
