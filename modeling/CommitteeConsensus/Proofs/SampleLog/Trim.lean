import CommitteeConsensus.Proofs.SampleLog.Growth
import Mathlib.Data.List.TakeDrop

/-! # Trimming a log

    Trimming at a block keeps the samples from that block on, or the last sample alone if there are
    none (`toList_trimBefore_eq`). The log that was trimmed and the log that was not may differ from
    then on for good, because a sample of an earlier block that is kept alone stays in front of the
    later ones. But they have the same last sample and the same samples from the block on
    (`SameFrom`). Whether a sample is accepted depends on the last one only, so this stays so
    whatever is added (`SameFrom.offerEach`), and nothing else shows in the latest value or in
    growth over a window from the block on.
-/

namespace CommitteeConsensus.SampleLog

variable {log log' next next' : SampleLog} {s x : Sample} {samples : Array Sample}
  {block start stop : UInt64} {base size : Nat}

/-! ## What is kept -/

/-- The samples from a block on. -/
def since (log : SampleLog) (block : UInt64) : List Sample :=
  log.toList.filter (block ≤ ·.block)

theorem mem_since : x ∈ log.since block ↔ x ∈ log.toList ∧ block ≤ x.block := by
  rw [since, List.mem_filter, decide_eq_true_iff]

/-- The search parts a log at the block: samples before it are in front, and the others behind. -/
theorem partitionPoint_spec (block : UInt64) (hordered : (⟨samples⟩ : SampleLog).Ordered)
    (inside : base + size ≤ samples.size)
    (hfront : ∀ j, (hj : j < samples.size) → j < base → samples[j].block < block)
    (hback : ∀ j, (hj : j < samples.size) → base + size ≤ j → block ≤ samples[j].block) :
    (∀ j, (hj : j < samples.size) → j < partitionPoint samples block base size inside →
        samples[j].block < block)
      ∧ ∀ j, (hj : j < samples.size) → partitionPoint samples block base size inside ≤ j →
        block ≤ samples[j].block := by
  fun_induction partitionPoint samples block base size inside with
  | case1 base size inside hlt half hhalf hbelow ih =>
    -- the samples up to the middle one are before the block, and those behind are as they were
    apply ih
    · intro j hj hle
      have hbefore : samples[j].block ≤ samples[base + half].block := hordered.le (by omega) hhalf
      exact UInt64.lt_of_le_of_lt hbefore hbelow
    · intro j hj hle
      exact hback j hj (by omega)
  | case2 base size inside hlt half hhalf hnot ih =>
    apply ih hfront
    intro j hj hle
    have hafter : samples[base + half].block ≤ samples[j].block := hordered.le (by omega) hj
    exact UInt64.le_trans (UInt64.not_lt.1 hnot) hafter
  | case3 base inside hlt hbelow =>
    constructor
    · intro j hj hle
      have hbase : base < samples.size := by omega
      have hbefore : samples[j].block ≤ samples[base].block :=
        hordered.le (Nat.le_of_lt_succ hle) hbase
      exact UInt64.lt_of_le_of_lt hbefore hbelow
    · intro j hj hle
      exact hback j hj (by omega)
  | case4 base inside hlt hnot =>
    refine ⟨hfront, ?_⟩
    intro j hj hle
    have hafter : samples[base].block ≤ samples[j].block := hordered.le hle hj
    exact UInt64.le_trans (UInt64.not_lt.1 hnot) hafter
  | case5 base size inside hnot hone =>
    exact ⟨hfront, fun j hj hle => hback j hj (by omega)⟩

/-- Where the search parts a log, the samples from the block on begin. -/
theorem drop_partitionPoint (h : log.Ordered) (block : UInt64) :
    log.toList.drop (partitionPoint log.samples block 0 log.samples.size
      (Nat.le_of_eq (Nat.zero_add _))) = log.since block := by
  obtain ⟨hfront, hback⟩ := partitionPoint_spec block h
    (Nat.le_of_eq (Nat.zero_add _)) (fun j _ hlt => absurd hlt (Nat.not_lt_zero j))
    (fun j hj hle => absurd hj (by omega))
  generalize partitionPoint log.samples block 0 log.samples.size _ = cut at hfront hback ⊢
  have htake : (log.toList.take cut).filter (block ≤ ·.block) = [] := by
    rw [List.filter_eq_nil_iff]
    intro x hx
    obtain ⟨j, hj, rfl⟩ := List.mem_take_iff_getElem.1 hx
    have hlt := hfront j (Nat.lt_of_lt_of_le hj (Nat.min_le_right _ _)) (by omega)
    rw [decide_eq_true_iff]
    exact UInt64.not_le.2 hlt
  have hdrop : (log.toList.drop cut).filter (block ≤ ·.block) = log.toList.drop cut := by
    rw [List.filter_eq_self]
    intro x hx
    obtain ⟨j, hj, rfl⟩ := List.mem_drop_iff_getElem.1 hx
    have hle := hback (cut + j) (by simpa [toList, Nat.add_comm] using hj) (Nat.le_add_right _ _)
    exact decide_eq_true hle
  calc log.toList.drop cut
      = (log.toList.take cut ++ log.toList.drop cut).filter (block ≤ ·.block) := by
        rw [List.filter_append, htake, hdrop, List.nil_append]
    _ = log.since block := by rw [List.take_append_drop, since]

/-- Trimming keeps the samples from the block on, or the last sample if there are none. -/
theorem toList_trimBefore_eq (h : log.Ordered) (block : UInt64) :
    (log.trimBefore block).toList
      = if log.since block = [] then log.last?.toList else log.since block := by
  have hsize : log.toList.length = log.size := Array.length_toList
  have hcut := drop_partitionPoint h block
  rw [toList_trimBefore]
  generalize partitionPoint log.samples block 0 log.samples.size _ = cut at hcut ⊢
  split
  · next hnone =>
    rw [hnone, List.drop_eq_nil_iff] at hcut
    rw [Nat.min_eq_right (by omega), ← hsize, last?_eq]
    by_cases hempty : log.toList = []
    · rw [hempty]
      rfl
    · rw [List.drop_length_sub_one hempty, List.getLast?_eq_some_getLast hempty]
      rfl
  · next hsome =>
    rw [← hcut, List.drop_eq_nil_iff] at hsome
    rw [Nat.min_eq_left (by omega), hcut]

/-! ## Logs that are alike from a block on -/

/-- The same last sample, and the same samples from a block on. -/
structure SameFrom (block : UInt64) (log log' : SampleLog) : Prop where
  ordered : log.Ordered
  ordered' : log'.Ordered
  last : log'.last? = log.last?
  since : log'.since block = log.since block

theorem sameFrom_trimBefore (h : log.Ordered) (block : UInt64) :
    SameFrom block log (log.trimBefore block) where
  ordered := h
  ordered' := h.trimBefore block
  last := last?_trimBefore log block
  since := by
    rw [since, toList_trimBefore_eq h]
    split
    · next hnone =>
      -- the last sample is kept, and is none of those from the block on
      rw [hnone, List.filter_eq_nil_iff]
      intro x hx hle
      rw [Option.mem_toList, last?_eq] at hx
      have hmem : x ∈ log.since block :=
        mem_since.2 ⟨List.mem_of_getLast? hx, of_decide_eq_true hle⟩
      simp [hnone] at hmem
    · rw [SampleLog.since, List.filter_filter]
      simp

/-- A sample that is accepted takes the place of the last sample, if that is of its block, and comes
    after it otherwise. -/
theorem since_of_add (hadd : log.add s = .ok next) (block : UInt64) :
    ∃ kept, next.since block = kept ++ [s].filter (block ≤ ·.block)
      ∧ ((∃ last, log.last? = some last ∧ last.block = s.block
          ∧ log.since block = kept ++ [last].filter (block ≤ ·.block))
        ∨ (∀ last, log.last? = some last → last.block < s.block) ∧ log.since block = kept) := by
  obtain ⟨init, hnext, hlog⟩ := add_cases hadd
  refine ⟨init.filter (block ≤ ·.block), by rw [since, hnext, List.filter_append], ?_⟩
  rcases hlog with ⟨last, hlog, hsame⟩ | ⟨hlog, hlater⟩
  · refine .inl ⟨last, ?_, hsame, by rw [since, hlog, List.filter_append]⟩
    rw [last?_eq, hlog, List.getLast?_concat]
  · exact .inr ⟨hlater, by rw [since, hlog]⟩

/-- Logs that are alike stay so when a sample is accepted by both. -/
theorem SameFrom.of_add (h : SameFrom block log log') (hadd : log.add s = .ok next)
    (hadd' : log'.add s = .ok next') : SameFrom block next next' where
  ordered := h.ordered.add hadd
  ordered' := h.ordered'.add hadd'
  last := (last?_of_add hadd').trans (last?_of_add hadd).symm
  since := by
    obtain ⟨kept, hnext, hlog⟩ := since_of_add hadd block
    obtain ⟨kept', hnext', hlog'⟩ := since_of_add hadd' block
    rw [h.last, h.since] at hlog'
    rw [hnext, hnext', List.append_left_inj]
    -- the last sample decides for both logs alike whether it is replaced
    rcases hlog with ⟨last, hlast, hsame, hkept⟩ | ⟨hlater, hkept⟩
    · rcases hlog' with ⟨last', hlast', -, hkept'⟩ | ⟨hlater', -⟩
      · obtain rfl : last = last' := Option.some.inj (hlast.symm.trans hlast')
        exact List.append_cancel_right (hkept'.symm.trans hkept)
      · exact absurd (hsame ▸ hlater' last hlast) (UInt64.lt_irrefl _)
    · rcases hlog' with ⟨last', hlast', hsame', -⟩ | ⟨-, hkept'⟩
      · exact absurd (hsame' ▸ hlater last' hlast') (UInt64.lt_irrefl _)
      · exact hkept'.symm.trans hkept

/-- Of logs that are alike either both refuse a sample, for the same reason, or both accept it. -/
theorem SameFrom.add (h : SameFrom block log log') (s : Sample) :
    Alike (SameFrom block) (log.add s) (log'.add s) := by
  have hrefused : ∀ e, log'.add s = .error e ↔ log.add s = .error e := by
    intro e
    rw [add_eq_error_iff, add_eq_error_iff, h.last]
  cases hadd : log.add s with
  | error e =>
    rw [(hrefused e).2 hadd]
    exact .error e
  | ok next =>
    cases hadd' : log'.add s with
    | error e =>
      rw [hrefused e, hadd] at hadd'
      simp at hadd'
    | ok next' => exact .ok (h.of_add hadd hadd')

theorem SameFrom.latestValue_eq (h : SameFrom block log log') :
    log'.latestValue = log.latestValue := by
  rw [latestValue, latestValue, h.last]

/-- A window from the block on has only samples from the block on. -/
theorem window_eq_filter_since (hstart : block ≤ start) (log : SampleLog) (stop : UInt64) :
    log.window start stop
      = (log.since block).filter fun x => start ≤ x.block ∧ x.block ≤ stop := by
  rw [window, since, List.filter_filter]
  apply List.filter_congr
  intro x _
  rw [← Bool.decide_and, decide_eq_decide]
  constructor
  · intro hin
    exact ⟨hin, UInt64.le_trans hstart hin.1⟩
  · exact And.left

theorem SameFrom.rangeDiff_eq (h : SameFrom block log log') (hstart : block ≤ start)
    (stop : UInt64) : log'.rangeDiff start stop = log.rangeDiff start stop := by
  apply UInt64.toNat_inj.1
  rw [toNat_rangeDiff h.ordered', toNat_rangeDiff h.ordered, window_eq_filter_since hstart,
    window_eq_filter_since hstart, h.since]

/-! ## Sample after sample -/

/-- The log after a sample was offered to it. A sample that is refused leaves the log as it is. -/
def offer (log : SampleLog) (s : Sample) : SampleLog :=
  match log.add s with
  | .ok next => next
  | .error _ => log

/-- What a log says to a sample that is offered to it. -/
def verdict (log : SampleLog) (s : Sample) : Except StoreError Unit := (log.add s).map fun _ => ()

/-- The log after samples were offered to it one after another. -/
def offerEach (log : SampleLog) (samples : List Sample) : SampleLog := samples.foldl offer log

/-- What a log says to each of the samples that are offered to it one after another. -/
def verdicts : SampleLog → List Sample → List (Except StoreError Unit)
  | _, [] => []
  | log, s :: rest => log.verdict s :: (log.offer s).verdicts rest

theorem SameFrom.offer (h : SameFrom block log log') (s : Sample) :
    log'.verdict s = log.verdict s ∧ SameFrom block (log.offer s) (log'.offer s) := by
  have hadd := h.add s
  unfold verdict SampleLog.offer
  generalize log.add s = outcome at hadd ⊢
  generalize log'.add s = outcome' at hadd ⊢
  cases hadd with
  | ok hnext => exact ⟨rfl, hnext⟩
  | error e => exact ⟨rfl, h⟩

/-- Logs that are alike stay so whatever is offered to them, and say the same to it. -/
theorem SameFrom.offerEach (h : SameFrom block log log') (samples : List Sample) :
    log'.verdicts samples = log.verdicts samples
      ∧ SameFrom block (log.offerEach samples) (log'.offerEach samples) := by
  induction samples generalizing log log' with
  | nil => exact ⟨rfl, h⟩
  | cons s rest ih =>
    obtain ⟨hverdict, hnext⟩ := h.offer s
    obtain ⟨hverdicts, hlast⟩ := ih hnext
    exact ⟨by rw [verdicts, verdicts, hverdict, hverdicts], hlast⟩

/-! ## Logs that are trimmed -/

theorem isEmpty_eq (log : SampleLog) : log.isEmpty = log.last?.isNone := by
  rw [isEmpty, last?_eq, toList, ← Array.isEmpty_toList]
  cases log.samples.toList <;> simp

/-- A log that was built does not show from a block on whether it was trimmed there. Whatever
    samples are offered to the log and to the trimmed log, both accept the same ones and refuse the
    others for the same reasons; then both have the same latest value, and the same growth over each
    window from the block on. Trimming leaves no log without samples that had some. -/
theorem Built.trimBefore_unnoticed (h : log.Built) (block : UInt64) (samples : List Sample) :
    (log.trimBefore block).isEmpty = log.isEmpty
      ∧ (log.trimBefore block).verdicts samples = log.verdicts samples
      ∧ ((log.trimBefore block).offerEach samples).latestValue
        = (log.offerEach samples).latestValue
      ∧ ∀ start stop, block ≤ start →
        ((log.trimBefore block).offerEach samples).rangeDiff start stop
          = (log.offerEach samples).rangeDiff start stop := by
  obtain ⟨hverdicts, hlast⟩ := (sameFrom_trimBefore h.ordered block).offerEach samples
  have hempty : (log.trimBefore block).isEmpty = log.isEmpty := by
    rw [isEmpty_eq, isEmpty_eq, last?_trimBefore]
  refine ⟨hempty, hverdicts, hlast.latestValue_eq, ?_⟩
  intro start stop hstart
  exact hlast.rangeDiff_eq hstart stop

/-- One for the last block of `falling`, one for an earlier block, and two for later ones. -/
def latecomers : List Sample := [⟨7, 6⟩, ⟨6, 1⟩, ⟨25, 10⟩, ⟨30, 12⟩]

/-- Trimmed at a block after all its samples, the log keeps the last one in front of later ones. -/
theorem trimBefore_unnoticed_falling :
    falling.Built ∧ (falling.trimBefore 20).isEmpty = false
      ∧ (falling.trimBefore 20).verdicts latecomers
        = [.ok (), .error (.outOfOrder 7 6), .ok (), .ok ()]
      ∧ ((falling.trimBefore 20).offerEach latecomers).latestValue = 12
      ∧ (((falling.trimBefore 20).offerEach latecomers).rangeDiff 20 40).toNat = 2 := by
  obtain ⟨hempty, hverdicts, hlatest, hgrowth⟩ :=
    built_falling.trimBefore_unnoticed 20 latecomers
  refine ⟨built_falling, hempty, hverdicts.trans (by decide), hlatest.trans (by decide), ?_⟩
  rw [hgrowth 20 40 (by decide), toNat_rangeDiff (by decide)]
  decide

end CommitteeConsensus.SampleLog
