import CommitteeConsensus.Proofs.Outcome
import CommitteeConsensus.SampleLog.Search
import Mathlib.Data.List.Basic

/-! # How a log is built

    A sample that is accepted comes last, and whatever was there before comes before it, up to a
    sample of the same block (`add_cases`). So a log is in order however it is built from the empty
    one, by adding samples and by trimming (`Built.ordered`).
-/

namespace CommitteeConsensus.SampleLog

variable {log log' : SampleLog} {s x last : Sample} {before after : List Sample}

theorem last?_eq (log : SampleLog) : log.last? = log.toList.getLast? := by
  rw [toList, Array.getLast?_toList]
  rfl

/-! ## Adding -/

/-- A sample that is accepted comes last, in place of one of its block or after an earlier one. -/
theorem add_cases (h : log.add s = .ok log') :
    ∃ init, log'.toList = init ++ [s]
      ∧ ((∃ last, log.toList = init ++ [last] ∧ last.block = s.block)
        ∨ log.toList = init ∧ ∀ last, log.last? = some last → last.block < s.block) := by
  unfold add at h
  split at h
  · next hnone =>
    refine ⟨log.toList, ?_, .inr ⟨rfl, ?_⟩⟩
    · simp [toList, ← Except.ok.inj h]
    · simp [hnone]
  · next last hlast =>
    split at h
    · next hsame =>
      refine ⟨log.toList.dropLast, ?_, .inl ⟨last, ?_, hsame.symm⟩⟩
      · simp [toList, ← Except.ok.inj h, ← hsame]
      · rw [last?_eq] at hlast
        exact (List.dropLast_append_getLast? last hlast).symm
    · next hother =>
      split at h
      · simp at h
      · next hnot =>
        refine ⟨log.toList, ?_, .inr ⟨rfl, ?_⟩⟩
        · simp [toList, ← Except.ok.inj h]
        · intro last' hlast'
          obtain rfl : last = last' := Option.some.inj (hlast.symm.trans hlast')
          exact UInt64.lt_of_le_of_ne (UInt64.not_lt.1 hnot) (Ne.symm hother)

/-- A sample is refused if it is of an earlier block than the last one, and for no other reason. -/
theorem add_eq_error_iff {e : StoreError} :
    log.add s = .error e ↔ ∃ last, log.last? = some last ∧ s.block < last.block
      ∧ e = .outOfOrder last.block s.block := by
  unfold add
  cases hlast : log.last? with
  | none => simp
  | some last =>
    by_cases hsame : s.block = last.block
    · simp [hsame]
    · by_cases hlt : s.block < last.block
      · simp [hsame, hlt, eq_comm (a := e)]
      · simp [hsame, hlt]

/-- What was added last is the latest sample. -/
theorem last?_of_add (h : log.add s = .ok log') : log'.last? = some s := by
  obtain ⟨init, hlog', -⟩ := add_cases h
  rw [last?_eq, hlog', List.getLast?_concat]

theorem latestValue_of_last? (h : log.last? = some x) : log.latestValue = x.value := by
  rw [latestValue, h]
  rfl

/-! ## Order -/

theorem ordered_iff : log.Ordered ↔ log.toList.Pairwise fun x y => x.block < y.block :=
  List.pairwise_map

/-- A sample of the log has the earlier samples before it and the later ones after it. -/
theorem Ordered.split (h : log.Ordered) (heq : log.toList = before ++ x :: after) :
    (∀ y ∈ before, y.block < x.block) ∧ ∀ y ∈ after, x.block < y.block := by
  have hpairs := ordered_iff.1 h
  rw [heq, List.pairwise_append, List.pairwise_cons] at hpairs
  obtain ⟨-, ⟨hafter, -⟩, hbefore⟩ := hpairs
  exact ⟨fun y hy => hbefore y hy x List.mem_cons_self, hafter⟩

theorem Ordered.le_last (h : log.Ordered) (hlast : log.last? = some last) (hx : x ∈ log.toList) :
    x.block ≤ last.block := by
  rw [last?_eq] at hlast
  obtain ⟨init, heq⟩ := List.getLast?_eq_some_iff.1 hlast
  rw [heq, List.mem_append, List.mem_singleton] at hx
  rcases hx with hx | rfl
  · exact UInt64.le_of_lt ((h.split heq).1 x hx)
  · exact UInt64.le_refl _

/-- All samples before the one that is added are of earlier blocks. -/
theorem Ordered.before_lt (h : log.Ordered) (hadd : log.add s = .ok log')
    (hlog' : log'.toList = before ++ [s]) : ∀ x ∈ before, x.block < s.block := by
  obtain ⟨init, hinit, hlog⟩ := add_cases hadd
  obtain rfl : init = before := (List.append_inj' (hinit.symm.trans hlog') rfl).1
  intro x hx
  rcases hlog with ⟨last, hlog, hsame⟩ | ⟨hlog, hlater⟩
  · rw [← hsame]
    exact (h.split hlog).1 x hx
  · have hlast : log.last? = some (init.getLast (List.ne_nil_of_mem hx)) := by
      rw [last?_eq, hlog, List.getLast?_eq_some_getLast]
    exact UInt64.lt_of_le_of_lt (h.le_last hlast (hlog ▸ hx)) (hlater _ hlast)

theorem Ordered.add (h : log.Ordered) (hadd : log.add s = .ok log') : log'.Ordered := by
  obtain ⟨init, hlog', hlog⟩ := add_cases hadd
  have hinit : init.Pairwise fun x y => x.block < y.block := by
    have hpairs := ordered_iff.1 h
    rcases hlog with ⟨last, heq, -⟩ | ⟨heq, -⟩
    · rw [heq] at hpairs
      exact (List.pairwise_append.1 hpairs).1
    · rwa [heq] at hpairs
  rw [ordered_iff, hlog', List.pairwise_append]
  refine ⟨hinit, List.pairwise_singleton _ s, ?_⟩
  intro x hx y hy
  rw [List.mem_singleton.1 hy]
  exact h.before_lt hadd hlog' x hx

theorem Ordered.foldlM_add {samples : List Sample} (h : log.Ordered)
    (hadd : samples.foldlM SampleLog.add log = .ok log') : log'.Ordered := by
  induction samples generalizing log with
  | nil =>
    rw [← Except.ok.inj hadd]
    exact h
  | cons s rest ih =>
    rw [List.foldlM_cons] at hadd
    obtain ⟨mid, hs, hrest⟩ := bind_eq_ok_iff.1 hadd
    exact ih (h.add hs) hrest

/-! ## Trimming -/

/-- Trimming drops what is before the partition point, but never the last sample. -/
theorem toList_trimBefore (log : SampleLog) (block : UInt64) :
    (log.trimBefore block).toList = log.toList.drop
      (min (partitionPoint log.samples block 0 log.samples.size (Nat.le_of_eq (Nat.zero_add _)))
        (log.size - 1)) := by
  rw [trimBefore, toList, Array.toList_extract, List.extract_eq_take_drop]
  apply List.take_of_length_le
  rw [List.length_drop, Array.length_toList]
  exact Nat.le_refl _

theorem last?_trimBefore (log : SampleLog) (block : UInt64) :
    (log.trimBefore block).last? = log.last? := by
  rw [last?_eq, last?_eq, toList_trimBefore, List.getLast?_drop]
  split
  · next hall =>
    -- only a log without samples has none left
    have hempty : log.toList = [] := by
      apply List.eq_nil_of_length_eq_zero
      have hsize : log.toList.length = log.size := Array.length_toList
      omega
    rw [hempty, List.getLast?_nil]
  · rfl

theorem Ordered.trimBefore (h : log.Ordered) (block : UInt64) : (log.trimBefore block).Ordered := by
  rw [ordered_iff, toList_trimBefore]
  exact (ordered_iff.1 h).sublist (List.drop_sublist _ log.toList)

/-! ## Logs that are built -/

/-- The log has come from the empty one by adding samples, one or several at once, and by
    trimming. A sample that is refused leaves no new log. -/
inductive Built : SampleLog → Prop
  | empty : Built empty
  | ofSamples {samples : List Sample} {log : SampleLog} (h : ofSamples samples = .ok log) :
      Built log
  | add {log log' : SampleLog} {s : Sample} (hlog : Built log) (h : log.add s = .ok log') :
      Built log'
  | trimBefore {log : SampleLog} (hlog : Built log) (block : UInt64) : Built (log.trimBefore block)

theorem Built.ordered (h : log.Built) : log.Ordered := by
  induction h with
  | empty => exact List.Pairwise.nil
  | ofSamples h =>
    have hempty : SampleLog.empty.Ordered := List.Pairwise.nil
    exact hempty.foldlM_add h
  | add _ h ih => exact ih.add h
  | trimBefore _ block ih => exact ih.trimBefore block

end CommitteeConsensus.SampleLog
