import CommitteeConsensus.Proofs.SampleLog.Growth
import CommitteeConsensus.State.Basic
import Mathlib.Data.List.Induction

/-! # The latest sample of each block

    A log can be built from samples if their blocks do not decrease (`exists_ofSamples_iff`). It
    then has one sample of each block that was given, the latest one (`filter_ofSamples`). If the
    blocks decrease, the first sample that falls behind is named in the refusal, beside the one
    before it (`ofSamples_eq_error_iff`).

    Logs and states are changed in place, and what a change wrote before it failed stays. `record`
    and `recordIn` write nothing before they fail: a sample that is refused leaves the log and the
    state as they were. So a log stays in order through any calls, refused ones among them
    (`Ordered.after`).
-/

namespace CommitteeConsensus

namespace SampleLog

variable {log log' : SampleLog} {s last x : Sample} {samples : List Sample} {e : StoreError}

/-! ## Building a log from samples -/

/-- The blocks of the samples do not decrease. -/
def Rising (samples : List Sample) : Prop := (samples.map Sample.block).Pairwise (· ≤ ·)

instance (samples : List Sample) : Decidable (Rising samples) :=
  inferInstanceAs (Decidable (List.Pairwise _ _))

/-- The latest of the samples of a block. -/
def latestAt (samples : List Sample) (block : UInt64) : Option Sample :=
  (samples.filter (·.block = block)).getLast?

theorem Rising.le_last (h : Rising samples) (hlast : samples.getLast? = some last)
    (hx : x ∈ samples) : x.block ≤ last.block := by
  obtain ⟨init, rfl⟩ := List.getLast?_eq_some_iff.1 hlast
  rw [Rising, List.map_append, List.pairwise_append] at h
  obtain ⟨-, -, hle⟩ := h
  rw [List.mem_append, List.mem_singleton] at hx
  rcases hx with hx | rfl
  · exact hle _ (List.mem_map_of_mem hx) _ (by simp)
  · exact UInt64.le_refl _

/-- Samples go on rising with one that does not fall behind the last of them. -/
theorem rising_concat : Rising (samples ++ [s])
    ↔ Rising samples ∧ ∀ last, samples.getLast? = some last → last.block ≤ s.block := by
  rw [Rising, List.map_append, List.pairwise_append]
  simp only [List.map_cons, List.map_nil, List.pairwise_singleton, true_and, List.mem_map,
    List.mem_singleton, forall_eq, forall_exists_index, and_imp, forall_apply_eq_imp_iff₂]
  constructor
  · intro h
    exact ⟨h.1, fun last hlast => h.2 last (List.mem_of_getLast? hlast)⟩
  · intro h
    obtain ⟨hrising, hle⟩ := h
    refine ⟨hrising, fun x hx => ?_⟩
    have hlast := List.getLast?_eq_some_getLast (List.ne_nil_of_mem hx)
    exact UInt64.le_trans (Rising.le_last hrising hlast hx) (hle _ hlast)

theorem ofSamples_append (samples more : List Sample) :
    ofSamples (samples ++ more) = ofSamples samples >>= fun log => more.foldlM add log :=
  List.foldlM_append

theorem ofSamples_concat (samples : List Sample) (s : Sample) :
    ofSamples (samples ++ [s]) = ofSamples samples >>= fun log => log.add s := by
  rw [ofSamples_append]
  simp only [List.foldlM_cons, List.foldlM_nil, bind_pure]

theorem ordered_ofSamples (h : ofSamples samples = .ok log) : log.Ordered :=
  (Built.ofSamples h).ordered

/-- What was given last comes last. -/
theorem last?_ofSamples (h : ofSamples samples = .ok log) : log.last? = samples.getLast? := by
  rcases List.eq_nil_or_concat samples with rfl | ⟨init, s, rfl⟩
  · rw [← Except.ok.inj h]
    rfl
  · rw [List.concat_eq_append, ofSamples_concat] at h
    obtain ⟨mid, -, hadd⟩ := bind_eq_ok_iff.1 h
    rw [last?_of_add hadd, List.concat_eq_append, List.getLast?_concat]

theorem exists_add_iff :
    (∃ log', log.add s = .ok log') ↔ ∀ last, log.last? = some last → last.block ≤ s.block := by
  constructor
  · intro hadd last hlast
    obtain ⟨log', hadd⟩ := hadd
    by_contra hnot
    have herror := add_eq_error_iff.2 ⟨last, hlast, UInt64.not_le.1 hnot, rfl⟩
    rw [hadd] at herror
    simp at herror
  · intro hle
    cases hadd : log.add s with
    | ok log' => exact ⟨log', rfl⟩
    | error e =>
      obtain ⟨last, hlast, hlt, -⟩ := add_eq_error_iff.1 hadd
      exact absurd (hle last hlast) (UInt64.not_le.2 hlt)

/-- A log can be built from the samples exactly if their blocks do not decrease. -/
theorem exists_ofSamples_iff : (∃ log, ofSamples samples = .ok log) ↔ Rising samples := by
  induction samples using List.reverseRecOn with
  | nil => exact ⟨fun _ => List.Pairwise.nil, fun _ => ⟨empty, rfl⟩⟩
  | append_singleton samples s ih =>
    rw [rising_concat, ← ih, ofSamples_concat]
    constructor
    · intro hbuilt
      obtain ⟨log', hbuilt⟩ := hbuilt
      obtain ⟨log, hlog, hadd⟩ := bind_eq_ok_iff.1 hbuilt
      refine ⟨⟨log, hlog⟩, ?_⟩
      rw [← last?_ofSamples hlog]
      exact exists_add_iff.1 ⟨log', hadd⟩
    · intro hrising
      obtain ⟨⟨log, hlog⟩, hle⟩ := hrising
      rw [← last?_ofSamples hlog] at hle
      obtain ⟨log', hadd⟩ := exists_add_iff.2 hle
      exact ⟨log', bind_eq_ok_iff.2 ⟨log, hlog, hadd⟩⟩

/-- Of each block the log has the latest sample that was given, and nothing else. -/
theorem filter_ofSamples (h : ofSamples samples = .ok log) (block : UInt64) :
    log.toList.filter (·.block = block) = (latestAt samples block).toList := by
  induction samples using List.reverseRecOn generalizing log with
  | nil =>
    rw [← Except.ok.inj h]
    rfl
  | append_singleton samples s ih =>
    rw [ofSamples_concat] at h
    obtain ⟨mid, hmid, hadd⟩ := bind_eq_ok_iff.1 h
    obtain ⟨init, hlog, hinit⟩ := add_cases hadd
    rw [latestAt, List.filter_append, hlog, List.filter_append]
    by_cases hblock : s.block = block
    · -- all samples before it are of earlier blocks
      have hnone : init.filter (·.block = block) = [] := by
        rw [List.filter_eq_nil_iff]
        intro x hx
        have hlt := (ordered_ofSamples hmid).before_lt hadd hlog x hx
        rw [decide_eq_true_iff, ← hblock]
        exact UInt64.ne_of_lt hlt
      have hs : [s].filter (·.block = block) = [s] := by simp [hblock]
      rw [hnone, hs, List.getLast?_concat]
      rfl
    · have hs : [s].filter (·.block = block) = [] := by simp [hblock]
      have hkept : init.filter (·.block = block) = mid.toList.filter (·.block = block) := by
        rcases hinit with ⟨last, hmid', hsame⟩ | ⟨hmid', -⟩
        · have hlast : [last].filter (·.block = block) = [] := by simp [hsame, hblock]
          rw [hmid', List.filter_append, hlast, List.append_nil]
        · rw [hmid']
      rw [hs, List.append_nil, List.append_nil, hkept]
      exact ih hmid

/-- Samples are refused for the first of them that falls behind the one before it. -/
theorem ofSamples_eq_error_iff :
    ofSamples samples = .error e
      ↔ ∃ before last s after, samples = before ++ last :: s :: after
        ∧ Rising (before ++ [last]) ∧ s.block < last.block
        ∧ e = .outOfOrder last.block s.block := by
  constructor
  · intro herror
    induction samples using List.reverseRecOn with
    | nil => simp [ofSamples] at herror
    | append_singleton samples s ih =>
      rw [ofSamples_concat] at herror
      cases hlog : ofSamples samples with
      | error e' =>
        rw [hlog, error_bind] at herror
        obtain ⟨before, last, s', after, rfl, hrest⟩ := ih (hlog.trans herror)
        exact ⟨before, last, s', after ++ [s], by simp, hrest⟩
      | ok log =>
        rw [hlog, ok_bind] at herror
        obtain ⟨last, hlast, hlt, rfl⟩ := add_eq_error_iff.1 herror
        rw [last?_ofSamples hlog] at hlast
        obtain ⟨before, rfl⟩ := List.getLast?_eq_some_iff.1 hlast
        exact ⟨before, last, s, [], by simp, exists_ofSamples_iff.1 ⟨log, hlog⟩, hlt, rfl⟩
  · intro hbehind
    obtain ⟨before, last, s, after, rfl, hrising, hlt, rfl⟩ := hbehind
    obtain ⟨log, hlog⟩ := exists_ofSamples_iff.2 hrising
    have hlast : log.last? = some last := by rw [last?_ofSamples hlog, List.getLast?_concat]
    have hadd := add_eq_error_iff.2 ⟨last, hlast, hlt, rfl⟩
    rw [List.append_cons, ofSamples_append, hlog, ok_bind, List.foldlM_cons, hadd, error_bind]

end SampleLog

/-! ## Changes in place -/

namespace SampleLog

variable {log : SampleLog}

/-- Adds a sample in place. -/
def record (s : Sample) : Change StoreError SampleLog Unit := do
  match (← get).last? with
  | none => modify fun log => ⟨log.samples.push s⟩
  | some last =>
    if s.block = last.block then
      modify fun log => ⟨log.samples.pop.push ⟨last.block, s.value⟩⟩
    else if s.block < last.block then throw (.outOfOrder last.block s.block)
    else modify fun log => ⟨log.samples.push s⟩

theorem record_eq (s : Sample) (log : SampleLog) :
    record s log = Change.outcome log (log.add s) := by
  unfold record add
  rw [Change.get_bind]
  cases log.last? with
  | none => rfl
  | some last =>
    dsimp only
    by_cases hsame : s.block = last.block
    · rw [if_pos hsame, if_pos hsame]
      rfl
    · rw [if_neg hsame, if_neg hsame]
      by_cases hlt : s.block < last.block
      · rw [if_pos hlt, if_pos hlt]
        rfl
      · rw [if_neg hlt, if_neg hlt]
        rfl

/-- A call that changes a log. -/
inductive Call
  | add (s : Sample)
  | trimBefore (block : UInt64)

def Call.change : Call → Change StoreError SampleLog Unit
  | .add s => record s
  | .trimBefore block => modify fun log => log.trimBefore block

/-- The log after calls, whether they failed or not. -/
def after (log : SampleLog) (calls : List Call) : SampleLog :=
  calls.foldl (fun log call => (call.change log).2) log

theorem Ordered.change (h : log.Ordered) (call : Call) : (call.change log).2.Ordered := by
  cases call with
  | add s =>
    show (record s log).2.Ordered
    rw [record_eq]
    cases hadd : log.add s with
    | ok next => exact h.add hadd
    | error e => exact h
  | trimBefore block => exact h.trimBefore block

theorem Ordered.after (h : log.Ordered) (calls : List Call) : (log.after calls).Ordered := by
  induction calls generalizing log with
  | nil => exact h
  | cons call rest ih => exact ih (h.change call)

end SampleLog

namespace State

/-- Records a sample in place in the log of an account, which the state has in one of its tables:
    a copy of the log takes the sample, and then the place of the log. -/
def recordIn (log : State → Address → SampleLog) (setLog : State → Address → SampleLog → State)
    (a : Address) (s : Sample) : Change StoreError State Unit := do
  let state ← get
  match SampleLog.record s (log state a) with
  | (.ok (), next) => set (setLog state a next)
  | (.error e, _) => throw e

theorem recordIn_eq (log : State → Address → SampleLog)
    (setLog : State → Address → SampleLog → State) (a : Address) (s : Sample) (state : State) :
    recordIn log setLog a s state
      = Change.outcome state ((log state a).add s >>= fun next => .ok (setLog state a next)) := by
  unfold recordIn
  rw [Change.get_bind, SampleLog.record_eq]
  cases (log state a).add s with
  | ok next => rfl
  | error e => rfl

end State

namespace SampleLog

/-- A log is built from samples exactly if their blocks do not decrease, and then has the latest
    sample of each block, in order; otherwise the first sample that falls behind is named beside
    the one before it. Through any calls, failed ones or not, its blocks increase strictly. A sample
    is refused exactly if it is of an earlier block than the last one, and this leaves log and
    state as they were, in whichever table the log is. -/
theorem keeps_latest_in_order :
    (∀ samples, (∃ log, ofSamples samples = .ok log) ↔ Rising samples)
      ∧ (∀ samples e, ofSamples samples = .error e
        ↔ ∃ before last s after, samples = before ++ last :: s :: after
          ∧ Rising (before ++ [last]) ∧ s.block < last.block
          ∧ e = .outOfOrder last.block s.block)
      ∧ (∀ samples log, ofSamples samples = .ok log →
        log.Ordered
          ∧ (∀ block, log.toList.filter (·.block = block) = (latestAt samples block).toList)
          ∧ ∀ calls, (log.after calls).Ordered)
      ∧ (∀ log s,
        record s log = Change.outcome log (log.add s)
          ∧ (∀ e, log.add s = .error e ↔ ∃ last, log.last? = some last ∧ s.block < last.block
            ∧ e = .outOfOrder last.block s.block)
          ∧ ∀ e left, record s log = (.error e, left) → left = log)
      ∧ ∀ state a block value,
        State.recordIn State.stakeLog State.setStakeLog a ⟨block, value⟩ state
            = Change.outcome state (state.recordStake a block value)
          ∧ State.recordIn State.heftLog State.setHeftLog a ⟨block, value⟩ state
            = Change.outcome state (state.recordHeft a block value)
          ∧ ∀ log setLog e left,
            State.recordIn log setLog a ⟨block, value⟩ state = (.error e, left) → left = state := by
  refine ⟨fun samples => exists_ofSamples_iff, fun samples e => ofSamples_eq_error_iff, ?_, ?_, ?_⟩
  · intro samples log h
    exact ⟨ordered_ofSamples h, filter_ofSamples h, (ordered_ofSamples h).after⟩
  · intro log s
    refine ⟨record_eq s log, fun e => add_eq_error_iff, ?_⟩
    intro e left hfailed
    rw [record_eq] at hfailed
    exact Change.eq_of_outcome hfailed
  · intro state a block value
    refine ⟨State.recordIn_eq _ _ a _ state, State.recordIn_eq _ _ a _ state, ?_⟩
    intro log setLog e left hfailed
    rw [State.recordIn_eq] at hfailed
    exact Change.eq_of_outcome hfailed

/-- The log `falling` is built from samples of which two are of block 3. It refuses one for block 6,
    alone, among other calls and as the stake log of an account. -/
theorem keeps_latest_in_order_falling :
    ofSamples [⟨0, 5⟩, ⟨3, 1⟩, ⟨3, 9⟩, ⟨7, 4⟩] = .ok falling
      ∧ falling.toList.filter (·.block = 3) = [⟨3, 9⟩]
      ∧ ofSamples [⟨0, 5⟩, ⟨7, 4⟩, ⟨3, 9⟩, ⟨2, 1⟩] = .error (.outOfOrder 7 3)
      ∧ (falling.after [.trimBefore 2, .add ⟨6, 1⟩, .add ⟨7, 8⟩, .add ⟨9, 8⟩]).Ordered
      ∧ record ⟨6, 1⟩ falling = (.error (.outOfOrder 7 6), falling)
      ∧ State.recordIn State.stakeLog State.setStakeLog (.zero 20) ⟨6, 1⟩
          (({} : State).setStakeLog (.zero 20) falling)
        = (.error (.outOfOrder 7 6), ({} : State).setStakeLog (.zero 20) falling) := by
  obtain ⟨-, hbehind, hbuilt, hrecord, hstate⟩ := keeps_latest_in_order
  have hfalling : ofSamples [⟨0, 5⟩, ⟨3, 1⟩, ⟨3, 9⟩, ⟨7, 4⟩] = .ok falling := rfl
  obtain ⟨-, hlatest, hafter⟩ := hbuilt _ falling hfalling
  obtain ⟨hplace, hrefused, -⟩ := hrecord falling ⟨6, 1⟩
  have hadd := (hrefused (.outOfOrder 7 6)).2 ⟨⟨7, 4⟩, rfl, by decide, rfl⟩
  refine ⟨hfalling, ?_, ?_, hafter _, ?_, ?_⟩
  · rw [hlatest]
    decide
  · exact (hbehind _ _).2 ⟨[⟨0, 5⟩], ⟨7, 4⟩, ⟨3, 9⟩, [⟨2, 1⟩], rfl, by decide, by decide, rfl⟩
  · rw [hplace, hadd]
    rfl
  · obtain ⟨hstake, -⟩ := hstate (({} : State).setStakeLog (.zero 20) falling) (.zero 20) 6 1
    rw [hstake, State.recordStake, State.stakeLog_setStakeLog, if_pos rfl, hadd]
    rfl

end SampleLog

end CommitteeConsensus
