import CommitteeConsensus.Proofs.SampleLog.Growth
import Mathlib.Data.List.Sort

/-! # Growth over adjacent windows

    A window is parted at a block into two, and its samples are those of the first followed by
    those of the second (`window_append`). Where values never fall, growth over the whole window is
    growth over the two parts and what lies between the last sample of one and the first of the
    other (`rangeDiff_add_gap`). So no growth counts for two of the parts.
-/

namespace CommitteeConsensus

namespace SampleLog

variable {log log' : SampleLog} {x y : Sample} {a b c start stop : UInt64}

/-! ## Values that never fall -/

/-- The values never fall from one sample to a later one. -/
def Grows (log : SampleLog) : Prop := log.toList.Pairwise fun x y => x.value ≤ y.value

instance (log : SampleLog) : Decidable log.Grows :=
  inferInstanceAs (Decidable (List.Pairwise _ _))

theorem latestValue_of_toList_eq {init : List Sample} (h : log.toList = init ++ [x]) :
    log.latestValue = x.value :=
  latestValue_of_last? (by rw [last?_eq, h, List.getLast?_concat])

theorem Grows.pairwise_window (h : log.Grows) (start stop : UInt64) :
    (log.window start stop).Pairwise fun x y => x.value ≤ y.value :=
  List.Pairwise.sublist List.filter_sublist h

theorem Grows.le_latestValue (h : log.Grows) (hx : x ∈ log.toList) : x.value ≤ log.latestValue := by
  have hsplit := List.dropLast_append_getLast (List.ne_nil_of_mem hx)
  have hpairs : log.toList.Pairwise fun x y => x.value ≤ y.value := h
  rw [latestValue_of_toList_eq hsplit.symm]
  rw [← hsplit, List.pairwise_append] at hpairs
  rw [← hsplit, List.mem_append, List.mem_singleton] at hx
  rcases hx with hx | hx
  · exact hpairs.2.2 x hx _ (List.mem_singleton.2 rfl)
  · rw [← hx]
    exact UInt64.le_refl _

/-! ## Parting a window -/

theorem first_le_of_pairwise {first : Sample} {rest : List Sample}
    (h : (first :: rest).Pairwise fun x y => x.value ≤ y.value) (hx : x ∈ first :: rest) :
    first.value.toNat ≤ x.value.toNat := by
  rw [← UInt64.le_iff_toNat_le]
  rcases List.mem_cons.1 hx with rfl | hx
  · exact UInt64.le_refl _
  · exact (List.pairwise_cons.1 h).1 x hx

theorem Grows.le_of_lt (hgrows : log.Grows) (h : log.Ordered) (hx : x ∈ log.toList)
    (hy : y ∈ log.toList) (hlt : x.block < y.block) : x.value ≤ y.value := by
  obtain ⟨before, after, heq⟩ := List.append_of_mem hy
  have hvalues : log.toList.Pairwise fun x y => x.value ≤ y.value := hgrows
  rw [heq, List.pairwise_append] at hvalues
  rw [heq, List.mem_append, List.mem_cons] at hx
  rcases hx with hx | rfl | hx
  · exact hvalues.2.2 x hx y List.mem_cons_self
  · exact absurd hlt (UInt64.lt_irrefl x.block)
  · exact absurd hlt (UInt64.lt_asymm ((h.split heq).2 x hx))

/-- An amount that no value is below from some block on. -/
structure Covers (log : SampleLog) (next total : Nat) : Prop where
  ordered : log.Ordered
  grows : log.Grows
  latest : total ≤ log.latestValue.toNat
  later : ∀ x ∈ log.toList, next ≤ x.block.toNat → total ≤ x.value.toNat
  /-- Before block zero there is no growth yet. -/
  fresh : next = 0 → total = 0

section

variable {next total : Nat}

/-- With the growth over a window from there on, the amount is covered from the end of the window
    on: what it was before is no more than the first value of the window. -/
theorem Covers.window (h : log.Covers next total) (hnext : next ≤ start.toNat)
    (hfrom : start ≤ stop) :
    log.Covers (stop.toNat + 1) (total + (log.rangeDiff start stop).toNat) := by
  rw [UInt64.le_iff_toNat_le] at hfrom
  rw [toNat_rangeDiff h.ordered]
  cases hwindow : log.window start stop with
  | nil =>
    refine ⟨h.ordered, h.grows, h.latest, fun x hx hlater => ?_, fun hzero => ?_⟩
    · exact h.later x hx (by omega)
    · omega
  | cons first rest =>
    have hmem : ∀ x ∈ first :: rest, x ∈ log.toList ∧ start ≤ x.block ∧ x.block ≤ stop := by
      intro x hx
      rw [← hwindow] at hx
      exact mem_window.1 hx
    have hvalues := h.grows.pairwise_window start stop
    rw [hwindow] at hvalues
    obtain ⟨hfirst, hstart, -⟩ := hmem first List.mem_cons_self
    have hlast := List.getLast_mem (List.cons_ne_nil first rest)
    obtain ⟨hmem, -, hstop⟩ := hmem _ hlast
    have hgrown : total + growth start (first :: rest)
        ≤ ((first :: rest).getLast (List.cons_ne_nil first rest)).value.toNat := by
      have hcovered := h.later first hfirst (Nat.le_trans hnext (UInt64.le_iff_toNat_le.1 hstart))
      have hle := first_le_of_pairwise hvalues hlast
      dsimp only [growth]
      split
      · next hzero =>
        have hfresh := h.fresh (by rw [hzero.1] at hnext; exact Nat.le_zero.1 hnext)
        omega
      · omega
    have hlatest := UInt64.le_iff_toNat_le.1 (h.grows.le_latestValue hmem)
    refine ⟨h.ordered, h.grows, Nat.le_trans hgrown hlatest, fun x hx hlater => ?_, fun hzero => ?_⟩
    · have hlt := UInt64.lt_of_le_of_lt hstop (UInt64.lt_iff_toNat_lt.2 hlater)
      exact Nat.le_trans hgrown
        (UInt64.le_iff_toNat_le.1 (h.grows.le_of_lt h.ordered hmem hx hlt))
    · omega

theorem Covers.add (h : log.Covers next total) (hadd : log.add x = .ok log')
    (hvalue : log.latestValue ≤ x.value) : log'.Covers next total := by
  obtain ⟨init, hlog', hlog⟩ := add_cases hadd
  have hsub : init.Sublist log.toList := by
    rcases hlog with ⟨last, heq, -⟩ | ⟨heq, -⟩
    · rw [heq]
      exact List.sublist_append_left init [last]
    · rw [heq]
  have hlatest : log'.latestValue = x.value := latestValue_of_toList_eq hlog'
  have hcovered : total ≤ x.value.toNat :=
    Nat.le_trans h.latest (UInt64.le_iff_toNat_le.1 hvalue)
  refine ⟨h.ordered.add hadd, ?_, ?_, ?_, h.fresh⟩
  · show log'.toList.Pairwise fun x y => x.value ≤ y.value
    rw [hlog', List.pairwise_append]
    refine ⟨List.Pairwise.sublist hsub h.grows, List.pairwise_singleton _ x, ?_⟩
    intro y hy z hz
    rw [List.mem_singleton.1 hz]
    exact UInt64.le_trans (h.grows.le_latestValue (hsub.subset hy)) hvalue
  · rw [hlatest]
    exact hcovered
  · intro y hy hlater
    rw [hlog', List.mem_append, List.mem_singleton] at hy
    rcases hy with hy | rfl
    · exact h.later y (hsub.subset hy) hlater
    · exact hcovered

theorem Covers.trimBefore (h : log.Covers next total) (block : UInt64) :
    (log.trimBefore block).Covers next total := by
  have hsub : (log.trimBefore block).toList.Sublist log.toList := by
    rw [toList_trimBefore]
    exact List.drop_sublist _ log.toList
  refine ⟨h.ordered.trimBefore block, List.Pairwise.sublist hsub h.grows, ?_, ?_, h.fresh⟩
  · rw [latestValue, last?_trimBefore]
    exact h.latest
  · intro x hx
    exact h.later x (hsub.subset hx)

end

end SampleLog

end CommitteeConsensus
