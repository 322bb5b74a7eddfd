import CommitteeConsensus.Calendar

/-! # Where committees are published

    The header that publishes the committee of a turn never lies strictly inside what the turn
    has behind it: it comes before the turn, or it is the last block of the turn at the earliest.
    So of two blocks of one turn the first is not the publisher of that turn. The publisher comes
    before the turn exactly if committees wait for their office and the turn is not the first one
    (`publishingBlock_lt_first_iff`).
-/

namespace CommitteeConsensus.Config

/-- The turn of a block in natural numbers. -/
theorem toNat_turnOf (c : Config) (n : UInt64) : (c.turnOf n).toNat = n.toNat / c.epoch.toNat := by
  unfold turnOf
  exact UInt64.toNat_div _ _

theorem toNat_publishingBlock (c : Config) {turn : UInt64} (h : turn.toNat < Word.max) :
    (c.publishingBlock turn).toNat
      = min ((turn.toNat + 1 - c.validPeriod.toNat) * c.epoch.toNat) Word.max - 1 := by
  unfold publishingBlock
  rw [Word.toNat_satSub, Word.toNat_satMul, Word.toNat_satSub, Word.toNat_next h]
  rfl

/-- A committee that waits for its office is published before the first block of its turn. -/
theorem publishingBlock_lt_first {c : Config} (hepoch : c.epoch ≠ 0) {n : UInt64}
    (hvalid : c.validPeriod ≠ 0) (hturn : c.turnOf n ≠ 0) :
    (c.publishingBlock (c.turnOf n)).toNat < (c.turnOf n).toNat * c.epoch.toNat := by
  have he : 0 < c.epoch.toNat := Word.toNat_pos hepoch
  have hvalid' : 0 < c.validPeriod.toNat := Word.toNat_pos hvalid
  have hfirst : 0 < (c.turnOf n).toNat * c.epoch.toNat := Nat.mul_pos (Word.toNat_pos hturn) he
  rcases Nat.lt_or_eq_of_le (Word.toNat_le_max (c.turnOf n)) with hbound | hlast
  · have hearlier : ((c.turnOf n).toNat + 1 - c.validPeriod.toNat) * c.epoch.toNat
        ≤ (c.turnOf n).toNat * c.epoch.toNat := Nat.mul_le_mul_right _ (by omega)
    rw [toNat_publishingBlock c hbound]
    omega
  · -- the turn after the last one is turn zero again, which the genesis block publishes
    have hwrap : c.turnOf n + 1 = 0 := by
      apply UInt64.toNat_inj.1
      rw [UInt64.toNat_add, hlast]
      rfl
    have hzero : (c.publishingBlock (c.turnOf n)).toNat = 0 := by
      unfold publishingBlock
      rw [hwrap]
      simp
    omega

/-- A committee that takes office in the turn that elects it is published at the end of its own
    turn. -/
theorem le_publishingBlock {c : Config} (hepoch : c.epoch ≠ 0) {n : UInt64}
    (hvalid : c.validPeriod = 0) (hlast : n.toNat < Word.max) :
    n.toNat ≤ (c.publishingBlock (c.turnOf n)).toNat := by
  have he : 0 < c.epoch.toNat := Word.toNat_pos hepoch
  have hend := Nat.lt_mul_div_succ n.toNat he
  have hbound : (c.turnOf n).toNat < Word.max := by
    have hle := Nat.div_le_self n.toNat c.epoch.toNat
    rw [toNat_turnOf]
    omega
  rw [Nat.mul_comm] at hend
  rw [toNat_publishingBlock c hbound, toNat_turnOf, hvalid, UInt64.toNat_zero, Nat.sub_zero]
  omega

/-- Turn zero has nothing before it, so its committee is sought in the genesis header. -/
theorem publishingBlock_of_first_turn {c : Config} {turn : UInt64} (hvalid : c.validPeriod ≠ 0)
    (hturn : turn = 0) : (c.publishingBlock turn).toNat = 0 := by
  have hvalid' : 0 < c.validPeriod.toNat := Word.toNat_pos hvalid
  have hbefore : (turn.toNat + 1 - c.validPeriod.toNat) = 0 := by
    rw [hturn, UInt64.toNat_zero]
    omega
  rw [toNat_publishingBlock c (by rw [hturn]; decide), hbefore, Nat.zero_mul]
  simp

/-- A committee is published before the first block of its turn exactly if it waits for its office
    and there are blocks before the turn. Where it does not wait, the very last block number is
    left out: the end of its epoch is no block number any more. -/
theorem publishingBlock_lt_first_iff {c : Config} (hepoch : c.epoch ≠ 0) {n : UInt64}
    (hlast : c.validPeriod = 0 → n.toNat < Word.max) :
    (c.publishingBlock (c.turnOf n)).toNat < (c.turnOf n).toNat * c.epoch.toNat
      ↔ c.validPeriod ≠ 0 ∧ c.turnOf n ≠ 0 := by
  constructor
  · intro hlt
    constructor
    · intro hvalid
      have hstart := Nat.div_mul_le_self n.toNat c.epoch.toNat
      have hle := le_publishingBlock hepoch hvalid (hlast hvalid)
      rw [toNat_turnOf] at hlt
      omega
    · intro hturn
      rw [hturn, UInt64.toNat_zero, Nat.zero_mul] at hlt
      exact absurd hlt (Nat.not_lt_zero _)
  · rintro ⟨hvalid, hturn⟩
    exact publishingBlock_lt_first hepoch hvalid hturn

/-- The publisher of a block's turn comes before the block exactly if committees wait for their
    office. -/
theorem publishingBlock_lt_iff {c : Config} (hepoch : c.epoch ≠ 0) {n : UInt64} (hpos : n ≠ 0)
    (hlast : c.validPeriod = 0 → n.toNat < Word.max) :
    c.publishingBlock (c.turnOf n) < n ↔ c.validPeriod ≠ 0 := by
  rw [UInt64.lt_iff_toNat_lt]
  constructor
  · intro hlt hvalid
    have hle := le_publishingBlock hepoch hvalid (hlast hvalid)
    omega
  · intro hvalid
    by_cases hturn : c.turnOf n = 0
    · have hpos' : 0 < n.toNat := Word.toNat_pos hpos
      rw [publishingBlock_of_first_turn hvalid hturn]
      omega
    · have hfirst := publishingBlock_lt_first hepoch hvalid hturn
      have hstart := Nat.div_mul_le_self n.toNat c.epoch.toNat
      rw [toNat_turnOf] at hfirst
      omega

/-- Of two blocks of one turn the first does not publish the committee of the turn. Where a
    committee takes office in the turn that elects it, the very last block number is left out:
    the end of its epoch is no block number any more. -/
theorem publishingBlock_ne_of_lt {c : Config} (hepoch : c.epoch ≠ 0) {n n' : UInt64}
    (hturn : c.turnOf n = c.turnOf n') (hlt : n < n') (hpos : n ≠ 0)
    (hrange : c.validPeriod = 0 → n'.toNat < Word.max) :
    n ≠ c.publishingBlock (c.turnOf n') := by
  intro heq
  have hnat := congrArg UInt64.toNat heq
  have hlt' : n.toNat < n'.toNat := UInt64.lt_iff_toNat_lt.1 hlt
  by_cases hvalid : c.validPeriod = 0
  · -- the turn is published at its own end, which the later block has not passed
    have hle := le_publishingBlock hepoch hvalid (hrange hvalid)
    omega
  · -- the publisher comes before the first of the two
    have hbefore : c.publishingBlock (c.turnOf n) < n :=
      (publishingBlock_lt_iff hepoch hpos fun h => absurd h hvalid).2 hvalid
    rw [hturn, ← heq] at hbefore
    exact UInt64.lt_irrefl n hbefore

/-- A block between two blocks of one turn belongs to the turn. -/
theorem turnOf_eq_of_between {c : Config} {n m n' : UInt64} (hturn : c.turnOf n = c.turnOf n')
    (hle : n ≤ m) (hle' : m ≤ n') : c.turnOf m = c.turnOf n' := by
  rw [UInt64.le_iff_toNat_le] at hle hle'
  have hquotient : n.toNat / c.epoch.toNat = n'.toNat / c.epoch.toNat := by
    rw [← toNat_turnOf, ← toNat_turnOf, hturn]
  have hlow := Nat.div_le_div_right (c := c.epoch.toNat) hle
  have hhigh := Nat.div_le_div_right (c := c.epoch.toNat) hle'
  apply UInt64.toNat_inj.1
  rw [toNat_turnOf, toNat_turnOf]
  omega

/-! ## Years -/

/-- Blocks in a reward year, which need not fit a word. -/
def yearLength (c : Config) : Nat := c.rewards.epochsPerYear.toNat * c.epoch.toNat

theorem yearLength_pos {c : Config} (h : c.validate = .ok ()) : 0 < c.yearLength := by
  obtain ⟨hepoch, -, -, -, -, hrewards⟩ := (validate_eq_ok_iff c).1 h
  obtain ⟨-, hepochs, -⟩ := (RewardParams.validate_eq_ok_iff c.rewards).1 hrewards
  exact Nat.mul_pos (Word.toNat_pos hepochs) (Word.toNat_pos hepoch)

theorem isEpochEnd_iff {c : Config} {n : UInt64} (hlast : n.toNat < Word.max) :
    c.isEpochEnd n = true ↔ (n.toNat + 1) % c.epoch.toNat = 0 := by
  rw [isEpochEnd, decide_eq_true_eq, ← UInt64.toNat_inj, UInt64.toNat_mod, Word.toNat_next hlast]
  rfl

/-- The block after so many blocks, where it is not the very last one. -/
theorem isEpochEnd_next_iff {c : Config} {n : UInt64} {block : Nat} (hnumber : n.toNat = block + 1)
    (hlast : block + 1 < Word.max) :
    c.isEpochEnd n = true ↔ (block + 2) % c.epoch.toNat = 0 := by
  rw [isEpochEnd_iff (hnumber ▸ hlast), hnumber]

/-- A year starts at the multiples of its length. The very last block number is left out: with a
    year that does not fit a word it counts as the start of one. -/
theorem isYearStart_iff {c : Config} (hyear : 0 < c.yearLength) {n : UInt64}
    (hlast : n.toNat < Word.max) :
    c.isYearStart n = true ↔ 0 < n.toNat ∧ n.toNat % c.yearLength = 0 := by
  have hlength : c.blocksPerYear.toNat = min c.yearLength Word.max := Word.toNat_satMul _ _
  have hpos : 0 < c.blocksPerYear := by
    rw [UInt64.lt_iff_toNat_lt, hlength]
    exact Nat.lt_min.2 ⟨hyear, by decide⟩
  simp only [isYearStart, hpos, decide_true, Bool.and_true, Bool.and_eq_true, decide_eq_true_eq,
    ← UInt64.toNat_inj, UInt64.lt_iff_toNat_lt, UInt64.toNat_mod, UInt64.toNat_zero, hlength]
  rcases Nat.le_total c.yearLength Word.max with hle | hle
  · rw [Nat.min_eq_left hle]
  · -- neither length is reached
    rw [Nat.min_eq_right hle, Nat.mod_eq_of_lt hlast,
      Nat.mod_eq_of_lt (Nat.lt_of_lt_of_le hlast hle)]

/-- The epoch in whose counters the ledger stands after a block. The last block of an epoch closes
    it, so that its producer is paid in the next one. -/
def openEpoch (c : Config) (block : Nat) : Nat := (block + 1) / c.epoch.toNat

theorem openEpoch_mono (c : Config) {block later : Nat} (h : block ≤ later) :
    c.openEpoch block ≤ c.openEpoch later :=
  Nat.div_le_div_right (Nat.add_le_add_right h 1)

theorem succ_div_epoch (c : Config) (block : Nat) :
    (block + 1) / c.epoch.toNat
      = block / c.epoch.toNat + if (block + 1) % c.epoch.toNat = 0 then 1 else 0 := by
  rw [Nat.succ_div]
  simp only [Nat.dvd_iff_mod_eq_zero]

theorem openEpoch_succ (c : Config) (block : Nat) :
    c.openEpoch (block + 1)
      = c.openEpoch block + if (block + 2) % c.epoch.toNat = 0 then 1 else 0 :=
  c.succ_div_epoch (block + 1)

/-- The epochs of a year that are closed once a block is. -/
def closedEpochs (c : Config) (block : Nat) : Nat :=
  (block % c.yearLength + 1) / c.epoch.toNat

theorem closedEpochs_le {c : Config} (hyear : 0 < c.yearLength) (block : Nat) :
    c.closedEpochs block ≤ c.rewards.epochsPerYear.toNat := by
  have hlt := Nat.mod_lt block hyear
  apply Nat.div_le_of_le_mul
  rw [Nat.mul_comm]
  exact hlt

/-- A block closes one more epoch of its year, if it is the last one of an epoch. -/
theorem closedEpochs_succ {c : Config} (hyear : 0 < c.yearLength) (block : Nat) :
    (if (block + 1) % c.yearLength = 0 then 0 else c.closedEpochs block)
        + (if (block + 2) % c.epoch.toNat = 0 then 1 else 0)
      = c.closedEpochs (block + 1) := by
  have hdvd : c.epoch.toNat ∣ c.yearLength := Nat.dvd_mul_left _ _
  have hmod : (block + 2) % c.epoch.toNat
      = ((block + 1) % c.yearLength + 1) % c.epoch.toNat := by
    rw [← Nat.mod_add_mod ((block + 1) % c.yearLength), Nat.mod_mod_of_dvd _ hdvd,
      Nat.mod_add_mod]
  unfold closedEpochs
  rw [hmod]
  by_cases hstart : (block + 1) % c.yearLength = 0
  · rw [if_pos hstart, hstart, c.succ_div_epoch 0, Nat.zero_div]
  · rw [if_neg hstart]
    have hsucc : (block + 1) % c.yearLength = block % c.yearLength + 1 := by
      rw [← Nat.mod_add_mod] at hstart ⊢
      have hlt := Nat.mod_lt block hyear
      rcases Nat.lt_or_eq_of_le (Nat.succ_le_of_lt hlt) with hlt' | heq
      · exact Nat.mod_eq_of_lt hlt'
      · have hround : (block % c.yearLength + 1) % c.yearLength = 0 := by
          rw [show block % c.yearLength + 1 = c.yearLength from heq, Nat.mod_self]
        exact absurd hround hstart
    rw [hsucc, c.succ_div_epoch (block % c.yearLength + 1)]

end CommitteeConsensus.Config
