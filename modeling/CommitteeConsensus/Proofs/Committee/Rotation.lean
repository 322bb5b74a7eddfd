import CommitteeConsensus.Proofs.Calendar
import CommitteeConsensus.Proofs.Committee.Snapshot

/-! # Turns of a built committee

    A snapshot that is made under a valid configuration has a round, and the round fits a word
    (`Scheduled`). So from the first block of its epoch on every member has its distance to a
    turn, and the member's difficulty is what the distance leaves of the size of the committee
    (`difficulty_add_distance`). The difficulty therefore tells how long the member waits.
-/

namespace CommitteeConsensus.Snapshot

variable {s : Snapshot} {a : Address} {block : UInt64} {distance : Nat}

/-! ## Rounds -/

/-- The committee has a round, and a word counts its blocks. -/
structure Scheduled (s : Snapshot) : Prop where
  positive : 0 < s.roundLength
  bounded : s.roundLength ≤ Word.max

theorem Scheduled.size_le_max (hs : s.Scheduled) : s.size ≤ Word.max := by
  have hinterval : 0 < s.blockInterval.toNat := Nat.pos_of_mul_pos_left hs.positive
  exact Nat.le_trans (Nat.le_mul_of_pos_right s.size hinterval) hs.bounded

theorem Scheduled.activeSlot?_eq (hs : s.Scheduled) (hstart : s.epochStart ≤ block) :
    s.activeSlot? block
      = some ((block.toNat - s.epochStart.toNat) % s.roundLength / s.blockInterval.toNat) := by
  have hbegun : ¬ block < s.epochStart := Nat.not_lt.2 hstart
  have hround : ¬ s.roundLength = 0 := Nat.ne_of_gt hs.positive
  have hword : ¬ Word.max < s.roundLength := Nat.not_lt.2 hs.bounded
  rw [activeSlot?, if_neg]
  simp only [hbegun, hround, hword, or_self, not_false_eq_true]

/-- Every member of a committee in office has a turn ahead of it, or it is its turn now. -/
theorem Scheduled.exists_slotDistance (hs : s.Scheduled) (hstart : s.epochStart ≤ block)
    (ha : a ∈ s.rank) : ∃ distance, s.slotDistance? a block = some distance := by
  obtain ⟨rank, hrank⟩ : ∃ rank, s.rankIndex? a = some rank :=
    Option.isSome_iff_exists.1 (List.isSome_idxOf?.2 ha)
  simp [slotDistance?, hrank, hs.activeSlot?_eq hstart]

/-! ## Distance and difficulty -/

theorem Scheduled.difficulty_add_distance (hs : s.Scheduled)
    (hdistance : s.slotDistance? a block = some distance) :
    (s.difficulty a block).toNat + distance = s.size := by
  have hlt := slotDistance?_lt_size hdistance
  have hword : (UInt64.ofNat (s.size - distance)).toNat = s.size - distance := by
    have hmax := hs.size_le_max
    rw [UInt64.toNat_ofNat']
    apply Nat.mod_eq_of_lt
    simp only [Word.max, Word.bound] at hmax
    omega
  have hdifficulty : s.difficulty a block = UInt64.ofNat (s.size - distance) := by
    rw [difficulty, hdistance]
  rw [hdifficulty, hword]
  omega

theorem toNat_sealDelay (period : UInt64) (hdistance : s.slotDistance? a block = some distance) :
    (s.sealDelay period a block).toNat = min (distance * period.toNat) Word.max := by
  rw [sealDelay, hdistance, Option.getD_some, Word.toNat_clamp]

/-! ## Committees under a valid configuration -/

section

variable {c : Config} {publishedAt : UInt64} {publishedBy : Hash} {r : CommitteeRecord}

/-- The largest committee there may be has a round that fits a word. -/
theorem scheduled_ofRecord {epoch : UInt64} (hvalid : c.validate = .ok ())
    (h : ofRecord c publishedAt publishedBy epoch r = .ok s) : s.Scheduled := by
  obtain ⟨-, hinterval, -, hmax, -⟩ := (Config.validate_eq_ok_iff c).1 hvalid
  obtain ⟨hne, hsize, -⟩ := shape_ofRecord h
  have hblocks : s.blockInterval = c.blockInterval := by
    obtain ⟨-, rfl⟩ := ofRecord_eq_ok_iff.1 h
    rfl
  constructor
  · rw [roundLength, hblocks]
    exact Nat.mul_pos (List.length_pos_iff.2 hne) (Word.toNat_pos hinterval)
  · rw [roundLength, hblocks]
    exact Nat.le_trans (Nat.mul_le_mul_right _ hsize) hmax

/-- The committee of a block's turn is in office at the block. -/
theorem epochStart_le_ofRecord (h : ofRecord c publishedAt publishedBy (c.turnOf block) r = .ok s) :
    s.epochStart ≤ block := by
  obtain ⟨-, rfl⟩ := ofRecord_eq_ok_iff.1 h
  have hbegun := Nat.div_mul_le_self block.toNat c.epoch.toNat
  rw [UInt64.le_iff_toNat_le, epochStart, Word.toNat_satMul, Config.toNat_turnOf]
  exact Nat.le_trans (Nat.min_le_left _ _) hbegun

end

end CommitteeConsensus.Snapshot
