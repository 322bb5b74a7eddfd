import CommitteeConsensus.Committee.Snapshot

/-! # Rotation of turns

    From the first block of its epoch on, a committee takes turns in rank order, `blockInterval`
    blocks each. A member seals at any time, but the further its next turn is away, the longer it
    waits and the lower its difficulty: the member whose turn it is seals with the size of the
    committee as difficulty, the one who has just had its turn with one.
-/

namespace CommitteeConsensus.Snapshot

/-- First block that the committee is scheduled for. -/
def epochStart (s : Snapshot) : UInt64 := Word.satMul s.epoch s.epochLength

/-- Blocks in a round in which every member has its turn. -/
def roundLength (s : Snapshot) : Nat := s.size * s.blockInterval.toNat

/-- The rank whose turn a block is; before the epoch there are no turns. -/
def activeSlot? (s : Snapshot) (block : UInt64) : Option Nat :=
  -- a round that does not fit a word has no slots, like an empty one
  if block < s.epochStart ∨ s.roundLength = 0 ∨ Word.max < s.roundLength then none
  else some ((block.toNat - s.epochStart.toNat) % s.roundLength / s.blockInterval.toNat)

def inTurn (s : Snapshot) (block : UInt64) (address : Address) : Bool :=
  match s.rankIndex? address, s.activeSlot? block with
  | some rank, some slot => rank = slot
  | _, _ => false

/-- Turns until it is the account's turn. -/
def slotDistance? (s : Snapshot) (address : Address) (block : UInt64) : Option Nat := do
  let rank ← s.rankIndex? address
  let slot ← s.activeSlot? block
  return (rank + s.size - slot) % s.size

/-- Size of the committee less the slot distance; zero for an account that has no turn. -/
def difficulty (s : Snapshot) (address : Address) (block : UInt64) : UInt64 :=
  match s.slotDistance? address block with
  | some distance => UInt64.ofNat (s.size - distance)
  | none => 0

/-- Seconds that an account waits beyond the period between blocks. -/
def sealDelay (s : Snapshot) (period : UInt64) (address : Address) (block : UInt64) : UInt64 :=
  Word.clamp ((s.slotDistance? address block).getD s.size * period.toNat)

theorem activeSlot?_lt_size {s : Snapshot} {block : UInt64} {slot : Nat}
    (h : s.activeSlot? block = some slot) : slot < s.size := by
  unfold activeSlot? at h
  split at h
  · simp at h
  · next hpos =>
    simp only [not_or] at hpos
    obtain ⟨-, hpos, -⟩ := hpos
    injection h with h
    rw [← h]
    apply Nat.div_lt_of_lt_mul
    rw [Nat.mul_comm]
    exact Nat.mod_lt _ (Nat.pos_of_ne_zero hpos)

theorem slotDistance?_lt_size {s : Snapshot} {address : Address} {block : UInt64} {distance : Nat}
    (h : s.slotDistance? address block = some distance) : distance < s.size := by
  simp only [slotDistance?, Option.bind_eq_bind, Option.bind_eq_some_iff] at h
  obtain ⟨rank, -, slot, hslot, h⟩ := h
  injection h with h
  rw [← h]
  exact Nat.mod_lt _ (Nat.lt_of_le_of_lt (Nat.zero_le _) (activeSlot?_lt_size hslot))

end CommitteeConsensus.Snapshot
