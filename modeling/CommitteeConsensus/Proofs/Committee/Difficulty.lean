import CommitteeConsensus.Proofs.Committee.Turns
import Mathlib.Data.Set.Function
import Mathlib.Order.Interval.Set.Defs

/-! # Difficulty ranks the committee

    From the first block of its epoch on, the difficulties of a committee's members are the numbers
    from one to the size of the committee, each of them once, and the member in turn has the highest
    (`Ranked`). What is missing to the size is the number of turns that an account waits for, so
    that a higher difficulty and a shorter wait are the same. Before the epoch all difficulties are
    zero.

    The distance to a turn is measured around the round (`around_eq`). Whatever snapshot it is
    measured in, no difference goes below zero on the way and no divisor is zero (`Measured`).
-/

namespace CommitteeConsensus.Snapshot

variable {s : Snapshot} {a b : Address} {block period : UInt64} {rank slot distance : Nat}

/-! ## Around the round -/

/-- A rank that has had its turn waits for the rest of the round and what comes before it. -/
theorem around_eq {size : Nat} (hrank : rank < size) (hslot : slot < size) :
    (rank + size - slot) % size = if slot ≤ rank then rank - slot else rank + size - slot := by
  split
  · next hahead =>
    have hround : rank + size - slot = (rank - slot) + size := by omega
    rw [hround, Nat.add_mod_right, Nat.mod_eq_of_lt (by omega)]
  · next hpast => exact Nat.mod_eq_of_lt (by omega)

theorem around_eq_zero_iff {size : Nat} (hrank : rank < size) (hslot : slot < size) :
    (rank + size - slot) % size = 0 ↔ rank = slot := by
  rw [around_eq hrank hslot]
  split <;> omega

/-- Two ranks are not at one distance. -/
theorem around_inj {size rank' : Nat} (hrank : rank < size) (hrank' : rank' < size)
    (hslot : slot < size)
    (h : (rank + size - slot) % size = (rank' + size - slot) % size) : rank = rank' := by
  rw [around_eq hrank hslot, around_eq hrank' hslot] at h
  split at h <;> split at h <;> omega

/-- At every distance there is a rank. -/
theorem exists_around {size : Nat} (hslot : slot < size) (hdistance : distance < size) :
    ∃ rank < size, (rank + size - slot) % size = distance := by
  by_cases hround : slot + distance < size
  · refine ⟨slot + distance, hround, ?_⟩
    rw [around_eq hround hslot, if_pos (Nat.le_add_right _ _), Nat.add_sub_cancel_left]
  · have hrank : slot + distance - size < size := by omega
    refine ⟨slot + distance - size, hrank, ?_⟩
    rw [around_eq hrank hslot, if_neg (by omega)]
    omega

/-! ## Distances -/

/-- How a distance came about: each difference is of a number that is large enough, and each
    divisor is positive. -/
structure Measured (s : Snapshot) (a : Address) (block : UInt64) (distance : Nat) : Prop where
  begun : s.epochStart ≤ block
  round : 0 < s.roundLength
  interval : 0 < s.blockInterval.toNat
  positive : 0 < s.size
  around : ∃ rank slot, s.rankIndex? a = some rank ∧ s.activeSlot? block = some slot
    ∧ slot ≤ rank + s.size ∧ distance = (rank + s.size - slot) % s.size
  lt_size : distance < s.size

theorem slotDistance?_eq (hrank : s.rankIndex? a = some rank)
    (hslot : s.activeSlot? block = some slot) :
    s.slotDistance? a block = some ((rank + s.size - slot) % s.size) := by
  simp [slotDistance?, hrank, hslot]

theorem scheduled_of_activeSlot? (h : s.activeSlot? block = some slot) :
    s.Scheduled ∧ s.epochStart ≤ block := by
  unfold activeSlot? at h
  split at h
  · simp at h
  · next hnot =>
    simp only [not_or] at hnot
    obtain ⟨hbegun, hround, hword⟩ := hnot
    exact ⟨⟨Nat.pos_of_ne_zero hround, Nat.not_lt.1 hword⟩, Nat.not_lt.1 hbegun⟩

theorem measured_of_slotDistance? (h : s.slotDistance? a block = some distance) :
    s.Measured a block distance := by
  have hlt := slotDistance?_lt_size h
  simp only [slotDistance?, Option.bind_eq_bind, Option.bind_eq_some_iff] at h
  obtain ⟨rank, hrank, slot, hslot, h⟩ := h
  have hslot_lt := activeSlot?_lt_size hslot
  obtain ⟨hround, hbegun⟩ := scheduled_of_activeSlot? hslot
  exact {
    begun := hbegun
    round := hround.positive
    interval := Nat.pos_of_mul_pos_left hround.positive
    positive := Nat.lt_of_le_of_lt (Nat.zero_le _) hlt
    around := ⟨rank, slot, hrank, hslot, by omega, (Option.some.inj h).symm⟩
    lt_size := hlt }

/-- Before its epoch a committee has no turns. -/
theorem difficulty_of_lt (a : Address) (h : block < s.epochStart) : s.difficulty a block = 0 := by
  have hnone : s.slotDistance? a block = none := by
    rw [Option.eq_none_iff_forall_ne_some]
    intro distance hdistance
    exact absurd (measured_of_slotDistance? hdistance).begun (UInt64.not_le.2 h)
  rw [difficulty, hnone]

/-! ## Difficulties -/

/-- The members of a committee are ranked at a block: one is in turn and has the highest difficulty,
    the others follow without a gap, and the wait before a seal grows as the difficulty falls. -/
structure Ranked (s : Snapshot) (period block : UInt64) : Prop where
  existsUnique_inTurn : ∃! a, s.isMember a = true ∧ s.inTurn block a = true
  bijOn : Set.BijOn (fun a => (s.difficulty a block).toNat) {a | s.isMember a = true}
    (Set.Icc 1 s.size)
  eq_size_iff : ∀ a, s.isMember a = true →
    ((s.difficulty a block).toNat = s.size ↔ s.inTurn block a = true)
  /-- Also of accounts that are no members. -/
  sealDelay : ∀ a, (s.sealDelay period a block).toNat
    = min Word.max ((s.size - (s.difficulty a block).toNat) * period.toNat)
  /-- Of two waits that do not saturate. -/
  sealDelay_lt_iff : 0 < period → ∀ a b,
    (s.size - (s.difficulty a block).toNat) * period.toNat ≤ Word.max →
    (s.size - (s.difficulty b block).toNat) * period.toNat ≤ Word.max →
    (s.sealDelay period a block < s.sealDelay period b block
      ↔ s.difficulty b block < s.difficulty a block)

/-- A member's difficulty and its distance make up the size of the committee. -/
theorem Seated.toNat_difficulty (hs : s.Seated) (hrank : s.rankIndex? a = some rank)
    (hslot : s.activeSlot? block = some slot) :
    (s.difficulty a block).toNat + (rank + s.size - slot) % s.size = s.size :=
  hs.difficulty_add_distance (slotDistance?_eq hrank hslot)

theorem Seated.bijOn_difficulty (hs : s.Seated) (hslot : s.activeSlot? block = some slot) :
    Set.BijOn (fun a => (s.difficulty a block).toNat) {a | s.isMember a = true}
      (Set.Icc 1 s.size) := by
  have hslot_lt := activeSlot?_lt_size hslot
  refine ⟨?_, ?_, ?_⟩
  · -- a distance is less than the size
    intro a ha
    obtain ⟨rank, hrank⟩ := hs.exists_rank ha
    have hsum := hs.toNat_difficulty hrank hslot
    have hlt := slotDistance?_lt_size (slotDistance?_eq hrank hslot)
    simp only [Set.mem_Icc]
    omega
  · intro a ha b hb heq
    obtain ⟨rank, hrank⟩ := hs.exists_rank ha
    obtain ⟨rank', hrank'⟩ := hs.exists_rank hb
    have hsum := hs.toNat_difficulty hrank hslot
    have hsum' := hs.toNat_difficulty hrank' hslot
    dsimp only at heq
    have hsame : rank = rank' :=
      around_inj (rankIndex?_lt_size hrank) (rankIndex?_lt_size hrank') hslot_lt (by omega)
    exact eq_of_rankIndex? hrank (hsame ▸ hrank')
  · intro n hn
    rw [Set.mem_Icc] at hn
    have hdistance : s.size - n < s.size := by omega
    obtain ⟨rank, hlt, haround⟩ := exists_around hslot_lt hdistance
    obtain ⟨a, ha, hrank⟩ := hs.exists_member hlt
    refine ⟨a, ha, ?_⟩
    have hsum := hs.toNat_difficulty hrank hslot
    dsimp only
    omega

theorem Seated.difficulty_eq_size_iff (hs : s.Seated) (hslot : s.activeSlot? block = some slot)
    (ha : s.isMember a = true) :
    (s.difficulty a block).toNat = s.size ↔ s.inTurn block a = true := by
  obtain ⟨rank, hrank⟩ := hs.exists_rank ha
  have hsum := hs.toNat_difficulty hrank hslot
  have hzero := around_eq_zero_iff (rankIndex?_lt_size hrank) (activeSlot?_lt_size hslot)
  have hturn : s.inTurn block a = true ↔ rank = slot := by
    rw [inTurn_iff, hrank, hslot]
    simp [eq_comm]
  rw [hturn, ← hzero]
  omega

/-- An account without a turn has difficulty zero, and waits for as many turns as there are. -/
theorem Scheduled.toNat_sealDelay_eq (hs : s.Scheduled) (period : UInt64) (a : Address)
    (block : UInt64) : (s.sealDelay period a block).toNat
      = min Word.max ((s.size - (s.difficulty a block).toNat) * period.toNat) := by
  cases hdistance : s.slotDistance? a block with
  | some distance =>
    have hsum := hs.difficulty_add_distance hdistance
    have hrest : s.size - (s.difficulty a block).toNat = distance := by omega
    rw [toNat_sealDelay period hdistance, hrest, Nat.min_comm]
  | none =>
    rw [Snapshot.sealDelay, difficulty, hdistance, Option.getD_none, Word.toNat_clamp,
      Nat.min_comm]
    rfl

theorem Scheduled.difficulty_le_size (hs : s.Scheduled) (a : Address) (block : UInt64) :
    (s.difficulty a block).toNat ≤ s.size := by
  cases hdistance : s.slotDistance? a block with
  | some distance =>
    have hsum := hs.difficulty_add_distance hdistance
    omega
  | none =>
    rw [difficulty, hdistance]
    exact Nat.zero_le _

theorem Scheduled.sealDelay_lt_iff (hs : s.Scheduled) (hperiod : 0 < period)
    (ha : (s.size - (s.difficulty a block).toNat) * period.toNat ≤ Word.max)
    (hb : (s.size - (s.difficulty b block).toNat) * period.toNat ≤ Word.max) :
    s.sealDelay period a block < s.sealDelay period b block
      ↔ s.difficulty b block < s.difficulty a block := by
  have hpositive : 0 < period.toNat := UInt64.lt_iff_toNat_lt.1 hperiod
  have hle_a := hs.difficulty_le_size a block
  have hle_b := hs.difficulty_le_size b block
  rw [UInt64.lt_iff_toNat_lt, UInt64.lt_iff_toNat_lt, hs.toNat_sealDelay_eq, hs.toNat_sealDelay_eq,
    Nat.min_eq_right ha, Nat.min_eq_right hb, Nat.mul_lt_mul_right hpositive]
  omega

theorem Seated.ranked (hs : s.Seated) (period : UInt64) (hstart : s.epochStart ≤ block) :
    s.Ranked period block where
  existsUnique_inTurn := hs.existsUnique_inTurn hstart
  bijOn := hs.bijOn_difficulty (hs.activeSlot?_eq hstart)
  eq_size_iff _ ha := hs.difficulty_eq_size_iff (hs.activeSlot?_eq hstart) ha
  sealDelay a := hs.toNat_sealDelay_eq period a block
  sealDelay_lt_iff hperiod _ _ ha hb := hs.sealDelay_lt_iff hperiod ha hb

/-- The members of a committee under a valid configuration are ranked at every block of its epoch and
    later, and before the epoch all difficulties are zero. Distances are measured without leaving
    the natural numbers, in whatever snapshot. -/
theorem ranked_ofRecord {c : Config} {publishedAt : UInt64} {publishedBy : Hash} {epoch : UInt64}
    {r : CommitteeRecord} (hvalid : c.validate = .ok ())
    (hrecord : ofRecord c publishedAt publishedBy epoch r = .ok s) :
    (∀ block, s.epochStart ≤ block → s.Ranked c.period block)
      ∧ (∀ a block, block < s.epochStart → s.difficulty a block = 0)
      ∧ ∀ (t : Snapshot) a block distance, t.slotDistance? a block = some distance →
        t.Measured a block distance :=
  ⟨fun _ hstart => (seated_ofRecord hvalid hrecord).ranked c.period hstart,
    fun a _ hbefore => difficulty_of_lt a hbefore,
    fun _ _ _ _ hdistance => measured_of_slotDistance? hdistance⟩

/-- The first member has just had its turn, and has to wait for the two others. -/
theorem ranked_ofRecord_trio :
    Trio.config.validate = .ok () ∧ ofRecord Trio.config 99 (.zero 32) 2 Trio.record = .ok trio
      ∧ trio.epochStart ≤ 207 ∧ trio.Ranked Trio.config.period 207
      ∧ trio.difficulty (.ofNat 20 1) 199 = 0
      ∧ trio.slotDistance? (.ofNat 20 1) 207 = some 2 ∧ trio.Measured (.ofNat 20 1) 207 2 := by
  obtain ⟨hranked, hbefore, hmeasured⟩ := ranked_ofRecord validate_trio ofRecord_trio
  have hstart : trio.epochStart ≤ 207 := by decide
  have hdistance : trio.slotDistance? (.ofNat 20 1) 207 = some 2 := by decide
  exact ⟨validate_trio, ofRecord_trio, hstart, hranked 207 hstart,
    hbefore (.ofNat 20 1) 199 (by decide), hdistance, hmeasured trio _ _ _ hdistance⟩

example : trio.rank.map (trio.difficulty · 207) = [1, 3, 2] := by decide

end CommitteeConsensus.Snapshot
