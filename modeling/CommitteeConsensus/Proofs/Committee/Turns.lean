import CommitteeConsensus.Proofs.Committee.Rotation
import Mathlib.Algebra.Order.Interval.Finset.Basic
import Mathlib.Data.Nat.Periodic
import Mathlib.Order.Interval.Finset.Nat

/-! # Turns are shared equally

    In a committee under a valid configuration every member has one rank and every rank one member
    (`Seated`), so from the first block of the epoch on it is exactly one member's turn
    (`Seated.existsUnique_inTurn`).

    Over as many blocks as a round has, wherever they begin, each member is in turn for
    `blockInterval` of them (`card_turns_round`). They need not be consecutive: a window that begins
    in the middle of a turn has the rest of that turn at its end. The slot of a block is periodic
    in the blocks of a round, so the window may be moved to where the round begins.
-/

namespace CommitteeConsensus.Snapshot

variable {s : Snapshot} {a : Address} {block : UInt64} {rank slot : Nat}

/-! ## Ranks -/

/-- Each member has one rank, and the committee has a round that fits a word. -/
structure Seated (s : Snapshot) : Prop extends s.Scheduled where
  nodup : s.rank.Nodup
  isMember : ∀ a, s.isMember a = true ↔ a ∈ s.rank

theorem seated_ofRecord {c : Config} {publishedAt : UInt64} {publishedBy : Hash} {epoch : UInt64}
    {r : CommitteeRecord} (hvalid : c.validate = .ok ())
    (h : ofRecord c publishedAt publishedBy epoch r = .ok s) : s.Seated where
  toScheduled := scheduled_ofRecord hvalid h
  isMember := isMember_ofRecord h
  nodup := nodup_ofRecord h

theorem getElem?_of_rankIndex? (h : s.rankIndex? a = some rank) : s.rank[rank]? = some a := by
  obtain ⟨hlt, ha, -⟩ := List.idxOf?_eq_some_iff.1 h
  rw [List.getElem?_eq_getElem hlt, ha]

/-- In a committee that names nobody twice, an account has the rank of each place it stands at. -/
theorem rankIndex?_eq_some_iff (hnodup : s.rank.Nodup) :
    s.rankIndex? a = some rank ↔ s.rank[rank]? = some a := by
  constructor
  · exact getElem?_of_rankIndex?
  · intro ha
    obtain ⟨hrank, rfl⟩ := List.getElem?_eq_some_iff.1 ha
    refine List.idxOf?_eq_some_iff.2 ⟨hrank, rfl, ?_⟩
    intro j hj hsame
    have hjrank : j = rank := (List.Nodup.getElem_inj_iff hnodup).1 hsame
    omega

theorem rankIndex?_lt_size (h : s.rankIndex? a = some rank) : rank < s.size :=
  (List.idxOf?_eq_some_iff.1 h).1

/-- Accounts with one rank are one account. -/
theorem eq_of_rankIndex? {b : Address} (ha : s.rankIndex? a = some rank)
    (hb : s.rankIndex? b = some rank) : a = b := by
  have hsame := getElem?_of_rankIndex? ha
  rw [getElem?_of_rankIndex? hb] at hsame
  exact (Option.some.inj hsame).symm

theorem Seated.exists_rank (hs : s.Seated) (ha : s.isMember a = true) :
    ∃ rank, s.rankIndex? a = some rank :=
  Option.isSome_iff_exists.1 (List.isSome_idxOf?.2 ((hs.isMember a).1 ha))

/-- No rank is vacant. -/
theorem Seated.exists_member (hs : s.Seated) (hrank : rank < s.size) :
    ∃ a, s.isMember a = true ∧ s.rankIndex? a = some rank :=
  ⟨s.rank[rank], (hs.isMember _).2 (List.getElem_mem hrank),
    (rankIndex?_eq_some_iff hs.nodup).2 (List.getElem?_eq_getElem hrank)⟩

/-! ## Whose turn it is -/

theorem inTurn_iff : s.inTurn block a = true
    ↔ ∃ slot, s.rankIndex? a = some slot ∧ s.activeSlot? block = some slot := by
  unfold inTurn
  split
  · next rank slot hrank hslot => simp [hrank, hslot, eq_comm]
  · next hnone =>
    simp only [Bool.false_eq_true, false_iff, not_exists, not_and]
    intro slot hrank hslot
    exact hnone slot slot hrank hslot

theorem Seated.existsUnique_inTurn (hs : s.Seated) (hstart : s.epochStart ≤ block) :
    ∃! a, s.isMember a = true ∧ s.inTurn block a = true := by
  have hslot := hs.activeSlot?_eq hstart
  obtain ⟨a, ha, hrank⟩ := hs.exists_member (activeSlot?_lt_size hslot)
  refine ⟨a, ⟨ha, inTurn_iff.2 ⟨_, hrank, hslot⟩⟩, ?_⟩
  rintro b ⟨-, hb⟩
  obtain ⟨slot, hrank', hslot'⟩ := inTurn_iff.1 hb
  rw [hslot, Option.some.injEq] at hslot'
  exact eq_of_rankIndex? hrank' (hslot' ▸ hrank)

/-! ## Blocks of a window -/

/-- Of so many blocks from `block` on, those in which it is the account's turn. -/
def turns (s : Snapshot) (a : Address) (block : UInt64) (blocks : Nat) : Finset Nat :=
  (Finset.Ico block.toNat (block.toNat + blocks)).filter fun n => s.inTurn (UInt64.ofNat n) a = true

/-- The turn of a rank is the same part of each round. -/
theorem periodic_slot (size interval slot : Nat) :
    Function.Periodic (fun k => k % (size * interval) / interval = slot) (size * interval) := by
  intro k
  simp only [Nat.add_mod_right]

/-- In a round that begins with the turn of the first rank, the turn of a rank is one interval. -/
theorem count_slot {size interval : Nat} (hslot : slot < size) (hinterval : 0 < interval) :
    Nat.count (fun k => k % (size * interval) / interval = slot) (size * interval) = interval := by
  have hend : slot * interval + interval ≤ size * interval := by
    calc slot * interval + interval = (slot + 1) * interval := by rw [Nat.add_mul, Nat.one_mul]
      _ ≤ size * interval := Nat.mul_le_mul_right interval hslot
  have hturn : (Finset.range (size * interval)).filter
      (fun k => k % (size * interval) / interval = slot)
        = Finset.Ico (slot * interval) (slot * interval + interval) := by
    ext k
    rw [Finset.mem_filter, Finset.mem_range, Finset.mem_Ico]
    constructor
    · rintro ⟨hk, hk'⟩
      rw [Nat.mod_eq_of_lt hk, Nat.div_eq_iff hinterval] at hk'
      omega
    · rintro ⟨hlow, hhigh⟩
      have hk : k < size * interval := Nat.lt_of_lt_of_le hhigh hend
      refine ⟨hk, ?_⟩
      rw [Nat.mod_eq_of_lt hk, Nat.div_eq_iff hinterval]
      omega
  rw [Nat.count_eq_card_filter_range, hturn, Nat.card_Ico, Nat.add_sub_cancel_left]

/-- Whether it is the account's turn is decided by how many blocks the epoch is old. -/
theorem Seated.inTurn_add_epochStart (hs : s.Seated) (hrank : s.rankIndex? a = some rank) {k : Nat}
    (hword : k + s.epochStart.toNat < Word.bound) :
    s.inTurn (UInt64.ofNat (k + s.epochStart.toNat)) a = true
      ↔ k % s.roundLength / s.blockInterval.toNat = rank := by
  have htoNat : (UInt64.ofNat (k + s.epochStart.toNat)).toNat = k + s.epochStart.toNat := by
    rw [UInt64.toNat_ofNat']
    exact Nat.mod_eq_of_lt hword
  have hstart : s.epochStart ≤ UInt64.ofNat (k + s.epochStart.toNat) := by
    rw [UInt64.le_iff_toNat_le, htoNat]
    exact Nat.le_add_left _ _
  rw [inTurn_iff, hs.activeSlot?_eq hstart, htoNat, Nat.add_sub_cancel, hrank]
  simp [eq_comm]

/-- A window as long as a round has one interval of the turn of each rank. -/
theorem Seated.card_turns (hs : s.Seated) (hstart : s.epochStart ≤ block)
    (hend : block.toNat + s.roundLength ≤ Word.bound) (hrank : s.rankIndex? a = some rank) :
    (s.turns a block s.roundLength).card = s.blockInterval.toNat := by
  have hage : block.toNat - s.epochStart.toNat + s.epochStart.toNat = block.toNat :=
    Nat.sub_add_cancel (UInt64.le_iff_toNat_le.1 hstart)
  generalize block.toNat - s.epochStart.toNat = age at hage
  have hinterval : 0 < s.blockInterval.toNat := Nat.pos_of_mul_pos_left hs.positive
  -- the blocks are numbered from the start of the epoch on
  have hwindow : Finset.Ico block.toNat (block.toNat + s.roundLength)
      = (Finset.Ico age (age + s.roundLength)).map (addRightEmbedding s.epochStart.toNat) := by
    rw [Finset.map_add_right_Ico, ← hage, Nat.add_right_comm]
  have hturn : ∀ k ∈ Finset.Ico age (age + s.roundLength),
      s.inTurn (UInt64.ofNat (k + s.epochStart.toNat)) a = true
        ↔ k % s.roundLength / s.blockInterval.toNat = rank := by
    intro k hk
    have hlt := (Finset.mem_Ico.1 hk).2
    exact hs.inTurn_add_epochStart hrank (by omega)
  calc (s.turns a block s.roundLength).card
      = ((Finset.Ico age (age + s.roundLength)).filter
          fun k => s.inTurn (UInt64.ofNat (k + s.epochStart.toNat)) a = true).card := by
        rw [turns, hwindow, Finset.filter_map, Finset.card_map]
        rfl
    _ = ((Finset.Ico age (age + s.roundLength)).filter
          fun k => k % s.roundLength / s.blockInterval.toNat = rank).card := by
        rw [Finset.filter_congr hturn]
    _ = Nat.count (fun k => k % s.roundLength / s.blockInterval.toNat = rank) s.roundLength :=
        Nat.filter_Ico_card_eq_of_periodic age _ _ (periodic_slot _ _ _)
    _ = s.blockInterval.toNat := count_slot (rankIndex?_lt_size hrank) hinterval

section

variable {c : Config} {publishedAt : UInt64} {publishedBy : Hash} {epoch : UInt64}
  {r : CommitteeRecord}

/-- Over as many blocks as a round has, aligned with a round or not, every member of a committee
    under a valid configuration is in turn for `blockInterval` blocks. -/
theorem card_turns_round (hvalid : c.validate = .ok ())
    (hrecord : ofRecord c publishedAt publishedBy epoch r = .ok s) (hstart : s.epochStart ≤ block)
    (hend : block.toNat + s.size * c.blockInterval.toNat ≤ Word.bound)
    (ha : s.isMember a = true) :
    (s.turns a block (s.size * c.blockInterval.toNat)).card = c.blockInterval.toNat := by
  have hs := seated_ofRecord hvalid hrecord
  obtain ⟨rank, hrank⟩ := hs.exists_rank ha
  have hinterval : c.blockInterval = s.blockInterval := by
    obtain ⟨-, rfl⟩ := ofRecord_eq_ok_iff.1 hrecord
    rfl
  rw [hinterval] at hend ⊢
  exact hs.card_turns hstart hend hrank

end

/-! ## Three members -/

/-- Three members who take turns of five blocks. -/
def Trio.config : Config := { epoch := 100, blockInterval := 5, committeeMaxSize := 3 }

def Trio.record : CommitteeRecord where
  rank := [.ofNat 20 1, .ofNat 20 2, .ofNat 20 3]
  proportion := [5000, 3000, 2000]

/-- Their committee in the epoch from block 200 on. -/
def trio : Snapshot where
  epoch := 2
  publishedAt := 99
  publishedBy := .zero 32
  rank := Trio.record.rank
  proportion := Trio.record.proportion
  members := .ofList Trio.record.memberList
  accountBinding := .empty
  epochLength := 100
  blockInterval := 5

theorem validate_trio : Trio.config.validate = .ok () := by decide

theorem ofRecord_trio : ofRecord Trio.config 99 (.zero 32) 2 Trio.record = .ok trio :=
  ofRecord_eq_ok_iff.2 ⟨by decide, rfl⟩

/-- The window begins in the middle of a turn of the first member. -/
theorem card_turns_round_trio :
    Trio.config.validate = .ok () ∧ ofRecord Trio.config 99 (.zero 32) 2 Trio.record = .ok trio
      ∧ trio.epochStart ≤ 203 ∧ trio.isMember (.ofNat 20 1) = true
      ∧ (trio.turns (.ofNat 20 1) 203 15).card = 5 := by
  have hstart : trio.epochStart ≤ 203 := by decide
  have hmember : trio.isMember (.ofNat 20 1) = true := by decide
  have hround : trio.size * Trio.config.blockInterval.toNat = 15 := by decide
  have hend : (203 : UInt64).toNat + trio.size * Trio.config.blockInterval.toNat ≤ Word.bound := by
    rw [hround]
    decide
  have hcard := card_turns_round validate_trio ofRecord_trio hstart hend hmember
  rw [hround] at hcard
  exact ⟨validate_trio, ofRecord_trio, hstart, hmember, hcard⟩

example : trio.turns (.ofNat 20 1) 203 15 = {203, 204, 215, 216, 217} := by decide

end CommitteeConsensus.Snapshot
