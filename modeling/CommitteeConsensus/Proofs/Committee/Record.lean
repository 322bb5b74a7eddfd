import CommitteeConsensus.Proofs.Committee.Office
import CommitteeConsensus.Proofs.Committee.Turns

/-! # Records of snapshots

    A record has its members in a row and a column for each of their values; a snapshot has a table
    of members, in the order of their accounts. The record that a snapshot stands for is the one
    that it was made from, with the columns written out that were left out (`toRecord_ofRecord`),
    and the snapshot made from that record is the same once more (`ofRecord_toRecord`). Nobody is
    named twice and no column is too short, so that each member is found with the values of its own
    rank (`seatOf_ofRecord`).
-/

namespace CommitteeConsensus

namespace CommitteeRecord

/-- A column in full: one that was left out has a zero for each member. -/
def inFull (r : CommitteeRecord) (column : List UInt64) : List UInt64 :=
  if column.isEmpty then List.replicate r.rank.length 0 else column

/-- The record with its columns in full. -/
def writtenOut (r : CommitteeRecord) : CommitteeRecord :=
  { r with
    committeeStake := r.inFull r.committeeStake
    sentinelContribution := r.inFull r.sentinelContribution }

theorem getElem?_inFull {r : CommitteeRecord} {column : List UInt64}
    (h : column = [] ∨ column.length = r.rank.length) (i : Nat) :
    (r.inFull column)[i]? = r.rank[i]?.map fun _ => column.getD i 0 := by
  unfold inFull
  by_cases hempty : column = []
  · rw [if_pos (by simp [hempty]), List.getElem?_replicate, hempty]
    by_cases hi : i < r.rank.length
    · rw [if_pos hi, List.getElem?_eq_getElem hi]
      rfl
    · rw [if_neg hi, List.getElem?_eq_none (Nat.le_of_not_lt hi)]
      rfl
  · have hlength := h.resolve_left hempty
    rw [if_neg (by simpa using hempty)]
    by_cases hi : i < r.rank.length
    · have hcolumn : i < column.length := by omega
      rw [List.getElem?_eq_getElem hi, Option.map_some, List.getD_eq_getElem?_getD,
        List.getElem?_eq_getElem hcolumn, Option.getD_some]
    · rw [List.getElem?_eq_none (Nat.le_of_not_lt hi), List.getElem?_eq_none (by omega)]
      rfl

end CommitteeRecord

namespace Snapshot

variable {c : Config} {publishedAt : UInt64} {publishedBy : Hash} {epoch : UInt64}
  {r : CommitteeRecord} {s : Snapshot} {a : Address} {i : Nat}

/-! ## There and back -/

section

variable (h : ofRecord c publishedAt publishedBy epoch r = .ok s)

include h

/-- The columns of a snapshot are those that its record has in full. -/
theorem column_ofRecord :
    s.column Member.stake = r.inFull r.committeeStake
      ∧ s.column Member.contribution = r.inFull r.sentinelContribution := by
  obtain ⟨hstake, hcontribution⟩ := parallel_ofRecord h
  constructor
  · apply List.ext_getElem?
    intro i
    rw [getElem?_column_ofRecord h, CommitteeRecord.getElem?_inFull hstake]
  · apply List.ext_getElem?
    intro i
    rw [getElem?_column_ofRecord h, CommitteeRecord.getElem?_inFull hcontribution]

theorem toRecord_ofRecord : s.toRecord = r.writtenOut := by
  obtain ⟨hstake, hcontribution⟩ := column_ofRecord h
  rw [toRecord, hstake, hcontribution]
  obtain ⟨-, rfl⟩ := ofRecord_eq_ok_iff.1 h
  rfl

theorem ofRecord_toRecord : ofRecord c publishedAt publishedBy epoch s.toRecord = .ok s := by
  have hflaw := snapshotFlaw?_toRecord_ofRecord h
  have hmembers := (toRecord_sameOffice h).memberList
  refine ofRecord_eq_ok_iff.2 ⟨hflaw, ?_⟩
  rw [hmembers]
  obtain ⟨-, rfl⟩ := ofRecord_eq_ok_iff.1 h
  rfl

/-! ## Members and their ranks -/

/-- The members, the accounts with a rank and the keys of the table are the same accounts. -/
theorem isMember_iff_ofRecord (a : Address) :
    (s.isMember a = true ↔ a ∈ s.rank) ∧ ((s.rankIndex? a).isSome = true ↔ a ∈ s.rank)
      ∧ (a ∈ s.members.keys ↔ a ∈ s.rank) := by
  have hmember := isMember_ofRecord h a
  refine ⟨hmember, List.isSome_idxOf?, ?_⟩
  rw [Table.mem_keys_iff]
  exact hmember

theorem proportion_ofRecord (ha : s.rank[i]? = some a) :
    s.proportion[i]? = some (s.proportionOf a) := by
  obtain ⟨hi, -⟩ := List.getElem?_eq_some_iff.1 ha
  obtain ⟨-, -, hlength⟩ := shape_ofRecord h
  have hproportion : i < s.proportion.length := by omega
  rw [proportionOf, (rankIndex?_eq_some_iff (nodup_ofRecord h)).2 ha, Option.bind_some,
    List.getElem?_eq_getElem hproportion, Option.getD_some]

end

/-- The account has the rank, and is a member with the share, stake and contribution that the record
    has for the rank. -/
structure SeatOf (s : Snapshot) (r : CommitteeRecord) (i : Nat) (a : Address) (m : Member) :
    Prop where
  rankIndex : s.rankIndex? a = some i
  member : s.members.get? a = some m
  signer : m.signer = a
  proportion : r.proportion[i]? = some (s.proportionOf a)
  stake : r.committeeStake[i]? = some m.stake
  contribution : r.sentinelContribution[i]? = some m.contribution

/-- Each place of a record is the seat of the member that is named there. -/
theorem seatOf_ofRecord (h : ofRecord c publishedAt publishedBy epoch r = .ok s)
    (ha : r.rank[i]? = some a) : ∃ m, s.SeatOf r.writtenOut i a m := by
  obtain ⟨hstake, hcontribution⟩ := parallel_ofRecord h
  have hmember := get?_members_ofRecord h ha
  have hfields : s.rank = r.rank ∧ s.proportion = r.proportion := by
    obtain ⟨-, rfl⟩ := ofRecord_eq_ok_iff.1 h
    exact ⟨rfl, rfl⟩
  rw [← hfields.1] at ha
  refine ⟨_, {
    rankIndex := (rankIndex?_eq_some_iff (nodup_ofRecord h)).2 ha
    member := hmember
    signer := rfl
    proportion := ?_
    stake := ?_
    contribution := ?_ }⟩
  · show r.proportion[i]? = _
    rw [← hfields.2]
    exact proportion_ofRecord h ha
  · show (r.inFull r.committeeStake)[i]? = _
    rw [CommitteeRecord.getElem?_inFull hstake, ← hfields.1, ha]
    rfl
  · show (r.inFull r.sentinelContribution)[i]? = _
    rw [CommitteeRecord.getElem?_inFull hcontribution, ← hfields.1, ha]
    rfl

/-- The record that a snapshot stands for is the one that it was made from, with the columns in
    full, and makes the same snapshot. Members, accounts with a rank and keys of the table are the
    same accounts, and each place of the record is the seat of the member that is named there. -/
theorem records_invert (h : ofRecord c publishedAt publishedBy epoch r = .ok s) :
    s.toRecord = r.writtenOut
      ∧ ofRecord c publishedAt publishedBy epoch s.toRecord = .ok s
      ∧ (∀ a, (s.isMember a = true ↔ a ∈ s.rank) ∧ ((s.rankIndex? a).isSome = true ↔ a ∈ s.rank)
        ∧ (a ∈ s.members.keys ↔ a ∈ s.rank))
      ∧ ∀ i a, r.rank[i]? = some a → ∃ m, s.SeatOf r.writtenOut i a m :=
  ⟨toRecord_ofRecord h, ofRecord_toRecord h, isMember_iff_ofRecord h,
    fun _ _ => seatOf_ofRecord h⟩

/-- Two members whose accounts are not in order, and whose stakes were left out. -/
def unstaked : CommitteeRecord where
  rank := [.ofNat 20 4, .ofNat 20 1]
  proportion := [6000, 4000]
  sentinelContribution := [7, 9]
  accountBinding := .ofList [(.ofNat 20 1, [.ofNat 20 2])]

/-- Written out again, the record has a stake of zero for both. -/
theorem records_invert_unstaked :
    ∃ s, ofRecord Trio.config 99 (.zero 32) 2 unstaked = .ok s
      ∧ s.toRecord = { unstaked with committeeStake := [0, 0] }
      ∧ ofRecord Trio.config 99 (.zero 32) 2 { unstaked with committeeStake := [0, 0] } = .ok s
      ∧ s.isMember (.ofNat 20 2) = false
      ∧ ∃ m, s.SeatOf { unstaked with committeeStake := [0, 0] } 1 (.ofNat 20 1) m := by
  have hmade : ofRecord Trio.config 99 (.zero 32) 2 unstaked = .ok _ :=
    ofRecord_eq_ok_iff.2 ⟨by decide, rfl⟩
  obtain ⟨hthere, hback, hmembers, hseats⟩ := records_invert hmade
  have hfull : unstaked.writtenOut = { unstaked with committeeStake := [0, 0] } := by decide
  rw [hfull] at hthere hseats
  rw [hthere] at hback
  have hstranger : (.ofNat 20 2 : Address) ∉ unstaked.rank := by decide
  refine ⟨_, hmade, hthere, hback, ?_, hseats 1 (.ofNat 20 1) rfl⟩
  exact Bool.eq_false_iff.2 fun hmember => hstranger ((hmembers _).1.1 hmember)

end Snapshot

end CommitteeConsensus
