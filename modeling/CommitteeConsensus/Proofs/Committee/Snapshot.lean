import CommitteeConsensus.Committee.Rotation
import CommitteeConsensus.Proofs.Committee.Stored

/-! # Snapshots of published records

    What holds of a snapshot because it was made from a record without a flaw: it has members,
    no more than the committee may have, one reward share each, and exactly they count as
    members. The record that such a snapshot stands for may be published again.

    A record that may be published need not be one that a snapshot can be made from:
    `snapshotFlaw?_eq_none_iff` says what is missing.
-/

namespace CommitteeConsensus

theorem firstRepeat?_eq_none_iff {seen l : List Address} :
    firstRepeat? seen l = none ↔ l.Nodup ∧ ∀ a ∈ l, a ∉ seen := by
  induction l generalizing seen with
  | nil => simp [firstRepeat?]
  | cons a rest ih =>
    rw [firstRepeat?]
    by_cases ha : a ∈ seen
    · simp [ha]
    · rw [if_neg (by simpa using ha), ih]
      simp only [List.nodup_cons, List.mem_cons, not_or]
      constructor
      · intro ⟨hnodup, hnew⟩
        refine ⟨⟨fun hmem => (hnew a hmem).1 rfl, hnodup⟩, ?_⟩
        intro b hb
        rcases hb with rfl | hb
        · exact ha
        · exact (hnew b hb).2
      · intro ⟨⟨hfirst, hnodup⟩, hnew⟩
        refine ⟨hnodup, fun b hb => ⟨?_, hnew b (.inr hb)⟩⟩
        intro hba
        exact hfirst (hba ▸ hb)

namespace CommitteeRecord

/-- A record is in shape when it has members, not too many, with one share each. -/
theorem shapeFlaw?_eq_none_iff {r : CommitteeRecord} {max : UInt64} {whenEmpty : CommitteeFlaw} :
    r.shapeFlaw? max whenEmpty = none
      ↔ r.rank ≠ [] ∧ r.rank.length ≤ max.toNat ∧ r.proportion.length = r.rank.length := by
  unfold shapeFlaw?
  by_cases hempty : r.rank = []
  · simp [hempty]
  · by_cases hlarge : max.toNat < r.rank.length
    · have hnot : ¬ r.rank.length ≤ max.toNat := Nat.not_le_of_lt hlarge
      simp [hempty, hlarge, hnot]
    · by_cases hcount : r.proportion.length = r.rank.length
      · simp [hempty, hlarge, hcount, Nat.le_of_not_lt hlarge]
      · simp [hempty, hlarge, hcount]

/-- Stake and contribution are left out, or are given for each member. -/
structure Parallel (r : CommitteeRecord) : Prop where
  committeeStake : r.committeeStake = [] ∨ r.committeeStake.length = r.rank.length
  sentinelContribution :
    r.sentinelContribution = [] ∨ r.sentinelContribution.length = r.rank.length

theorem columnFlaw?_eq_none_iff {r : CommitteeRecord} {name : String} {column : List UInt64} :
    r.columnFlaw? name column = none ↔ column = [] ∨ column.length = r.rank.length := by
  unfold columnFlaw?
  by_cases hempty : column = []
  · simp [hempty]
  · simp [hempty]

/-- A snapshot asks for more than the publication of its record does: for columns of the right
    length, and for members that are named once. -/
theorem snapshotFlaw?_eq_none_iff {r : CommitteeRecord} {max : UInt64} :
    r.snapshotFlaw? max = none
      ↔ r.publicationFlaw? max = none ∧ r.Parallel ∧ r.rank.Nodup := by
  have hparallel : r.Parallel ↔ r.columnFlaw? "committee_stake" r.committeeStake = none
      ∧ r.columnFlaw? "sentinel_contribution" r.sentinelContribution = none := by
    rw [columnFlaw?_eq_none_iff, columnFlaw?_eq_none_iff]
    exact ⟨fun h => ⟨h.1, h.2⟩, fun h => ⟨h.1, h.2⟩⟩
  have hrepeat : firstRepeat? [] r.rank = none ↔ r.rank.Nodup := by
    simp [firstRepeat?_eq_none_iff]
  have hshape : r.shapeFlaw? max .emptyCommittee = none ↔ r.publicationFlaw? max = none := by
    rw [publicationFlaw?, shapeFlaw?_eq_none_iff, shapeFlaw?_eq_none_iff]
  rw [hparallel, ← hrepeat, ← hshape, snapshotFlaw?]
  simp only [Option.orElse_eq_orElse, Option.orElse_eq_or, Option.or_eq_none_iff,
    Option.map_eq_none_iff, and_assoc]

/-- What a snapshot may be made from may also be published. -/
theorem shape_of_snapshotFlaw? {r : CommitteeRecord} {max : UInt64}
    (h : r.snapshotFlaw? max = none) :
    r.rank ≠ [] ∧ r.rank.length ≤ max.toNat ∧ r.proportion.length = r.rank.length :=
  shapeFlaw?_eq_none_iff.1 (snapshotFlaw?_eq_none_iff.1 h).1

theorem map_fst_memberList (r : CommitteeRecord) : r.memberList.map Prod.fst = r.rank := by
  rw [memberList, List.map_map]
  exact List.zipIdx_map_fst 0 r.rank

end CommitteeRecord

namespace Snapshot

section

variable {c : Config} {publishedAt : UInt64} {publishedBy : Hash} {epoch : UInt64}
  {r : CommitteeRecord} {s : Snapshot}

theorem ofRecord_eq_ok_iff :
    ofRecord c publishedAt publishedBy epoch r = .ok s
      ↔ r.snapshotFlaw? c.committeeMaxSize = none ∧ s = {
          epoch, publishedAt, publishedBy
          rank := r.rank
          proportion := r.proportion
          members := .ofList r.memberList
          accountBinding := r.accountBinding
          epochLength := c.epoch
          blockInterval := c.blockInterval } := by
  unfold ofRecord
  split
  · next hflaw => simp [hflaw]
  · next hflaw => simp [hflaw, eq_comm]

variable (h : ofRecord c publishedAt publishedBy epoch r = .ok s)

include h

theorem shape_ofRecord :
    s.rank ≠ [] ∧ s.rank.length ≤ c.committeeMaxSize.toNat
      ∧ s.proportion.length = s.rank.length := by
  obtain ⟨hflaw, rfl⟩ := ofRecord_eq_ok_iff.1 h
  exact CommitteeRecord.shape_of_snapshotFlaw? hflaw

theorem parallel_ofRecord : r.Parallel := by
  obtain ⟨hflaw, -⟩ := ofRecord_eq_ok_iff.1 h
  exact (CommitteeRecord.snapshotFlaw?_eq_none_iff.1 hflaw).2.1

theorem nodup_ofRecord : s.rank.Nodup := by
  obtain ⟨hflaw, rfl⟩ := ofRecord_eq_ok_iff.1 h
  exact (CommitteeRecord.snapshotFlaw?_eq_none_iff.1 hflaw).2.2

/-- The members are the accounts that have a rank. -/
theorem isMember_ofRecord (a : Address) : s.isMember a = true ↔ a ∈ s.rank := by
  obtain ⟨-, rfl⟩ := ofRecord_eq_ok_iff.1 h
  show (Table.ofList r.memberList).contains a = true ↔ a ∈ r.rank
  rw [Table.contains_ofList, r.map_fst_memberList]

/-- The committee that a snapshot stands for may be published once more. -/
theorem publicationFlaw?_toRecord_ofRecord :
    s.toRecord.publicationFlaw? c.committeeMaxSize = none :=
  CommitteeRecord.shapeFlaw?_eq_none_iff.2 (shape_ofRecord h)

/-- The record that a snapshot stands for gives every column in full, so a snapshot may be made
    from it again. -/
theorem snapshotFlaw?_toRecord_ofRecord :
    s.toRecord.snapshotFlaw? c.committeeMaxSize = none := by
  exact CommitteeRecord.snapshotFlaw?_eq_none_iff.2
    ⟨publicationFlaw?_toRecord_ofRecord h,
      ⟨.inr (List.length_map _), .inr (List.length_map _)⟩, nodup_ofRecord h⟩

theorem storable_ofRecord (hsize : r.accountBinding.size < Word.bound)
    (hlists : ∀ e ∈ r.accountBinding.entries, e.2.length < Word.bound) : s.Storable := by
  obtain ⟨-, hlength, hproportion⟩ := shape_ofRecord h
  have hmax : c.committeeMaxSize.toNat < Word.bound := c.committeeMaxSize.toNat_lt
  obtain ⟨-, rfl⟩ := ofRecord_eq_ok_iff.1 h
  have hmembers : (Table.ofList r.memberList).size ≤ r.rank.length := by
    have := Table.size_ofList_le r.memberList
    rwa [← List.length_map (f := Prod.fst), r.map_fst_memberList] at this
  dsimp only at hlength hproportion
  exact {
    rank := by show r.rank.length < _; omega
    proportion := by show r.proportion.length < _; omega
    members := by show (Table.ofList r.memberList).size < _; omega
    accountBinding := hsize
    boundAccounts := hlists }

end

end Snapshot

end CommitteeConsensus
