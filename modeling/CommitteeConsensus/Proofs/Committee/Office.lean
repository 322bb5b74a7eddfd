import CommitteeConsensus.Proofs.Engine.Settlement

/-! # Committees that stay in office

    What an election leaves in office when nobody has stake is the committee it was held under,
    published once more. The record is not the one that was published before: a column that was
    left out is written out by now. It names the same members in the same order, with the same
    shares, stakes and contributions (`toRecord_sameOffice`), so every snapshot made from it has
    the same members. The accounts bound to them may be others.
-/

namespace CommitteeConsensus

/-! ## Records of one committee -/

namespace CommitteeRecord

theorem getElem?_memberList (r : CommitteeRecord) (i : Nat) :
    r.memberList[i]? = r.rank[i]?.map fun a =>
      (a, ⟨a, r.committeeStake.getD i 0, r.sentinelContribution.getD i 0⟩) := by
  rw [memberList, List.getElem?_map, List.getElem?_zipIdx, Option.map_map, Nat.zero_add]
  rfl

/-- The records name the same members in the same order, with the same shares, and with the same
    stake and contribution for each. -/
structure SameOffice (r r' : CommitteeRecord) : Prop where
  rank : r.rank = r'.rank
  proportion : r.proportion = r'.proportion
  memberList : r.memberList = r'.memberList

theorem sameOffice_refl (r : CommitteeRecord) : r.SameOffice r := ⟨rfl, rfl, rfl⟩

theorem SameOffice.trans {r r' r'' : CommitteeRecord} (h : r.SameOffice r')
    (h' : r'.SameOffice r'') : r.SameOffice r'' :=
  ⟨h.rank.trans h'.rank, h.proportion.trans h'.proportion, h.memberList.trans h'.memberList⟩

/-- Who is bound to the members does not matter. -/
theorem sameOffice_accountBinding (r : CommitteeRecord) (bindings : Bindings) :
    { r with accountBinding := bindings }.SameOffice r := ⟨rfl, rfl, rfl⟩

end CommitteeRecord

/-! ## Snapshots of one committee -/

namespace Snapshot

variable {c : Config} {publishedAt : UInt64} {publishedBy : Hash} {epoch : UInt64}
  {r : CommitteeRecord} {s : Snapshot}

/-- A member is found with the entries of its place in the columns, an absent one counting as
    zeros. -/
theorem get?_members_ofRecord (h : ofRecord c publishedAt publishedBy epoch r = .ok s) {i : Nat}
    {a : Address} (ha : r.rank[i]? = some a) :
    s.members.get? a
      = some ⟨a, r.committeeStake.getD i 0, r.sentinelContribution.getD i 0⟩ := by
  have hnodup := nodup_ofRecord h
  obtain ⟨-, rfl⟩ := ofRecord_eq_ok_iff.1 h
  -- no member is named twice, so each entry of the list is kept
  apply Table.get?_ofList_of_mem
  · rw [r.map_fst_memberList]
    exact hnodup
  · apply List.mem_of_getElem? (i := i)
    rw [r.getElem?_memberList, ha]
    rfl

theorem getElem?_column_ofRecord (h : ofRecord c publishedAt publishedBy epoch r = .ok s)
    (value : Member → UInt64) (i : Nat) :
    (s.column value)[i]? = r.rank[i]?.map fun a =>
      value ⟨a, r.committeeStake.getD i 0, r.sentinelContribution.getD i 0⟩ := by
  have hrank : s.rank = r.rank := by
    obtain ⟨-, rfl⟩ := ofRecord_eq_ok_iff.1 h
    rfl
  rw [column, List.getElem?_map, hrank]
  cases ha : r.rank[i]? with
  | none => rfl
  | some a =>
    rw [Option.map_some, Option.map_some, get?_members_ofRecord h ha]
    rfl

/-- The record that a snapshot stands for is one of the committee that it was made from. -/
theorem toRecord_sameOffice (h : ofRecord c publishedAt publishedBy epoch r = .ok s) :
    s.toRecord.SameOffice r := by
  have hcolumn := getElem?_column_ofRecord h
  obtain ⟨-, rfl⟩ := ofRecord_eq_ok_iff.1 h
  refine ⟨rfl, rfl, ?_⟩
  apply List.ext_getElem?
  intro i
  rw [CommitteeRecord.getElem?_memberList, CommitteeRecord.getElem?_memberList]
  -- the columns of the snapshot are those of the record, place by place
  show r.rank[i]?.map _ = r.rank[i]?.map _
  cases ha : r.rank[i]? with
  | none => rfl
  | some a =>
    have hstake := hcolumn Member.stake i
    have hcontribution := hcolumn Member.contribution i
    rw [ha, Option.map_some] at hstake hcontribution
    rw [Option.map_some, Option.map_some, toRecord, List.getD_eq_getElem?_getD,
      List.getD_eq_getElem?_getD, hstake, hcontribution]
    rfl

/-- The snapshots have the same members in the same order, with the same shares. -/
structure SameOffice (s s' : Snapshot) : Prop where
  rank : s.rank = s'.rank
  proportion : s.proportion = s'.proportion
  members : s.members = s'.members

/-- Snapshots of one committee agree, whoever publishes it and for whatever turn. -/
theorem sameOffice_ofRecord {c' : Config} {publishedAt' : UInt64} {publishedBy' : Hash}
    {epoch' : UInt64} {r' : CommitteeRecord} {s' : Snapshot} (hrecords : r.SameOffice r')
    (h : ofRecord c publishedAt publishedBy epoch r = .ok s)
    (h' : ofRecord c' publishedAt' publishedBy' epoch' r' = .ok s') : s.SameOffice s' := by
  obtain ⟨-, rfl⟩ := ofRecord_eq_ok_iff.1 h
  obtain ⟨-, rfl⟩ := ofRecord_eq_ok_iff.1 h'
  exact ⟨hrecords.rank, hrecords.proportion, congrArg Table.ofList hrecords.memberList⟩

end Snapshot

/-! ## Elections without candidates -/

/-- Nobody without stake is elected. -/
theorem rankCandidates_of_unstaked {candidates : List Candidate}
    (h : ∀ c ∈ candidates, c.stake = 0) (base maxSize : UInt64) :
    rankCandidates candidates base maxSize = {} := by
  have hnone : elected candidates maxSize = [] := by
    apply List.eq_nil_iff_forall_not_mem.2
    intro c hc
    obtain ⟨hmem, hpos⟩ := mem_of_mem_elected hc
    rw [h c hmem] at hpos
    exact absurd hpos (by decide)
  unfold rankCandidates
  dsimp only
  rw [hnone]
  rfl

/-- As long as no candidate has stake, the committee in office is published once more. -/
theorem electCommittee_sameOffice {s : State}
    (h : ∀ a ∈ s.candidates, s.latestStake a = 0) (config : Config) (number : UInt64)
    (current : Snapshot) :
    (electCommittee config number current s).SameOffice current.toRecord := by
  have hnone : rankCandidates (electionCandidates config number s) config.rewards.base
      config.committeeMaxSize = {} := by
    apply rankCandidates_of_unstaked
    intro c hc
    obtain ⟨a, ha, rfl⟩ := List.mem_map.1 hc
    exact h a ha
  unfold electCommittee
  rw [hnone]
  exact CommitteeRecord.sameOffice_accountBinding current.toRecord _

end CommitteeConsensus
