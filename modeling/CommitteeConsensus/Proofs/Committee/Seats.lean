import CommitteeConsensus.Proofs.Committee.Election

/-! # Members with two seats

    Only neighbours with one address are dropped when candidates have been sorted. So an address
    that is listed with two stakes, or two contributions, keeps two entries if another candidate
    is ranked between them, and it gets two seats if the later entry is still among the elected
    (`nodup_rank_iff`). No snapshot can be made from such a committee.
-/

namespace CommitteeConsensus

variable {l members : List Candidate} {a b c : Candidate} {rest : List Candidate}

/-! ## Entries that are apart -/

/-- From any entry of a member's address down to the member, all entries are of this address. -/
def Unbroken (l members : List Candidate) : Prop :=
  ∀ m ∈ members, ∀ c ∈ l, ∀ d ∈ l, c.address = m.address → c.ranksBefore d = true →
    d.ranksBefore m = true → d.address = m.address

theorem Candidate.ranksBefore_refl (c : Candidate) : c.ranksBefore c = true := by
  have htotal := Candidate.ranksBefore_total c c
  rwa [Bool.or_self] at htotal

section

variable (hsorted : (a :: b :: rest).Pairwise fun c d => c.ranksBefore d = true)

include hsorted

theorem eq_of_ranksBefore_first (hc : c ∈ a :: b :: rest) (hca : c.ranksBefore a = true) :
    c = a := by
  rcases List.mem_cons.1 hc with rfl | hrest
  · rfl
  · exact Candidate.eq_of_ranksBefore hca ((List.pairwise_cons.1 hsorted).1 c hrest)

theorem eq_of_ranksBefore_second (hc : c ∈ a :: b :: rest) (hcb : c.ranksBefore b = true) :
    c = a ∨ c = b := by
  rcases List.mem_cons.1 hc with rfl | hc
  · exact .inl rfl
  · right
    have hrest := (List.pairwise_cons.1 hsorted).2
    rcases List.mem_cons.1 hc with rfl | hc
    · rfl
    · exact Candidate.eq_of_ranksBefore hcb ((List.pairwise_cons.1 hrest).1 c hc)

/-- The second of two neighbours with one address is not apart from the first. -/
theorem unbroken_cons_iff_of_same (hsame : a.address = b.address) :
    Unbroken (a :: b :: rest) members ↔ Unbroken (a :: rest) members := by
  have hab : a.ranksBefore b = true := (List.pairwise_cons.1 hsorted).1 b List.mem_cons_self
  have hsub : a :: rest ⊆ a :: b :: rest := List.cons_subset_cons a (List.subset_cons_self b rest)
  have hother : ∀ {d}, d ∈ a :: b :: rest → d ≠ b → d ∈ a :: rest := by
    intro d hd hdb
    rcases List.mem_cons.1 hd with rfl | hd
    · exact List.mem_cons_self
    · exact List.mem_cons_of_mem a ((List.mem_cons.1 hd).resolve_left hdb)
  constructor
  · intro h m hm c hc d hd
    exact h m hm c (hsub hc) d (hsub hd)
  · intro h m hm c hc d hd hcm hcd hdm
    by_cases hdb : d = b
    · subst hdb
      rcases eq_of_ranksBefore_second hsorted hc hcd with rfl | rfl
      · exact hsame.symm.trans hcm
      · exact hcm
    · have hd' := hother hd hdb
      by_cases hcb : c = b
      · -- the first of the two stands in for the second
        subst hcb
        exact h m hm a List.mem_cons_self d hd' (hsame.trans hcm)
          (Candidate.ranksBefore_trans hab hcd) hdm
      · exact h m hm c (hother hc hcb) d hd' hcm hcd hdm

/-- A first entry with a neighbour of another address is not to be met again. -/
theorem unbroken_cons_iff_of_other (hother : a.address ≠ b.address)
    (hmembers : members ⊆ b :: rest) :
    Unbroken (a :: b :: rest) (a :: members)
      ↔ a.address ∉ members.map Candidate.address ∧ Unbroken (b :: rest) members := by
  obtain ⟨hfirst, hrest⟩ := List.pairwise_cons.1 hsorted
  have hab : a.ranksBefore b = true := hfirst b List.mem_cons_self
  constructor
  · intro h
    refine ⟨?_, ?_⟩
    · intro hmem
      obtain ⟨m, hm, haddress⟩ := List.mem_map.1 hmem
      have hbm : b.ranksBefore m = true := by
        rcases List.mem_cons.1 (hmembers hm) with rfl | hlater
        · exact Candidate.ranksBefore_refl m
        · exact (List.pairwise_cons.1 hrest).1 m hlater
      have hbroken := h m (List.mem_cons_of_mem a hm) a List.mem_cons_self b
        (List.mem_cons_of_mem a List.mem_cons_self) haddress.symm hab hbm
      exact hother (haddress.symm.trans hbroken.symm)
    · intro m hm c hc d hd
      exact h m (List.mem_cons_of_mem a hm) c (List.mem_cons_of_mem a hc) d
        (List.mem_cons_of_mem a hd)
  · intro h m hm c hc d hd hcm hcd hdm
    obtain ⟨hnew, hunbroken⟩ := h
    rcases List.mem_cons.1 hm with rfl | hm
    · rw [eq_of_ranksBefore_first hsorted hd hdm]
    · have hmem : m.address ∈ members.map Candidate.address := List.mem_map_of_mem hm
      have hca : c ≠ a := by
        intro hca
        rw [← hcm, hca] at hmem
        exact hnew hmem
      have hda : d ≠ a := by
        intro hda
        rw [hda] at hcd
        exact hca (eq_of_ranksBefore_first hsorted hc hcd)
      exact hunbroken m hm c ((List.mem_cons.1 hc).resolve_left hca) d
        ((List.mem_cons.1 hd).resolve_left hda) hcm hcd hdm

end

/-- However many are taken of the entries that stay, an address is among them twice exactly if its
    entries are apart. -/
theorem nodup_take_dropRepeats_iff (hsorted : l.Pairwise fun c d => c.ranksBefore d = true)
    (n : Nat) : (((dropRepeats l).take n).map Candidate.address).Nodup
      ↔ Unbroken l ((dropRepeats l).take n) := by
  fun_induction dropRepeats l generalizing n with
  | case1 => simp [Unbroken]
  | case2 c =>
    have hnodup : (([c].take n).map Candidate.address).Nodup :=
      (List.pairwise_singleton _ c.address).sublist ((List.take_sublist n [c]).map _)
    have hunbroken : Unbroken [c] ([c].take n) := by
      intro m hm d _ e he _ _ _
      rw [List.mem_singleton.1 he, List.mem_singleton.1 (List.mem_of_mem_take hm)]
    exact ⟨fun _ => hunbroken, fun _ => hnodup⟩
  | case3 c d rest hsame ih =>
    rw [unbroken_cons_iff_of_same hsorted hsame]
    exact ih (hsorted.sublist ((List.sublist_cons_self d rest).cons_cons c)) n
  | case4 c d rest hother ih =>
    cases n with
    | zero => simp [Unbroken]
    | succ n =>
      have hmembers : (dropRepeats (d :: rest)).take n ⊆ d :: rest := by
        intro m hm
        exact (dropRepeats_sublist _).subset (List.mem_of_mem_take hm)
      rw [List.take_succ_cons, unbroken_cons_iff_of_other hsorted hother hmembers,
        List.map_cons, List.nodup_cons, ih (List.pairwise_cons.1 hsorted).2 n]

/-! ## Seats -/

section

variable {candidates : List Candidate} {base maxSize : UInt64}

/-- Whoever ranks before a candidate with stake has stake. -/
theorem Candidate.stake_pos_of_ranksBefore (hab : a.ranksBefore b = true) (hb : 0 < b.stake) :
    0 < a.stake := by
  have hle : b.stake ≤ a.stake := by
    rcases ranksBefore_iff.1 hab with hlt | ⟨heq, -⟩
    · exact UInt64.le_of_lt hlt
    · exact UInt64.le_of_eq heq.symm
  exact UInt64.lt_of_lt_of_le hb hle

/-- Candidates without stake come after all members, and are not between any entries. -/
theorem unbroken_sorted_iff (hmembers : ∀ m ∈ members, 0 < m.stake) :
    Unbroken ((candidates.filter (0 < ·.stake)).mergeSort Candidate.ranksBefore) members
      ↔ Unbroken candidates members := by
  have hmem : ∀ c, c ∈ (candidates.filter (0 < ·.stake)).mergeSort Candidate.ranksBefore
      ↔ c ∈ candidates ∧ 0 < c.stake := by
    intro c
    rw [List.mem_mergeSort, List.mem_filter, decide_eq_true_iff]
  constructor
  · intro h m hm c hc d hd hcm hcd hdm
    have hdstake := Candidate.stake_pos_of_ranksBefore hdm (hmembers m hm)
    have hcstake := Candidate.stake_pos_of_ranksBefore hcd hdstake
    exact h m hm c ((hmem c).2 ⟨hc, hcstake⟩) d ((hmem d).2 ⟨hd, hdstake⟩) hcm hcd hdm
  · intro h m hm c hc d hd
    exact h m hm c ((hmem c).1 hc).1 d ((hmem d).1 hd).1

/-- Whatever the list of candidates is, no address has two seats exactly if from any entry of a
    member's address down to the member all entries are of this address. -/
theorem nodup_rank_iff (candidates : List Candidate) (base maxSize : UInt64) :
    (rankCandidates candidates base maxSize).rank.Nodup
      ↔ Unbroken candidates (elected candidates maxSize) := by
  have hmembers : ∀ m ∈ elected candidates maxSize, 0 < m.stake := by
    intro m hm
    exact (mem_of_mem_elected hm).2
  rw [rank_rankCandidates, ← unbroken_sorted_iff hmembers]
  exact nodup_take_dropRepeats_iff (pairwise_mergeSort_ranksBefore _) maxSize.toNat

end

/-! ## Two entries of one address -/

namespace Returning

def returning : Address := .ofNat 20 1

/-- An address is listed with two stakes, and another one has a stake in between. -/
def ballot : List Candidate := [⟨returning, 3, 0⟩, ⟨.ofNat 20 2, 2, 0⟩, ⟨returning, 1, 0⟩]

theorem elected_ballot : elected ballot 10 = ballot := by
  have hsorted : (ballot.filter (0 < ·.stake)).mergeSort Candidate.ranksBefore = ballot := by
    apply mergeSort_ranksBefore_eq
    · decide
    · decide
  rw [elected, hsorted]
  simp +decide [ballot, dropRepeats]

end Returning

open Returning

/-- The address gets the first seat and the last one, and the committee no snapshot. -/
theorem not_nodup_rank_returning :
    ¬ (rankCandidates ballot 10000 10).rank.Nodup
      ∧ (rankCandidates ballot 10000 10).rank = [returning, .ofNat 20 2, returning]
      ∧ (rankCandidates ballot 10000 10).snapshotFlaw? 10 = some (.repeatedMember returning) := by
  refine ⟨?_, ?_, ?_⟩
  · rw [nodup_rank_iff, elected_ballot]
    unfold Unbroken
    decide
  · rw [rank_rankCandidates, elected_ballot]
    rfl
  · rw [rankCandidates_eq, elected_ballot]
    decide

end CommitteeConsensus
