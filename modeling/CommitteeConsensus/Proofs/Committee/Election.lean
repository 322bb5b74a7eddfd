import CommitteeConsensus.Committee.Election
import CommitteeConsensus.Proofs.Committee.Snapshot
import CommitteeConsensus.Proofs.Word

/-! # Elected committees

    The order of candidates is total, and candidates that rank before one another are equal. So
    equal candidates become neighbours when they are sorted, and dropping neighbours with one
    address leaves every address once (`nodup_elected`), provided that an address decides what
    else is known of its candidate. The shares of the stake are rounded down and the first member
    gets what is left, so that they sum to `base` (`total_proportion_rankCandidates`).
-/

namespace CommitteeConsensus

/-! ## Order of candidates -/

namespace Candidate

variable {a b c : Candidate}

theorem ranksBefore_iff : a.ranksBefore b = true ↔ b.stake < a.stake
    ∨ a.stake = b.stake ∧ (b.heft < a.heft ∨ a.heft = b.heft ∧ ¬ b.address < a.address) := by
  unfold ranksBefore
  by_cases hstake : a.stake = b.stake
  · by_cases hheft : a.heft = b.heft
    · simp [hstake, hheft]
    · simp [hstake, hheft]
  · simp [hstake]

theorem ranksBefore_total (a b : Candidate) :
    (a.ranksBefore b || b.ranksBefore a) = true := by
  rw [Bool.or_eq_true, ranksBefore_iff, ranksBefore_iff]
  -- stakes and hefts are compared as numbers, addresses by the order of keys
  have haddress : ¬ b.address < a.address ∨ ¬ a.address < b.address := by
    by_cases h : b.address < a.address
    · exact .inr fun h' => KeyOrder.irrefl _ (KeyOrder.trans h h')
    · exact .inl h
  simp only [UInt64.lt_iff_toNat_lt, ← UInt64.toNat_inj]
  grind

theorem ranksBefore_trans (hab : a.ranksBefore b = true) (hbc : b.ranksBefore c = true) :
    a.ranksBefore c = true := by
  rw [ranksBefore_iff] at hab hbc ⊢
  have haddress : ¬ b.address < a.address → ¬ c.address < b.address →
      ¬ c.address < a.address := by
    intro hba hcb hca
    by_cases h : a.address < b.address
    · exact hcb (KeyOrder.trans hca h)
    · exact hcb (KeyOrder.connected h hba ▸ hca)
  simp only [UInt64.lt_iff_toNat_lt, ← UInt64.toNat_inj] at hab hbc ⊢
  grind

theorem eq_of_ranksBefore (hab : a.ranksBefore b = true) (hba : b.ranksBefore a = true) :
    a = b := by
  rw [ranksBefore_iff] at hab hba
  simp only [UInt64.lt_iff_toNat_lt, ← UInt64.toNat_inj] at hab hba
  have hstake : a.stake.toNat = b.stake.toNat := by omega
  have hheft : a.heft.toNat = b.heft.toNat := by omega
  have haddress : a.address = b.address := KeyOrder.connected (by grind) (by grind)
  cases a
  cases b
  simp_all [UInt64.toNat_inj]

end Candidate

/-! ## Repeated addresses -/

theorem dropRepeats_sublist (l : List Candidate) : (dropRepeats l).Sublist l := by
  fun_induction dropRepeats l with
  | case1 => exact .refl []
  | case2 c => exact .refl [c]
  | case3 c d rest _ ih => exact ih.trans ((List.sublist_cons_self d rest).cons_cons c)
  | case4 c d rest _ ih => exact ih.cons_cons c

theorem dropRepeats_ne_nil {l : List Candidate} (h : l ≠ []) : dropRepeats l ≠ [] := by
  fun_induction dropRepeats l with
  | case1 => exact h
  | case2 c => exact h
  | case3 c d rest _ ih => exact ih (List.cons_ne_nil c rest)
  | case4 c d rest _ ih => exact List.cons_ne_nil c _

/-- An address decides what else is known of its candidate. -/
def Determined (candidates : List Candidate) : Prop :=
  ∀ c ∈ candidates, ∀ d ∈ candidates, c.address = d.address → c = d

theorem Determined.sublist {l l' : List Candidate} (h : Determined l) (hsub : l' ⊆ l) :
    Determined l' :=
  fun c hc d hd => h c (hsub hc) d (hsub hd)

/-- In a sorted list equal candidates are neighbours, so no address is left twice. -/
theorem nodup_dropRepeats {l : List Candidate}
    (hsorted : l.Pairwise fun a b => a.ranksBefore b = true) (hdetermined : Determined l) :
    ((dropRepeats l).map Candidate.address).Nodup := by
  fun_induction dropRepeats l with
  | case1 => exact List.nodup_nil
  | case2 c => exact List.pairwise_singleton _ c.address
  | case3 c d rest _ ih =>
    have hsub : (c :: rest).Sublist (c :: d :: rest) := (List.sublist_cons_self d rest).cons_cons c
    exact ih (hsorted.sublist hsub) (hdetermined.sublist hsub.subset)
  | case4 c d rest hne ih =>
    obtain ⟨hfirst, hrest⟩ := List.pairwise_cons.1 hsorted
    rw [List.map_cons, List.nodup_cons]
    refine ⟨?_, ih hrest (hdetermined.sublist (List.subset_cons_self c _))⟩
    -- a second candidate with the address of the first would be the first, and `d` with it
    intro hmem
    obtain ⟨e, he, haddress⟩ := List.mem_map.1 hmem
    have he' : e ∈ d :: rest := (dropRepeats_sublist _).subset he
    have hsame : e = c :=
      hdetermined e (List.mem_cons_of_mem c he') c List.mem_cons_self haddress
    have hcd : c.ranksBefore d = true := hfirst d List.mem_cons_self
    rcases List.mem_cons.1 he' with hed | hmore
    · exact hne (by rw [← hed, hsame])
    · have hdc : d.ranksBefore c = true := hsame ▸ (List.pairwise_cons.1 hrest).1 e hmore
      exact hne (congrArg Candidate.address (Candidate.eq_of_ranksBefore hcd hdc))

/-! ## The elected -/

theorem pairwise_mergeSort_ranksBefore (candidates : List Candidate) :
    (candidates.mergeSort Candidate.ranksBefore).Pairwise (Candidate.ranksBefore · ·) := by
  apply List.pairwise_mergeSort
  · exact fun _ _ _ => Candidate.ranksBefore_trans
  · exact Candidate.ranksBefore_total

/-- There is one way to sort candidates. -/
theorem mergeSort_ranksBefore_eq {sorted candidates : List Candidate}
    (hperm : sorted.Perm candidates)
    (hsorted : sorted.Pairwise fun a b => a.ranksBefore b = true) :
    candidates.mergeSort Candidate.ranksBefore = sorted := by
  have hsame := (List.mergeSort_perm candidates Candidate.ranksBefore).trans hperm.symm
  exact hsame.eq_of_pairwise (fun _ _ _ _ => Candidate.eq_of_ranksBefore)
    (pairwise_mergeSort_ranksBefore candidates) hsorted

section

variable {candidates : List Candidate} {maxSize : UInt64}

/-- No address is elected twice. -/
theorem nodup_elected (hdetermined : Determined candidates) :
    ((elected candidates maxSize).map Candidate.address).Nodup := by
  have hsorted := pairwise_mergeSort_ranksBefore (candidates.filter (0 < ·.stake))
  have hsub : (candidates.filter (0 < ·.stake)).mergeSort Candidate.ranksBefore ⊆ candidates :=
    fun c hc => List.mem_of_mem_filter (List.mem_mergeSort.1 hc)
  have hall := nodup_dropRepeats hsorted (hdetermined.sublist hsub)
  exact hall.sublist ((List.take_sublist _ _).map _)

theorem length_elected_le : (elected candidates maxSize).length ≤ maxSize.toNat :=
  List.length_take_le _ _

/-- Only candidates are elected, and only those with stake. -/
theorem mem_of_mem_elected {c : Candidate} (h : c ∈ elected candidates maxSize) :
    c ∈ candidates ∧ 0 < c.stake := by
  have hsorted := (dropRepeats_sublist _).subset (List.mem_of_mem_take h)
  obtain ⟨hc, hpos⟩ := List.mem_filter.1 (List.mem_mergeSort.1 hsorted)
  exact ⟨hc, of_decide_eq_true hpos⟩

/-- Somebody is elected as soon as somebody has stake. -/
theorem elected_ne_nil (hmax : maxSize ≠ 0) (hstake : ∃ c ∈ candidates, 0 < c.stake) :
    elected candidates maxSize ≠ [] := by
  obtain ⟨c, hc, hpos⟩ := hstake
  have hfilter : c ∈ (candidates.filter (0 < ·.stake)).mergeSort Candidate.ranksBefore :=
    List.mem_mergeSort.2 (List.mem_filter.2 ⟨hc, decide_eq_true hpos⟩)
  have hall := dropRepeats_ne_nil (List.ne_nil_of_mem hfilter)
  unfold elected
  rw [Ne, List.take_eq_nil_iff, not_or]
  exact ⟨(Word.toNat_pos hmax).ne', hall⟩

end

/-! ## Reward shares -/

theorem sum_stakeShares_le (base : UInt64) (members : List Candidate) :
    (stakeShares base members).sum ≤ base.toNat := by
  have hmap : stakeShares base members = (members.map fun m => m.stake.toNat).map
      fun stake => base.toNat * stake / totalStake members := by
    rw [List.map_map]
    exact List.map_congr_left fun m _ => by rw [Function.comp_apply, Nat.mul_comm]
  have htotal : (members.map fun m => m.stake.toNat).sum = totalStake members := by
    rw [totalStake, Word.total_eq_sum, List.map_map]
    rfl
  rw [hmap]
  exact sum_map_mul_div_le base.toNat (Nat.le_of_eq htotal)

/-- The first share is raised by what rounding leaves of `base`. -/
theorem raiseFirst_cons (base : UInt64) (first : Nat) (rest : List Nat) :
    raiseFirst base (first :: rest)
      = (first + (base.toNat - (first :: rest).sum)) :: rest := by
  -- the shares are summed from the last one, and the first comes in at the end
  have hfold : rest.foldr (· + ·) first = rest.sum + first := by
    induction rest with
    | nil => simp
    | cons n rest ih => rw [List.foldr_cons, ih, List.sum_cons, Nat.add_assoc]
  rw [raiseFirst, hfold, List.sum_cons, Nat.add_comm first rest.sum]

/-- What rounding leaves is made good by the first share. -/
theorem sum_raiseFirst {base : UInt64} {shares : List Nat} (hne : shares ≠ [])
    (hle : shares.sum ≤ base.toNat) : (raiseFirst base shares).sum = base.toNat := by
  cases shares with
  | nil => exact absurd rfl hne
  | cons first rest =>
    rw [raiseFirst_cons]
    rw [List.sum_cons] at hle ⊢
    rw [List.sum_cons]
    omega

theorem length_raiseFirst (base : UInt64) (shares : List Nat) :
    (raiseFirst base shares).length = shares.length := by
  cases shares <;> rfl

/-! ## The elected committee -/

section

variable {candidates : List Candidate} {base maxSize : UInt64}

/-- The record of an election; without members it is the empty record. -/
theorem rankCandidates_eq : rankCandidates candidates base maxSize = {
    rank := (elected candidates maxSize).map Candidate.address
    proportion :=
      (raiseFirst base (stakeShares base (elected candidates maxSize))).map UInt64.ofNat
    committeeStake := (elected candidates maxSize).map Candidate.stake
    sentinelContribution := (elected candidates maxSize).map Candidate.heft } := by
  unfold rankCandidates
  dsimp only
  split
  · next hnone =>
    rw [List.isEmpty_iff.1 hnone]
    rfl
  · rfl

theorem rank_rankCandidates :
    (rankCandidates candidates base maxSize).rank
      = (elected candidates maxSize).map Candidate.address := by
  rw [rankCandidates_eq]

/-- An election never yields too many members, and gives each of them a share. -/
theorem rankCandidates_shape :
    (rankCandidates candidates base maxSize).rank.length ≤ maxSize.toNat
      ∧ (rankCandidates candidates base maxSize).proportion.length
        = (rankCandidates candidates base maxSize).rank.length := by
  rw [rankCandidates_eq]
  simp [stakeShares, length_raiseFirst, length_elected_le]

/-- A snapshot can be made from an elected committee if no member has two seats. -/
theorem snapshotFlaw?_rankCandidates_iff
    (h : (rankCandidates candidates base maxSize).rank ≠ []) :
    (rankCandidates candidates base maxSize).snapshotFlaw? maxSize = none
      ↔ (rankCandidates candidates base maxSize).rank.Nodup := by
  have hshape : (rankCandidates candidates base maxSize).publicationFlaw? maxSize = none :=
    CommitteeRecord.shapeFlaw?_eq_none_iff.2 ⟨h, rankCandidates_shape⟩
  have hparallel : (rankCandidates candidates base maxSize).Parallel := by
    rw [rankCandidates_eq]
    exact ⟨.inr (by simp), .inr (by simp)⟩
  rw [CommitteeRecord.snapshotFlaw?_eq_none_iff]
  exact ⟨fun hnone => hnone.2.2, fun hnodup => ⟨hshape, hparallel, hnodup⟩⟩

theorem snapshotFlaw?_rankCandidates (hdetermined : Determined candidates)
    (h : (rankCandidates candidates base maxSize).rank ≠ []) :
    (rankCandidates candidates base maxSize).snapshotFlaw? maxSize = none := by
  rw [snapshotFlaw?_rankCandidates_iff h, rank_rankCandidates]
  exact nodup_elected hdetermined

/-- The reward shares of an elected committee are all of `base`. -/
theorem total_proportion_rankCandidates
    (h : (rankCandidates candidates base maxSize).rank ≠ []) :
    Word.total (rankCandidates candidates base maxSize).proportion = base.toNat := by
  have hmembers : stakeShares base (elected candidates maxSize) ≠ [] := by
    rw [rank_rankCandidates, Ne, List.map_eq_nil_iff] at h
    rw [stakeShares, Ne, List.map_eq_nil_iff]
    exact h
  have hsum := sum_raiseFirst hmembers (sum_stakeShares_le base _)
  rw [rankCandidates_eq]
  exact (Word.total_map_ofNat (hsum ▸ base.toNat_lt)).trans hsum

end

end CommitteeConsensus
