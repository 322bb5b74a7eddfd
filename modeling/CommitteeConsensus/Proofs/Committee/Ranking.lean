import CommitteeConsensus.Proofs.Committee.Election
import Mathlib.Algebra.Order.BigOperators.Group.List
import Mathlib.Algebra.Order.Group.Nat
import Mathlib.Data.Finset.Card

/-! # Who is elected, and with which share

    The elected are the first of the candidates with stake, by stake, then by contribution, both
    descending, then by address (`Elects`). Where an address decides what else is known of its
    candidate, dropping neighbours with one address leaves each candidate once, and so the first
    seats go to the first candidates.

    Each member gets the part of `base` that its stake is of the elected stake, rounded down, and
    the first one what is left. Words of 64 bits, and of 128 for the products and the total, are
    wide enough for every step of this (`checkedShares`), whatever the stakes are.
-/

namespace CommitteeConsensus

variable {candidates members : List Candidate} {base maxSize : UInt64} {m : Candidate}

/-! ## Order of rank -/

namespace Candidate

variable {a b : Candidate}

/-- `a` has more stake than `b`, or as much and a higher contribution, or as much of both and the
    lower address. -/
def Precedes (a b : Candidate) : Prop :=
  b.stake < a.stake
    ∨ a.stake = b.stake ∧ (b.heft < a.heft ∨ a.heft = b.heft ∧ a.address < b.address)

theorem precedes_of_ranksBefore (h : a.ranksBefore b = true) (hne : a.address ≠ b.address) :
    a.Precedes b := by
  rcases ranksBefore_iff.1 h with hstake | ⟨hstake, hheft | ⟨hheft, haddress⟩⟩
  · exact .inl hstake
  · exact .inr ⟨hstake, .inl hheft⟩
  · have hlt : a.address < b.address := by
      by_contra hnot
      exact hne (KeyOrder.connected hnot haddress)
    exact .inr ⟨hstake, .inr ⟨hheft, hlt⟩⟩

theorem Precedes.stake_le (h : a.Precedes b) : b.stake ≤ a.stake := by
  rcases h with hlt | ⟨heq, -⟩
  · exact UInt64.le_of_lt hlt
  · exact UInt64.le_of_eq heq.symm

end Candidate

/-! ## Every candidate once -/

/-- An address that goes was that of a neighbour that stays. -/
theorem exists_mem_dropRepeats {l : List Candidate} {c : Candidate} (hc : c ∈ l) :
    ∃ d ∈ dropRepeats l, d.address = c.address := by
  fun_induction dropRepeats l generalizing c with
  | case1 => simp at hc
  | case2 b => exact ⟨c, hc, rfl⟩
  | case3 a b rest hsame ih =>
    rcases List.mem_cons.1 hc with rfl | hc
    · exact ih List.mem_cons_self
    · rcases List.mem_cons.1 hc with rfl | hrest
      · rw [← hsame]
        exact ih List.mem_cons_self
      · exact ih (List.mem_cons_of_mem a hrest)
  | case4 a b rest _ ih =>
    rcases List.mem_cons.1 hc with rfl | hc
    · exact ⟨c, List.mem_cons_self, rfl⟩
    · obtain ⟨d, hd, haddress⟩ := ih hc
      exact ⟨d, List.mem_cons_of_mem a hd, haddress⟩

theorem mem_dropRepeats_iff {l : List Candidate} {c : Candidate} (hdetermined : Determined l) :
    c ∈ dropRepeats l ↔ c ∈ l := by
  constructor
  · exact fun hc => (dropRepeats_sublist l).subset hc
  · intro hc
    obtain ⟨d, hd, haddress⟩ := exists_mem_dropRepeats hc
    rwa [← hdetermined d ((dropRepeats_sublist l).subset hd) c hc haddress]

/-- The candidates with stake in the order of rank, each of them once. -/
def standing (candidates : List Candidate) : List Candidate :=
  dropRepeats ((candidates.filter (0 < ·.stake)).mergeSort Candidate.ranksBefore)

theorem determined_sorted (hdetermined : Determined candidates) :
    Determined ((candidates.filter (0 < ·.stake)).mergeSort Candidate.ranksBefore) :=
  hdetermined.sublist fun _ hc => List.mem_of_mem_filter (List.mem_mergeSort.1 hc)

theorem mem_standing_iff (hdetermined : Determined candidates) {c : Candidate} :
    c ∈ standing candidates ↔ c ∈ candidates ∧ 0 < c.stake := by
  rw [standing, mem_dropRepeats_iff (determined_sorted hdetermined), List.mem_mergeSort,
    List.mem_filter, decide_eq_true_iff]

theorem nodup_standing (hdetermined : Determined candidates) :
    ((standing candidates).map Candidate.address).Nodup :=
  nodup_dropRepeats (pairwise_mergeSort_ranksBefore _) (determined_sorted hdetermined)

theorem pairwise_standing (hdetermined : Determined candidates) :
    (standing candidates).Pairwise Candidate.Precedes := by
  have hsorted : (standing candidates).Pairwise fun a b => a.ranksBefore b = true :=
    (pairwise_mergeSort_ranksBefore _).sublist (dropRepeats_sublist _)
  have hdistinct := List.pairwise_map.1 (nodup_standing hdetermined)
  exact (hsorted.and hdistinct).imp fun h => Candidate.precedes_of_ranksBefore h.1 h.2

/-- There are as many as there are addresses with stake. -/
theorem length_standing (hdetermined : Determined candidates) :
    (standing candidates).length
      = ((candidates.filter (0 < ·.stake)).map Candidate.address).toFinset.card := by
  rw [← List.length_map Candidate.address,
    ← List.toFinset_card_of_nodup (nodup_standing hdetermined)]
  congr 1
  ext a
  simp only [List.mem_toFinset, List.mem_map, mem_standing_iff hdetermined, List.mem_filter,
    decide_eq_true_iff]

/-! ## The first of the candidates -/

/-- The members are the first of the candidates with stake, as many as there are seats. -/
structure Elects (candidates : List Candidate) (seats : Nat) (members : List Candidate) :
    Prop where
  stands : ∀ m ∈ members, m ∈ candidates ∧ 0 < m.stake
  nodup : (members.map Candidate.address).Nodup
  ordered : members.Pairwise Candidate.Precedes
  length_eq : members.length
    = min seats ((candidates.filter (0 < ·.stake)).map Candidate.address).toFinset.card
  /-- Whoever has stake and is left out comes after all members. -/
  left_out : ∀ c ∈ candidates, 0 < c.stake → c.address ∉ members.map Candidate.address →
    ∀ m ∈ members, m.Precedes c

theorem elects_elected (hdetermined : Determined candidates) (maxSize : UInt64) :
    Elects candidates maxSize.toNat (elected candidates maxSize) where
  stands _ hm := mem_of_mem_elected hm
  nodup := nodup_elected hdetermined
  ordered := (pairwise_standing hdetermined).sublist (List.take_sublist _ _)
  length_eq := by
    rw [← length_standing hdetermined]
    exact List.length_take
  left_out := by
    intro c hc hstake hout m hm
    have hstanding := (mem_standing_iff hdetermined).2 ⟨hc, hstake⟩
    have hordered := pairwise_standing hdetermined
    rw [← List.take_append_drop maxSize.toNat (standing candidates)] at hstanding hordered
    rcases List.mem_append.1 hstanding with hseated | hbelow
    · exact absurd (List.mem_map_of_mem hseated) hout
    · exact (List.pairwise_append.1 hordered).2.2 m hm c hbelow

/-! ## Shares in words -/

section

open Word

/-- A member's share as it is computed: the product in 128 bits, the quotient put back into 64. -/
def checkedShare (base : UInt64) (total : Nat) (stake : UInt64) : Option Nat := do
  let product ← checked 128 (stake.toNat * base.toNat)
  let quotient ← checkedDiv product total
  checked 64 quotient

/-- The reward shares of members with these stakes, step by step: the stakes are added up in 128
    bits and the shares in 64, and what is left of `base` goes to the first share. There are no
    shares if one step leaves its word. -/
def checkedShares (base : UInt64) (stakes : List UInt64) : Option (List Nat) := do
  let total ← checkedSum 128 (stakes.map UInt64.toNat)
  let shares ← stakes.mapM (checkedShare base total)
  let assigned ← checkedSum 64 shares
  let rest ← checkedSub base.toNat assigned
  match shares with
  | [] => return []
  | first :: others => return (← checked 64 (first + rest)) :: others

end

theorem mapM_eq_some {α β : Type} {f : α → Option β} {g : α → β} {l : List α}
    (h : ∀ a ∈ l, f a = some (g a)) : l.mapM f = some (l.map g) := by
  induction l with
  | nil => rfl
  | cons a rest ih =>
    rw [List.mapM_cons, h a List.mem_cons_self, ih fun b hb => h b (List.mem_cons_of_mem a hb)]
    rfl

theorem totalStake_eq_sum (members : List Candidate) :
    totalStake members = (members.map fun m => m.stake.toNat).sum := by
  rw [totalStake, Word.total_eq_sum, List.map_map]
  rfl

/-- A committee's stake is a number of 128 bits: it has at most as many members as a word says. -/
theorem totalStake_lt (h : members.length ≤ maxSize.toNat) : totalStake members < 2 ^ 128 := by
  have htotal := Word.total_le_length_mul (members.map Candidate.stake)
  have hlength : members.length * Word.max ≤ Word.max * Word.max :=
    Nat.mul_le_mul_right _ (Nat.le_trans h (Word.toNat_le_max maxSize))
  have hmax : Word.max * Word.max < 2 ^ 128 := by decide
  rw [List.length_map] at htotal
  unfold totalStake
  omega

theorem totalStake_pos (hm : m ∈ members) (hstake : 0 < m.stake) : 0 < totalStake members := by
  have hle : m.stake.toNat ≤ totalStake members := by
    rw [totalStake_eq_sum]
    exact List.le_sum_of_mem (List.mem_map_of_mem hm)
  have hpos : 0 < m.stake.toNat := UInt64.lt_iff_toNat_lt.1 hstake
  omega

/-- A share is no more than `base`, as all shares together are. -/
theorem stakeShare_le (base : UInt64) (hm : m ∈ members) :
    m.stake.toNat * base.toNat / totalStake members ≤ base.toNat := by
  have hmem : m.stake.toNat * base.toNat / totalStake members ∈ stakeShares base members :=
    List.mem_map.2 ⟨m, hm, rfl⟩
  exact Nat.le_trans (List.le_sum_of_mem hmem) (sum_stakeShares_le base members)

theorem checkedShare_eq_some (base : UInt64) (hm : m ∈ members) (hstake : 0 < m.stake) :
    checkedShare base (totalStake members) m.stake
      = some (m.stake.toNat * base.toNat / totalStake members) := by
  have hbase := base.toNat_lt
  have hproduct : m.stake.toNat * base.toNat < 2 ^ 128 :=
    Nat.lt_of_lt_of_eq (Nat.mul_lt_mul'' m.stake.toNat_lt hbase) (by decide)
  have hshare := stakeShare_le base hm
  simp only [checkedShare, Word.checked_of_lt hproduct,
    Word.checkedDiv_of_pos (totalStake_pos hm hstake), Option.bind_eq_bind, Option.bind_some]
  exact Word.checked_of_lt (Nat.lt_of_le_of_lt hshare hbase)

/-- No step of the shares leaves its word. -/
theorem checkedShares_eq_some (base : UInt64) (hlength : members.length ≤ maxSize.toNat)
    (hstakes : ∀ m ∈ members, 0 < m.stake) :
    checkedShares base (members.map Candidate.stake)
      = some (raiseFirst base (stakeShares base members)) := by
  have hbase := base.toNat_lt
  have hsum := sum_stakeShares_le base members
  have htotal : Word.checkedSum 128 ((members.map Candidate.stake).map UInt64.toNat)
      = some (totalStake members) := by
    have heq : ((members.map Candidate.stake).map UInt64.toNat).sum = totalStake members :=
      (Word.total_eq_sum _).symm
    rw [Word.checkedSum_of_lt (heq ▸ totalStake_lt hlength), heq]
  have hshares : (members.map Candidate.stake).mapM (checkedShare base (totalStake members))
      = some (stakeShares base members) := by
    rw [List.mapM_map]
    apply mapM_eq_some
    intro m hm
    exact checkedShare_eq_some base hm (hstakes m hm)
  have hassigned : Word.checkedSum 64 (stakeShares base members)
      = some (stakeShares base members).sum :=
    Word.checkedSum_of_lt (Nat.lt_of_le_of_lt hsum hbase)
  simp only [checkedShares, htotal, hshares, hassigned, Word.checkedSub_of_le hsum,
    Option.bind_eq_bind, Option.bind_some]
  cases hparts : stakeShares base members with
  | nil => rfl
  | cons first rest =>
    rw [hparts, List.sum_cons] at hsum
    have hraised : first + (base.toNat - (first :: rest).sum) < 2 ^ 64 := by
      rw [List.sum_cons]
      omega
    rw [raiseFirst_cons]
    simp only [Word.checked_of_lt hraised]
    rfl

/-! ## Shares by rank -/

/-- The members' shares of `base`. -/
structure Apportions (base : UInt64) (members : List Candidate) (proportion : List UInt64) :
    Prop where
  /-- A member has the part of `base` that its stake is of all stake, rounded down. The first one
      also has what that leaves. -/
  part : ∀ i m, members[i]? = some m → proportion[i]?.map UInt64.toNat
    = some (m.stake.toNat * base.toNat / totalStake members
      + if i = 0 then base.toNat - (stakeShares base members).sum else 0)
  /-- A later rank has no larger share. -/
  descending : proportion.Pairwise (· ≥ ·)
  total : Word.total proportion = base.toNat
  /-- Every step has stayed in its word. -/
  inWords : checkedShares base (members.map Candidate.stake)
    = some (proportion.map UInt64.toNat)

/-- A candidate that is ranked later has no more stake, and so no larger part of it. -/
theorem pairwise_stakeShares (base : UInt64) (hordered : members.Pairwise Candidate.Precedes) :
    (stakeShares base members).Pairwise (· ≥ ·) := by
  unfold stakeShares
  rw [List.pairwise_map]
  apply hordered.imp
  intro a b hab
  have hstake : b.stake.toNat ≤ a.stake.toNat := UInt64.le_iff_toNat_le.1 hab.stake_le
  show b.stake.toNat * base.toNat / _ ≤ a.stake.toNat * base.toNat / _
  exact Nat.div_le_div_right (Nat.mul_le_mul_right base.toNat hstake)

theorem pairwise_raiseFirst (base : UInt64) {shares : List Nat} (h : shares.Pairwise (· ≥ ·)) :
    (raiseFirst base shares).Pairwise (· ≥ ·) := by
  cases shares with
  | nil => exact h
  | cons first rest =>
    obtain ⟨hfirst, hrest⟩ := List.pairwise_cons.1 h
    rw [raiseFirst_cons, List.pairwise_cons]
    refine ⟨?_, hrest⟩
    intro share hshare
    exact Nat.le_add_right_of_le (hfirst share hshare)

theorem getElem?_raiseFirst (base : UInt64) (shares : List Nat) (i : Nat) :
    (raiseFirst base shares)[i]?
      = shares[i]?.map (· + if i = 0 then base.toNat - shares.sum else 0) := by
  cases shares with
  | nil => rfl
  | cons first rest =>
    rw [raiseFirst_cons]
    cases i with
    | zero => rfl
    | succ i => simp

theorem apportions_members (base : UInt64) (hne : members ≠ [])
    (hlength : members.length ≤ maxSize.toNat) (hstakes : ∀ m ∈ members, 0 < m.stake)
    (hordered : members.Pairwise Candidate.Precedes) :
    Apportions base members ((raiseFirst base (stakeShares base members)).map UInt64.ofNat) := by
  have hshares : stakeShares base members ≠ [] := by
    rw [stakeShares, Ne, List.map_eq_nil_iff]
    exact hne
  have hsum := sum_raiseFirst hshares (sum_stakeShares_le base members)
  have hbase := base.toNat_lt
  have hwords := Word.map_toNat_map_ofNat (hsum.symm ▸ hbase)
  constructor
  · intro i m hm
    rw [← List.getElem?_map, hwords, getElem?_raiseFirst, stakeShares, List.getElem?_map, hm]
    rfl
  · have hdescending := pairwise_raiseFirst base (pairwise_stakeShares base hordered)
    rw [← hwords, List.pairwise_map] at hdescending
    exact hdescending.imp UInt64.le_iff_toNat_le.2
  · rw [Word.total_eq_sum, hwords, hsum]
  · rw [hwords]
    exact checkedShares_eq_some base hlength hstakes

/-! ## Elections -/

/-- An election gives its seats to the first of the candidates, and `base` to them by their stakes.
    The columns beside the rank are those of the members themselves. -/
theorem rankCandidates_elects (hdetermined : Determined candidates) (base maxSize : UInt64) :
    ∃ members, Elects candidates maxSize.toNat members
      ∧ (rankCandidates candidates base maxSize).rank = members.map Candidate.address
      ∧ (rankCandidates candidates base maxSize).committeeStake = members.map Candidate.stake
      ∧ (rankCandidates candidates base maxSize).sentinelContribution
        = members.map Candidate.heft
      ∧ ((rankCandidates candidates base maxSize).rank ≠ [] →
        Apportions base members (rankCandidates candidates base maxSize).proportion) := by
  have helects := elects_elected hdetermined maxSize
  rw [rankCandidates_eq]
  refine ⟨elected candidates maxSize, helects, rfl, rfl, rfl, ?_⟩
  intro hrank
  rw [Ne, List.map_eq_nil_iff] at hrank
  apply apportions_members base hrank length_elected_le _ helects.ordered
  intro m hm
  exact (helects.stands m hm).2

/-! ## Three seats -/

namespace Poll

/-- The address that orders last of those with stake. -/
def last : Candidate := ⟨.ofNat 20 5, 10, 0⟩

/-- All have the same stake but for one, who has none. One candidate is listed twice. -/
def ballot : List Candidate :=
  [⟨.ofNat 20 1, 10, 0⟩, ⟨.ofNat 20 4, 10, 5⟩, ⟨.ofNat 20 2, 0, 9⟩, ⟨.ofNat 20 3, 10, 5⟩,
    ⟨.ofNat 20 1, 10, 0⟩, last]

theorem determined_ballot : Determined ballot := by
  unfold Determined
  decide

theorem elected_ballot : elected ballot 3
    = [⟨.ofNat 20 3, 10, 5⟩, ⟨.ofNat 20 4, 10, 5⟩, ⟨.ofNat 20 1, 10, 0⟩] := by
  have hsorted : (ballot.filter (0 < ·.stake)).mergeSort Candidate.ranksBefore
      = [⟨.ofNat 20 3, 10, 5⟩, ⟨.ofNat 20 4, 10, 5⟩, ⟨.ofNat 20 1, 10, 0⟩,
        ⟨.ofNat 20 1, 10, 0⟩, last] := by
    apply mergeSort_ranksBefore_eq
    · decide
    · decide
  rw [elected, hsorted]
  simp +decide [dropRepeats]

end Poll

/-- Contributions decide between equal stakes, and addresses between equal contributions. -/
theorem rankCandidates_elects_poll :
    Determined Poll.ballot ∧ ∃ members, Elects Poll.ballot 3 members
      ∧ members.map Candidate.address = [.ofNat 20 3, .ofNat 20 4, .ofNat 20 1]
      ∧ Apportions 10000 members [3334, 3333, 3333]
      ∧ ∀ m ∈ members, m.Precedes Poll.last := by
  obtain ⟨members, helects, hrank, -, -, happortions⟩ :=
    rankCandidates_elects Poll.determined_ballot 10000 3
  have hseats : (rankCandidates Poll.ballot 10000 3).rank
      = [.ofNat 20 3, .ofNat 20 4, .ofNat 20 1] := by
    rw [rank_rankCandidates, Poll.elected_ballot]
    rfl
  have hshares : (rankCandidates Poll.ballot 10000 3).proportion = [3334, 3333, 3333] := by
    rw [rankCandidates_eq, Poll.elected_ballot]
    decide
  rw [hshares, hseats] at happortions
  rw [hseats] at hrank
  refine ⟨Poll.determined_ballot, members, helects, hrank.symm, happortions (by decide), ?_⟩
  apply helects.left_out Poll.last (by decide) (by decide)
  rw [← hrank]
  decide

end CommitteeConsensus
