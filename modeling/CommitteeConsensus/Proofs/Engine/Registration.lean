import CommitteeConsensus.Proofs.Engine.Settlement
import CommitteeConsensus.Proofs.Reward.Booking

/-! # Order of registration

    A state lists its candidates in the order in which they have registered, and nothing keeps an
    account from being listed twice. An election sorts the candidates by an order that is total,
    so it depends on who is listed and not on where (`rankCandidates_perm`). Storage rewards are
    rounded for each entry of the list by itself, and credited and booked in sums that may be
    taken in any order (`payStorage_reorders`). Nothing else reads the list, and the accounts that
    leave are struck off wherever they stand, so that two states which differ in the order of
    registration are settled alike (`settle_reorders`).
-/

namespace CommitteeConsensus

/-! ## Elections -/

section

variable {candidates candidates' : List Candidate}

theorem mergeSort_ranksBefore_perm (h : candidates.Perm candidates') :
    candidates.mergeSort Candidate.ranksBefore = candidates'.mergeSort Candidate.ranksBefore := by
  apply mergeSort_ranksBefore_eq
  · exact (List.mergeSort_perm candidates' _).trans h.symm
  · exact pairwise_mergeSort_ranksBefore candidates'

theorem elected_perm (h : candidates.Perm candidates') (maxSize : UInt64) :
    elected candidates maxSize = elected candidates' maxSize := by
  unfold elected
  rw [mergeSort_ranksBefore_perm (h.filter _)]

/-- The elected committee does not depend on the order in which the candidates are given. -/
theorem rankCandidates_perm (h : candidates.Perm candidates') (base maxSize : UInt64) :
    rankCandidates candidates base maxSize = rankCandidates candidates' base maxSize := by
  unfold rankCandidates
  rw [elected_perm h]

end

/-! ## Shares -/

section

variable {weights weights' : Weights}

theorem totalWeight_perm (h : weights.Perm weights') :
    totalWeight weights = totalWeight weights' := by
  rw [totalWeight, totalWeight, Word.total_eq_sum, Word.total_eq_sum]
  exact ((h.map _).map _).sum_eq

/-- Storage rewards come in the order of the contributions. -/
theorem storageShares_perm (plan : Amount) (h : weights.Perm weights') :
    Alike (Option.Rel List.Perm) (storageShares plan weights) (storageShares plan weights') := by
  unfold storageShares
  dsimp only
  rw [← totalWeight_perm h]
  by_cases hnone : totalWeight weights = 0
  · rw [if_pos hnone, if_pos hnone]
    exact .ok .none
  · rw [if_neg hnone, if_neg hnone, proportionalShares_of_pos plan (Nat.pos_of_ne_zero hnone),
      proportionalShares_of_pos plan (Nat.pos_of_ne_zero hnone)]
    have hcontributors := h.filter (0 < ·.2)
    simp only [hcontributors.mem_iff]
    split
    · exact .ok (.some (hcontributors.map _))
    · exact .error Fault.overflow

end

/-! ## States -/

/-- The second state is the first one with its candidates in another order. -/
def State.Reorders (s t : State) : Prop :=
  ∃ candidates, candidates.Perm s.candidates ∧ t = s.setCandidates candidates

namespace State.Reorders

variable {s t : State}

theorem candidates_perm (h : s.Reorders t) : t.candidates.Perm s.candidates := by
  obtain ⟨candidates, hperm, rfl⟩ := h
  exact hperm

theorem creditAll (h : s.Reorders t) {shares shares' : Shares} (hshares : shares.Perm shares') :
    (s.creditAll shares).Reorders (t.creditAll shares') := by
  obtain ⟨candidates, hperm, rfl⟩ := h
  refine ⟨candidates, ?_, ?_⟩
  · rw [creditAll_eq]
    exact hperm
  · rw [← State.creditAll_perm _ hshares]
    clear hperm hshares
    induction shares generalizing s with
    | nil => rfl
    | cons share rest ih =>
      have hcredit : (s.setCandidates candidates).credit share.1 share.2
          = (s.credit share.1 share.2).setCandidates candidates := rfl
      rw [creditAll_cons, creditAll_cons, hcredit]
      exact ih

theorem contributions_perm (h : s.Reorders t) (config : Config) (number : UInt64) :
    (contributions config number s).Perm (contributions config number t) := by
  obtain ⟨candidates, hperm, rfl⟩ := h
  exact (hperm.map _).symm

theorem electionCandidates_perm (h : s.Reorders t) (config : Config) (number : UInt64) :
    (electionCandidates config number s).Perm (electionCandidates config number t) := by
  obtain ⟨candidates, hperm, rfl⟩ := h
  exact (hperm.map _).symm

theorem bindingTable_eq (h : s.Reorders t) : t.bindingTable = s.bindingTable := by
  obtain ⟨candidates, -, rfl⟩ := h
  rfl

end State.Reorders

/-! ## Settlement -/

section

variable (config : Config) (current : Snapshot) (number : UInt64) {s t : State}

theorem electCommittee_reorders (h : s.Reorders t) :
    electCommittee config number current s = electCommittee config number current t := by
  unfold electCommittee
  rw [rankCandidates_perm (h.electionCandidates_perm config number), h.bindingTable_eq]

/-- States in another order, with the same ledger. -/
def SamePay (p q : State × RewardLedger) : Prop := p.1.Reorders q.1 ∧ p.2 = q.2

/-- Payouts with the same ledger and the same elected committee. -/
structure SamePayout (p q : Payout) : Prop where
  state : p.state.Reorders q.state
  ledger : p.ledger = q.ledger
  elected : p.elected = q.elected

theorem payStorage_reorders (h : s.Reorders t) (surplus : Amount) (ledger : RewardLedger) :
    Alike SamePay (payStorage config number surplus s ledger)
      (payStorage config number surplus t ledger) := by
  apply Alike.of_bind
  intro plan
  apply Alike.bind (storageShares_perm plan (h.contributions_perm config number))
  intro shares? shares?' hshares
  cases hshares with
  | none => exact .ok ⟨h, rfl⟩
  | some hshares =>
    refine .ok ⟨h.creditAll hshares, ?_⟩
    dsimp only
    rw [Shares.satSum_eq_clamp_total, Shares.satSum_eq_clamp_total, Shares.total_perm hshares]

theorem closeEpoch_reorders (h : s.Reorders t) (surplus : Amount) (ledger : RewardLedger) :
    Alike SamePayout (closeEpoch config number current surplus s ledger)
      (closeEpoch config number current surplus t ledger) := by
  unfold closeEpoch
  split
  · apply Alike.bind (payStorage_reorders config number h surplus ledger)
    rintro ⟨s', l⟩ ⟨t', l'⟩ ⟨hstate, hledger⟩
    dsimp only at hstate hledger
    refine .ok ⟨hstate, ?_, ?_⟩
    · rw [hledger]
    · rw [electCommittee_reorders config current number hstate]
  · exact .ok ⟨h, rfl, rfl⟩

/-- The producer's reward is shared by stakes, which the list of candidates has no part in. -/
theorem payCoin_reorders (h : s.Reorders t) (coinbase : Address) (surplus : Amount)
    (ledger : RewardLedger) :
    Alike SamePay (payCoin config current coinbase surplus s ledger)
      (payCoin config current coinbase surplus t ledger) := by
  have hstake : t.latestStake = s.latestStake := by
    obtain ⟨candidates, -, rfl⟩ := h
    rfl
  unfold payCoin
  rw [hstake]
  dsimp only
  split
  · exact .ok ⟨h, rfl⟩
  · apply Alike.of_bind
    intro amount
    apply Alike.of_bind
    intro shares
    exact .ok ⟨h.creditAll (.refl shares), rfl⟩

theorem payRewards_reorders (h : s.Reorders t) (coinbase : Address) :
    Alike (fun p q : State × Option CommitteeRecord => p.1.Reorders q.1 ∧ p.2 = q.2)
      (payRewards config number coinbase current s)
      (payRewards config number coinbase current t) := by
  have hledger : t.ledger = s.ledger := by
    obtain ⟨candidates, -, rfl⟩ := h
    rfl
  unfold payRewards
  rw [hledger]
  apply Alike.bind (closeEpoch_reorders config current number h _ _)
  intro closed closed' hclosed
  rw [← hclosed.ledger]
  apply Alike.bind (payCoin_reorders config current hclosed.state coinbase _ _)
  rintro ⟨s', l⟩ ⟨t', l'⟩ ⟨⟨candidates, hperm, hstate⟩, hbooked⟩
  dsimp only at hperm hstate hbooked
  refine .ok ⟨⟨candidates, hperm, ?_⟩, hclosed.elected⟩
  rw [hstate, hbooked]
  rfl

/-- A stake is returned from a log, and logs belong to accounts. -/
theorem refund_reorders (h : s.Reorders t) (a : Address) :
    ∃ result s' t', refund config number s a = (result, s')
      ∧ refund config number t a = (result, t') ∧ s'.Reorders t' := by
  obtain ⟨candidates, hperm, rfl⟩ := h
  have hlog : (s.setCandidates candidates).stakeLog a = s.stakeLog a := rfl
  unfold refund State.recordStake
  dsimp only
  rw [State.stakeLog_credit, State.stakeLog_credit, hlog]
  cases (s.stakeLog a).add ⟨number, 0⟩ with
  | error e => exact ⟨_, _, _, rfl, rfl, candidates, hperm, rfl⟩
  | ok log => exact ⟨_, _, _, rfl, rfl, candidates, hperm, rfl⟩

theorem refundEach_reorders (h : s.Reorders t) (requests : List RefundRequest) :
    ∃ result s' t', refundEach config number requests s = (result, s')
      ∧ refundEach config number requests t = (result, t') ∧ s'.Reorders t' := by
  induction requests generalizing s t with
  | nil => exact ⟨_, _, _, rfl, rfl, h⟩
  | cons r rest ih =>
    obtain ⟨result, s', t', hs, ht, hstate⟩ := refund_reorders config number h r.address
    rw [refundEach, refundEach, hs, ht]
    cases result with
    | error e => exact ⟨_, _, _, rfl, rfl, hstate⟩
    | ok => exact ih hstate

/-- The accounts that leave are struck off wherever they stand. -/
theorem refundMatured_reorders (h : s.Reorders t) :
    ∃ result s' t', refundMatured config number s = (result, s')
      ∧ refundMatured config number t = (result, t') ∧ s'.Reorders t' := by
  have hrefunds : t.refunds = s.refunds := by
    obtain ⟨candidates, -, rfl⟩ := h
    rfl
  unfold refundMatured
  rw [hrefunds]
  rcases RefundRequest.splitMatured s.refunds number with ⟨matured, pending⟩
  dsimp only
  split
  · exact ⟨_, _, _, rfl, rfl, h⟩
  · obtain ⟨result, s', t', hs, ht, hstate⟩ := refundEach_reorders config number h matured
    rw [hs, ht]
    cases result with
    | error e => exact ⟨_, _, _, rfl, rfl, hstate⟩
    | ok =>
      obtain ⟨candidates, -, rfl⟩ := hstate
      exact ⟨_, _, _, rfl, rfl, _, h.candidates_perm.filter _, rfl⟩

/-- Headers that differ in the commitment to the state alone. -/
def SameHeader (h h' : Header) : Prop := h' = { h with stateRoot := h'.stateRoot }

theorem settledHeader_reorders (g : Header) (x : ExtraData) (transactions : List Transaction)
    (receipts : List Receipt) (s t : State) :
    Alike SameHeader (settledHeader g x transactions receipts s)
      (settledHeader g x transactions receipts t) := by
  apply Alike.of_bind
  intro g'
  exact .ok rfl

/-- Two states in which the candidates are listed in another order are settled to the same block,
    but for its commitment to the state, or fail for the same reason. -/
theorem settle_reorders (h : s.Reorders t) (g : Header) (x : ExtraData)
    (transactions : List Transaction) (receipts : List Receipt) :
    ∃ result result' s' t', settle config current g x transactions receipts s = (result, s')
      ∧ settle config current g x transactions receipts t = (result', t')
      ∧ Alike SameHeader result result' ∧ s'.Reorders t' := by
  have hpaid := payRewards_reorders config current g.number h g.coinbase
  unfold settle
  generalize payRewards config g.number g.coinbase current s = paid at hpaid
  generalize payRewards config g.number g.coinbase current t = paid' at hpaid
  cases hpaid with
  | error f => exact ⟨_, _, _, _, rfl, rfl, .error _, h⟩
  | @ok p q hpaid =>
    obtain ⟨hstate, helected⟩ := hpaid
    obtain ⟨s, elected⟩ := p
    obtain ⟨t, elected'⟩ := q
    dsimp only at hstate helected ⊢
    subst helected
    have hextra : settledExtra x elected t = settledExtra x elected s := by
      obtain ⟨candidates, -, rfl⟩ := hstate
      rfl
    obtain ⟨result, s', t', hs, ht, hreturned⟩ :=
      refundMatured_reorders config g.number hstate
    rw [hextra, hs, ht]
    cases result with
    | error e => exact ⟨_, _, _, _, rfl, rfl, .error _, hreturned⟩
    | ok =>
      dsimp only
      have hheader := settledHeader_reorders g (settledExtra x elected s) transactions receipts s' t'
      generalize settledHeader g _ transactions receipts s' = header at hheader ⊢
      generalize settledHeader g _ transactions receipts t' = header' at hheader ⊢
      cases hheader with
      | error e => exact ⟨_, _, _, _, rfl, rfl, .error _, hreturned⟩
      | ok hheader => exact ⟨_, _, _, _, rfl, rfl, .ok hheader, hreturned⟩

end

end CommitteeConsensus
