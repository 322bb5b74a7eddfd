import CommitteeConsensus.Proofs.Node.Failure

/-! # Members who leave

    A block that closes an epoch elects before it returns stakes, so the election looks at the
    stakes that the block has found. An account that an earlier block has paid out has no stake
    left and is not elected. One that is paid out by the very block that elects is: it is published
    with the stake that it has just got back (`stake_of_elected`).
-/

namespace CommitteeConsensus

section

variable {config : Config} {current : Snapshot} {h h' : Header} {x : ExtraData}
  {transactions : List Transaction} {receipts : List Receipt} {s s' : State}

/-- A settled block has spent the stakes that were asked for in time, and nobody who asked for it
    is a candidate any more. -/
theorem spends_of_settle
    (hsettle : settle config current h x transactions receipts s = (.ok h', s')) :
    Spends h.number (maturedAccounts h.number s) s s'
      ∧ s'.candidates = s.candidates.filter fun a => !(maturedAccounts h.number s).contains a := by
  obtain ⟨paid, elected, hpaid, hrefund, -⟩ := settle_eq_ok_iff.1 hsettle
  obtain ⟨r, -, rfl⟩ := payRewards_eq_ok hpaid
  obtain ⟨hspends, hcandidates, -⟩ := spends_of_refundMatured hrefund
  rw [maturedAccounts_rewarded] at hspends hcandidates
  -- the rewards that were paid before concern neither stakes nor candidates
  rw [State.creditAll_eq] at hcandidates
  exact ⟨hspends.of_rewarded, hcandidates⟩

end

namespace Node

open Step

section

variable {n n' : Node} {h : Header} {transactions : List Transaction} {uncles : List Header}
  {receipts : List Receipt} {b : Block}

/-- What a finalized block leaves of stakes and candidates. -/
structure Departs (number : UInt64) (s s' : State) : Prop where
  stake : ∀ a, s'.latestStake a
    = if a ∈ maturedAccounts number s then 0 else s.latestStake a
  candidates : ∀ a, a ∈ s'.candidates ↔ a ∈ s.candidates ∧ a ∉ maturedAccounts number s

theorem departs_of_finalize (hfinal : finalize h transactions uncles receipts n = (.ok b, n')) :
    Departs h.number n.state n'.state := by
  obtain rfl := uncles_of_finalize hfinal
  obtain ⟨-, x, s, cache, h', state, -, -, hsettle, -, rfl⟩ := finalize_eq_ok_iff.1 hfinal
  obtain ⟨hspends, hcandidates⟩ := spends_of_settle hsettle
  refine ⟨hspends.latestStake, fun a => ?_⟩
  show a ∈ state.candidates ↔ _
  rw [hcandidates, List.mem_filter]
  simp

/-- A candidate that is left with stake had it before. -/
theorem Departs.staked {number : UInt64} {s s' : State} (hdeparts : Departs number s s')
    (hremains : ∃ a ∈ s'.candidates, 0 < s'.latestStake a) :
    ∃ a ∈ s.candidates, 0 < s.latestStake a := by
  obtain ⟨a, ha, hpos⟩ := hremains
  obtain ⟨hcandidate, hstays⟩ := (hdeparts.candidates a).1 ha
  rw [hdeparts.stake, if_neg hstays] at hpos
  exact ⟨a, hcandidate, hpos⟩

/-- The last block of an epoch carries the committee that the state before it elects. -/
theorem committee_of_finalize (hend : n.config.isEpochEnd h.number)
    (hfinal : finalize h transactions uncles receipts n = (.ok b, n')) :
    ∃ x current, ExtraData.decode b.header.extra = .ok x
      ∧ x.committee = electCommittee n.config h.number current n.state := by
  obtain rfl := uncles_of_finalize hfinal
  obtain ⟨-, _, current, _, _, _, -, -, hsettle, rfl, -⟩ := finalize_eq_ok_iff.1 hfinal
  obtain ⟨x, hx, hcommittee⟩ := committee_of_settle hsettle hend
  exact ⟨x, current, hx, hcommittee⟩

/-- The last block of an epoch publishes candidates that had stake when the block found them. -/
theorem staked_of_published (hvalid : n.config.validate = .ok ())
    (hend : n.config.isEpochEnd h.number)
    (hfinal : finalize h transactions uncles receipts n = (.ok b, n'))
    (hstaked : ∃ a ∈ n.state.candidates, 0 < n.state.latestStake a) :
    ∃ x, ExtraData.decode b.header.extra = .ok x
      ∧ ∀ a ∈ x.committee.rank, a ∈ n.state.candidates ∧ 0 < n.state.latestStake a := by
  obtain ⟨x, current, hx, hcommittee⟩ := committee_of_finalize hend hfinal
  obtain ⟨-, -, hmax, -⟩ := (Config.validate_eq_ok_iff n.config).1 hvalid
  refine ⟨x, hx, fun a ha => ?_⟩
  rw [hcommittee] at ha
  exact staked_of_mem_electCommittee hmax hstaked ha

/-- If a candidate with stake is left at the end of an epoch, every published member was a
    candidate with stake before, and keeps its stake exactly if it has no mature request for it.
    An account with a mature request is left without stake and is no candidate any more, so that
    no later block elects it for the stake that it got back. -/
theorem stake_of_elected (hvalid : n.config.validate = .ok ())
    (hend : n.config.isEpochEnd h.number)
    (hfinal : finalize h transactions uncles receipts n = (.ok b, n'))
    (hremains : ∃ a ∈ n'.state.candidates, 0 < n'.state.latestStake a) :
    ∃ x, ExtraData.decode b.header.extra = .ok x
      ∧ (∀ a ∈ x.committee.rank, a ∈ n.state.candidates ∧ 0 < n.state.latestStake a
        ∧ (0 < n'.state.latestStake a
          ↔ ¬ ∃ r ∈ n.state.refunds, r.address = a ∧ r.maturityBlock ≤ h.number))
      ∧ ∀ r ∈ n.state.refunds, r.maturityBlock ≤ h.number →
        n'.state.latestStake r.address = 0 ∧ r.address ∉ n'.state.candidates := by
  have hdeparts := departs_of_finalize hfinal
  obtain ⟨x, hx, hstaked⟩ :=
    staked_of_published hvalid hend hfinal (hdeparts.staked hremains)
  refine ⟨x, hx, ?_, ?_⟩
  · intro a ha
    obtain ⟨hcandidate, hpos⟩ := hstaked a ha
    refine ⟨hcandidate, hpos, ?_⟩
    rw [← mem_maturedAccounts_iff, hdeparts.stake]
    split
    · next hmatured => simp [hmatured]
    · next hkept => simp [hkept, hpos]
  · intro r hr hmature
    have hmem : r.address ∈ maturedAccounts h.number n.state :=
      mem_maturedAccounts_iff.2 ⟨r, hr, rfl, hmature⟩
    rw [hdeparts.stake, if_pos hmem, hdeparts.candidates]
    exact ⟨rfl, fun hleft => hleft.2 hmem⟩

end

end Node

/-! ## A member who is elected as it leaves -/

/-- A node at which two accounts stand for election. The one with more stake has asked for it, and
    the request is mature when the first epoch ends. -/
def Lone.departing : Node :=
  { node (.zero 20) with
    state := {
      stakeLogs :=
        (Table.empty.insert signer.address ⟨#[⟨0, 5⟩]⟩).insert (.zero 20) ⟨#[⟨0, 3⟩]⟩
      candidates := [.zero 20, signer.address]
      refunds := [⟨signer.address, 1⟩] } }

/-- What the two elect: the account that leaves comes first, ahead of the one that stays. -/
def Lone.departed : CommitteeRecord where
  rank := [signer.address, .zero 20]
  proportion := [6250, 3750]
  committeeStake := [5, 3]
  sentinelContribution := [0, 0]

namespace Node

open Step

theorem electCommittee_departing (current : Snapshot) :
    electCommittee Lone.config 1 current Lone.departing.state = Lone.departed := by
  have hstaked : ∃ a ∈ Lone.departing.state.candidates, 0 < Lone.departing.state.latestStake a :=
    ⟨Lone.signer.address, by decide, by decide⟩
  have hcandidates : electionCandidates Lone.config 1 Lone.departing.state
      = [⟨.zero 20, 3, 0⟩, ⟨Lone.signer.address, 5, 0⟩] := by decide +kernel
  -- sorting does not reduce by itself
  have hsorted : ([⟨.zero 20, 3, 0⟩, ⟨Lone.signer.address, 5, 0⟩].filter
      (0 < ·.stake)).mergeSort Candidate.ranksBefore
      = [⟨Lone.signer.address, 5, 0⟩, ⟨.zero 20, 3, 0⟩] := by
    simp [List.mergeSort, Candidate.ranksBefore]
  have hranked : rankCandidates (electionCandidates Lone.config 1 Lone.departing.state)
      Lone.config.rewards.base Lone.config.committeeMaxSize = Lone.departed := by
    unfold rankCandidates elected
    rw [hcandidates, hsorted]
    decide +kernel
  rw [(electCommittee_of_staked (by decide) 1 current hstaked).2, hranked]
  decide +kernel

/-- The rewards are paid, the stake is returned and the header has room for the committee. -/
theorem settle_departing {current : Snapshot}
    (hcurrent : current = Lone.term Lone.config (Lone.genesis (.zero 20)) 0 (.zero 20)) :
    ∃ h' s', settle Lone.config current (Lone.next (.zero 20)) {} [] [] Lone.departing.state
      = (.ok h', s') := by
  obtain ⟨⟨paid, elected⟩, hpaid, hreturned⟩ := toOption_any_iff.1 (show
    (payRewards Lone.config 1 (.zero 20) current Lone.departing.state).toOption.any (fun paid =>
      (refundMatured Lone.config 1 paid.1).1.toOption.isSome
        && paid.1.lastSynchronized = (0, .zero 32)) = true by rw [hcurrent]; decide +kernel)
  rw [Bool.and_eq_true, Option.isSome_iff_exists, decide_eq_true_eq] at hreturned
  obtain ⟨⟨⟨⟩, hserved⟩, hsync⟩ := hreturned
  have hrefund : refundMatured Lone.config 1 paid
      = (.ok (), (refundMatured Lone.config 1 paid).2) :=
    Prod.ext (toOption_eq_some_iff.1 hserved) rfl
  have helected : elected = some Lone.departed := by
    have hend := elected_of_payRewards hpaid
    rwa [if_pos (by decide), electCommittee_departing] at hend
  have hextra : CommitteeConsensus.settledExtra {} elected paid
      = { committee := Lone.departed } := by
    rw [CommitteeConsensus.settledExtra, helected, hsync, Option.getD_some]
  have hlength : ({ committee := Lone.departed } : ExtraData).payload.length < 0x100000000 := by
    decide +kernel
  have hencode := ExtraData.encode_eq_ok_iff.2 ⟨hlength, rfl⟩
  rw [← hextra] at hencode
  exact ⟨_, _, settle_eq_ok_iff.2
    ⟨paid, elected, hpaid, hrefund, settledHeader_eq_ok_iff.2 ⟨_, hencode, rfl⟩⟩⟩

theorem finalize_departing :
    ∃ b n' x, finalize (Lone.next (.zero 20)) [] [] [] Lone.departing = (.ok b, n')
      ∧ ExtraData.decode b.header.extra = .ok x ∧ x.committee = Lone.departed := by
  have hempty : Lone.departing.snapshots.Agrees Lone.departing.config Lone.departing.chain :=
    SnapshotCache.holds_ofStore_empty 128
  obtain ⟨cache, hlookup, -⟩ := governingSnapshot_nil hempty rfl (Lone.next (.zero 20)).number
  have hoffice : canonicalSnapshot Lone.departing.config Lone.departing.chain
      (Lone.departing.config.turnOf (Lone.next (.zero 20)).number)
      = .ok (Lone.term Lone.config (Lone.genesis (.zero 20)) 0 (.zero 20)) :=
    Lone.canonicalSnapshot_genesis (by decide +kernel)
  rw [hoffice] at hlookup
  obtain ⟨h', s', hsettle⟩ := settle_departing rfl
  have hfinal := (finalize_eq_ok_iff (n := Lone.departing)).2
    ⟨by decide, {}, _, cache, h', s', rfl, hlookup, hsettle, rfl, rfl⟩
  obtain ⟨x, current, hx, hcommittee⟩ := committee_of_finalize (by decide) hfinal
  exact ⟨_, _, x, hfinal, hx, hcommittee.trans (electCommittee_departing current)⟩

/-- It is left without stake, while the other one stays a candidate with stake. -/
theorem remains_departing {b : Block} {n' : Node}
    (hfinal : finalize (Lone.next (.zero 20)) [] [] [] Lone.departing = (.ok b, n')) :
    (∃ a ∈ n'.state.candidates, 0 < n'.state.latestStake a)
      ∧ n'.state.latestStake Lone.signer.address = 0 := by
  have hdeparts := departs_of_finalize hfinal
  refine ⟨⟨.zero 20, ?_, ?_⟩, ?_⟩
  · exact (hdeparts.candidates _).2 (by decide)
  · rw [hdeparts.stake]
    decide
  · rw [hdeparts.stake]
    decide

/-- An account is published without a stake, though another candidate has one. -/
theorem latestStake_eq_zero_departing :
    Lone.departing.config.validate = .ok ()
      ∧ Lone.departing.config.isEpochEnd (Lone.next (.zero 20)).number
      ∧ ∃ b n' x, finalize (Lone.next (.zero 20)) [] [] [] Lone.departing = (.ok b, n')
        ∧ (∃ a ∈ n'.state.candidates, 0 < n'.state.latestStake a)
        ∧ ExtraData.decode b.header.extra = .ok x
        ∧ ∃ a ∈ x.committee.rank, n'.state.latestStake a = 0
          ∧ ∃ r ∈ Lone.departing.state.refunds, r.address = a
            ∧ r.maturityBlock ≤ (Lone.next (.zero 20)).number := by
  obtain ⟨b, n', x, hfinal, hx, hcommittee⟩ := finalize_departing
  obtain ⟨hremains, hleft⟩ := remains_departing hfinal
  refine ⟨toOption_eq_some_iff.1 (by decide +kernel), by decide, b, n', x, hfinal, hremains, hx,
    Lone.signer.address, ?_, hleft, ?_⟩
  · rw [hcommittee]
    exact List.mem_cons_self
  · exact ⟨⟨Lone.signer.address, 1⟩, by decide, rfl, by decide⟩

/-- Of the two members that are published, one keeps its stake. -/
theorem stake_of_elected_departing :
    ∃ b n' x, finalize (Lone.next (.zero 20)) [] [] [] Lone.departing = (.ok b, n')
      ∧ ExtraData.decode b.header.extra = .ok x
      ∧ .zero 20 ∈ x.committee.rank ∧ 0 < n'.state.latestStake (.zero 20) := by
  obtain ⟨b, n', x, hfinal, hx, hcommittee⟩ := finalize_departing
  obtain ⟨y, hy, hmembers, -⟩ := stake_of_elected (toOption_eq_some_iff.1 (by decide +kernel))
    (by decide) hfinal (remains_departing hfinal).1
  obtain rfl : y = x := Except.ok.inj (hy.symm.trans hx)
  have hmember : (.zero 20 : Address) ∈ y.committee.rank := by
    rw [hcommittee]
    exact List.mem_cons_of_mem _ (List.mem_singleton_self _)
  obtain ⟨-, -, hkeeps⟩ := hmembers _ hmember
  exact ⟨b, n', y, hfinal, hx, hmember, hkeeps.2 (by decide)⟩

end Node

end CommitteeConsensus
