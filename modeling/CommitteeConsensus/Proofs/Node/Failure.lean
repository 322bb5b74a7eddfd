import CommitteeConsensus.Proofs.Engine.Interruption
import CommitteeConsensus.Proofs.Node.Steps

/-! # Failed finalizations

    A finalization that fails before it pays anything leaves the state as it is. One that fails
    later is not taken back: `Fails` lists the two ways in which that happens and what the state
    is then. So a state is safe from half a block as long as no account that waits for its stake
    has a stake log beyond the block, and the extra-data of the header fits its length prefix.
-/

namespace CommitteeConsensus

namespace Node

variable {n n' : Node} {h : Header} {uncles : List Header} {e : Error}

/-- Why a block is refused before anything is paid. -/
inductive Refuses (n : Node) (h : Header) : List Header → Error → Prop
  | uncles {uncles : List Header} (huncles : uncles ≠ []) : Refuses n h uncles .unclesNotAllowed
  | genesis (hnumber : h.number = 0) : Refuses n h [] .unknownBlock
  | extra {e : Error} (hextra : ExtraData.decodeOrDefault h.extra = .error e) : Refuses n h [] e
  | snapshot {e : Error}
      (hlookup : (governingSnapshot n.config n.chain [] h.number n.snapshots).1 = .error e) :
      Refuses n h [] e

/-- The state after the rewards `r` of the block were paid, the accounts of `credited` got the worth
    of their stakes and those of `spent` were set to have none. -/
structure Leaves (n : Node) (h : Header) (r : Rewards) (credited spent : List Address)
    (s : State) : Prop where
  due : ∃ current, (governingSnapshot n.config n.chain [] h.number n.snapshots).1 = .ok current
    ∧ dueRewards n.config current h.number h.coinbase n.state = .ok r
  ledger : s.ledger = bookedLedger n.config h.number r n.state
  balance : ∀ a, s.balance a = .clamp ((n.state.balance a).toNat + r.shares.received a
    + dueRefund n.config credited n.state a)
  spends : Spends h.number spent n.state s

/-- The extra-data that the block is to carry, made from the header's own. -/
def settledExtra (n : Node) (h : Header) (current : Snapshot) (x : ExtraData) : ExtraData :=
  CommitteeConsensus.settledExtra x
    (if n.config.isEpochEnd h.number then
      some (electCommittee n.config h.number current n.state)
    else none) n.state

/-- The error with which a finalization fails, and the state that it leaves behind. -/
inductive Fails (n : Node) (h : Header) (uncles : List Header) : Error → State → Prop
  | refused {e : Error} (hrefused : n.Refuses h uncles e) : Fails n h uncles e n.state
  /-- The log of an account with a mature request has passed the block. -/
  | returning {r : Rewards} {served rest : List RefundRequest} {request : RefundRequest}
      {last : Sample} {s : State}
      (hmatured : (RefundRequest.splitMatured n.state.refunds h.number).1
        = served ++ request :: rest)
      (hunserved : request.address ∉ served.map RefundRequest.address)
      (hlast : (n.state.stakeLog request.address).last? = some last)
      (hpassed : h.number < last.block)
      (hleaves : n.Leaves h r ((served ++ [request]).map RefundRequest.address)
        (served.map RefundRequest.address) s)
      (hqueue : KeepsQueue n.state s) :
      Fails n h uncles (.ofState (.outOfOrder last.block h.number)) s
  /-- The extra-data of the header is too long to be written, after all of the block is done. -/
  | writing {r : Rewards} {current : Snapshot} {x : ExtraData} {s : State}
      (hextra : ExtraData.decodeOrDefault h.extra = .ok x)
      (hcurrent : (governingSnapshot n.config n.chain [] h.number n.snapshots).1 = .ok current)
      (hlong : 0x100000000 ≤ (n.settledExtra h current x).payload.length)
      (hleaves : n.Leaves h r (maturedAccounts h.number n.state)
        (maturedAccounts h.number n.state) s)
      (hcandidates : s.candidates = n.state.candidates.filter fun a =>
        !(maturedAccounts h.number n.state).contains a)
      (hrefunds : s.refunds = (RefundRequest.splitMatured n.state.refunds h.number).2) :
      Fails n h uncles (.invalidExtra "payload exceeds u32 length") s

end Node

/-! ## After the rewards -/

section

variable {number : UInt64} {accounts : List Address} {s s' : State} {shares : Shares}
  {l : RewardLedger}

theorem Spends.of_rewarded
    (h : Spends number accounts ((s.creditAll shares).setLedger l) s') :
    Spends number accounts s s' := by
  rw [State.creditAll_eq] at h
  exact ⟨h.spent, h.kept, h.heftLogs, h.bindingTable, h.lastSynchronized⟩

end

namespace Node

variable {n n' : Node} {h : Header} {uncles : List Header} {e : Error}

theorem leaves_of_rewarded {current : Snapshot} {r : Rewards} {credited spent : List Address}
    {s : State} (hcurrent : (governingSnapshot n.config n.chain [] h.number n.snapshots).1
      = .ok current)
    (hdue : dueRewards n.config current h.number h.coinbase n.state = .ok r)
    (hledger : s.ledger = bookedLedger n.config h.number r n.state)
    (hbalance : ∀ a, s.balance a = .clamp
      ((((n.state.creditAll r.shares).setLedger
        (bookedLedger n.config h.number r n.state)).balance a).toNat
      + dueRefund n.config credited ((n.state.creditAll r.shares).setLedger
        (bookedLedger n.config h.number r n.state)) a))
    (hspends : Spends h.number spent ((n.state.creditAll r.shares).setLedger
        (bookedLedger n.config h.number r n.state)) s) :
    n.Leaves h r credited spent s where
  due := ⟨current, hcurrent, hdue⟩
  ledger := hledger
  balance := by
    intro a
    rw [hbalance, dueRefund_rewarded, toNat_balance_rewarded]
    apply Amount.ext
    simp only [Amount.toNat_clamp]
    omega
  spends := hspends.of_rewarded

/-- A finalization fails with an error before it pays, or when it settles the block. -/
theorem finalize_eq_error {transactions : List Transaction} {receipts : List Receipt}
    (hfinal : finalize h transactions uncles receipts n = (.error (.error e), n')) :
    n.Refuses h uncles e ∧ n'.state = n.state
      ∨ ∃ x current, ExtraData.decodeOrDefault h.extra = .ok x
        ∧ (governingSnapshot n.config n.chain [] h.number n.snapshots).1 = .ok current
        ∧ settle n.config current h x transactions receipts n.state
          = (.error (.error e), n'.state) := by
  unfold finalize CommitteeConsensus.finalize at hfinal
  -- the checks in the order in which they are made; the state is first touched after the last
  by_cases huncles : uncles = []
  · subst huncles
    by_cases hnumber : h.number = 0
    · obtain ⟨rfl, rfl⟩ : Error.unknownBlock = e ∧ n = n' := by simpa [hnumber] using hfinal
      exact .inl ⟨.genesis hnumber, rfl⟩
    · cases hx : ExtraData.decodeOrDefault h.extra with
      | error e' =>
        obtain ⟨rfl, rfl⟩ : e' = e ∧ n = n' := by simpa [hnumber, hx] using hfinal
        exact .inl ⟨.extra hx, rfl⟩
      | ok x =>
        rcases hs : governingSnapshot n.config n.chain [] h.number n.snapshots with ⟨e' | s, cache⟩
        · obtain ⟨rfl, rfl⟩ : e' = e ∧ { n with snapshots := cache } = n' := by
            simpa [hnumber, hx, hs] using hfinal
          exact .inl ⟨.snapshot (by rw [hs]), rfl⟩
        · rcases hsettle : settle n.config s h x transactions receipts n.state with ⟨f | h', state⟩
          · obtain ⟨rfl, rfl⟩ : f = .error e ∧ { n with state, snapshots := cache } = n' := by
              simpa [hnumber, hx, hs, hsettle] using hfinal
            exact .inr ⟨x, s, rfl, rfl, hsettle⟩
          · simp [hnumber, hx, hs, hsettle] at hfinal
  · obtain ⟨rfl, rfl⟩ : Error.unclesNotAllowed = e ∧ n = n' := by simpa [huncles] using hfinal
    exact .inl ⟨.uncles huncles, rfl⟩

theorem fails_of_settle {current : Snapshot} {x : ExtraData} {transactions : List Transaction}
    {receipts : List Receipt} {s : State}
    (hextra : ExtraData.decodeOrDefault h.extra = .ok x)
    (hcurrent : (governingSnapshot n.config n.chain [] h.number n.snapshots).1 = .ok current)
    (hsettle : settle n.config current h x transactions receipts n.state
      = (.error (.error e), s)) : n.Fails h uncles e s := by
  obtain ⟨paid, elected, hpaid, hrest⟩ := settle_eq_error hsettle
  obtain ⟨r, hr, rfl⟩ := payRewards_eq_ok hpaid
  -- what the errors name of the state after the rewards is the same as before them
  rcases hrest with ⟨e', hrefund, rfl⟩ | ⟨hrefund, hheader⟩
  · obtain ⟨served, request, rest, passed, hmatured, rfl, hstops⟩ :=
      refundMatured_eq_error hrefund
    obtain ⟨last, hlast, rfl, hpassed⟩ := hstops.passed
    have hmatured' : (RefundRequest.splitMatured n.state.refunds h.number).1
        = served ++ request :: rest := by
      rw [← n.state.refunds_creditAll r.shares]
      exact hmatured
    have hlast' : (n.state.stakeLog request.address).last? = some last := by
      rw [State.creditAll_eq] at hlast
      exact hlast
    have hqueue : KeepsQueue n.state s := by
      have hkept := hstops.queue
      rw [State.creditAll_eq] at hkept
      exact ⟨hkept.candidates, hkept.refunds⟩
    exact .returning hmatured' hstops.unserved hlast' hpassed
      (leaves_of_rewarded hcurrent hr hstops.ledger hstops.balance hstops.spends) hqueue
  · obtain ⟨hspends, hcandidates, hrefunds⟩ := spends_of_refundMatured hrefund
    obtain ⟨hledger, hbalance, -⟩ := refundMatured_eq_ok hrefund
    obtain ⟨rfl, hlong⟩ := settledHeader_eq_error hheader
    rw [elected_of_payRewards hpaid] at hlong
    rw [maturedAccounts_rewarded] at hspends hcandidates hbalance
    have hleaves := leaves_of_rewarded hcurrent hr hledger hbalance hspends
    rw [State.creditAll_eq] at hlong hcandidates hrefunds
    exact .writing hextra hcurrent hlong hleaves hcandidates hrefunds

/-- Without a log beyond the block, and with a header that can be written, nothing changes. -/
theorem Fails.state_eq {s : State} (hfails : n.Fails h uncles e s)
    (hlogs : ∀ a ∈ maturedAccounts h.number n.state, ∀ last,
      (n.state.stakeLog a).last? = some last → last.block ≤ h.number)
    (hwritten : e ≠ .invalidExtra "payload exceeds u32 length") : s = n.state := by
  cases hfails with
  | refused hrefused => rfl
  | @returning r served rest request last s hmatured hunserved hlast hpassed =>
    have hmem : request.address ∈ maturedAccounts h.number n.state := by
      rw [maturedAccounts, hmatured]
      simp
    exact absurd hpassed (UInt64.not_lt.2 (hlogs _ hmem last hlast))
  | writing => exact absurd rfl hwritten

/-- A finalization that fails with an error has changed nothing, or it stopped at an account whose
    log has passed the block, or at a header that is too long to be written; and then it leaves
    what it had done by then. -/
theorem fails_of_finalize {transactions : List Transaction} {receipts : List Receipt}
    (hfinal : finalize h transactions uncles receipts n = (.error (.error e), n')) :
    n.Fails h uncles e n'.state
      ∧ ((∀ a ∈ maturedAccounts h.number n.state, ∀ last,
          (n.state.stakeLog a).last? = some last → last.block ≤ h.number) →
        e ≠ .invalidExtra "payload exceeds u32 length" → n'.state = n.state) := by
  have hfails : n.Fails h uncles e n'.state := by
    rcases finalize_eq_error hfinal with ⟨hrefused, hsame⟩ | ⟨x, current, hx, hcurrent, hsettle⟩
    · rw [hsame]
      exact .refused hrefused
    · exact fails_of_settle hx hcurrent hsettle
  exact ⟨hfails, hfails.state_eq⟩

end Node

/-! ## A block that stops half-way -/

/-- A node at which an account waits for its stake whose log is ahead of the chain. -/
def Lone.hasty : Node :=
  { node (.zero 20) with
    state := {
      stakeLogs := Table.empty.insert signer.address ⟨#[⟨9, 5⟩]⟩
      refunds := [⟨signer.address, 0⟩] } }

namespace Node

open Step

/-- The block fails at the return of stakes: the stake is credited, and still there. -/
theorem finalize_hasty :
    ∃ n', finalize (Lone.next (.zero 20)) [] [] [] Lone.hasty
        = (.error (.error (.ofState (.outOfOrder 9 1))), n')
      ∧ (n'.state.balance Lone.signer.address).toNat = 5000000000000000000
      ∧ n'.state.latestStake Lone.signer.address = 5 := by
  obtain ⟨e, n', hfinal, hleft⟩ := exists_failure
    (x := finalize (Lone.next (.zero 20)) [] [] []) (n := Lone.hasty)
    (p := fun e n' => e = .ofState (.outOfOrder 9 1)
      ∧ (n'.state.balance Lone.signer.address).toNat = 5000000000000000000
      ∧ n'.state.latestStake Lone.signer.address = 5) (by decide +kernel)
  obtain ⟨rfl, hbalance, hstake⟩ := of_decide_eq_true hleft
  exact ⟨n', hfinal, hbalance, hstake⟩

theorem state_ne_of_finalize_hasty :
    ∃ e n', finalize (Lone.next (.zero 20)) [] [] [] Lone.hasty = (.error (.error e), n')
      ∧ n'.state ≠ Lone.hasty.state := by
  obtain ⟨n', hfinal, hbalance, -⟩ := finalize_hasty
  refine ⟨_, n', hfinal, ?_⟩
  intro hsame
  rw [hsame] at hbalance
  exact absurd hbalance (by decide)

theorem fails_of_finalize_hasty :
    ∃ e n', finalize (Lone.next (.zero 20)) [] [] [] Lone.hasty = (.error (.error e), n')
      ∧ Lone.hasty.Fails (Lone.next (.zero 20)) [] e n'.state := by
  obtain ⟨n', hfinal, -⟩ := finalize_hasty
  exact ⟨_, n', hfinal, (fails_of_finalize hfinal).1⟩

end Node

end CommitteeConsensus
