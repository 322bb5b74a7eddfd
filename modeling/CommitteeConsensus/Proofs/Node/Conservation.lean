import CommitteeConsensus.Proofs.Engine.Payment
import CommitteeConsensus.Proofs.Engine.Settlement
import CommitteeConsensus.Proofs.Node.Steps

/-! # Conservation of value

    A finalized block credits the rewards that it books and the stakes that it returns, and
    nothing else. So as long as no balance and no counter passes the top of its range, wealth
    grows by what the ledger shows as paid by the block, and by the worth of the returned stakes.
    Over a run of blocks the same is true of the sum (`finalize_conserves`), where the start of a
    year takes the closed epochs out of the ledger. The pool itself changes at block one and at
    the start of a year, and at no other block.
-/

namespace CommitteeConsensus

/-! ## Settled blocks -/

section

variable {config : Config} {current : Snapshot} {h h' : Header} {x : ExtraData}
  {transactions : List Transaction} {receipts : List Receipt} {s s' : State}

/-- What a settled block leaves of balances and ledger. -/
theorem settle_eq_ok
    (hsettle : settle config current h x transactions receipts s = (.ok h', s')) :
    ∃ r, dueRewards config current h.number h.coinbase s = .ok r
      ∧ s'.ledger = bookedLedger config h.number r s
      ∧ (∀ a, s'.balance a = .clamp ((s.balance a).toNat + r.shares.received a
        + dueRefund config (maturedAccounts h.number s) s a))
      ∧ ((∀ a, (s.balance a).toNat + r.shares.received a
          + dueRefund config (maturedAccounts h.number s) s a ≤ Amount.max) →
        s'.wealth = s.wealth + r.shares.total
          + ∑ a ∈ (maturedAccounts h.number s).toFinset, stakeWorth config s a) := by
  obtain ⟨paid, elected, hpaid, hrefund, -⟩ := settle_eq_ok_iff.1 hsettle
  obtain ⟨r, hr, rfl⟩ := payRewards_eq_ok hpaid
  obtain ⟨hledger, hbalance, hwealth⟩ := refundMatured_eq_ok hrefund
  -- the rewards have changed no request and no stake, so the same refunds are due as before them
  rw [maturedAccounts_rewarded] at hbalance hwealth
  simp only [dueRefund_rewarded, stakeWorth_rewarded, toNat_balance_rewarded] at hbalance hwealth
  refine ⟨r, hr, hledger, ?_, ?_⟩
  · intro a
    rw [hbalance]
    apply Amount.ext
    simp only [Amount.toNat_clamp]
    omega
  · intro hfits
    have hrewards : ∀ a, (s.balance a).toNat + r.shares.received a ≤ Amount.max := by
      intro a
      have ha := hfits a
      omega
    have hgrown : ((s.creditAll r.shares).setLedger (bookedLedger config h.number r s)).wealth
        = s.wealth + r.shares.total := State.wealth_creditAll hrewards
    rw [hwealth, hgrown]
    intro a
    have ha := hfits a
    omega

end

namespace Node

variable {n m n' : Node} {h : Header}

/-! ## Finalized blocks -/

/-- The rewards that are due to a block under the snapshot that the node resolves for it. -/
def rewards (n : Node) (h : Header) : Rewards :=
  match (governingSnapshot n.config n.chain [] h.number n.snapshots).1 with
  | .ok current =>
    (dueRewards n.config current h.number h.coinbase n.state).toOption.getD {}
  | .error _ => {}

theorem rewards_eq {current : Snapshot} {r : Rewards}
    (hcurrent : (governingSnapshot n.config n.chain [] h.number n.snapshots).1 = .ok current)
    (hr : dueRewards n.config current h.number h.coinbase n.state = .ok r) : n.rewards h = r := by
  rw [rewards, hcurrent]
  simp only [hr]
  rfl

theorem dueRewards_of_finalize {transactions : List Transaction} {uncles : List Header}
    {receipts : List Receipt} {b : Block}
    (hfinal : finalize h transactions uncles receipts n = (.ok b, n')) :
    ∃ current, (governingSnapshot n.config n.chain [] h.number n.snapshots).1 = .ok current
      ∧ dueRewards n.config current h.number h.coinbase n.state = .ok (n.rewards h) := by
  obtain rfl := uncles_of_finalize hfinal
  obtain ⟨-, x, current, cache, h', state, -, hcurrent, hsettle, -, -⟩ :=
    finalize_eq_ok_iff.1 hfinal
  obtain ⟨r, hr, -⟩ := settle_eq_ok hsettle
  have hfst := congrArg Prod.fst hcurrent
  exact ⟨current, hfst, rewards_eq hfst hr ▸ hr⟩

/-- The worth of the stakes that the block returns: each account with a mature request counts
    once, however many requests it has made. -/
def returned (n : Node) (h : Header) : Nat :=
  ∑ a ∈ (maturedAccounts h.number n.state).toFinset, stakeWorth n.config n.state a

/-- The ledger as the block finds it. -/
def opened (n : Node) (h : Header) : RewardLedger :=
  openLedger n.config h.number n.state.ledger

/-- No balance and no counter passes the top of its range in the block. -/
structure Fits (n : Node) (h : Header) : Prop where
  balances : ∀ a, (n.state.balance a).toNat + (n.rewards h).shares.received a
    + dueRefund n.config (maturedAccounts h.number n.state) n.state a ≤ Amount.max
  counters : (n.opened h).Fits (n.config.isEpochEnd h.number) (n.rewards h).storage.total
    (n.rewards h).producer.total

/-- Balances stay in range where the wealth of all accounts does. -/
theorem balances_fit {n : Node} {h : Header}
    (hwealth : n.state.wealth + (n.rewards h).shares.total + n.returned h ≤ Amount.max)
    (a : Address) : (n.state.balance a).toNat + (n.rewards h).shares.received a
      + dueRefund n.config (maturedAccounts h.number n.state) n.state a ≤ Amount.max := by
  have hbalance := n.state.balance_le_wealth a
  have hreceived := (n.rewards h).shares.received_le_total a
  have hrefund := dueRefund_le_sum n.config (maturedAccounts h.number n.state) n.state a
  unfold returned at hwealth
  omega

/-- What the block credits and what it books. -/
structure Conserves (n : Node) (h : Header) (n' : Node) : Prop where
  /-- An account gets its shares and its stake, up to the top of the range. -/
  balance : ∀ a, n'.state.balance a = .clamp ((n.state.balance a).toNat
    + (n.rewards h).shares.received a
    + dueRefund n.config (maturedAccounts h.number n.state) n.state a)
  ledger : n'.state.ledger = (n.opened h).book (n.config.isEpochEnd h.number)
    (n.rewards h).storage.total (n.rewards h).producer.total
  surplusCoin : n'.state.ledger.surplusCoin = (n.opened h).surplusCoin
  previousYearSurplus : n'.state.ledger.previousYearSurplus = (n.opened h).previousYearSurplus
  wealth : n.Fits h →
    n'.state.wealth + (n.opened h).paid = n.state.wealth + n'.state.ledger.paid + n.returned h

/-- Every finalized block conserves value. -/
theorem conserves_of_finalize {transactions : List Transaction} {uncles : List Header}
    {receipts : List Receipt} {b : Block}
    (hfinal : finalize h transactions uncles receipts n = (.ok b, n')) : n.Conserves h n' := by
  obtain rfl := uncles_of_finalize hfinal
  obtain ⟨-, x, current, cache, h', state, -, hcurrent, hsettle, -, rfl⟩ :=
    finalize_eq_ok_iff.1 hfinal
  obtain ⟨r, hr, hledger, hbalance, hwealth⟩ := settle_eq_ok hsettle
  obtain rfl : n.rewards h = r := rewards_eq (congrArg Prod.fst hcurrent) hr
  refine ⟨hbalance, hledger, ?_, ?_, ?_⟩
  · rw [hledger]
    exact RewardLedger.surplusCoin_book _ _ _ _
  · rw [hledger]
    exact RewardLedger.previousYearSurplus_book _ _ _ _
  · intro hfits
    have hbooked : state.ledger.paid = (n.opened h).paid + (n.rewards h).storage.total
        + (n.rewards h).producer.total := by
      rw [hledger]
      exact RewardLedger.paid_book (total_storage_of_dueRewards hr) hfits.counters
    have hgrown := hwealth hfits.balances
    rw [Rewards.shares, Shares.total_append] at hgrown
    unfold returned
    dsimp only
    omega

/-! ## Runs -/

/-- A run of finalized blocks, each with the node that finalized it. What happens to the node
    between two blocks may move value from account to account, but leaves the ledger alone. -/
inductive Run : Node → List (Node × Header) → Node → Prop
  | done (n : Node) : Run n [] n
  | finalize {n m n' : Node} {h : Header} {transactions : List Transaction} {uncles : List Header}
      {receipts : List Receipt} {b : Block} {blocks : List (Node × Header)}
      (hfinal : Node.finalize h transactions uncles receipts n = (.ok b, m))
      (hrun : Run m blocks n') : Run n ((n, h) :: blocks) n'
  | meanwhile {n m n' : Node} {blocks : List (Node × Header)}
      (hledger : m.state.ledger = n.state.ledger) (hwealth : m.state.wealth = n.state.wealth)
      (hrun : Run m blocks n') : Run n blocks n'

/-- The pool stays as it is, as long as no block seeds it or starts a year. -/
theorem Run.pool {blocks : List (Node × Header)} (hrun : Run n blocks n')
    (hblocks : ∀ e ∈ blocks, e.2.number ≠ 1 ∧ e.1.config.isYearStart e.2.number = false) :
    n'.state.ledger.surplusCoin = n.state.ledger.surplusCoin
      ∧ n'.state.ledger.previousYearSurplus = n.state.ledger.previousYearSurplus := by
  induction hrun with
  | done n => exact ⟨rfl, rfl⟩
  | @finalize n m n' h _ _ _ _ blocks hfinal hrun ih =>
    obtain ⟨hone, hyear⟩ := hblocks (n, h) List.mem_cons_self
    obtain ⟨hsurplus, hprevious⟩ := ih fun e he => hblocks e (List.mem_cons_of_mem _ he)
    have hconserves := conserves_of_finalize hfinal
    have hopened : n.opened h = n.state.ledger :=
      openLedger_of_not_start n.state.ledger hone hyear
    rw [hsurplus, hprevious, hconserves.surplusCoin, hconserves.previousYearSurplus, hopened]
    exact ⟨rfl, rfl⟩
  | meanwhile hledger hwealth hrun ih =>
    rw [← hledger]
    exact ih hblocks

/-- What the blocks return, and what the years that they start take out of the ledger. -/
def outlay (blocks : List (Node × Header)) : Nat :=
  (blocks.map fun e =>
    e.1.returned e.2 + takenOut e.1.config e.2.number e.1.state.ledger).sum

/-- Over a run, wealth grows by what was booked and by the stakes that were returned. -/
theorem Run.wealth {blocks : List (Node × Header)} (hrun : Run n blocks n')
    (hfits : ∀ e ∈ blocks, e.1.Fits e.2) :
    n'.state.wealth + n.state.ledger.paid
      = n.state.wealth + n'.state.ledger.paid + outlay blocks := by
  induction hrun with
  | done n => rfl
  | @finalize n m n' h _ _ _ _ blocks hfinal hrun ih =>
    have hblock := (conserves_of_finalize hfinal).wealth (hfits (n, h) List.mem_cons_self)
    have hrest := ih fun e he => hfits e (List.mem_cons_of_mem _ he)
    have hopened : (n.opened h).paid + takenOut n.config h.number n.state.ledger
        = n.state.ledger.paid := paid_openLedger n.config h.number n.state.ledger
    have houtlay : outlay ((n, h) :: blocks)
        = n.returned h + takenOut n.config h.number n.state.ledger + outlay blocks := rfl
    omega
  | meanwhile hledger hwealth hrun ih =>
    rw [← hledger, ← hwealth]
    exact ih hfits

/-- Every finalized block conserves value, and so does every run of blocks. -/
theorem finalize_conserves :
    (∀ {n n' : Node} {h : Header} {transactions : List Transaction} {uncles : List Header}
      {receipts : List Receipt} {b : Block},
      finalize h transactions uncles receipts n = (.ok b, n') → n.Conserves h n')
    ∧ ∀ {n n' : Node} {blocks : List (Node × Header)}, Run n blocks n' →
      ((∀ e ∈ blocks, e.2.number ≠ 1 ∧ e.1.config.isYearStart e.2.number = false) →
        n'.state.ledger.surplusCoin = n.state.ledger.surplusCoin
          ∧ n'.state.ledger.previousYearSurplus = n.state.ledger.previousYearSurplus)
      ∧ ((∀ e ∈ blocks, e.1.Fits e.2) →
        n'.state.wealth + n.state.ledger.paid
          = n.state.wealth + n'.state.ledger.paid + outlay blocks) :=
  ⟨conserves_of_finalize, fun hrun => ⟨hrun.pool, hrun.wealth⟩⟩

/-! ## A block that pays everything -/

end Node

/-- A node whose first block closes an epoch to which one account contributed. The account has
    asked for its stake twice, and somebody else's request is not mature yet. -/
def Lone.settling : Node :=
  { node (.zero 20) with
    state := {
      stakeLogs := Table.empty.insert signer.address ⟨#[⟨0, 5⟩]⟩
      heftLogs := Table.empty.insert signer.address ⟨#[⟨0, 7⟩]⟩
      candidates := [signer.address]
      refunds := [⟨signer.address, 0⟩, ⟨signer.address, 1⟩, ⟨.zero 20, 9⟩] } }

namespace Node

theorem fits_settling : Lone.settling.Fits (Lone.next (.zero 20)) where
  balances := balances_fit (by decide +kernel)
  counters := by
    unfold RewardLedger.Fits
    decide +kernel

/-- The stake is returned once, and all else that is credited is booked. -/
theorem finalize_conserves_settling :
    ∃ b n', finalize (Lone.next (.zero 20)) [] [] [] Lone.settling = (.ok b, n')
      ∧ Lone.settling.Fits (Lone.next (.zero 20))
      ∧ n'.state.wealth = n'.state.ledger.paid + 5000000000000000000
      ∧ Run Lone.settling [(Lone.settling, Lone.next (.zero 20))] n'
      ∧ outlay [(Lone.settling, Lone.next (.zero 20))] = 5000000000000000000 := by
  obtain ⟨b, n', hfinal, -⟩ := Step.exists_outcome (p := fun _ => true)
    (x := finalize (Lone.next (.zero 20)) [] [] []) (n := Lone.settling) (by decide +kernel)
  have hrun : Run Lone.settling [(Lone.settling, Lone.next (.zero 20))] n' :=
    .finalize hfinal (.done n')
  have hopened : (Lone.settling.opened (Lone.next (.zero 20))).paid = 0 := by decide +kernel
  have hbefore : Lone.settling.state.wealth = 0 ∧ Lone.settling.state.ledger.paid = 0 :=
    ⟨rfl, rfl⟩
  have hreturned : Lone.settling.returned (Lone.next (.zero 20)) = 5000000000000000000 := by
    decide +kernel
  have hblock := (finalize_conserves.1 hfinal).wealth fits_settling
  have hwhole := (finalize_conserves.2 hrun).2 fun e he => by
    rw [List.mem_singleton.1 he]
    exact fits_settling
  refine ⟨b, n', hfinal, fits_settling, ?_, hrun, ?_⟩
  · omega
  · omega

end Node

end CommitteeConsensus
