import CommitteeConsensus.Proofs.Engine.Windows
import CommitteeConsensus.Proofs.Node.Conservation
import CommitteeConsensus.Proofs.Node.Departure

/-! # What a finalized block leaves alone

    A block pays its producer and the accounts bound to it, at the end of an epoch those who
    contributed to the epoch, and whoever has asked for its stake in time. An account may be
    several of these at once. Everybody else keeps its balance, and nobody has less than before
    (`Touches`). Of the stake logs those of the accounts that leave are written, at the number of
    the block, and the list of candidates loses these accounts. The other tables of the state, but
    for the ledger and the queue of requests, and all of the header but its extra-data and its
    roots are as they were (`finalize_touches`).
-/

namespace CommitteeConsensus

variable {config : Config} {current : Snapshot} {number : UInt64} {s t s' : State}

/-! ## Shares -/

theorem map_fst_proportionalShares {amount : Amount} {total : Nat} {weights : Weights}
    {shares : Shares} (htotal : 0 < total)
    (h : proportionalShares amount total weights = .ok shares) :
    shares.map Prod.fst = weights.map Prod.fst := by
  rw [proportionalShares_of_pos amount htotal] at h
  split at h
  · rw [← Except.ok.inj h, List.map_map]
    rfl
  · simp at h

/-- A producer's reward goes to its main account and the accounts bound to it. -/
theorem mem_of_splitByStake {amount : Amount} {main a : Address} {mainStake : UInt64}
    {subs : Weights} {shares : Shares} (h : splitByStake amount main mainStake subs = .ok shares)
    (ha : a ∈ shares.map Prod.fst) : a = main ∨ a ∈ subs.map Prod.fst := by
  by_cases hwhole : subs = [] ∨ totalWeight subs + mainStake.toNat = 0
  · rw [splitByStake_whole hwhole] at h
    rw [← Except.ok.inj h] at ha
    exact .inl (List.mem_singleton.1 ha)
  · obtain ⟨others, paid, share, hothers, -, -, hshares⟩ := (splitByStake_eq_ok_iff hwhole).1 h
    have htotal : 0 < totalWeight subs + mainStake.toNat := Nat.pos_of_ne_zero (not_or.1 hwhole).2
    rw [hshares, List.map_cons, map_fst_proportionalShares htotal hothers, List.mem_cons] at ha
    exact ha

/-- Storage rewards go to accounts that have contributed. -/
theorem mem_of_storageShares {plan : Amount} {weights : Weights} {shares : Shares} {a : Address}
    (h : storageShares plan weights = .ok (some shares)) (ha : a ∈ shares.map Prod.fst) :
    ∃ w ∈ weights, w.1 = a ∧ 0 < w.2 := by
  obtain ⟨hsome, hshares⟩ := storageShares_eq_some_iff.1 h
  rw [map_fst_proportionalShares (Nat.pos_of_ne_zero hsome) hshares] at ha
  obtain ⟨w, hw, rfl⟩ := List.mem_map.1 ha
  obtain ⟨hmem, hpos⟩ := List.mem_filter.1 hw
  exact ⟨w, hmem, rfl, of_decide_eq_true hpos⟩

/-! ## Accounts that are paid -/

/-- What an account may be paid for by a block of this number and producer. -/
inductive Payee (config : Config) (current : Snapshot) (number : UInt64) (coinbase : Address)
    (s : State) (a : Address) : Prop
  /-- It has produced the block, as a member with a reward share. -/
  | producer (hshare : current.proportionOf coinbase ≠ 0) (ha : a = coinbase)
  /-- It is bound to the producer. -/
  | bound (hshare : current.proportionOf coinbase ≠ 0) (ha : a ∈ current.subAccounts coinbase)
  /-- It has contributed to the epoch that the block closes. -/
  | contributor (hend : config.isEpochEnd number) (hcandidate : a ∈ s.candidates)
      (hgrowth : 0 < (s.heftLog a).rangeDiff (config.storageWindow number).1
        (config.storageWindow number).2)
  /-- It has asked for its stake in time. -/
  | leaver (ha : a ∈ maturedAccounts number s)

theorem payee_of_dueStorage {coinbase a : Address} {storage : Shares}
    (h : dueStorage config number s = .ok storage) (ha : a ∈ storage.map Prod.fst) :
    Payee config current number coinbase s a := by
  unfold dueStorage at h
  split at h
  · next hend =>
    obtain ⟨plan, -, h⟩ := bind_eq_ok_iff.1 h
    obtain ⟨shares?, hshares, h⟩ := bind_eq_ok_iff.1 h
    rw [← Except.ok.inj h] at ha
    cases shares? with
    | none => simp at ha
    | some shares =>
      obtain ⟨w, hw, rfl, hpos⟩ := mem_of_storageShares hshares ha
      obtain ⟨a, hcandidate, rfl⟩ := List.mem_map.1 hw
      exact .contributor hend hcandidate hpos
  · rw [← Except.ok.inj h] at ha
    simp at ha

theorem payee_of_dueProducer {coinbase a : Address} {storage producer : Shares}
    (h : dueProducer config current number coinbase storage s = .ok producer)
    (ha : a ∈ producer.map Prod.fst) : Payee config current number coinbase s a := by
  unfold dueProducer at h
  dsimp only at h
  split at h
  · rw [← Except.ok.inj h] at ha
    simp at ha
  · next hshare =>
    obtain ⟨amount, -, h⟩ := bind_eq_ok_iff.1 h
    rcases mem_of_splitByStake h ha with rfl | hsub
    · exact .producer hshare rfl
    · rw [List.map_map] at hsub
      obtain ⟨a, hbound, rfl⟩ := List.mem_map.1 hsub
      exact .bound hshare hbound

theorem payee_of_dueRewards {coinbase a : Address} {r : Rewards}
    (h : dueRewards config current number coinbase s = .ok r)
    (ha : a ∈ r.shares.map Prod.fst) : Payee config current number coinbase s a := by
  obtain ⟨storage, hstorage, h⟩ := bind_eq_ok_iff.1 h
  obtain ⟨producer, hproducer, h⟩ := bind_eq_ok_iff.1 h
  rw [← Except.ok.inj h, Rewards.shares, List.map_append, List.mem_append] at ha
  rcases ha with ha | ha
  · exact payee_of_dueStorage hstorage ha
  · exact payee_of_dueProducer hproducer ha

/-! ## Logs and entries that are not written -/

namespace SampleLog

/-- The samples that are older than a block. -/
def before (log : SampleLog) (block : UInt64) : List Sample := log.toList.filter (·.block < block)

/-- A new sample replaces none that is older. -/
theorem before_of_add {log log' : SampleLog} {x : Sample} (h : log.add x = .ok log') :
    log'.before x.block = log.before x.block := by
  obtain ⟨init, hlog', ⟨last, hlog, hsame⟩ | ⟨hlog, -⟩⟩ := add_cases h
  · -- the sample that goes is of this very block
    simp [before, hlog', hlog, hsame]
  · simp [before, hlog', hlog]

end SampleLog

/-- The return of stakes to these accounts leaves other balances and older samples alone. -/
structure Spares (number : UInt64) (accounts : List Address) (s s' : State) : Prop where
  balances : ∀ a ∉ accounts, s'.balances.get? a = s.balances.get? a
  before : ∀ a, (s'.stakeLog a).before number = (s.stakeLog a).before number

theorem Spares.append {first rest : List Address} (hfirst : Spares number first s t)
    (hrest : Spares number rest t s') : Spares number (first ++ rest) s s' where
  balances := by
    intro a ha
    rw [List.mem_append, not_or] at ha
    rw [hrest.balances a ha.2, hfirst.balances a ha.1]
  before a := (hrest.before a).trans (hfirst.before a)

theorem spares_of_refund {a : Address} (h : refund config number s a = (.ok (), s')) :
    Spares number [a] s s' := by
  obtain ⟨log, hlog, rfl⟩ := refund_eq_ok h
  constructor
  · intro b hb
    have hne : a ≠ b := fun h => hb (List.mem_singleton.2 h.symm)
    exact (s.get?_credit a b _).trans (if_neg hne)
  · intro b
    rw [State.stakeLog_setStakeLog, State.stakeLog_credit]
    split
    · next hb => rw [← hb, SampleLog.before_of_add hlog]
    · rfl

theorem spares_of_refundEach {requests : List RefundRequest}
    (h : refundEach config number requests s = (.ok (), s')) :
    Spares number (requests.map RefundRequest.address) s s' := by
  induction requests generalizing s with
  | nil =>
    obtain ⟨-, rfl⟩ := Prod.mk.inj h
    exact ⟨fun _ _ => rfl, fun _ => rfl⟩
  | cons r rest ih =>
    obtain ⟨t, hrefund, hrest⟩ := refundEach_cons_eq_ok h
    exact (spares_of_refund hrefund).append (ih hrest)

theorem spares_of_refundMatured (h : refundMatured config number s = (.ok (), s')) :
    Spares number (maturedAccounts number s) s s' := by
  obtain ⟨t, hserved, rfl⟩ := refundMatured_stages h
  obtain ⟨hbalances, hbefore⟩ := spares_of_refundEach hserved
  exact ⟨hbalances, hbefore⟩

/-! ## Finalized blocks -/

/-- What a block may change, and what it leaves as it was. -/
structure Touches (config : Config) (current : Snapshot) (h h' : Header) (s s' : State) :
    Prop where
  /-- Nobody has less than before. -/
  grows : ∀ a, s.balance a ≤ s'.balance a
  /-- Who is not paid keeps its entry, or has none. -/
  unpaid : ∀ a, ¬ Payee config current h.number h.coinbase s a →
    s'.balances.get? a = s.balances.get? a
  heftLogs : s'.heftLogs = s.heftLogs
  bindingTable : s'.bindingTable = s.bindingTable
  lastSynchronized : s'.lastSynchronized = s.lastSynchronized
  /-- Whoever does not leave keeps its log. -/
  stays : ∀ a ∉ maturedAccounts h.number s, s'.stakeLog a = s.stakeLog a
  /-- Whoever leaves has a stake of zero from this block on, and keeps all that was before. -/
  leaves : ∀ a ∈ maturedAccounts h.number s, (s'.stakeLog a).last? = some ⟨h.number, 0⟩
    ∧ (s'.stakeLog a).before h.number = (s.stakeLog a).before h.number
  candidates : s'.candidates
    = s.candidates.filter fun a => !(maturedAccounts h.number s).contains a
  header : h' = { h with
    extra := h'.extra
    stateRoot := h'.stateRoot
    uncleHash := h'.uncleHash
    transactionsRoot := h'.transactionsRoot
    receiptsRoot := h'.receiptsRoot }

section

variable {h h' : Header} {x : ExtraData} {transactions : List Transaction}
  {receipts : List Receipt}

/-- Who is owed neither a reward nor a stake keeps its entry. -/
theorem spares_of_settle
    (hsettle : settle config current h x transactions receipts s = (.ok h', s')) :
    (∀ a, ¬ Payee config current h.number h.coinbase s a →
        s'.balances.get? a = s.balances.get? a)
      ∧ ∀ a, (s'.stakeLog a).before h.number = (s.stakeLog a).before h.number := by
  obtain ⟨paid, elected, hpaid, hrefund, -⟩ := settle_eq_ok_iff.1 hsettle
  obtain ⟨r, hr, rfl⟩ := payRewards_eq_ok hpaid
  obtain ⟨hbalances, hbefore⟩ := spares_of_refundMatured hrefund
  rw [maturedAccounts_rewarded] at hbalances
  constructor
  · intro a ha
    rw [hbalances a fun hleaves => ha (.leaver hleaves)]
    have hshares : a ∉ r.shares.map Prod.fst := fun hmem => ha (payee_of_dueRewards hr hmem)
    exact (s.get?_creditAll r.shares a).trans (if_neg hshares)
  · intro a
    rw [hbefore, State.creditAll_eq]
    rfl

theorem touches_of_settle
    (hsettle : settle config current h x transactions receipts s = (.ok h', s')) :
    Touches config current h h' s s' := by
  obtain ⟨r, -, -, hbalance, -⟩ := settle_eq_ok hsettle
  obtain ⟨hspends, hcandidates⟩ := spends_of_settle hsettle
  obtain ⟨hunpaid, hbefore⟩ := spares_of_settle hsettle
  obtain ⟨_, _, -, -, hheader⟩ := settle_eq_ok_iff.1 hsettle
  obtain ⟨bytes, -, hwritten⟩ := settledHeader_eq_ok_iff.1 hheader
  exact {
    grows := by
      intro a
      have hmax := (s.balance a).toNat_le_max
      show (s.balance a).toNat ≤ (s'.balance a).toNat
      rw [hbalance, Amount.toNat_clamp]
      omega
    unpaid := hunpaid
    heftLogs := hspends.heftLogs
    bindingTable := hspends.bindingTable
    lastSynchronized := hspends.lastSynchronized
    stays := hspends.kept
    leaves := fun a ha => ⟨hspends.spent a ha, hbefore a⟩
    candidates := hcandidates
    header := by rw [hwritten] }

end

namespace Node

open Step

/-- A block that a node finalizes touches what it must, under the snapshot that governs it. Of
    the node itself nothing changes but the state and the snapshots that it keeps. -/
theorem finalize_touches {n n' : Node} {h : Header} {transactions : List Transaction}
    {uncles : List Header} {receipts : List Receipt} {b : Block}
    (hfinal : finalize h transactions uncles receipts n = (.ok b, n')) :
    ∃ current snapshots,
      governingSnapshot n.config n.chain [] h.number n.snapshots = (.ok current, snapshots)
        ∧ Touches n.config current h b.header n.state n'.state
        ∧ b = ⟨b.header, transactions, uncles⟩
        ∧ n' = { n with state := n'.state, snapshots } := by
  obtain rfl := uncles_of_finalize hfinal
  obtain ⟨-, x, current, snapshots, h', state, -, hcurrent, hsettle, rfl, rfl⟩ :=
    finalize_eq_ok_iff.1 hfinal
  exact ⟨current, snapshots, hcurrent, touches_of_settle hsettle, rfl, rfl⟩

end Node

/-- An account that no state and no committee here knows of. -/
def Lone.stranger : Address := ⟨List.replicate 20 1, rfl⟩

namespace Node

open Step

/-- The account that leaves has spent its stake at block one and keeps the sample of the genesis
    block, the one that stays is the only candidate left, and a stranger gets no entry. -/
theorem finalize_touches_departing :
    ∃ b n', finalize (Lone.next (.zero 20)) [] [] [] Lone.departing = (.ok b, n')
      ∧ (n'.state.stakeLog Lone.signer.address).last? = some ⟨1, 0⟩
      ∧ (n'.state.stakeLog Lone.signer.address).before 1 = [⟨0, 5⟩]
      ∧ n'.state.stakeLog (.zero 20) = Lone.departing.state.stakeLog (.zero 20)
      ∧ n'.state.candidates = [.zero 20]
      ∧ n'.state.balances.get? Lone.stranger = none
      ∧ b.header.number = 1 := by
  obtain ⟨b, n', -, hfinal, -⟩ := finalize_departing
  obtain ⟨current, snapshots, hlookup, htouches, -⟩ := finalize_touches hfinal
  obtain ⟨hlast, hbefore⟩ := htouches.leaves Lone.signer.address (by decide)
  have hoffice : current = Lone.term Lone.config (Lone.genesis (.zero 20)) 0 (.zero 20) := by
    have hgoverns : (governingSnapshot Lone.config (.ofGenesis (Lone.genesis (.zero 20))) [] 1
        (.ofStore 128 {})).1 = .ok (Lone.term Lone.config (Lone.genesis (.zero 20)) 0 (.zero 20)) :=
      Lone.governingSnapshot_ofGenesis (by decide) (by decide +kernel) (by decide)
    exact Except.ok.inj ((congrArg Prod.fst hlookup).symm.trans hgoverns)
  have hunpaid : ¬ Payee Lone.config current 1 (.zero 20) Lone.departing.state
      Lone.stranger := by
    rw [hoffice]
    rintro (⟨-, hproducer⟩ | ⟨-, hbound⟩ | ⟨-, hcandidate, -⟩ | hleaves)
    · exact absurd hproducer (by decide)
    · exact absurd hbound (by decide)
    · exact absurd hcandidate (by decide)
    · exact absurd hleaves (by decide)
  refine ⟨b, n', hfinal, hlast, hbefore.trans (by decide), htouches.stays _ (by decide), ?_,
    htouches.unpaid Lone.stranger hunpaid, ?_⟩
  · rw [htouches.candidates]
    decide
  · rw [htouches.header]
    rfl

end Node

end CommitteeConsensus
