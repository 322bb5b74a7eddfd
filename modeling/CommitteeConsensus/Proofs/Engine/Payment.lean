import CommitteeConsensus.Proofs.Reward.Booking
import CommitteeConsensus.Proofs.SampleLog.Built
import Mathlib.Algebra.BigOperators.Group.Finset.Basic

/-! # Payments of a block

    What a block pays is decided by its number, its producer, its snapshot and the state that it
    finds (`dueRewards`, `dueRefund`). Paying the rewards credits exactly these shares and books
    them (`payRewards_eq_ok`). The stakes are returned to the accounts with a mature request, once
    each: a second request of an account finds a stake of zero (`refundMatured_eq_ok`).
-/

namespace CommitteeConsensus

variable {config : Config} {number : UInt64} {s s' : State}

/-! ## Rewards -/

/-- The shares that a block pays from the pool: those of the closing epoch's storage rewards, and
    those of its producer's reward. -/
structure Rewards where
  storage : Shares := []
  producer : Shares := []

def Rewards.shares (r : Rewards) : Shares := r.storage ++ r.producer

/-- There are storage rewards only at the end of an epoch to which somebody contributed. -/
def dueStorage (config : Config) (number : UInt64) (s : State) : Except Fault Shares := do
  if config.isEpochEnd number then
    let plan ← epochStoragePlan config.rewards (openLedger config number s.ledger)
      (blockSurplus config number s.ledger)
    return (← storageShares plan (contributions config number s)).getD []
  else return []

/-- The ledger that a producer's reward is planned from. -/
def closedLedger (config : Config) (number : UInt64) (storage : Shares) (s : State) :
    RewardLedger :=
  if config.isEpochEnd number then
    ((openLedger config number s.ledger).recordStorage (.clamp storage.total)).rolloverEpoch
  else openLedger config number s.ledger

def dueProducer (config : Config) (current : Snapshot) (number : UInt64) (coinbase : Address)
    (storage : Shares) (s : State) : Except Fault Shares := do
  let proportion := current.proportionOf coinbase
  if proportion = 0 then return []
  let amount ← blockCoinReward config.rewards (closedLedger config number storage s)
    (blockSurplus config number s.ledger) proportion config.epoch current.size
  splitByStake amount coinbase (s.latestStake coinbase)
    ((current.subAccounts coinbase).map fun sub => (sub, s.latestStake sub))

/-- The rewards that a block pays. -/
def dueRewards (config : Config) (current : Snapshot) (number : UInt64) (coinbase : Address)
    (s : State) : Except Fault Rewards := do
  let storage ← dueStorage config number s
  let producer ← dueProducer config current number coinbase storage s
  return ⟨storage, producer⟩

theorem closeEpoch_eq_ok {current : Snapshot} {closed : Payout}
    (h : closeEpoch config number current (blockSurplus config number s.ledger) s
      (openLedger config number s.ledger) = .ok closed) :
    ∃ storage, dueStorage config number s = .ok storage
      ∧ closed.state = s.creditAll storage
      ∧ closed.ledger = closedLedger config number storage s := by
  unfold closeEpoch at h
  unfold dueStorage closedLedger
  by_cases hend : config.isEpochEnd number
  · rw [if_pos hend] at h ⊢
    obtain ⟨⟨t, ledger⟩, hpay, h⟩ := bind_eq_ok_iff.1 h
    unfold payStorage at hpay
    obtain ⟨plan, hplan, hpay⟩ := bind_eq_ok_iff.1 hpay
    obtain ⟨shares?, hshares, hpay⟩ := bind_eq_ok_iff.1 hpay
    refine ⟨shares?.getD [], ?_, ?_⟩
    · rw [hplan, ok_bind, hshares]
      rfl
    · rw [← Except.ok.inj h]
      cases shares? with
      | none =>
        obtain ⟨rfl, rfl⟩ := Prod.mk.inj (Except.ok.inj hpay)
        refine ⟨rfl, ?_⟩
        rw [if_pos hend]
        exact congrArg RewardLedger.rolloverEpoch (RewardLedger.recordStorage_zero _).symm
      | some shares =>
        obtain ⟨rfl, rfl⟩ := Prod.mk.inj (Except.ok.inj hpay)
        refine ⟨rfl, ?_⟩
        rw [if_pos hend, Shares.satSum_eq_clamp_total]
        rfl
  · rw [if_neg hend] at h ⊢
    rw [← Except.ok.inj h]
    exact ⟨[], rfl, rfl, by rw [if_neg hend]⟩

theorem payCoin_eq_ok {current : Snapshot} {coinbase : Address} {storage : Shares}
    {ledger : RewardLedger}
    (h : payCoin config current coinbase (blockSurplus config number s.ledger)
      (s.creditAll storage) (closedLedger config number storage s) = .ok (s', ledger)) :
    ∃ producer, dueProducer config current number coinbase storage s = .ok producer
      ∧ s' = (s.creditAll storage).creditAll producer
      ∧ ledger = (closedLedger config number storage s).recordCoin (.clamp producer.total) := by
  unfold payCoin at h
  unfold dueProducer
  dsimp only at h ⊢
  by_cases hnone : current.proportionOf coinbase = 0
  · rw [if_pos hnone] at h ⊢
    obtain ⟨rfl, rfl⟩ := Prod.mk.inj (Except.ok.inj h)
    exact ⟨[], rfl, rfl, (RewardLedger.recordCoin_zero _).symm⟩
  · rw [if_neg hnone] at h ⊢
    -- the storage rewards have changed nobody's stake
    simp only [State.latestStake_creditAll] at h
    obtain ⟨amount, hamount, h⟩ := bind_eq_ok_iff.1 h
    obtain ⟨producer, hproducer, h⟩ := bind_eq_ok_iff.1 h
    obtain ⟨rfl, rfl⟩ := Prod.mk.inj (Except.ok.inj h)
    refine ⟨producer, ?_, rfl, ?_⟩
    · rw [hamount, ok_bind, hproducer]
    · rw [total_splitByStake hproducer, Amount.clamp_toNat]

/-- The ledger that a block leaves behind. -/
def bookedLedger (config : Config) (number : UInt64) (r : Rewards) (s : State) : RewardLedger :=
  (openLedger config number s.ledger).book (config.isEpochEnd number) r.storage.total
    r.producer.total

/-- A block pays the rewards that are due and books them. -/
theorem payRewards_eq_ok {current : Snapshot} {coinbase : Address}
    {elected : Option CommitteeRecord}
    (h : payRewards config number coinbase current s = .ok (s', elected)) :
    ∃ r, dueRewards config current number coinbase s = .ok r
      ∧ s' = (s.creditAll r.shares).setLedger (bookedLedger config number r s) := by
  unfold payRewards at h
  obtain ⟨closed, hclosed, h⟩ := bind_eq_ok_iff.1 h
  obtain ⟨⟨t, ledger⟩, hcoin, h⟩ := bind_eq_ok_iff.1 h
  obtain ⟨storage, hstorage, hstate, hledger⟩ := closeEpoch_eq_ok hclosed
  rw [hstate, hledger] at hcoin
  obtain ⟨producer, hproducer, rfl, rfl⟩ := payCoin_eq_ok hcoin
  refine ⟨⟨storage, producer⟩, ?_, ?_⟩
  · rw [dueRewards, hstorage, ok_bind, hproducer]
    rfl
  · rw [← (Prod.mk.inj (Except.ok.inj h)).1, Rewards.shares, State.creditAll_append]
    rfl

/-- Storage rewards are paid at the end of an epoch alone. -/
theorem total_storage_of_dueRewards {current : Snapshot} {coinbase : Address} {r : Rewards}
    (h : dueRewards config current number coinbase s = .ok r)
    (hend : config.isEpochEnd number = false) : r.storage.total = 0 := by
  obtain ⟨storage, hstorage, h⟩ := bind_eq_ok_iff.1 h
  obtain ⟨producer, -, h⟩ := bind_eq_ok_iff.1 h
  rw [← Except.ok.inj h]
  unfold dueStorage at hstorage
  rw [if_neg (by simp [hend])] at hstorage
  rw [← Except.ok.inj hstorage]
  rfl

/-! ## Returned stakes -/

/-- The accounts with a request that is mature, one for each request. -/
def maturedAccounts (number : UInt64) (s : State) : List Address :=
  (RefundRequest.splitMatured s.refunds number).1.map RefundRequest.address

theorem mem_maturedAccounts_iff {a : Address} : a ∈ maturedAccounts number s
    ↔ ∃ r ∈ s.refunds, r.address = a ∧ r.maturityBlock ≤ number := by
  rw [maturedAccounts, RefundRequest.splitMatured, List.partition_eq_filter_filter]
  simp only [List.mem_map, List.mem_filter, RefundRequest.isMature, decide_eq_true_eq]
  constructor
  · rintro ⟨r, ⟨hr, hmature⟩, rfl⟩
    exact ⟨r, hr, rfl, hmature⟩
  · rintro ⟨r, hr, rfl, hmature⟩
    exact ⟨r, ⟨hr, hmature⟩, rfl⟩

/-- The worth of an account's latest stake. -/
def stakeWorth (config : Config) (s : State) (a : Address) : Nat :=
  config.stakeUnit.toNat * (s.latestStake a).toNat

/-- What an account gets back, if it is one of these. -/
def dueRefund (config : Config) (accounts : List Address) (s : State) (a : Address) : Nat :=
  if a ∈ accounts then stakeWorth config s a else 0

theorem dueRefund_le_sum (config : Config) (accounts : List Address) (s : State) (a : Address) :
    dueRefund config accounts s a ≤ ∑ b ∈ accounts.toFinset, stakeWorth config s b := by
  unfold dueRefund
  split
  · next ha =>
    rw [← Finset.add_sum_erase accounts.toFinset (stakeWorth config s) (List.mem_toFinset.2 ha)]
    exact Nat.le_add_right _ _
  · exact Nat.zero_le _

section

variable (config number s) (shares : Shares) (l : RewardLedger) (a : Address)

theorem toNat_balance_rewarded : (((s.creditAll shares).setLedger l).balance a).toNat
    = min ((s.balance a).toNat + shares.received a) Amount.max :=
  congrArg Amount.toNat (s.balance_creditAll shares a)

theorem stakeWorth_rewarded :
    stakeWorth config ((s.creditAll shares).setLedger l) a = stakeWorth config s a := by
  have hstake : ((s.creditAll shares).setLedger l).latestStake a = s.latestStake a :=
    s.latestStake_creditAll shares a
  rw [stakeWorth, stakeWorth, hstake]

theorem dueRefund_rewarded (accounts : List Address) :
    dueRefund config accounts ((s.creditAll shares).setLedger l) a
      = dueRefund config accounts s a := by
  rw [dueRefund, dueRefund, stakeWorth_rewarded]

theorem maturedAccounts_rewarded :
    maturedAccounts number ((s.creditAll shares).setLedger l) = maturedAccounts number s := by
  have hrefunds : ((s.creditAll shares).setLedger l).refunds = s.refunds :=
    s.refunds_creditAll shares
  rw [maturedAccounts, maturedAccounts, hrefunds]

end

/-- A returned stake is credited, and the account has none from this block on. -/
theorem refund_eq_ok {a : Address} (h : refund config number s a = (.ok (), s')) :
    ∃ log : SampleLog, (s.stakeLog a).add ⟨number, 0⟩ = .ok log
      ∧ s' = (s.credit a (config.stakeUnit.satMul (.ofWord (s.latestStake a)))).setStakeLog a
        log := by
  unfold refund State.recordStake at h
  dsimp only at h
  split at h
  · simp at h
  · next t hrecord =>
    obtain ⟨log, hlog, ht⟩ := bind_eq_ok_iff.1 hrecord
    refine ⟨log, hlog, ?_⟩
    rw [← (Prod.mk.inj h).2, ← Except.ok.inj ht]

section

variable {a : Address} (h : refund config number s a = (.ok (), s'))

include h

theorem ledger_of_refund : s'.ledger = s.ledger := by
  obtain ⟨log, -, rfl⟩ := refund_eq_ok h
  rfl

theorem stakeWorth_of_refund (b : Address) :
    stakeWorth config s' b = if b = a then 0 else stakeWorth config s b := by
  obtain ⟨log, hlog, rfl⟩ := refund_eq_ok h
  unfold stakeWorth State.latestStake
  rw [State.stakeLog_setStakeLog, State.stakeLog_credit]
  by_cases hb : b = a
  · rw [if_pos hb.symm, if_pos hb, SampleLog.latestValue_of_last? (SampleLog.last?_of_add hlog)]
    rfl
  · rw [if_neg (Ne.symm hb), if_neg hb]

theorem toNat_balance_of_refund (b : Address) :
    (s'.balance b).toNat
      = min ((s.balance b).toNat + if b = a then stakeWorth config s a else 0) Amount.max := by
  obtain ⟨log, -, rfl⟩ := refund_eq_ok h
  have hcredit := s.toNat_balance_credit a b
    (config.stakeUnit.satMul (.ofWord (s.latestStake a)))
  rw [Amount.toNat_satMul, Amount.toNat_ofWord] at hcredit
  have hbalance : ((s.credit a (config.stakeUnit.satMul
      (.ofWord (s.latestStake a)))).setStakeLog a log).balance b
      = (s.credit a (config.stakeUnit.satMul (.ofWord (s.latestStake a)))).balance b := rfl
  rw [hbalance, hcredit]
  unfold stakeWorth
  by_cases hb : b = a
  · rw [if_pos hb.symm, if_pos hb]
    omega
  · rw [if_neg (Ne.symm hb), if_neg hb]

theorem wealth_of_refund (hfits : (s.balance a).toNat + stakeWorth config s a ≤ Amount.max) :
    s'.wealth = s.wealth + stakeWorth config s a := by
  obtain ⟨log, -, rfl⟩ := refund_eq_ok h
  have hworth : (config.stakeUnit.satMul (.ofWord (s.latestStake a))).toNat
      = stakeWorth config s a := by
    rw [Amount.toNat_satMul, Amount.toNat_ofWord]
    unfold stakeWorth at hfits ⊢
    omega
  have hcredit := State.wealth_credit (s := s) (a := a) (by rw [hworth]; exact hfits)
  rw [hworth] at hcredit
  exact hcredit

end

/-- A sum over distinct keys in which one more key is counted and from then on counts nothing. -/
theorem sum_insert_of_spent {f g : Address → Nat} {a : Address} (S : Finset Address)
    (hg : ∀ b, g b = if b = a then 0 else f b) :
    ∑ b ∈ insert a S, f b = f a + ∑ b ∈ S, g b := by
  have hspent : ∑ b ∈ S, g b = ∑ b ∈ S.erase a, f b := by
    rw [← Finset.sum_erase S (hg a ▸ if_pos rfl)]
    apply Finset.sum_congr rfl
    intro b hb
    rw [hg b, if_neg (Finset.ne_of_mem_erase hb)]
  rw [hspent, ← Finset.add_sum_erase (insert a S) f (Finset.mem_insert_self a S),
    Finset.erase_insert_eq_erase]

/-- Requests are served one after another. -/
theorem refundEach_cons_eq_ok {r : RefundRequest} {rest : List RefundRequest}
    (h : refundEach config number (r :: rest) s = (.ok (), s')) :
    ∃ t, refund config number s r.address = (.ok (), t)
      ∧ refundEach config number rest t = (.ok (), s') := by
  rw [refundEach] at h
  split at h
  · simp at h
  · next t hrefund => exact ⟨t, hrefund, h⟩

/-- The mature requests are served, then their accounts are struck off. -/
theorem refundMatured_stages (h : refundMatured config number s = (.ok (), s')) :
    ∃ t, refundEach config number (RefundRequest.splitMatured s.refunds number).1 s = (.ok (), t)
      ∧ s' = (t.setCandidates (s.candidates.filter
          fun a => !(maturedAccounts number s).contains a)).setRefunds
        (RefundRequest.splitMatured s.refunds number).2 := by
  unfold refundMatured at h
  unfold maturedAccounts
  rcases hsplit : RefundRequest.splitMatured s.refunds number with ⟨matured, pending⟩
  rw [hsplit] at h
  dsimp only at h ⊢
  split at h
  · next hnone =>
    -- nobody is struck off, and all requests are pending
    obtain ⟨-, rfl⟩ := Prod.mk.inj h
    obtain rfl := List.isEmpty_iff.1 hnone
    rw [RefundRequest.splitMatured, List.partition_eq_filter_filter, Prod.mk.injEq,
      List.filter_eq_nil_iff] at hsplit
    have hpending : pending = s.refunds := by
      rw [← hsplit.2, List.filter_eq_self.2]
      intro r hr
      simpa using hsplit.1 r hr
    refine ⟨s, rfl, ?_⟩
    rw [hpending, List.filter_eq_self.2 (by simp)]
    rfl
  · split at h
    · simp at h
    · next t hrefund => exact ⟨t, hrefund, (Prod.mk.inj h).2.symm⟩

/-- These accounts get the worth of their stakes, once each, and nothing is booked. -/
structure Returns (config : Config) (accounts : List Address) (s s' : State) : Prop where
  ledger : s'.ledger = s.ledger
  balance : ∀ a, s'.balance a = .clamp ((s.balance a).toNat + dueRefund config accounts s a)
  wealth : (∀ a, (s.balance a).toNat + dueRefund config accounts s a ≤ Amount.max) →
    s'.wealth = s.wealth + ∑ a ∈ accounts.toFinset, stakeWorth config s a

/-- The requests of a list are served one after another, each account once. -/
theorem refundEach_eq_ok {requests : List RefundRequest}
    (h : refundEach config number requests s = (.ok (), s')) :
    Returns config (requests.map RefundRequest.address) s s' := by
  induction requests generalizing s with
  | nil =>
    obtain ⟨-, rfl⟩ := Prod.mk.inj h
    constructor
    · rfl
    · intro a
      simp [dueRefund, Amount.clamp_toNat]
    · simp
  | cons r rest ih =>
    obtain ⟨t, hrefund, hrest⟩ := refundEach_cons_eq_ok h
    have hserved := ih hrest
    have hbalance_t := toNat_balance_of_refund hrefund
    have hworth_t := stakeWorth_of_refund hrefund
    -- what the rest of the list gets, now that the first account has nothing more to get
    have hdue : ∀ a, dueRefund config ((r :: rest).map RefundRequest.address) s a
        = (if a = r.address then stakeWorth config s r.address else 0)
          + dueRefund config (rest.map RefundRequest.address) t a := by
      intro a
      unfold dueRefund
      rw [hworth_t]
      by_cases ha : a = r.address
      · simp [ha]
      · simp [ha]
    constructor
    · exact hserved.ledger.trans (ledger_of_refund hrefund)
    · intro a
      rw [hserved.balance]
      apply Amount.ext
      simp only [Amount.toNat_clamp, hbalance_t, hdue]
      omega
    · intro hfits
      have hfirst : (s.balance r.address).toNat + stakeWorth config s r.address
          ≤ Amount.max := by
        have ha := hfits r.address
        rw [hdue, if_pos rfl] at ha
        omega
      have hlater : ∀ a, (t.balance a).toNat
          + dueRefund config (rest.map RefundRequest.address) t a ≤ Amount.max := by
        intro a
        have ha := hfits a
        rw [hdue] at ha
        rw [hbalance_t]
        omega
      rw [hserved.wealth hlater, wealth_of_refund hrefund hfirst, List.map_cons,
        List.toFinset_cons, sum_insert_of_spent _ hworth_t, Nat.add_assoc]

/-- A block returns the stakes of the accounts with a mature request, once to each. -/
theorem refundMatured_eq_ok (h : refundMatured config number s = (.ok (), s')) :
    Returns config (maturedAccounts number s) s s' := by
  obtain ⟨t, hserved, rfl⟩ := refundMatured_stages h
  obtain ⟨hledger, hbalance, hwealth⟩ := refundEach_eq_ok hserved
  exact ⟨hledger, hbalance, hwealth⟩

end CommitteeConsensus
