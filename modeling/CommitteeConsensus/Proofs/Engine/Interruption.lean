import CommitteeConsensus.Proofs.Engine.Payment
import CommitteeConsensus.Proofs.Engine.Settlement

/-! # Interrupted settlements

    A settlement that fails with an error is not undone. The rewards are paid by then, for nothing
    before them can fail with an error, and two steps are left that can: the return of stakes,
    which stops at the first account whose stake log has a sample beyond the block
    (`refundMatured_eq_error`), and the writing of the header, by which time all stakes are
    returned.

    The accounts that were served before the failing one have their stake and a log that says so.
    The failing account has been credited with its stake and keeps it in the log. Requests and
    candidates are written last and are as they were.
-/

namespace CommitteeConsensus

variable {config : Config} {number : UInt64} {s t s' : State} {e : StoreError}

/-! ## Accounts that were served -/

/-- The accounts spend their stakes at this block, and nobody else's log changes. -/
structure Spends (number : UInt64) (accounts : List Address) (s s' : State) : Prop where
  spent : ∀ a ∈ accounts, (s'.stakeLog a).last? = some ⟨number, 0⟩
  kept : ∀ a ∉ accounts, s'.stakeLog a = s.stakeLog a
  heftLogs : s'.heftLogs = s.heftLogs
  bindingTable : s'.bindingTable = s.bindingTable
  lastSynchronized : s'.lastSynchronized = s.lastSynchronized

theorem spends_nil (number : UInt64) (s : State) : Spends number [] s s :=
  ⟨fun _ ha => absurd ha List.not_mem_nil, fun _ _ => rfl, rfl, rfl, rfl⟩

theorem Spends.append {first rest : List Address} (hfirst : Spends number first s t)
    (hrest : Spends number rest t s') : Spends number (first ++ rest) s s' where
  spent := by
    -- an account that is served again writes the same sample again
    intro a ha
    by_cases hlater : a ∈ rest
    · exact hrest.spent a hlater
    · rw [hrest.kept a hlater]
      exact hfirst.spent a ((List.mem_append.1 ha).resolve_right hlater)
  kept := by
    intro a ha
    rw [List.mem_append, not_or] at ha
    rw [hrest.kept a ha.2, hfirst.kept a ha.1]
  heftLogs := hrest.heftLogs.trans hfirst.heftLogs
  bindingTable := hrest.bindingTable.trans hfirst.bindingTable
  lastSynchronized := hrest.lastSynchronized.trans hfirst.lastSynchronized

/-- Who has spent its stake has none left. -/
theorem Spends.latestStake {accounts : List Address} (h : Spends number accounts s s')
    (a : Address) : s'.latestStake a = if a ∈ accounts then 0 else s.latestStake a := by
  split
  · next ha => exact SampleLog.latestValue_of_last? (h.spent a ha)
  · next ha => exact congrArg SampleLog.latestValue (h.kept a ha)

/-- Requests and candidates are not looked at while stakes are returned. -/
structure KeepsQueue (s s' : State) : Prop where
  candidates : s'.candidates = s.candidates
  refunds : s'.refunds = s.refunds

theorem spends_of_refund {a : Address} (h : refund config number s a = (.ok (), s')) :
    Spends number [a] s s' ∧ KeepsQueue s s' := by
  obtain ⟨log, hlog, rfl⟩ := refund_eq_ok h
  refine ⟨⟨?_, ?_, rfl, rfl, rfl⟩, rfl, rfl⟩
  · intro b hb
    rw [List.mem_singleton.1 hb, State.stakeLog_setStakeLog, if_pos rfl,
      SampleLog.last?_of_add hlog]
  · intro b hb
    have hne : a ≠ b := fun h => hb (List.mem_singleton.2 h.symm)
    rw [State.stakeLog_setStakeLog, if_neg hne]
    rfl

theorem spends_of_refundEach {requests : List RefundRequest}
    (h : refundEach config number requests s = (.ok (), s')) :
    Spends number (requests.map RefundRequest.address) s s' ∧ KeepsQueue s s' := by
  induction requests generalizing s with
  | nil =>
    obtain ⟨-, rfl⟩ := Prod.mk.inj h
    exact ⟨spends_nil number s, rfl, rfl⟩
  | cons r rest ih =>
    obtain ⟨t, hrefund, hserved⟩ := refundEach_cons_eq_ok h
    obtain ⟨hfirst, hqueue⟩ := spends_of_refund hrefund
    obtain ⟨hrest, hqueue'⟩ := ih hserved
    exact ⟨hfirst.append hrest, hqueue'.candidates.trans hqueue.candidates,
      hqueue'.refunds.trans hqueue.refunds⟩

/-- When all stakes are returned, those who had asked for theirs are no candidates any more, and
    the requests that are not mature are left. -/
theorem spends_of_refundMatured (h : refundMatured config number s = (.ok (), s')) :
    Spends number (maturedAccounts number s) s s'
      ∧ s'.candidates = s.candidates.filter (fun a => !(maturedAccounts number s).contains a)
      ∧ s'.refunds = (RefundRequest.splitMatured s.refunds number).2 := by
  obtain ⟨t, hserved, rfl⟩ := refundMatured_stages h
  obtain ⟨hspends, -⟩ := spends_of_refundEach hserved
  exact ⟨⟨hspends.spent, hspends.kept, hspends.heftLogs, hspends.bindingTable,
    hspends.lastSynchronized⟩, rfl, rfl⟩

/-! ## The account that was not -/

/-- An account cannot spend its stake at a block that its log has passed already. It has been
    credited with the stake all the same. -/
theorem refund_eq_error {a : Address} (h : refund config number s a = (.error e, s')) :
    (∃ last, (s.stakeLog a).last? = some last ∧ number < last.block
      ∧ e = .outOfOrder last.block number)
    ∧ s' = s.credit a (config.stakeUnit.satMul (.ofWord (s.latestStake a))) := by
  unfold refund State.recordStake at h
  dsimp only at h
  rw [State.stakeLog_credit] at h
  cases hadd : (s.stakeLog a).add ⟨number, 0⟩ with
  | ok log => simp [hadd] at h
  | error e' =>
    rw [hadd] at h
    obtain ⟨he, rfl⟩ := Prod.mk.inj h
    obtain rfl := Except.error.inj he
    exact ⟨SampleLog.add_eq_error_iff.1 hadd, rfl⟩

/-- Requests are served in order until one fails. -/
theorem refundEach_eq_error {requests : List RefundRequest}
    (h : refundEach config number requests s = (.error e, s')) :
    ∃ served r rest t, requests = served ++ r :: rest
      ∧ refundEach config number served s = (.ok (), t)
      ∧ refund config number t r.address = (.error e, s') := by
  -- the first request fails, or it is served and a later one fails on the state that it leaves
  induction requests generalizing s with
  | nil => simp [refundEach] at h
  | cons r rest ih =>
    rw [refundEach] at h
    split at h
    · next e' t hrefund =>
      obtain ⟨he, rfl⟩ := Prod.mk.inj h
      obtain rfl := Except.error.inj he
      exact ⟨[], r, rest, s, rfl, rfl, hrefund⟩
    · next t hrefund =>
      obtain ⟨served, r', rest', t', rfl, hserved, hfailed⟩ := ih h
      refine ⟨r :: served, r', rest', t', rfl, ?_, hfailed⟩
      rw [refundEach, hrefund]
      exact hserved

/-- The return of stakes stops at an account whose log has passed the block. The accounts before it
    are served; it is credited with its stake and keeps it. -/
structure Stops (config : Config) (number : UInt64) (served : List RefundRequest)
    (r : RefundRequest) (passed : UInt64) (s s' : State) : Prop where
  unserved : r.address ∉ served.map RefundRequest.address
  passed : ∃ last, (s.stakeLog r.address).last? = some last ∧ last.block = passed
    ∧ number < passed
  ledger : s'.ledger = s.ledger
  balance : ∀ a, s'.balance a = .clamp ((s.balance a).toNat
    + dueRefund config ((served ++ [r]).map RefundRequest.address) s a)
  spends : Spends number (served.map RefundRequest.address) s s'
  queue : KeepsQueue s s'

theorem stops_of_refund {served : List RefundRequest} {r : RefundRequest}
    (hserved : refundEach config number served s = (.ok (), t))
    (hfailed : refund config number t r.address = (.error e, s')) :
    ∃ passed, e = .outOfOrder passed number ∧ Stops config number served r passed s s' := by
  obtain ⟨hspends, hqueue⟩ := spends_of_refundEach hserved
  have hreturns := refundEach_eq_ok hserved
  obtain ⟨⟨last, hlast, hlt, rfl⟩, rfl⟩ := refund_eq_error hfailed
  -- an account that was served has this very block as its last one
  have hunserved : r.address ∉ served.map RefundRequest.address := by
    intro hmem
    rw [hspends.spent r.address hmem] at hlast
    exact UInt64.lt_irrefl number (by rwa [← Option.some.inj hlast] at hlt)
  have hlog := hspends.kept r.address hunserved
  refine ⟨last.block, rfl, hunserved, ⟨last, hlog ▸ hlast, rfl, hlt⟩, hreturns.ledger, ?_,
    ⟨hspends.spent, hspends.kept, hspends.heftLogs, hspends.bindingTable,
      hspends.lastSynchronized⟩, hqueue.candidates, hqueue.refunds⟩
  intro a
  have hworth : t.latestStake r.address = s.latestStake r.address :=
    congrArg SampleLog.latestValue hlog
  apply Amount.ext
  rw [State.toNat_balance_credit, hreturns.balance, hworth]
  simp only [Amount.toNat_satMul, Amount.toNat_ofWord, Amount.toNat_clamp, dueRefund,
    stakeWorth, List.map_append, List.mem_append, List.map_cons, List.map_nil,
    List.mem_singleton]
  by_cases ha : r.address = a
  · subst ha
    simp only [hunserved, if_false, if_true, or_true]
    omega
  · have hne : ¬ a = r.address := fun h => ha h.symm
    simp only [ha, hne, if_false, or_false]
    omega

theorem refundMatured_eq_error (h : refundMatured config number s = (.error e, s')) :
    ∃ served r rest passed,
      (RefundRequest.splitMatured s.refunds number).1 = served ++ r :: rest
      ∧ e = .outOfOrder passed number ∧ Stops config number served r passed s s' := by
  unfold refundMatured at h
  dsimp only at h
  split at h
  · simp at h
  · split at h
    · next e' t hrefund =>
      obtain ⟨he, rfl⟩ := Prod.mk.inj h
      obtain rfl := Except.error.inj he
      obtain ⟨served, r, rest, t', hmatured, hserved, hfailed⟩ := refundEach_eq_error hrefund
      obtain ⟨passed, he, hstops⟩ := stops_of_refund hserved hfailed
      exact ⟨served, r, rest, passed, hmatured, he, hstops⟩
    · simp at h

/-! ## A whole block -/

section

variable {current : Snapshot} {h h' : Header} {x : ExtraData} {transactions : List Transaction}
  {receipts : List Receipt} {failure : Error}

theorem settledHeader_eq_error
    (hheader : settledHeader h x transactions receipts s = .error failure) :
    failure = .invalidExtra "payload exceeds u32 length" ∧ 0x100000000 ≤ x.payload.length := by
  unfold settledHeader Header.withExtra ExtraData.encode at hheader
  dsimp only at hheader
  split at hheader
  · simp at hheader
  · next hlong =>
    exact ⟨(Except.error.inj hheader).symm, Nat.le_of_not_lt hlong⟩

/-- The stages of a block that failed with an error: the rewards were paid, and then either the
    return of stakes or the writing of the header has failed. -/
theorem settle_eq_error
    (hsettle : settle config current h x transactions receipts s = (.error (.error failure), s')) :
    ∃ paid elected, payRewards config h.number h.coinbase current s = .ok (paid, elected)
      ∧ ((∃ e, refundMatured config h.number paid = (.error e, s') ∧ failure = .ofState e)
        ∨ (refundMatured config h.number paid = (.ok (), s')
          ∧ settledHeader h (settledExtra x elected paid) transactions receipts s'
            = .error failure)) := by
  unfold settle at hsettle
  split at hsettle
  · simp at hsettle
  · next paid elected hpaid =>
    refine ⟨paid, elected, hpaid, ?_⟩
    dsimp only at hsettle
    split at hsettle
    · next e t hrefund =>
      simp only [Prod.mk.injEq, Except.error.injEq, Failure.error.injEq] at hsettle
      obtain ⟨rfl, rfl⟩ := hsettle
      exact .inl ⟨e, hrefund, rfl⟩
    · next t hrefund =>
      split at hsettle
      · next e hheader =>
        simp only [Prod.mk.injEq, Except.error.injEq, Failure.error.injEq] at hsettle
        obtain ⟨rfl, rfl⟩ := hsettle
        exact .inr ⟨hrefund, hheader⟩
      · simp at hsettle

end

end CommitteeConsensus
