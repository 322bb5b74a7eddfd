import CommitteeConsensus.Proofs.Node.Conservation
import CommitteeConsensus.Proofs.Node.Departure

/-! # The queue of requests

    Requests for the return of stake wait in a queue until a finalized block has reached their
    maturity. That block takes them out, pays each of their accounts the stake that it finds in
    its log, once, and leaves the others in order (`Honours`).

    Over a run of blocks and new requests, a request is in the queue as long as all blocks since
    are below its maturity (`Withdraws.refunds`). Those that were made are those that were served
    and those that wait, each of them once (`Withdraws.perm`).
-/

namespace CommitteeConsensus

variable {config : Config} {number : UInt64} {s s' : State}

/-! ## When stakes can be returned -/

/-- The account's stake log has not passed the block. -/
def Unpassed (number : UInt64) (s : State) (a : Address) : Prop :=
  ∀ last, (s.stakeLog a).last? = some last → last.block ≤ number

/-- A stake is returned at a block that its log has not passed. -/
theorem exists_refund_iff {a : Address} :
    (∃ s', refund config number s a = (.ok (), s')) ↔ Unpassed number s a := by
  constructor
  · intro hrefund last hlast
    obtain ⟨s', hrefund⟩ := hrefund
    obtain ⟨log, hlog, -⟩ := refund_eq_ok hrefund
    -- a sample below the last one would not have been added
    by_contra hlt
    have herror : (s.stakeLog a).add ⟨number, 0⟩ = .error (.outOfOrder last.block number) :=
      SampleLog.add_eq_error_iff.2 ⟨last, hlast, UInt64.not_le.1 hlt, rfl⟩
    rw [hlog] at herror
    simp at herror
  · intro hunpassed
    rcases hrefund : refund config number s a with ⟨_ | ⟨⟩, s'⟩
    · obtain ⟨⟨last, hlast, hlt, -⟩, -⟩ := refund_eq_error hrefund
      exact absurd hlt (UInt64.not_lt.2 (hunpassed last hlast))
    · exact ⟨s', rfl⟩

/-- An account that has just been served can be served again, and nobody else's log has changed. -/
theorem unpassed_of_refund {a b : Address} (hrefund : refund config number s a = (.ok (), s')) :
    Unpassed number s' b ↔ b = a ∨ Unpassed number s b := by
  obtain ⟨hspends, -⟩ := spends_of_refund hrefund
  by_cases hb : b = a
  · have hspent := hspends.spent b (List.mem_singleton.2 hb)
    simp [Unpassed, hb, hb ▸ hspent]
  · have hkept := hspends.kept b (by simpa using hb)
    simp [Unpassed, hb, hkept]

theorem exists_refundEach_iff {requests : List RefundRequest} :
    (∃ s', refundEach config number requests s = (.ok (), s'))
      ↔ ∀ a ∈ requests.map RefundRequest.address, Unpassed number s a := by
  induction requests generalizing s with
  | nil => simp [refundEach]
  | cons r rest ih =>
    rw [List.map_cons, List.forall_mem_cons]
    constructor
    · intro hserved
      obtain ⟨s', hserved⟩ := hserved
      obtain ⟨t, hrefund, hrest⟩ := refundEach_cons_eq_ok hserved
      have hfirst := exists_refund_iff.1 ⟨t, hrefund⟩
      refine ⟨hfirst, fun a ha => ?_⟩
      -- a later request may be of the same account
      rcases (unpassed_of_refund hrefund).1 (ih.1 ⟨s', hrest⟩ a ha) with rfl | hunpassed
      · exact hfirst
      · exact hunpassed
    · intro hunpassed
      obtain ⟨hfirst, hrest⟩ := hunpassed
      obtain ⟨t, hrefund⟩ := exists_refund_iff.2 hfirst
      obtain ⟨s', hserved⟩ :=
        ih.2 fun a ha => (unpassed_of_refund hrefund).2 (.inr (hrest a ha))
      exact ⟨s', by rw [refundEach, hrefund]; exact hserved⟩

/-- The stakes of a block are returned exactly if no account that asked for it in time has a stake
    log beyond the block. -/
theorem exists_refundMatured_iff :
    (∃ s', refundMatured config number s = (.ok (), s'))
      ↔ ∀ a ∈ maturedAccounts number s, Unpassed number s a := by
  have heach : (∃ s', refundEach config number (RefundRequest.splitMatured s.refunds number).1 s
      = (.ok (), s')) ↔ ∀ a ∈ maturedAccounts number s, Unpassed number s a :=
    exists_refundEach_iff
  rw [← heach]
  constructor
  · intro hserved
    obtain ⟨s', hserved⟩ := hserved
    obtain ⟨t, heach, -⟩ := refundMatured_stages hserved
    exact ⟨t, heach⟩
  · intro heach
    obtain ⟨t, heach⟩ := heach
    unfold refundMatured
    dsimp only
    split
    · exact ⟨s, rfl⟩
    · rw [heach]
      exact ⟨_, rfl⟩

/-- The rewards of the block have no part in it. -/
theorem exists_refundMatured_of_payRewards {current : Snapshot} {coinbase : Address}
    {elected : Option CommitteeRecord}
    (hpaid : payRewards config number coinbase current s = .ok (s', elected)) :
    (∃ t, refundMatured config number s' = (.ok (), t))
      ↔ ∃ t, refundMatured config number s = (.ok (), t) := by
  obtain ⟨r, -, rfl⟩ := payRewards_eq_ok hpaid
  -- rewards are paid into balances, and the logs stay
  have hlogs : ∀ a, ((s.creditAll r.shares).setLedger (bookedLedger config number r s)).stakeLog a
      = s.stakeLog a := by
    intro a
    rw [State.creditAll_eq]
    rfl
  simp only [exists_refundMatured_iff, maturedAccounts_rewarded, Unpassed, hlogs]

/-! ## What a block leaves of the queue -/

theorem splitMatured_eq (requests : List RefundRequest) (number : UInt64) :
    RefundRequest.splitMatured requests number
      = (requests.filter (·.maturityBlock ≤ number), requests.filter (number < ·.maturityBlock)) := by
  rw [RefundRequest.splitMatured, List.partition_eq_filter_filter]
  refine congrArg (Prod.mk _) (List.filter_congr fun r _ => ?_)
  show (!decide (r.maturityBlock ≤ number)) = decide (number < r.maturityBlock)
  rw [← decide_not]
  exact decide_eq_decide.2 UInt64.not_le

theorem refunds_of_settle {current : Snapshot} {h h' : Header} {x : ExtraData}
    {transactions : List Transaction} {receipts : List Receipt}
    (hsettle : settle config current h x transactions receipts s = (.ok h', s')) :
    s'.refunds = s.refunds.filter (h.number < ·.maturityBlock) := by
  obtain ⟨paid, elected, hpaid, hrefund, -⟩ := settle_eq_ok_iff.1 hsettle
  obtain ⟨r, -, rfl⟩ := payRewards_eq_ok hpaid
  obtain ⟨-, -, hrefunds⟩ := spends_of_refundMatured hrefund
  have hqueue : ((s.creditAll r.shares).setLedger (bookedLedger config h.number r s)).refunds
      = s.refunds := State.refunds_creditAll s r.shares
  rw [hrefunds, hqueue, splitMatured_eq]

namespace Node

variable {n m n' : Node} {h : Header}

/-- What a finalized block does to requests, and to the accounts of those that are mature. -/
structure Honours (n : Node) (h : Header) (n' : Node) : Prop where
  /-- The requests that are not mature are left, in order. -/
  queue : n'.state.refunds = n.state.refunds.filter (h.number < ·.maturityBlock)
  /-- An account with a mature request gets the worth of its latest stake on top of the rewards,
      however many of its requests are mature. -/
  credited : ∀ a ∈ maturedAccounts h.number n.state, n'.state.balance a
    = .clamp ((n.state.balance a).toNat + (n.rewards h).shares.received a
      + n.config.stakeUnit.toNat * (n.state.latestStake a).toNat)
  uncredited : ∀ a ∉ maturedAccounts h.number n.state, n'.state.balance a
    = .clamp ((n.state.balance a).toNat + (n.rewards h).shares.received a)
  stake : ∀ a, n'.state.latestStake a
    = if a ∈ maturedAccounts h.number n.state then 0 else n.state.latestStake a
  /-- Their accounts are struck off the candidates wherever they stand. -/
  candidates : n'.state.candidates
    = n.state.candidates.filter (· ∉ maturedAccounts h.number n.state)

theorem honours_of_finalize {transactions : List Transaction} {uncles : List Header}
    {receipts : List Receipt} {b : Block}
    (hfinal : finalize h transactions uncles receipts n = (.ok b, n')) : n.Honours h n' := by
  have hbalance := (conserves_of_finalize hfinal).balance
  have hdeparts := departs_of_finalize hfinal
  obtain rfl := uncles_of_finalize hfinal
  obtain ⟨-, x, s, cache, h', state, -, -, hsettle, -, rfl⟩ := finalize_eq_ok_iff.1 hfinal
  obtain ⟨-, hcandidates⟩ := spends_of_settle hsettle
  constructor
  · exact refunds_of_settle hsettle
  · intro a ha
    rw [hbalance, dueRefund, if_pos ha]
    rfl
  · intro a ha
    rw [hbalance, dueRefund, if_neg ha]
    rfl
  · exact hdeparts.stake
  · show state.candidates = _
    rw [hcandidates]
    apply List.filter_congr
    intro a _
    simp

/-! ## Runs -/

/-- What happens to the queue: an account makes a request, or a block is finalized. -/
inductive QueueEvent
  | requested (r : RefundRequest)
  | finalized (n : Node) (h : Header) (n' : Node)

namespace QueueEvent

/-- The number of the block, if it is one. -/
def number? : QueueEvent → Option UInt64
  | requested _ => none
  | finalized _ h _ => some h.number

/-- The requests made. -/
def made : QueueEvent → List RefundRequest
  | requested r => [r]
  | finalized .. => []

/-- The requests that are taken out of the queue to be served. -/
def served : QueueEvent → List RefundRequest
  | requested _ => []
  | finalized n h _ => n.state.refunds.filter (·.maturityBlock ≤ h.number)

end QueueEvent

/-- All blocks are below the maturity of the request. -/
def outlasts (events : List QueueEvent) (r : RefundRequest) : Bool :=
  (events.filterMap QueueEvent.number?).all (· < r.maturityBlock)

/-- The queue after some events. -/
def waiting : List RefundRequest → List QueueEvent → List RefundRequest
  | queue, [] => queue
  | queue, .requested r :: events => waiting (queue ++ [r]) events
  | queue, .finalized _ h _ :: events => waiting (queue.filter (h.number < ·.maturityBlock)) events

/-- A run of finalized blocks and new requests. Whatever else happens to the node, such as stakes
    that are registered anew, leaves the queue alone. -/
inductive Withdraws : Node → List QueueEvent → Node → Prop
  | done (n : Node) : Withdraws n [] n
  | finalize {n m n' : Node} {h : Header} {transactions : List Transaction} {uncles : List Header}
      {receipts : List Receipt} {b : Block} {events : List QueueEvent}
      (hfinal : Node.finalize h transactions uncles receipts n = (.ok b, m))
      (hrun : Withdraws m events n') : Withdraws n (.finalized n h m :: events) n'
  | request {n n' : Node} {events : List QueueEvent} (r : RefundRequest)
      (hrun : Withdraws { n with state := n.state.requestRefund r } events n') :
      Withdraws n (.requested r :: events) n'
  | meanwhile {n m n' : Node} {events : List QueueEvent}
      (hqueue : m.state.refunds = n.state.refunds) (hrun : Withdraws m events n') :
      Withdraws n events n'

variable {events : List QueueEvent}

/-- What was in the queue comes before what is put in, and stays as long as the blocks are below
    its maturity. -/
theorem waiting_eq (queue : List RefundRequest) (events : List QueueEvent) :
    waiting queue events = queue.filter (outlasts events) ++ waiting [] events := by
  induction events generalizing queue with
  | nil =>
    have hall : queue.filter (outlasts []) = queue := List.filter_eq_self.2 fun _ _ => rfl
    rw [waiting, waiting, hall, List.append_nil]
  | cons e events ih =>
    cases e with
    | requested r =>
      -- a request is no block that any other could mature with
      have hsame : outlasts (.requested r :: events) = outlasts events := rfl
      rw [waiting, waiting, ih, ih ([] ++ [r]), hsame]
      simp
    | finalized n h n' =>
      have hfilter : queue.filter (outlasts (.finalized n h n' :: events))
          = (queue.filter (h.number < ·.maturityBlock)).filter (outlasts events) := by
        rw [List.filter_filter]
        apply List.filter_congr
        intro r _
        show (decide (h.number < r.maturityBlock) && outlasts events r) = _
        rw [Bool.and_comm]
      rw [waiting, waiting, ih, hfilter, List.filter_nil]

theorem waiting_append (queue : List RefundRequest) (before after : List QueueEvent) :
    waiting queue (before ++ after) = waiting (waiting queue before) after := by
  induction before generalizing queue with
  | nil => rfl
  | cons e before ih =>
    cases e with
    | requested r => exact ih _
    | finalized n h n' => exact ih _

theorem Withdraws.refunds (hrun : Withdraws n events n') :
    n'.state.refunds = waiting n.state.refunds events := by
  induction hrun with
  | done n => rfl
  | finalize hfinal _ ih => rw [ih, (honours_of_finalize hfinal).queue, waiting]
  | request r _ ih =>
    rw [ih, waiting]
    rfl
  | meanwhile hqueue _ ih => rw [ih, hqueue]

/-- No request is lost, and none is served twice. -/
theorem Withdraws.perm (hrun : Withdraws n events n') :
    (n.state.refunds ++ events.flatMap QueueEvent.made).Perm
      (events.flatMap QueueEvent.served ++ n'.state.refunds) := by
  induction hrun with
  | done n => simp
  | @finalize n m n' h _ _ _ _ events hfinal _ ih =>
    -- the block parts the queue into those it serves and those it leaves
    have hsplit : n.state.refunds.Perm
        (n.state.refunds.filter (·.maturityBlock ≤ h.number) ++ m.state.refunds) := by
      have hqueue : m.state.refunds
          = n.state.refunds.filter fun r => !decide (r.maturityBlock ≤ h.number) := by
        rw [(honours_of_finalize hfinal).queue]
        apply List.filter_congr
        intro r _
        rw [← decide_not]
        exact decide_eq_decide.2 UInt64.not_le.symm
      rw [hqueue]
      exact (List.filter_append_perm _ _).symm
    rw [List.flatMap_cons, List.flatMap_cons]
    simp only [QueueEvent.made, QueueEvent.served, List.nil_append, List.append_assoc]
    refine (hsplit.append_right _).trans ?_
    rw [List.append_assoc]
    exact ih.append_left _
  | @request n n' events r _ ih =>
    simpa [QueueEvent.made, QueueEvent.served, State.requestRefund] using ih
  | meanwhile hqueue _ ih => rwa [← hqueue]

theorem Withdraws.honours (hrun : Withdraws n events n') {h : Header} {a b : Node}
    (hblock : .finalized a h b ∈ events) : a.Honours h b := by
  induction hrun with
  | done n => simp at hblock
  | finalize hfinal _ ih =>
    rcases List.mem_cons.1 hblock with heq | hlater
    · obtain ⟨rfl, rfl, rfl⟩ := QueueEvent.finalized.inj heq
      exact honours_of_finalize hfinal
    · exact ih hlater
  | request r _ ih =>
    rcases List.mem_cons.1 hblock with heq | hlater
    · simp at heq
    · exact ih hlater
  | meanwhile _ _ ih => exact ih hblock

/-- Every request waits until a block reaches its maturity, and is served by that block alone. Every
    block pays each account that it serves once, and leaves it without stake and candidacy. The
    return of stakes fails for no account whose log ends by the block, whatever was paid before. -/
theorem honours_each_request :
    (∀ {n n' : Node} {events : List QueueEvent}, Withdraws n events n' →
      n'.state.refunds = n.state.refunds.filter (outlasts events) ++ waiting [] events
      ∧ (∀ before r after, events = before ++ .requested r :: after →
        n'.state.refunds = (waiting n.state.refunds before ++ [r]).filter (outlasts after)
          ++ waiting [] after)
      ∧ (n.state.refunds ++ events.flatMap QueueEvent.made).Perm
        (events.flatMap QueueEvent.served ++ n'.state.refunds)
      ∧ ∀ m h m', .finalized m h m' ∈ events → m.Honours h m')
    ∧ ∀ (config : Config) (number : UInt64) (s : State),
      (∀ r ∈ s.refunds, r.maturityBlock ≤ number →
        ∀ x ∈ (s.stakeLog r.address).toList, x.block ≤ number) →
      (∃ t, refundMatured config number s = (.ok (), t))
      ∧ ∀ coinbase current paid elected,
        payRewards config number coinbase current s = .ok (paid, elected) →
        ∃ t, refundMatured config number paid = (.ok (), t) := by
  constructor
  · intro n n' events hrun
    refine ⟨?_, ?_, hrun.perm, fun m h m' hblock => hrun.honours hblock⟩
    · rw [hrun.refunds, waiting_eq]
    · intro before r after hevents
      rw [hrun.refunds, hevents, waiting_append, waiting, waiting_eq]
  · intro config number s hlogs
    have hreturned : ∃ t, refundMatured config number s = (.ok (), t) := by
      rw [exists_refundMatured_iff]
      intro a ha last hlast
      obtain ⟨r, hr, rfl, hmature⟩ := mem_maturedAccounts_iff.1 ha
      apply hlogs r hr hmature
      rw [SampleLog.toList]
      exact Array.mem_toList_iff.2 (Array.mem_of_back? hlast)
    refine ⟨hreturned, fun coinbase current paid elected hpaid => ?_⟩
    exact (exists_refundMatured_of_payRewards hpaid).2 hreturned

end Node

/-! ## A request before a block -/

/-- A request that is made while others wait, and is mature with the second block. -/
def Lone.late : RefundRequest := ⟨.zero 20, 2⟩

def Lone.withdrawing : Node := { settling with state := settling.state.requestRefund late }

namespace Node

/-- The first block serves the two requests of one account and leaves the later ones in order. -/
theorem honours_each_request_settling :
    ∃ events n', Withdraws Lone.settling events n'
      ∧ n'.state.refunds = [⟨.zero 20, 9⟩, Lone.late]
      ∧ events.flatMap QueueEvent.served = [⟨Lone.signer.address, 0⟩, ⟨Lone.signer.address, 1⟩]
      ∧ n'.state.latestStake Lone.signer.address = 0 ∧ n'.state.candidates = []
      ∧ ∃ t, refundMatured Lone.settling.config 1 Lone.settling.state = (.ok (), t) := by
  obtain ⟨b, n', hfinal, -⟩ := Step.exists_outcome (p := fun _ => true)
    (x := finalize (Lone.next (.zero 20)) [] [] []) (n := Lone.withdrawing) (by decide +kernel)
  have hrun : Withdraws Lone.settling
      [.requested Lone.late, .finalized Lone.withdrawing (Lone.next (.zero 20)) n'] n' :=
    .request Lone.late (.finalize hfinal (.done n'))
  obtain ⟨hqueue, -, -, hblocks⟩ := honours_each_request.1 hrun
  have hhonours := hblocks _ _ _ (List.mem_cons_of_mem _ List.mem_cons_self)
  have hreturned := honours_each_request.2 Lone.settling.config 1 Lone.settling.state
    (by decide +kernel)
  refine ⟨_, n', hrun, hqueue, rfl, ?_, ?_, hreturned.1⟩
  · rw [hhonours.stake]
    decide +kernel
  · rw [hhonours.candidates]
    decide +kernel

end Node

end CommitteeConsensus
