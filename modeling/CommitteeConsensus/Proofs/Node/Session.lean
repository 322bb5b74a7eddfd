import Mathlib.Logic.Relation
import CommitteeConsensus.Proofs.Node.Delivery
import CommitteeConsensus.Proofs.Node.Import

/-! # Batches in progress

    The task that verifies a batch, the abort handle and the receiver of the results work side by
    side. A `Session` holds what they share, the watched signal and the queue of results, and each
    of them takes its steps when it likes.

    Whatever the order of the steps, the results sent are those that `verifyHeaders` delivers
    under some signal (`Session.Follows`): a prefix of what an unaborted batch delivers. There is
    room in the queue for every result, so the task never has to wait for the receiver.
-/

namespace CommitteeConsensus.Node

/-! ## Sessions -/

/-- What the verifying task is about to do. -/
inductive Phase
  /-- It looks for the signal before it takes up the next header. -/
  | seeking
  /-- It has a result and looks for the signal again. -/
  | holding (result : Except Error Unit)
  /-- It has seen no signal and sends the result. -/
  | sending (result : Except Error Unit)
  | returned

structure Session where
  node : Node
  done : List Header := []
  /-- The headers from the one on that is in hand or comes next. -/
  rest : List Header
  failed : Bool := false
  phase : Phase := .seeking
  /-- What the task sees when it looks for the signal. -/
  signal : Bool := false
  /-- Whether the signal has ever been given. -/
  signalled : Bool := false
  /-- Whether the caller holds the abort handle. -/
  handle : Bool := true
  capacity : Nat
  queue : List (Except Error Unit) := []
  received : List (Except Error Unit) := []
  /-- Whether the caller holds the receiver. -/
  listening : Bool := true

namespace Session

/-- A batch that has just been handed over. -/
def opened (headers : List Header) (n : Node) : Session :=
  { node := n, rest := headers, capacity := max headers.length 1 }

/-- All results sent so far. -/
def sent (s : Session) : List (Except Error Unit) := s.received ++ s.queue

/-- The steps of the verifying task. -/
inductive Works (seals : List Bool) : Session → Session → Prop
  | finish {s} (hphase : s.phase = .seeking) (hrest : s.rest = []) :
      Works seals s { s with phase := .returned }
  | stop {s h rest} (hphase : s.phase = .seeking) (hrest : s.rest = h :: rest)
      (hsignal : s.signal = true) : Works seals s { s with phase := .returned }
  | judge {s h rest} (hphase : s.phase = .seeking) (hrest : s.rest = h :: rest)
      (hsignal : s.signal = false) :
      Works seals s { s with
        phase := .holding (adjudge seals s.done s.failed h s.node).1
        node := (adjudge seals s.done s.failed h s.node).2 }
  | discard {s r} (hphase : s.phase = .holding r) (hsignal : s.signal = true) :
      Works seals s { s with phase := .returned }
  | commit {s r} (hphase : s.phase = .holding r) (hsignal : s.signal = false) :
      Works seals s { s with phase := .sending r }
  | send {s r h rest} (hphase : s.phase = .sending r) (hrest : s.rest = h :: rest)
      (hlistening : s.listening = true) (hroom : s.queue.length < s.capacity) :
      Works seals s { s with
        phase := .seeking, done := s.done ++ [h], rest
        failed := s.failed || !r.toBool
        queue := s.queue ++ [r] }
  /-- With a full queue it waits, and looks for the signal again. -/
  | wait {s r} (hphase : s.phase = .sending r) (hlistening : s.listening = true)
      (hfull : s.capacity ≤ s.queue.length) : Works seals s { s with phase := .holding r }
  | unheard {s r} (hphase : s.phase = .sending r) (hlistening : s.listening = false) :
      Works seals s { s with phase := .returned }

/-- The steps of the caller. A handle that is dropped leaves the signal as it is. -/
inductive Calls : Session → Session → Prop
  | raise {s} (value : Bool) (hhandle : s.handle = true) :
      Calls s { s with signal := value, signalled := s.signalled || value }
  | drop {s} : Calls s { s with handle := false }
  | receive {s r queue} (hlistening : s.listening = true) (hqueue : s.queue = r :: queue) :
      Calls s { s with received := s.received ++ [r], queue }
  | close {s} : Calls s { s with listening := false }

/-- What a session comes to in any order of such steps. -/
def Reachable (seals : List Bool) (headers : List Header) (n : Node) : Session → Prop :=
  Relation.ReflTransGen (fun s s' => Works seals s s' ∨ Calls s s') (opened headers n)

/-! ## What is still to come -/

/-- What is delivered from a result in hand on, and the node afterwards. -/
def remainingFrom (seals : List Bool) (aborted : Nat → Bool) (s : Session)
    (r : Except Error Unit) : List (Except Error Unit) × Node :=
  match s.rest with
  | [] => ([], s.node)
  | h :: rest =>
    if aborted (2 * s.done.length + 1) then ([], s.node)
    else
      let later := verifyRest aborted seals (s.done ++ [h]) (s.failed || !r.toBool) rest s.node
      (r :: later.1, later.2)

/-- The results that are still to be delivered, and the node afterwards. -/
def remaining (seals : List Bool) (aborted : Nat → Bool) (s : Session) :
    List (Except Error Unit) × Node :=
  match s.phase with
  | .seeking => verifyRest aborted seals s.done s.failed s.rest s.node
  | .holding r | .sending r => s.remainingFrom seals aborted r
  | .returned => ([], s.node)

/-- How often the task has looked for the signal until it saw none. -/
def looks (s : Session) : Nat :=
  match s.phase with
  | .seeking => 2 * s.done.length
  | _ => 2 * s.done.length + 1

/-- A session is on the course of the batch. -/
structure Follows (seals : List Bool) (headers : List Header) (n : Node) (s : Session) :
    Prop where
  split : headers = s.done ++ s.rest
  /-- One result has been sent for each header that is done. -/
  sent : s.sent.length = s.done.length
  failed : s.failed = s.sent.any (!·.toBool)
  capacity : s.capacity = max headers.length 1
  /-- The header of a result is still in hand. -/
  pending : ∀ r, s.phase = .holding r ∨ s.phase = .sending r → s.rest ≠ []
  signalled : s.signal = true → s.signalled = true
  /-- With what is still to come the batch is delivered, whatever the signal from now on. -/
  course : s.phase ≠ .returned → ∀ aborted, (∀ k < s.looks, aborted k = false) →
    verifyHeaders aborted seals headers n
      = (s.sent ++ (s.remaining seals aborted).1, (s.remaining seals aborted).2)
  /-- When the task has returned, the batch was delivered under some signal. -/
  ended : s.phase = .returned →
    ∃ aborted, verifyHeaders aborted seals headers n = (s.sent, s.node)
  cause : s.phase = .returned → s.rest = [] ∨ s.signalled = true ∨ s.listening = false

theorem follows_opened (seals : List Bool) (headers : List Header) (n : Node) :
    Follows seals headers n (opened headers n) where
  split := rfl
  sent := rfl
  failed := rfl
  capacity := rfl
  pending r hphase := by simp [opened] at hphase
  signalled h := h
  course _ aborted _ := by simp [remaining, opened, Session.sent, verifyHeaders]
  ended hphase := by simp [opened] at hphase
  cause hphase := by simp [opened] at hphase

/-! ## Steps keep the course -/

variable {seals : List Bool} {headers : List Header} {n : Node} {s s' : Session}

/-- A task that returns on a signal, or unheard, has delivered the batch under a signal that comes
    at this very moment. -/
theorem Follows.returned (hs : Follows seals headers n s) (hphase : s.phase ≠ .returned)
    {look : Nat} (hlook : s.looks ≤ look)
    (hremaining : s.remaining seals (fun k => k = look) = ([], s.node))
    (hcause : s.rest = [] ∨ s.signalled = true ∨ s.listening = false) :
    Follows seals headers n { s with phase := .returned } where
  __ := hs
  pending r hphase := by simp at hphase
  course hrunning := absurd rfl hrunning
  ended _ := by
    refine ⟨fun k => k = look, ?_⟩
    -- no look up to now was this one, so the batch has got as far under this signal
    rw [hs.course hphase _ fun k hk => decide_eq_false (by omega), hremaining]
    simp [Session.sent]
  cause _ := hcause

/-- It is the same to hold a result and to send it. -/
theorem Follows.inHand (hs : Follows seals headers n s) {r : Except Error Unit} {phase : Phase}
    (hold : s.phase = .holding r ∨ s.phase = .sending r)
    (hnew : phase = .holding r ∨ phase = .sending r) :
    Follows seals headers n { s with phase } where
  __ := hs
  pending _ _ := hs.pending r hold
  course _ aborted hsilent := by
    -- between the two phases the task has not looked for the signal again
    have hlooks : ∀ k < s.looks, aborted k = false := by
      intro k hk
      apply hsilent
      rcases hold with hold | hold <;> rcases hnew with rfl | rfl <;> simpa [looks, hold] using hk
    have hremaining : remaining seals aborted { s with phase } = s.remaining seals aborted := by
      rcases hold with hold | hold <;> rcases hnew with rfl | rfl <;>
        simp [remaining, remainingFrom, hold]
    rw [hs.course (by rcases hold with hold | hold <;> simp [hold]) aborted hlooks, hremaining]
    rfl
  ended hreturned := by rcases hnew with rfl | rfl <;> simp at hreturned
  cause hreturned := by rcases hnew with rfl | rfl <;> simp at hreturned

theorem Follows.judge (hs : Follows seals headers n s) {h : Header} {rest : List Header}
    (hphase : s.phase = .seeking) (hrest : s.rest = h :: rest) :
    Follows seals headers n { s with
      phase := .holding (adjudge seals s.done s.failed h s.node).1
      node := (adjudge seals s.done s.failed h s.node).2 } where
  __ := hs
  pending _ _ := by simp [hrest]
  course _ aborted hsilent := by
    -- one look more than before was silent, the one that let the header be taken up
    have hlooks : ∀ k < 2 * s.done.length + 1, aborted k = false := hsilent
    have hcourse := hs.course (by simp [hphase]) aborted <| by
      intro k hk
      simp only [looks, hphase] at hk
      exact hlooks k (by omega)
    rw [hcourse]
    simp [remaining, remainingFrom, hphase, hrest, verifyRest_cons, hlooks, Session.sent]
  ended hreturned := by simp at hreturned
  cause hreturned := by simp at hreturned

theorem Follows.send (hs : Follows seals headers n s) {r : Except Error Unit} {h : Header}
    {rest : List Header} (hphase : s.phase = .sending r) (hrest : s.rest = h :: rest) :
    Follows seals headers n { s with
      phase := .seeking, done := s.done ++ [h], rest
      failed := s.failed || !r.toBool
      queue := s.queue ++ [r] } where
  split := by simpa [hrest] using hs.split
  sent := by simpa [Session.sent, ← Nat.add_assoc] using hs.sent
  failed := by
    rw [hs.failed]
    simp [Session.sent, Bool.or_assoc]
  capacity := hs.capacity
  pending _ hphase := by simp at hphase
  signalled := hs.signalled
  course _ aborted hsilent := by
    -- each header that is done has taken two silent looks
    have hlooks : ∀ k < 2 * s.done.length + 2, aborted k = false := by
      simpa [looks, Nat.mul_add] using hsilent
    have hcourse := hs.course (by simp [hphase]) aborted <| by
      intro k hk
      simp only [looks, hphase] at hk
      exact hlooks k (by omega)
    rw [hcourse]
    simp [remaining, remainingFrom, hphase, hrest, hlooks, Session.sent]
  ended hreturned := by simp at hreturned
  cause hreturned := by simp at hreturned

/-- A step of the task keeps the session on its course. -/
theorem Follows.works (hs : Follows seals headers n s) (hstep : Works seals s s') :
    Follows seals headers n s' := by
  cases hstep with
  | finish hphase hrest =>
    refine hs.returned (by simp [hphase]) (Nat.le_refl _) ?_ (.inl hrest)
    simp [remaining, hphase, hrest, verifyRest]
  | stop hphase hrest hsignal =>
    refine hs.returned (by simp [hphase]) (Nat.le_refl _) ?_ (.inr (.inl (hs.signalled hsignal)))
    simp [remaining, looks, hphase, hrest, verifyRest_cons]
  | judge hphase hrest _ => exact hs.judge hphase hrest
  | @discard r hphase hsignal =>
    -- the result in hand belongs to a header that is not done yet
    obtain ⟨h, rest, hrest⟩ := List.exists_cons_of_ne_nil (hs.pending r (.inl hphase))
    refine hs.returned (by simp [hphase]) (Nat.le_refl _) ?_ (.inr (.inl (hs.signalled hsignal)))
    simp [remaining, remainingFrom, looks, hphase, hrest]
  | commit hphase _ => exact hs.inHand (.inl hphase) (.inr rfl)
  | send hphase hrest _ _ => exact hs.send hphase hrest
  | wait hphase _ _ => exact hs.inHand (.inr hphase) (.inl rfl)
  | @unheard r hphase hlistening =>
    obtain ⟨h, rest, hrest⟩ := List.exists_cons_of_ne_nil (hs.pending r (.inr hphase))
    refine hs.returned (by simp [hphase]) (Nat.le_refl _) ?_ (.inr (.inr hlistening))
    simp [remaining, remainingFrom, looks, hphase, hrest]

/-- A step of the caller changes nothing that the task goes by but the signal. -/
theorem Follows.calls (hs : Follows seals headers n s) (hstep : Calls s s') :
    Follows seals headers n s' := by
  cases hstep with
  | raise value _ =>
    -- the signal may be taken back, and what counts then is that it was given
    have hcause : s.phase = .returned →
        s.rest = [] ∨ (s.signalled || value) = true ∨ s.listening = false := by
      intro hreturned
      refine (hs.cause hreturned).imp_right (Or.imp_left ?_)
      intro hsignalled
      rw [hsignalled, Bool.true_or]
    exact { hs with
      signalled := fun hsignal => by simp [show value = true from hsignal]
      cause := hcause }
  | drop => exact { hs with }
  | @receive r queue _ hqueue =>
    have hsent : Session.sent { s with received := s.received ++ [r], queue } = s.sent := by
      simp [Session.sent, hqueue]
    exact { hs with
      sent := hsent ▸ hs.sent
      failed := hsent ▸ hs.failed
      course := hsent ▸ hs.course
      ended := hsent ▸ hs.ended }
  | close => exact { hs with cause := fun _ => .inr (.inr rfl) }

theorem follows_of_reachable (hs : Reachable seals headers n s) : Follows seals headers n s := by
  induction hs with
  | refl => exact follows_opened seals headers n
  | tail _ hstep ih =>
    rcases hstep with hworks | hcalls
    · exact ih.works hworks
    · exact ih.calls hcalls

/-! ## What the receiver gets -/

/-- What has been sent is the beginning of what an unaborted batch delivers. -/
theorem Follows.sent_prefix (hs : Follows seals headers n s) :
    s.sent <+: (verifyHeaders (fun _ => false) seals headers n).1 := by
  by_cases hphase : s.phase = .returned
  · obtain ⟨aborted, hdelivered⟩ := hs.ended hphase
    have hprefix : (verifyHeaders aborted seals headers n).1
        <+: (verifyHeaders (fun _ => false) seals headers n).1 := verifyRest_prefix
    rwa [hdelivered] at hprefix
  · rw [hs.course hphase (fun _ => false) fun _ _ => rfl]
    exact List.prefix_append _ _

/-- A task that has returned without a signal, with somebody to hear it, has sent everything. -/
theorem Follows.sent_eq (hs : Follows seals headers n s) (hphase : s.phase = .returned)
    (hsignal : s.signalled = false) (hlistening : s.listening = true) :
    s.sent = (verifyHeaders (fun _ => false) seals headers n).1 := by
  have hrest : s.rest = [] := by
    rcases hs.cause hphase with hrest | hsignalled | hclosed
    · exact hrest
    · simp [hsignal] at hsignalled
    · simp [hlistening] at hclosed
  apply hs.sent_prefix.eq_of_length_le
  rw [hs.sent, verifyHeaders, length_verifyRest, hs.split, hrest, List.append_nil]

/-- There is room for every result. -/
theorem Follows.room (hs : Follows seals headers n s) {r : Except Error Unit}
    (hphase : s.phase = .sending r) : s.queue.length < s.capacity := by
  obtain ⟨h, rest, hrest⟩ := List.exists_cons_of_ne_nil (hs.pending r (.inr hphase))
  have hsplit := congrArg List.length hs.split
  have hsent := hs.sent
  rw [hs.capacity]
  simp only [Session.sent, List.length_append, hrest, List.length_cons] at hsplit hsent
  omega

/-- How many steps the task takes at most. -/
def work (s : Session) : Nat :=
  match s.phase with
  | .seeking => 3 * s.rest.length + 1
  | .holding _ => 3 * s.rest.length
  | .sending _ => 3 * s.rest.length - 1
  | .returned => 0

/-- The task takes a step, and comes nearer to its end with each one. -/
theorem Follows.progress (hs : Follows seals headers n s) :
    (s.phase ≠ .returned → ∃ s', Works seals s s')
      ∧ ∀ s', Works seals s s' → s'.work < s.work := by
  constructor
  · intro hrunning
    cases hphase : s.phase with
    | returned => exact absurd hphase hrunning
    | seeking =>
      cases hrest : s.rest with
      | nil => exact ⟨_, .finish hphase hrest⟩
      | cons h rest =>
        cases hsignal : s.signal with
        | false => exact ⟨_, .judge hphase hrest hsignal⟩
        | true => exact ⟨_, .stop hphase hrest hsignal⟩
    | holding r =>
      cases hsignal : s.signal with
      | false => exact ⟨_, .commit hphase hsignal⟩
      | true => exact ⟨_, .discard hphase hsignal⟩
    | sending r =>
      obtain ⟨h, rest, hrest⟩ := List.exists_cons_of_ne_nil (hs.pending r (.inr hphase))
      cases hlistening : s.listening with
      | true => exact ⟨_, .send hphase hrest hlistening (hs.room hphase)⟩
      | false => exact ⟨_, .unheard hphase hlistening⟩
  · intro s' hstep
    have hlength : ∀ r, s.phase = .holding r ∨ s.phase = .sending r → 0 < s.rest.length :=
      fun r hphase => List.length_pos_iff.2 (hs.pending r hphase)
    cases hstep with
    | finish hphase _ => simp [work, hphase]
    | stop hphase _ _ => simp [work, hphase]
    | judge hphase _ _ => simp [work, hphase]
    | @discard r hphase _ =>
      have hpositive := hlength r (.inl hphase)
      simp only [work, hphase]
      omega
    | @commit r hphase _ =>
      have hpositive := hlength r (.inl hphase)
      simp only [work, hphase]
      omega
    | send hphase hrest _ _ =>
      simp only [work, hphase, hrest, List.length_cons]
      omega
    | wait hphase _ hfull => exact absurd (hs.room hphase) (Nat.not_lt.2 hfull)
    | @unheard r hphase _ =>
      have hpositive := hlength r (.inr hphase)
      simp only [work, hphase]
      omega

end Session

/-! ## What a batch delivers -/

open Session

/-- How the deliveries of a batch are related to `results`, those of a batch that nobody
    aborts. -/
structure Delivery (seals : List Bool) (headers : List Header) (n : Node)
    (results : List (Except Error Unit)) : Prop where
  complete : results.length = headers.length
  /-- A result is the verdict of the node as it is after the headers before, or is inherited. -/
  inOrder : ∀ before h after, headers = before ++ h :: after →
    results[before.length]? = some
      (if (results.take before.length).all (·.toBool) then
        ((verifyHeaders (fun _ => false) seals before n).2.verify before h
          (seals.getD before.length true)).1
      else .error .unknownAncestor)
  inherited : ∀ (k : Nat) e, results[k]? = some (.error e) →
    ∀ j, k < j → j < headers.length → results[j]? = some (.error .unknownAncestor)
  /-- From a refused header on, the node stays as it is, and another one in its place would not
      make a difference. -/
  unvisited : ∀ (k : Nat) e, results[k]? = some (.error e) → ∀ aborted,
    (verifyHeaders aborted seals headers n).2
        = (verifyHeaders aborted seals (headers.take (k + 1)) n).2
      ∧ ∀ m m', verifyRest aborted seals (headers.take (k + 1)) true (headers.drop (k + 1)) m
        = ((verifyRest aborted seals (headers.take (k + 1)) true (headers.drop (k + 1)) m').1, m)
  /-- The first results come from the first headers and flags. -/
  causal : ∀ before rest rest' seals', headers = before ++ rest →
    (∀ j < before.length, seals'.getD j true = seals.getD j true) →
    (verifyHeaders (fun _ => false) seals' (before ++ rest') n).1.take before.length
      = results.take before.length
  /-- Flags that are missing could as well be there and set. -/
  flags : ∀ count, (verifyHeaders (fun _ => false) (seals ++ List.replicate count true) headers n).1
    = results
  aborted : ∀ aborted, (verifyHeaders aborted seals headers n).1 <+: results
  /-- In whatever order the task and the caller take their steps, what is sent is a prefix, and
      under some signal it is what `verifyHeaders` delivers. -/
  concurrent : ∀ s, Session.Reachable seals headers n s →
    s.received <+: results ∧ s.sent <+: results
      ∧ (s.phase = .returned → ∃ aborted, verifyHeaders aborted seals headers n = (s.sent, s.node))
      ∧ (s.phase = .returned → s.signalled = false → s.listening = true → s.sent = results)
  /-- The task never waits for the receiver, comes to an end, and leaves the node alone once it
      has sent a refusal. -/
  progress : ∀ s, Session.Reachable seals headers n s →
    (∀ r, s.phase = .sending r → s.queue.length < s.capacity)
      ∧ (s.phase ≠ .returned → ∃ s', Works seals s s')
      ∧ ∀ s', Works seals s s' → s'.work < s.work
        ∧ ((∃ r ∈ s.sent, r ≠ .ok ()) → s'.node = s.node)

variable {seals : List Bool} {headers : List Header} {n : Node}

theorem toBool_eq_false_iff {r : Except Error Unit} : r.toBool = false ↔ r ≠ .ok () := by
  cases r with
  | ok _ => simp [Except.toBool]
  | error e => simp [Except.toBool]

/-- After a refusal has been sent, a step of the task does not touch the node. -/
theorem Session.Follows.node_eq {s s' : Session} (hs : Follows seals headers n s)
    (hstep : Works seals s s') (hrefused : ∃ r ∈ s.sent, r ≠ .ok ()) : s'.node = s.node := by
  have hfailed : s.failed = true := by
    obtain ⟨r, hr, hne⟩ := hrefused
    rw [hs.failed, List.any_eq_true]
    exact ⟨r, hr, by simp [toBool_eq_false_iff.2 hne]⟩
  cases hstep with
  | judge _ _ _ => simp [adjudge, hfailed]
  | _ => rfl

/-- The result of a header, after the results of those before. -/
theorem getElem?_verifyHeaders (before : List Header) (h : Header) (after : List Header) :
    (verifyHeaders (fun _ => false) seals (before ++ h :: after) n).1[before.length]? = some
      (if (verifyHeaders (fun _ => false) seals before n).1.all (·.toBool) then
        ((verifyHeaders (fun _ => false) seals before n).2.verify before h
          (seals.getD before.length true)).1
      else .error .unknownAncestor) := by
  have hlength : (verifyRest (fun _ => false) seals [] false before n).1.length = before.length :=
    length_verifyRest
  have hfailed : (verifyRest (fun _ => false) seals [] false before n).1.any (!·.toBool)
      = !(verifyRest (fun _ => false) seals [] false before n).1.all (·.toBool) :=
    List.not_all_eq_any_not.symm
  rw [verifyHeaders, verifyHeaders, verifyRest_append_unaborted]
  dsimp only
  rw [List.getElem?_append_right (Nat.le_of_eq hlength), hlength, Nat.sub_self,
    verifyRest_cons_unaborted, hfailed]
  cases hall : (verifyRest (fun _ => false) seals [] false before n).1.all (·.toBool) with
  | true => simp [adjudge]
  | false => simp [adjudge]

theorem take_verifyHeaders (before rest : List Header) :
    (verifyHeaders (fun _ => false) seals (before ++ rest) n).1.take before.length
      = (verifyHeaders (fun _ => false) seals before n).1 := by
  rw [verifyHeaders, verifyHeaders, verifyRest_append_unaborted]
  exact List.take_left' length_verifyRest

theorem delivery_verifyHeaders (seals : List Bool) (headers : List Header) (n : Node) :
    Delivery seals headers n (verifyHeaders (fun _ => false) seals headers n).1 := by
  have hlength : (verifyHeaders (fun _ => false) seals headers n).1.length = headers.length :=
    length_verifyRest
  have horder : ∀ before h after, headers = before ++ h :: after →
      (verifyHeaders (fun _ => false) seals headers n).1[before.length]? = some
        (if ((verifyHeaders (fun _ => false) seals headers n).1.take before.length).all (·.toBool)
        then ((verifyHeaders (fun _ => false) seals before n).2.verify before h
          (seals.getD before.length true)).1
        else .error .unknownAncestor) := by
    intro before h after hheaders
    rw [hheaders, getElem?_verifyHeaders, take_verifyHeaders]
  constructor
  · exact hlength
  · exact horder
  · intro k e he j hkj hj
    -- the refusal is among the results before position `j`
    have hsplit : headers = headers.take j ++ headers[j] :: headers.drop (j + 1) := by simp
    have htake : (headers.take j).length = j := List.length_take_of_le (Nat.le_of_lt hj)
    have hj := horder _ _ _ hsplit
    rw [htake] at hj
    rw [hj, if_neg]
    intro hall
    have hmem : Except.error e
        ∈ (verifyHeaders (fun _ => false) seals headers n).1.take j := by
      apply List.mem_of_getElem? (i := k)
      rw [List.getElem?_take_of_lt hkj, he]
    simpa [Except.toBool] using List.all_eq_true.1 hall _ hmem
  · intro k e he aborted
    refine ⟨?_, fun m m' => verifyRest_of_failed m' m⟩
    have hk : k < headers.length := by
      rw [← hlength]
      exact (List.getElem?_eq_some_iff.1 he).1
    have herror : ∃ r ∈ (verifyHeaders (fun _ => false) seals (headers.take (k + 1)) n).1,
        r ≠ .ok () := by
      refine ⟨.error e, ?_, by simp⟩
      rw [← take_verifyHeaders _ (headers.drop (k + 1)), List.take_append_drop,
        List.length_take_of_le hk]
      apply List.mem_of_getElem? (i := k)
      rw [List.getElem?_take_of_lt (Nat.lt_succ_self k), he]
    conv_lhs => rw [← List.take_append_drop (k + 1) headers]
    exact verifyHeaders_snd_of_error herror
  · intro before rest rest' seals' hheaders hseals
    have hfirst : verifyHeaders (fun _ => false) seals' before n
        = verifyHeaders (fun _ => false) seals before n :=
      verifyRest_congr fun j _ hj => hseals j (by simpa using hj)
    rw [take_verifyHeaders, hheaders, take_verifyHeaders, hfirst]
  · intro count
    rw [verifyHeaders, verifyRest_congr]
    · rfl
    · intro j _ _
      simp only [List.getD_eq_getElem?_getD, List.getElem?_append, List.getElem?_replicate]
      by_cases hj : j < seals.length
      · rw [if_pos hj]
      · rw [if_neg hj, List.getElem?_eq_none (Nat.not_lt.1 hj)]
        split
        · rfl
        · rfl
  · intro aborted
    exact verifyRest_prefix
  · intro s hs
    have hfollows := follows_of_reachable hs
    have hreceived : s.received <+: s.sent := List.prefix_append _ _
    exact ⟨hreceived.trans hfollows.sent_prefix, hfollows.sent_prefix, hfollows.ended,
      hfollows.sent_eq⟩
  · intro s hs
    have hfollows := follows_of_reachable hs
    obtain ⟨hnext, hwork⟩ := hfollows.progress
    exact ⟨fun r hphase => hfollows.room hphase, hnext,
      fun s' hstep => ⟨hwork s' hstep, hfollows.node_eq hstep⟩⟩

/-- The second header of three is refused, and so the third one is, which would be accepted after
    the first. -/
theorem delivery_verifyHeaders_refused :
    (verifyHeaders (fun _ => false) [false]
        [Fork.epochEnd Lone.signer.address, {}, Fork.next] rooted).1[1]?
      = some (.error .unknownBlock)
    ∧ (verifyHeaders (fun _ => false) [false]
        [Fork.epochEnd Lone.signer.address, {}, Fork.next] rooted).1[2]?
      = some (.error .unknownAncestor) := by
  have hrefused : (verifyHeaders (fun _ => false) [false]
      [Fork.epochEnd Lone.signer.address, {}, Fork.next] rooted).1[1]?
      = some (.error .unknownBlock) := by decide +kernel
  refine ⟨hrefused, ?_⟩
  exact (delivery_verifyHeaders [false] [Fork.epochEnd Lone.signer.address, {}, Fork.next]
    rooted).inherited 1 .unknownBlock hrefused 2 (by decide) (by decide)

end CommitteeConsensus.Node
