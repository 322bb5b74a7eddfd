import CommitteeConsensus.Node.Batch
import CommitteeConsensus.Proofs.Engine.Verification

/-! # Batches that nobody aborts

    A batch that runs to its end delivers a result for each header. Where a node's answer about a
    header is a function of the header and its ancestors in the batch, the results are those of a
    judge without a state (`verifyRest_eq_outcomes`). Two judges give the same results when they
    agree on every header whose ancestors are accepted (`outcomes_eq_iff`).
-/

namespace CommitteeConsensus.Node

/-! ## Judges -/

/-- The results of a batch under a judge that is given the ancestors of each header. -/
def outcomes (judge : List Header → Header → Except Error Unit) :
    List Header → List Header → List (Except Error Unit)
  | _, [] => []
  | done, h :: rest =>
    match judge done h with
    | .ok () => .ok () :: outcomes judge (done ++ [h]) rest
    | .error e => .error e :: rest.map fun _ => .error .unknownAncestor

variable {judge judge' : List Header → Header → Except Error Unit} {done rest : List Header}
  {h : Header}

theorem outcomes_cons_of_ok (hok : judge done h = .ok ()) :
    outcomes judge done (h :: rest) = .ok () :: outcomes judge (done ++ [h]) rest := by
  rw [outcomes, hok]

theorem outcomes_cons_of_error {e : Error} (herror : judge done h = .error e) :
    outcomes judge done (h :: rest)
      = .error e :: rest.map fun _ => .error .unknownAncestor := by
  rw [outcomes, herror]

theorem head?_outcomes_cons : (outcomes judge done (h :: rest)).head? = some (judge done h) := by
  cases hjudge : judge done h with
  | ok _ => rw [outcomes_cons_of_ok hjudge, List.head?_cons]
  | error e => rw [outcomes_cons_of_error hjudge, List.head?_cons]

/-- All of a batch is accepted when its first header is, and the others after it. -/
theorem outcomes_cons_accepted :
    (∀ r ∈ outcomes judge done (h :: rest), r = .ok ())
      ↔ judge done h = .ok () ∧ ∀ r ∈ outcomes judge (done ++ [h]) rest, r = .ok () := by
  cases hjudge : judge done h with
  | ok _ =>
    rw [outcomes_cons_of_ok hjudge, List.forall_mem_cons]
  | error e =>
    rw [outcomes_cons_of_error hjudge, List.forall_mem_cons]
    simp

/-- The results differ when the judges differ on some header whose ancestors are accepted, and
    then only. -/
theorem outcomes_eq_iff : outcomes judge done rest = outcomes judge' done rest ↔
    ∀ before h after, rest = before ++ h :: after →
      (∀ r ∈ outcomes judge done before, r = .ok ()) →
      judge (done ++ before) h = judge' (done ++ before) h := by
  induction rest generalizing done with
  | nil =>
    constructor
    · intro _ before h after hsplit _
      simp at hsplit
    · intro _
      rfl
  | cons g rest ih =>
    constructor
    · -- equal results begin with equal verdicts, and go on alike after an accepted header
      intro heq before h after hsplit hbefore
      have hhead : judge done g = judge' done g := by
        have hheads := congrArg List.head? heq
        rw [head?_outcomes_cons, head?_outcomes_cons] at hheads
        exact Option.some.inj hheads
      cases before with
      | nil =>
        obtain ⟨rfl, rfl⟩ := List.cons.inj hsplit
        rwa [List.append_nil]
      | cons b before =>
        obtain ⟨rfl, hrest⟩ := List.cons.inj hsplit
        obtain ⟨hfirst, hbefore⟩ := outcomes_cons_accepted.1 hbefore
        rw [outcomes_cons_of_ok hfirst, outcomes_cons_of_ok (hhead ▸ hfirst)] at heq
        have hagree := ih.1 (List.cons.inj heq).2 before h after hrest hbefore
        rwa [List.append_assoc, List.singleton_append] at hagree
    · intro hagree
      have hhead : judge done g = judge' done g := by
        have hfirst := hagree [] g rest rfl (by simp [outcomes])
        rwa [List.append_nil] at hfirst
      cases hjudge : judge done g with
      | error e =>
        -- what follows a refused header is refused by either
        rw [outcomes_cons_of_error hjudge, outcomes_cons_of_error (hhead ▸ hjudge)]
      | ok _ =>
        rw [outcomes_cons_of_ok hjudge, outcomes_cons_of_ok (hhead ▸ hjudge)]
        congr 1
        rw [ih]
        intro before h after hsplit hbefore
        have hrest : g :: rest = (g :: before) ++ h :: after := by rw [hsplit, List.cons_append]
        have hlater := hagree (g :: before) h after hrest
          (outcomes_cons_accepted.2 ⟨hjudge, hbefore⟩)
        rwa [List.append_assoc, List.singleton_append]

/-! ## Runs -/

variable {seals : List Bool} {n : Node}

/-- What follows a refused header is refused without being looked at. -/
theorem verifyRest_failed : verifyRest (fun _ => false) seals done true rest n
    = (rest.map fun _ => .error .unknownAncestor, n) := by
  induction rest generalizing done with
  | nil => rfl
  | cons h rest ih => simp [verifyRest, ih]

theorem verifyRest_cons_of_ok {m : Node}
    (hverify : n.verify done h (seals.getD done.length true) = (.ok (), m)) :
    (verifyRest (fun _ => false) seals done false (h :: rest) n).1
      = .ok () :: (verifyRest (fun _ => false) seals (done ++ [h]) false rest m).1 := by
  rw [verifyRest]
  simp only [Bool.false_eq_true, if_false, hverify]
  rfl

theorem verifyRest_cons_of_error {e : Error} {m : Node}
    (hverify : n.verify done h (seals.getD done.length true) = (.error e, m)) :
    (verifyRest (fun _ => false) seals done false (h :: rest) n).1
      = .error e :: rest.map fun _ => .error .unknownAncestor := by
  rw [verifyRest]
  simp only [Bool.false_eq_true, if_false, hverify]
  rw [show (false || !(Except.error e : Except Error Unit).toBool) = true from rfl,
    verifyRest_failed]

/-- A batch goes on from what an accepted header leaves behind. -/
theorem verifyRest_cons_eq_ok {aborted : Nat → Bool} {results : List (Except Error Unit)}
    (hok : (verifyRest aborted seals done false (h :: rest) n).1 = .ok () :: results) :
    ∃ m, n.verify done h (seals.getD done.length true) = (.ok (), m)
      ∧ (verifyRest aborted seals (done ++ [h]) false rest m).1 = results
      ∧ ∀ rest', (verifyRest aborted seals done false (h :: rest') n).2
        = (verifyRest aborted seals (done ++ [h]) false rest' m).2 := by
  unfold verifyRest at hok
  dsimp only at hok
  split at hok
  · simp at hok
  · next hbefore =>
    rw [if_neg Bool.false_ne_true] at hok
    rcases hverify : n.verify done h (seals.getD done.length true) with ⟨result, m⟩
    rw [hverify] at hok
    dsimp only at hok
    split at hok
    · simp at hok
    · next hafter =>
      obtain ⟨hresult, hrest⟩ := List.cons.inj hok
      subst hresult
      refine ⟨m, rfl, hrest, ?_⟩
      intro rest'
      rw [verifyRest]
      simp only [hbefore, hafter, if_false, Bool.false_eq_true, hverify]
      rfl

/-- A node delivers what a judge says when, along the batch, it answers as the judge does and an
    accepted header leaves it in a state from which it does so again. -/
theorem verifyRest_eq_outcomes {Invariant : List Header → Node → Prop} {batch : List Header}
    (hstep : ∀ done h after n, batch = done ++ h :: after → Invariant done n →
      ∃ m, n.verify done h (seals.getD done.length true) = (judge done h, m)
        ∧ (judge done h = .ok () → Invariant (done ++ [h]) m))
    (hbatch : batch = done ++ rest) (hinvariant : Invariant done n) :
    (verifyRest (fun _ => false) seals done false rest n).1 = outcomes judge done rest := by
  induction rest generalizing done n with
  | nil => rfl
  | cons h rest ih =>
    obtain ⟨m, hverify, hnext⟩ := hstep done h rest n hbatch hinvariant
    cases hjudge : judge done h with
    | error e =>
      rw [hjudge] at hverify
      rw [outcomes_cons_of_error hjudge, verifyRest_cons_of_error hverify]
    | ok _ =>
      rw [hjudge] at hverify
      have hsplit : batch = (done ++ [h]) ++ rest := by
        rw [hbatch, List.append_assoc, List.singleton_append]
      rw [outcomes_cons_of_ok hjudge, verifyRest_cons_of_ok hverify, ih hsplit (hnext hjudge)]

end CommitteeConsensus.Node
