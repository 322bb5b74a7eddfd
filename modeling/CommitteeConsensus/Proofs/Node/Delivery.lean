import Mathlib.Data.List.TakeDrop
import CommitteeConsensus.Proofs.Node.Batch

/-! # Parts of a batch

    A batch is verified part by part (`verifyRest_append`). So a batch that is aborted delivers
    the first results of one that is not (`verifyRest_prefix`), a result depends on nothing that
    comes after its header, and from a refused header on the node is not touched any more
    (`verifyHeaders_snd_of_error`).
-/

namespace CommitteeConsensus.Node

variable {aborted : Nat → Bool} {seals seals' : List Bool} {done before rest headers : List Header}
  {failed : Bool} {h : Header} {n m : Node}

/-! ## One header -/

/-- The result for the next header of a batch, and the node afterwards. -/
def adjudge (seals : List Bool) (done : List Header) (failed : Bool) (h : Header) (n : Node) :
    Except Error Unit × Node :=
  if failed then (.error .unknownAncestor, n) else n.verify done h (seals.getD done.length true)

theorem verifyRest_cons : verifyRest aborted seals done failed (h :: rest) n =
    if aborted (2 * done.length) then ([], n)
    else if aborted (2 * done.length + 1) then ([], (adjudge seals done failed h n).2)
    else
      let r := (adjudge seals done failed h n).1
      let later := verifyRest aborted seals (done ++ [h]) (failed || !r.toBool) rest
        (adjudge seals done failed h n).2
      (r :: later.1, later.2) := rfl

/-- An unaborted batch goes from header to header. -/
theorem verifyRest_cons_unaborted : verifyRest (fun _ => false) seals done failed (h :: rest) n =
    let r := (adjudge seals done failed h n).1
    let later := verifyRest (fun _ => false) seals (done ++ [h]) (failed || !r.toBool) rest
      (adjudge seals done failed h n).2
    (r :: later.1, later.2) := rfl

/-! ## Parts -/

theorem length_verifyRest :
    (verifyRest (fun _ => false) seals done failed rest n).1.length = rest.length := by
  induction rest generalizing done failed n with
  | nil => rfl
  | cons h rest ih =>
    rw [verifyRest_cons_unaborted]
    simp [ih]

/-- A signal cuts a batch short and changes nothing before. -/
theorem verifyRest_prefix : (verifyRest aborted seals done failed rest n).1
    <+: (verifyRest (fun _ => false) seals done failed rest n).1 := by
  induction rest generalizing done failed n with
  | nil => exact List.nil_prefix
  | cons h rest ih =>
    rw [verifyRest_cons]
    split
    · exact List.nil_prefix
    · split
      · exact List.nil_prefix
      · rw [verifyRest_cons_unaborted]
        exact List.prefix_cons_inj _ |>.2 ih

/-- The rest of a batch is verified after a first part that was delivered in full. -/
theorem verifyRest_append : verifyRest aborted seals done failed (before ++ rest) n =
    let first := verifyRest aborted seals done failed before n
    let later := verifyRest aborted seals (done ++ before)
      (failed || first.1.any (!·.toBool)) rest first.2
    if first.1.length < before.length then first else (first.1 ++ later.1, later.2) := by
  induction before generalizing done failed n with
  | nil => simp [verifyRest]
  | cons h before ih =>
    rw [List.cons_append, verifyRest_cons, verifyRest_cons]
    split
    · simp
    · split
      · simp
      · dsimp only
        rw [ih]
        simp only [List.length_cons, Nat.add_lt_add_iff_right, List.any_cons, Bool.or_assoc,
          List.append_assoc, List.singleton_append]
        split
        · rfl
        · rfl

theorem verifyRest_append_unaborted :
    verifyRest (fun _ => false) seals done failed (before ++ rest) n =
    let first := verifyRest (fun _ => false) seals done failed before n
    let later := verifyRest (fun _ => false) seals (done ++ before)
      (failed || first.1.any (!·.toBool)) rest first.2
    (first.1 ++ later.1, later.2) := by
  rw [verifyRest_append]
  simp [length_verifyRest]

/-- Only the flags of the headers themselves count. -/
theorem verifyRest_congr (hseals : ∀ j, done.length ≤ j → j < done.length + rest.length →
      seals'.getD j true = seals.getD j true) :
    verifyRest aborted seals' done failed rest n = verifyRest aborted seals done failed rest n := by
  induction rest generalizing done failed n with
  | nil => rfl
  | cons h rest ih =>
    have hnext : adjudge seals' done failed h n = adjudge seals done failed h n := by
      rw [adjudge, adjudge, hseals done.length (Nat.le_refl _) (by simp)]
    have hlater : ∀ failed n, verifyRest aborted seals' (done ++ [h]) failed rest n
        = verifyRest aborted seals (done ++ [h]) failed rest n := by
      intro failed n
      apply ih
      intro j hle hlt
      simp only [List.length_append, List.length_cons, List.length_nil] at hle hlt
      exact hseals j (by omega) (by rw [List.length_cons]; omega)
    rw [verifyRest_cons, verifyRest_cons, hnext]
    simp only [hlater]

/-! ## After a refusal -/

/-- After a refusal neither the results nor the node come from the node. -/
theorem verifyRest_of_failed (n m : Node) : verifyRest aborted seals done true rest m
    = ((verifyRest aborted seals done true rest n).1, m) := by
  induction rest generalizing done with
  | nil => rfl
  | cons h rest ih =>
    have hnext : ∀ m, adjudge seals done true h m = (.error .unknownAncestor, m) := fun _ => rfl
    rw [verifyRest_cons, verifyRest_cons, hnext, hnext]
    split
    · rfl
    · split
      · rfl
      · dsimp only
        rw [Bool.true_or, ih]

/-- A batch leaves the node as its part up to a refused header does. -/
theorem verifyHeaders_snd_of_error
    (herror : ∃ r ∈ (verifyHeaders (fun _ => false) seals before n).1, r ≠ .ok ()) :
    (verifyHeaders aborted seals (before ++ rest) n).2 = (verifyHeaders aborted seals before n).2 := by
  rw [verifyHeaders, verifyHeaders, verifyRest_append]
  dsimp only
  split
  · rfl
  · next hlength =>
    -- what was delivered in full is what is delivered without a signal
    have hfull : (verifyRest aborted seals [] false before n).1
        = (verifyRest (fun _ => false) seals [] false before n).1 := by
      apply verifyRest_prefix.eq_of_length_le
      rw [length_verifyRest]
      exact Nat.not_lt.1 hlength
    have hfailed : (verifyRest aborted seals [] false before n).1.any (!·.toBool) = true := by
      obtain ⟨r, hr, hne⟩ := herror
      rw [hfull, List.any_eq_true]
      refine ⟨r, hr, ?_⟩
      cases r with
      | ok _ => exact absurd rfl hne
      | error e => rfl
    rw [hfailed, Bool.or_true, verifyRest_of_failed n]

end CommitteeConsensus.Node
