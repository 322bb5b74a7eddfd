import CommitteeConsensus.Config.Basic

/-! # Outcomes

    How the outcome of a sequence of checks follows from the outcomes of its parts. `bind` of
    `Except` does not reduce by itself, so each shape that occurs in the library has a lemma.

    A function that gives no new state with its error says nothing about what a failure leaves
    behind. A `Change` does: it writes step by step, and `Change.outcome` is what comes of one that
    writes nothing before it fails.
-/

namespace CommitteeConsensus

variable {ε ε' α β : Type}

@[simp] theorem ok_bind (a : α) (f : α → Except ε β) : (Except.ok a >>= f) = f a := rfl

@[simp] theorem error_bind (e : ε) (f : α → Except ε β) :
    ((Except.error e : Except ε α) >>= f) = .error e := rfl

@[simp] theorem pure_eq_ok (a : α) : (pure a : Except ε α) = .ok a := rfl

/-- A sequence succeeds when its parts do. -/
theorem bind_eq_ok_iff {x : Except ε α} {f : α → Except ε β} {b : β} :
    (x >>= f) = .ok b ↔ ∃ a, x = .ok a ∧ f a = .ok b := by
  cases x <;> simp

/-- What follows a check is reached when the check passes. -/
theorem check_bind_eq_ok_iff {x : Except ε Unit} {f : Unit → Except ε β} {b : β} :
    (x >>= f) = .ok b ↔ x = .ok () ∧ f () = .ok b := by
  cases x <;> simp

@[simp] theorem mapError_ok (g : ε → ε') (a : α) :
    (Except.ok a : Except ε α).mapError g = .ok a := rfl

@[simp] theorem mapError_error (g : ε → ε') (e : ε) :
    (Except.error e : Except ε α).mapError g = .error (g e) := rfl

theorem mapError_eq_ok_iff {g : ε → ε'} {x : Except ε α} {a : α} :
    x.mapError g = .ok a ↔ x = .ok a := by
  cases x <;> simp

theorem toOption_eq_some_iff {x : Except ε α} {a : α} : x.toOption = some a ↔ x = .ok a := by
  cases x <;> simp [Except.toOption]

theorem toOption_any_iff {x : Except ε α} {p : α → Bool} :
    x.toOption.any p = true ↔ ∃ a, x = .ok a ∧ p a = true := by
  cases x <;> simp [Except.toOption]

/-! ## Two outcomes -/

/-- The same failure, or values that a relation holds between. -/
inductive Alike {α' : Type} (R : α → α' → Prop) : Except ε α → Except ε α' → Prop
  | ok {a : α} {a' : α'} (h : R a a') : Alike R (.ok a) (.ok a')
  | error (e : ε) : Alike R (.error e) (.error e)

/-- Two sequences are alike when they begin alike and go on alike. -/
theorem Alike.bind {α' β' : Type} {R : α → α' → Prop} {S : β → β' → Prop} {x : Except ε α}
    {x' : Except ε α'} {f : α → Except ε β} {f' : α' → Except ε β'} (h : Alike R x x')
    (hrest : ∀ a a', R a a' → Alike S (f a) (f' a')) : Alike S (x >>= f) (x' >>= f') := by
  cases h with
  | ok h => exact hrest _ _ h
  | error e => exact .error e

/-- Two sequences that begin the same. -/
theorem Alike.of_bind {β' : Type} {S : β → β' → Prop} (x : Except ε α) {f : α → Except ε β}
    {f' : α → Except ε β'} (hrest : ∀ a, Alike S (f a) (f' a)) :
    Alike S (x >>= f) (x >>= f') := by
  cases x with
  | ok a => exact hrest a
  | error e => exact .error e

/-! ## Changes in place -/

/-- A change in place: what it wrote before it failed stays. -/
abbrev Change (ε σ α : Type) := ExceptT ε (StateM σ) α

namespace Change

variable {σ : Type}

/-- What comes of a change that leaves everything as it was `before` if it fails. -/
def outcome (before : σ) : Except ε σ → Except ε Unit × σ
  | .ok after => (.ok (), after)
  | .error e => (.error e, before)

theorem get_bind (f : σ → Change ε σ α) (before : σ) :
    ((get : Change ε σ σ) >>= f) before = f before before := rfl

theorem eq_of_outcome {before after : σ} {result : Except ε σ} {e : ε}
    (h : outcome before result = (.error e, after)) : after = before := by
  cases result with
  | ok next => simp [outcome] at h
  | error e' => exact (Prod.mk.inj h).2.symm

end Change

end CommitteeConsensus
