/-! # Recently used values

    A bounded memory of values by key, the most recently used first. Reading a value makes it
    the most recent one; a new key pushes out the least recent one when the memory is full.
-/

namespace CommitteeConsensus

structure Recent (κ α : Type) where
  capacity : Nat
  entries : List (κ × α)

namespace Recent

variable {κ α : Type}

/-- An empty memory with room for at least one value. -/
def empty (capacity : Nat) : Recent κ α := ⟨max capacity 1, []⟩

def size (r : Recent κ α) : Nat := r.entries.length

variable [DecidableEq κ]

def get? (r : Recent κ α) (k : κ) : Option α := (r.entries.find? (·.1 = k)).map Prod.snd

def without (r : Recent κ α) (k : κ) : List (κ × α) := r.entries.filter (·.1 ≠ k)

/-- Makes a key that is present the most recent one. -/
def touch (r : Recent κ α) (k : κ) : Recent κ α :=
  match r.entries.find? (·.1 = k) with
  | some e => { r with entries := e :: r.without k }
  | none => r

def put (r : Recent κ α) (k : κ) (v : α) : Recent κ α :=
  { r with entries := ((k, v) :: r.without k).take r.capacity }

@[simp] theorem get?_put_self (r : Recent κ α) (k : κ) (v : α) (h : 0 < r.capacity) :
    (r.put k v).get? k = some v := by
  obtain ⟨n, hn⟩ := Nat.exists_eq_succ_of_ne_zero (Nat.ne_of_gt h)
  simp [put, get?, hn]

theorem size_put_le (r : Recent κ α) (k : κ) (v : α) : (r.put k v).size ≤ r.capacity := by
  simp only [put, size, List.length_take]
  exact Nat.min_le_left _ _

end Recent

end CommitteeConsensus
