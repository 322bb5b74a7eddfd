/-! # Amounts

    Balances and reward pools are whole numbers below `2 ^ 256`. Balances and ledger counters
    saturate at the top of the range; reward arithmetic does not, and reports a `Fault` when a
    step leaves the range or divides by zero.
-/

namespace CommitteeConsensus

/-- Why an arithmetic step has no result. -/
inductive Fault
  | overflow
  | divisionByZero
deriving DecidableEq, Repr

/-- One more than the largest amount. -/
def Amount.bound : Nat := 0x10000000000000000000000000000000000000000000000000000000000000000

structure Amount where
  toNat : Nat
  toNat_lt : toNat < Amount.bound
deriving DecidableEq

namespace Amount

def max : Nat := bound - 1

theorem toNat_le_max (a : Amount) : a.toNat ≤ max := Nat.le_sub_one_of_lt a.toNat_lt

theorem ext {a b : Amount} (h : a.toNat = b.toNat) : a = b := by
  cases a; cases b; congr

instance : Inhabited Amount := ⟨⟨0, by decide⟩⟩
instance : Zero Amount := ⟨default⟩
instance : LE Amount := ⟨fun a b => a.toNat ≤ b.toNat⟩
instance : LT Amount := ⟨fun a b => a.toNat < b.toNat⟩
instance : DecidableLE Amount := fun a b => inferInstanceAs (Decidable (a.toNat ≤ b.toNat))
instance : DecidableLT Amount := fun a b => inferInstanceAs (Decidable (a.toNat < b.toNat))

@[simp] theorem toNat_zero : (0 : Amount).toNat = 0 := rfl

def ofNat? (n : Nat) : Option Amount := if h : n < bound then some ⟨n, h⟩ else none

/-- The amount nearest to `n`. -/
def clamp (n : Nat) : Amount := ⟨min n max, by simp only [max, bound]; omega⟩

@[simp] theorem toNat_clamp (n : Nat) : (clamp n).toNat = min n max := rfl

def ofWord (n : UInt64) : Amount :=
  ⟨n.toNat, Nat.lt_trans n.toNat_lt (by decide)⟩

@[simp] theorem toNat_ofWord (n : UInt64) : (ofWord n).toNat = n.toNat := rfl

/-! ## Saturating arithmetic -/

def satAdd (a b : Amount) : Amount := clamp (a.toNat + b.toNat)
def satMul (a b : Amount) : Amount := clamp (a.toNat * b.toNat)

def satSub (a b : Amount) : Amount :=
  ⟨a.toNat - b.toNat, Nat.lt_of_le_of_lt (Nat.sub_le _ _) a.toNat_lt⟩

@[simp] theorem toNat_satAdd (a b : Amount) : (satAdd a b).toNat = min (a.toNat + b.toNat) max := rfl
@[simp] theorem toNat_satMul (a b : Amount) : (satMul a b).toNat = min (a.toNat * b.toNat) max := rfl
@[simp] theorem toNat_satSub (a b : Amount) : (satSub a b).toNat = a.toNat - b.toNat := rfl

/-! ## Exact arithmetic -/

/-- The amount `n`, unless it is out of range. -/
def exact (n : Nat) : Except Fault Amount :=
  if h : n < bound then .ok ⟨n, h⟩ else .error .overflow

def add (a b : Amount) : Except Fault Amount := exact (a.toNat + b.toNat)
def mul (a b : Amount) : Except Fault Amount := exact (a.toNat * b.toNat)

def sub (a b : Amount) : Except Fault Amount :=
  if b ≤ a then .ok (satSub a b) else .error .overflow

/-- Division rounding down. -/
def div (a b : Amount) : Except Fault Amount :=
  if b.toNat = 0 then .error .divisionByZero
  else .ok ⟨a.toNat / b.toNat, Nat.lt_of_le_of_lt (Nat.div_le_self _ _) a.toNat_lt⟩

theorem exact_eq_ok_iff {n : Nat} {a : Amount} : exact n = .ok a ↔ a.toNat = n := by
  unfold exact
  split
  · next h =>
    constructor
    · rintro ⟨⟩; rfl
    · rintro rfl; rfl
  · next h => exact ⟨nofun, fun hn => absurd (hn ▸ a.toNat_lt) h⟩

theorem add_eq_ok_iff {a b c : Amount} : add a b = .ok c ↔ c.toNat = a.toNat + b.toNat :=
  exact_eq_ok_iff

theorem mul_eq_ok_iff {a b c : Amount} : mul a b = .ok c ↔ c.toNat = a.toNat * b.toNat :=
  exact_eq_ok_iff

theorem sub_eq_ok_iff {a b c : Amount} :
    sub a b = .ok c ↔ b ≤ a ∧ c.toNat = a.toNat - b.toNat := by
  unfold sub
  split
  · next h =>
    constructor
    · rintro ⟨⟩; exact ⟨h, rfl⟩
    · rintro ⟨-, hc⟩; exact congrArg Except.ok (ext hc.symm)
  · next h => exact ⟨nofun, fun hc => absurd hc.1 h⟩

theorem div_eq_ok_iff {a b c : Amount} :
    div a b = .ok c ↔ b.toNat ≠ 0 ∧ c.toNat = a.toNat / b.toNat := by
  unfold div
  split
  · next h => exact ⟨nofun, fun hc => absurd h hc.1⟩
  · next h =>
    constructor
    · rintro ⟨⟩; exact ⟨h, rfl⟩
    · rintro ⟨-, hc⟩; exact congrArg Except.ok (ext hc.symm)

/-- Sum that stays at the top of the range. -/
def satSum (amounts : List Amount) : Amount := amounts.foldl satAdd 0

/-- One coin in base units. -/
def coin : Amount := ⟨1000000000000000000, by decide⟩

end Amount

end CommitteeConsensus
