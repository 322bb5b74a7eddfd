import CommitteeConsensus.Word
import Mathlib.Algebra.BigOperators.Ring.List
import Mathlib.Algebra.Ring.Nat

/-! # Sums of words, and shares of them

    Weights are words and their sum need not be one, so it is taken in the natural numbers. The
    parts of an amount in proportion to weights, each rounded down, are together no more than the
    amount (`sum_map_mul_div_le`), and miss it by less than one for each part
    (`lt_sum_map_mul_div_add_length`).

    Where numbers are kept in words after all, the `checked` steps say so: one that leaves its word
    has no result.
-/

namespace CommitteeConsensus

namespace Word

theorem total_eq_sum (words : List UInt64) : total words = (words.map UInt64.toNat).sum := by
  induction words with
  | nil => rfl
  | cons w rest ih => rw [List.map_cons, List.sum_cons, ← ih]; rfl

/-- Numbers that are together less than a word can hold are read back from words. -/
theorem map_toNat_map_ofNat {ns : List Nat} (h : ns.sum < bound) :
    (ns.map UInt64.ofNat).map UInt64.toNat = ns := by
  induction ns with
  | nil => rfl
  | cons n rest ih =>
    rw [List.sum_cons] at h
    have hn : (UInt64.ofNat n).toNat = n := by
      rw [UInt64.toNat_ofNat']
      exact Nat.mod_eq_of_lt (by unfold bound at h; omega)
    rw [List.map_cons, List.map_cons, hn, ih (by omega)]

theorem total_map_ofNat {ns : List Nat} (h : ns.sum < bound) :
    total (ns.map UInt64.ofNat) = ns.sum := by
  rw [total_eq_sum, map_toNat_map_ofNat h]

theorem total_le_length_mul (words : List UInt64) : total words ≤ words.length * max := by
  induction words with
  | nil => exact Nat.zero_le _
  | cons w rest ih =>
    have hw := toNat_le_max w
    rw [List.length_cons, Nat.add_mul, Nat.one_mul]
    show w.toNat + total rest ≤ _
    omega

/-! ## Checked steps -/

/-- A number that is kept in a word of so many bits. -/
def checked (bits n : Nat) : Option Nat := if n < 2 ^ bits then some n else none

def checkedSub (a b : Nat) : Option Nat := if b ≤ a then some (a - b) else none

def checkedDiv (a b : Nat) : Option Nat := if b = 0 then none else some (a / b)

/-- The sum of numbers that are added one by one in a word. -/
def checkedSum (bits : Nat) (ns : List Nat) : Option Nat :=
  ns.foldlM (fun sum n => checked bits (sum + n)) 0

theorem checked_of_lt {bits n : Nat} (h : n < 2 ^ bits) : checked bits n = some n := if_pos h

theorem checkedSub_of_le {a b : Nat} (h : b ≤ a) : checkedSub a b = some (a - b) := if_pos h

theorem checkedDiv_of_pos {a b : Nat} (h : 0 < b) : checkedDiv a b = some (a / b) := if_neg h.ne'

theorem checkedSum_of_lt {bits : Nat} {ns : List Nat} (h : ns.sum < 2 ^ bits) :
    checkedSum bits ns = some ns.sum := by
  have hfold : ∀ start, start + ns.sum < 2 ^ bits →
      ns.foldlM (fun sum n => checked bits (sum + n)) start = some (start + ns.sum) := by
    clear h
    induction ns with
    | nil => exact fun start _ => rfl
    | cons n rest ih =>
      intro start hstart
      rw [List.sum_cons, ← Nat.add_assoc] at hstart ⊢
      rw [List.foldlM_cons, checked_of_lt (by omega)]
      exact ih (start + n) hstart
  have hall := hfold 0 (by rwa [Nat.zero_add])
  rwa [Nat.zero_add] at hall

end Word

/-- Rounding down each quotient gives no more than rounding down their sum. -/
theorem sum_map_div_le (ns : List Nat) (d : Nat) : (ns.map (· / d)).sum ≤ ns.sum / d := by
  induction ns with
  | nil => simp
  | cons n rest ih =>
    calc ((n :: rest).map (· / d)).sum = n / d + (rest.map (· / d)).sum := by
          rw [List.map_cons, List.sum_cons]
      _ ≤ n / d + rest.sum / d := Nat.add_le_add_left ih _
      _ ≤ (n + rest.sum) / d := Nat.div_add_div_le_add_div
      _ = (n :: rest).sum / d := by rw [List.sum_cons]

theorem map_mul_div (n d : Nat) (weights : List Nat) :
    (weights.map fun w => n * w / d) = (weights.map (n * ·)).map (· / d) := by
  rw [List.map_map]
  rfl

/-- The parts of `n` in proportion to weights that sum to no more than `d`. -/
theorem sum_map_mul_div_le (n : Nat) {weights : List Nat} {d : Nat} (h : weights.sum ≤ d) :
    (weights.map fun w => n * w / d).sum ≤ n := by
  calc (weights.map fun w => n * w / d).sum
      = ((weights.map (n * ·)).map (· / d)).sum := by rw [map_mul_div]
    _ ≤ (weights.map (n * ·)).sum / d := sum_map_div_le _ d
    _ = n * weights.sum / d := by rw [List.sum_map_mul_left, List.map_id']
    _ ≤ n := Nat.div_le_of_le_mul (by rw [Nat.mul_comm]; exact Nat.mul_le_mul_right n h)

/-- Each quotient, and so their sum, is above the exact one when it is raised by one. -/
theorem sum_add_length_le_mul (ns : List Nat) {d : Nat} (hd : 0 < d) :
    ns.sum + ns.length ≤ d * ((ns.map (· / d)).sum + ns.length) := by
  induction ns with
  | nil => exact Nat.zero_le _
  | cons n rest ih =>
    have hn : n + 1 ≤ d * (n / d + 1) := Nat.lt_mul_div_succ n hd
    rw [List.map_cons, List.sum_cons, List.sum_cons, List.length_cons]
    calc n + rest.sum + (rest.length + 1)
        = (n + 1) + (rest.sum + rest.length) := by omega
      _ ≤ d * (n / d + 1) + d * ((rest.map (· / d)).sum + rest.length) := Nat.add_le_add hn ih
      _ = d * (n / d + (rest.map (· / d)).sum + (rest.length + 1)) := by
        rw [← Nat.mul_add]
        congr 1
        omega

/-- The parts of `n` in proportion to weights that sum to all of `d`. -/
theorem lt_sum_map_mul_div_add_length (n : Nat) {weights : List Nat} {d : Nat} (hd : 0 < d)
    (h : weights.sum = d) : n < (weights.map fun w => n * w / d).sum + weights.length := by
  have hsum : (weights.map (n * ·)).sum = n * d := by rw [List.sum_map_mul_left, List.map_id', h]
  have hsome : 0 < weights.length := by
    apply List.length_pos_of_ne_nil
    rintro rfl
    exact hd.ne h
  have hle := sum_add_length_le_mul (weights.map (n * ·)) hd
  rw [hsum, List.length_map] at hle
  apply Nat.lt_of_mul_lt_mul_left (a := d)
  calc d * n = n * d := Nat.mul_comm _ _
    _ < n * d + weights.length := Nat.lt_add_of_pos_right hsome
    _ ≤ d * ((weights.map fun w => n * w / d).sum + weights.length) := by rwa [map_mul_div]

end CommitteeConsensus
