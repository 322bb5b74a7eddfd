/-! # Saturating arithmetic on 64-bit words

    Block numbers, times and stakes are `UInt64`. Where a schedule would leave the range it
    stays at the nearest end instead, so that early blocks and huge configured lags need no
    case of their own.
-/

namespace CommitteeConsensus.Word

/-- One more than the largest word. -/
def bound : Nat := 0x10000000000000000

def max : Nat := bound - 1

def clamp (n : Nat) : UInt64 := UInt64.ofNat (min n max)

def satAdd (a b : UInt64) : UInt64 := clamp (a.toNat + b.toNat)
def satSub (a b : UInt64) : UInt64 := if a ≤ b then 0 else a - b
def satMul (a b : UInt64) : UInt64 := clamp (a.toNat * b.toNat)

/-- The sum of words, which need not be a word. -/
def total (words : List UInt64) : Nat := words.foldr (·.toNat + ·) 0

theorem toNat_le_max (a : UInt64) : a.toNat ≤ max := by
  have := a.toNat_lt; simp only [max, bound]; omega

theorem toNat_pos {a : UInt64} (h : a ≠ 0) : 0 < a.toNat :=
  Nat.pos_of_ne_zero fun hzero => h (UInt64.toNat_inj.1 hzero)

/-- Every word but the largest has a next one. -/
theorem toNat_next {a : UInt64} (h : a.toNat < max) : (a + 1).toNat = a.toNat + 1 := by
  rw [UInt64.toNat_add]
  simp only [max, bound] at h
  exact Nat.mod_eq_of_lt (by simp; omega)

@[simp] theorem toNat_clamp (n : Nat) : (clamp n).toNat = min n max := by
  simp only [clamp, UInt64.toNat_ofNat', max, bound]; omega

@[simp] theorem toNat_satAdd (a b : UInt64) : (satAdd a b).toNat = min (a.toNat + b.toNat) max := by
  simp [satAdd]

@[simp] theorem toNat_satMul (a b : UInt64) : (satMul a b).toNat = min (a.toNat * b.toNat) max := by
  simp [satMul]

@[simp] theorem toNat_satSub (a b : UInt64) : (satSub a b).toNat = a.toNat - b.toNat := by
  unfold satSub
  split
  · next h => rw [UInt64.le_iff_toNat_le] at h; simp; omega
  · next h =>
    rw [UInt64.le_iff_toNat_le] at h
    exact UInt64.toNat_sub_of_le _ _ (UInt64.le_iff_toNat_le.2 (by omega))

end CommitteeConsensus.Word
