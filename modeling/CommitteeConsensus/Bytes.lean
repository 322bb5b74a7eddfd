/-! # Byte strings

    A byte string is a list of bytes, so that messages can be split and joined in proofs.
    A digest, an address or a signature is a `Bytes n`, a byte string that knows its length.
    Addresses are ordered as numbers read from the most significant byte, which for strings
    of one length is the lexicographic order of their bytes.

    Numbers become bytes in two layouts: `bigEndian` for hashed messages and `littleEndian`
    for stored records.
-/

namespace CommitteeConsensus

/-- A byte string of length `n`. -/
structure Bytes (n : Nat) where
  toList : List UInt8
  length_toList : toList.length = n
deriving DecidableEq

abbrev Hash := Bytes 32
abbrev Address := Bytes 20
abbrev Signature := Bytes 65

namespace Bytes

attribute [simp] length_toList

theorem ext {n : Nat} {a b : Bytes n} (h : a.toList = b.toList) : a = b := by
  cases a; cases b; congr

def zero (n : Nat) : Bytes n := ⟨List.replicate n 0, by simp⟩

instance {n : Nat} : Inhabited (Bytes n) := ⟨zero n⟩

def ofList? {n : Nat} (bytes : List UInt8) : Option (Bytes n) :=
  if h : bytes.length = n then some ⟨bytes, h⟩ else none

@[simp] theorem ofList?_toList {n : Nat} (b : Bytes n) : ofList? b.toList = some b := by
  simp [ofList?]

/-! ## Order -/

instance {n : Nat} : LT (Bytes n) := ⟨fun a b => a.toList < b.toList⟩

instance {n : Nat} : DecidableLT (Bytes n) :=
  fun a b => inferInstanceAs (Decidable (a.toList < b.toList))

theorem lt_irrefl {n : Nat} (a : Bytes n) : ¬ a < a := List.lt_irrefl a.toList

theorem lt_trans {n : Nat} {a b c : Bytes n} (hab : a < b) (hbc : b < c) : a < c :=
  List.lt_trans hab hbc

theorem eq_of_not_lt {n : Nat} {a b : Bytes n} (hab : ¬ a < b) (hba : ¬ b < a) : a = b :=
  ext (List.le_antisymm (List.not_lt.1 hba) (List.not_lt.1 hab))

end Bytes

/-! ## Numbers as bytes -/

/-- The lowest `width` bytes of `n`, least significant first. -/
def littleEndian : Nat → Nat → List UInt8
  | 0, _ => []
  | width + 1, n => UInt8.ofNat n :: littleEndian width (n / 256)

def ofLittleEndian : List UInt8 → Nat
  | [] => 0
  | b :: bytes => b.toNat + 256 * ofLittleEndian bytes

/-- The lowest `width` bytes of `n`, most significant first. -/
def bigEndian (width n : Nat) : List UInt8 := (littleEndian width n).reverse

def ofBigEndian (bytes : List UInt8) : Nat := ofLittleEndian bytes.reverse

@[simp] theorem length_littleEndian (width n : Nat) : (littleEndian width n).length = width := by
  induction width generalizing n with
  | zero => rfl
  | succ width ih => simp [littleEndian, ih]

@[simp] theorem length_bigEndian (width n : Nat) : (bigEndian width n).length = width := by
  simp [bigEndian]

theorem ofLittleEndian_littleEndian {width n : Nat} (h : n < Nat.pow 256 width) :
    ofLittleEndian (littleEndian width n) = n := by
  induction width generalizing n with
  | zero => simp at h; simp [littleEndian, ofLittleEndian, h]
  | succ width ih =>
    have hdiv : n / 256 < Nat.pow 256 width :=
      Nat.div_lt_of_lt_mul (Nat.mul_comm _ 256 ▸ h)
    simp only [littleEndian, ofLittleEndian, ih hdiv, UInt8.toNat_ofNat']
    omega

theorem ofBigEndian_bigEndian {width n : Nat} (h : n < Nat.pow 256 width) :
    ofBigEndian (bigEndian width n) = n := by
  simp [ofBigEndian, bigEndian, ofLittleEndian_littleEndian h]

theorem ofLittleEndian_lt (bytes : List UInt8) : ofLittleEndian bytes < Nat.pow 256 bytes.length := by
  induction bytes with
  | nil => simp [ofLittleEndian]
  | cons b bytes ih =>
    have hb : b.toNat < 256 := b.toNat_lt
    have hpow : Nat.pow 256 (b :: bytes).length = Nat.pow 256 bytes.length * 256 := rfl
    rw [ofLittleEndian, hpow]
    omega

theorem ofBigEndian_lt (bytes : List UInt8) : ofBigEndian bytes < Nat.pow 256 bytes.length := by
  simpa [ofBigEndian] using ofLittleEndian_lt bytes.reverse

def Bytes.ofNat (width n : Nat) : Bytes width := ⟨bigEndian width n, by simp⟩

/-! ## Text -/

/-- The bytes of a text without characters beyond ASCII. -/
def ascii (text : String) : List UInt8 := text.toList.map fun c => UInt8.ofNat c.toNat

def hexDigit (n : UInt8) : Char :=
  if n < 10 then Char.ofNat (48 + n.toNat) else Char.ofNat (87 + n.toNat)

/-- Two lower-case hexadecimal digits for each byte. -/
def hex (bytes : List UInt8) : String :=
  String.ofList (bytes.flatMap fun b => [hexDigit (b / 16), hexDigit (b % 16)])

def hexValue? (c : Char) : Option UInt8 :=
  if '0' ≤ c ∧ c ≤ '9' then some (UInt8.ofNat (c.toNat - 48))
  else if 'a' ≤ c ∧ c ≤ 'f' then some (UInt8.ofNat (c.toNat - 87))
  else if 'A' ≤ c ∧ c ≤ 'F' then some (UInt8.ofNat (c.toNat - 55))
  else none

/-- Reads pairs of hexadecimal digits in either case. -/
def ofHex? : List Char → Option (List UInt8)
  | [] => some []
  | [_] => none
  | hi :: lo :: rest => do
    return (16 * (← hexValue? hi) + (← hexValue? lo)) :: (← ofHex? rest)

/-- The written form of an account address. -/
def Address.text (address : Address) : String := "0x" ++ hex address.toList

end CommitteeConsensus
