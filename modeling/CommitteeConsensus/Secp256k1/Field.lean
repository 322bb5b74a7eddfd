/-! # Modular arithmetic of the curve secp256k1

    Coordinates are numbers below the field prime `p`, scalars are numbers below the group
    order `n`. Both moduli are prime, so inverses are powers.
-/

namespace CommitteeConsensus.Secp256k1

/-- Order of the coordinate field. -/
def p : Nat := 0xFFFFFFFFFFFFFFFFFFFFFFFFFFFFFFFFFFFFFFFFFFFFFFFFFFFFFFFEFFFFFC2F

/-- Order of the group of points. -/
def n : Nat := 0xFFFFFFFFFFFFFFFFFFFFFFFFFFFFFFFEBAAEDCE6AF48A03BBFD25E8CD0364141

/-- `base ^ exponent % modulus` for an exponent of at most `bits` bits. -/
def powMod (modulus base : Nat) : Nat → Nat → Nat
  | 0, _ => 1
  | bits + 1, exponent =>
    let root := powMod modulus base bits (exponent / 2)
    let square := root * root % modulus
    if exponent % 2 = 1 then square * base % modulus else square

/-- Inverse modulo a prime; zero has none and is sent to itself. -/
def inverse (modulus a : Nat) : Nat := powMod modulus a 256 (modulus - 2)

def subMod (a b : Nat) : Nat := (a + (p - b)) % p

/-- A square root in the field, for `p` leaves remainder three on division by four. -/
def sqrt? (a : Nat) : Option Nat :=
  let root := powMod p a 256 ((p + 1) / 4)
  if root * root % p = a % p then some root else none

end CommitteeConsensus.Secp256k1
