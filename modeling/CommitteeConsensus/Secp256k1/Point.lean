import CommitteeConsensus.Secp256k1.Field

/-! # Points of secp256k1

    The curve `y ^ 2 = x ^ 3 + 7`. Sums and multiples are computed in Jacobian coordinates, where
    `(X, Y, Z)` stands for `(X / Z ^ 2, Y / Z ^ 3)` and `Z = 0` for the point at infinity, so that
    only the last step divides.
-/

namespace CommitteeConsensus.Secp256k1

/-- A point other than infinity. -/
structure Point where
  x : Nat
  y : Nat
deriving DecidableEq

def Point.OnCurve (q : Point) : Prop :=
  q.x < p ∧ q.y < p ∧ q.y * q.y % p = (q.x * q.x * q.x + 7) % p

instance (q : Point) : Decidable q.OnCurve := inferInstanceAs (Decidable (_ ∧ _))

def generator : Point where
  x := 0x79BE667EF9DCBBAC55A06295CE870B07029BFCDB2DCE28D959F2815B16F81798
  y := 0x483ADA7726A3C4655DA4FBFC0E1108A8FD17B448A68554199C47D08FFB10D4B8

/-- The point with coordinate `x` whose `y` is odd or even as asked. -/
def Point.ofX? (x : Nat) (odd : Bool) : Option Point := do
  guard (x < p)
  let root ← sqrt? (x * x * x + 7)
  return ⟨x, if (root % 2 = 1) = odd then root else (p - root) % p⟩

structure Jacobian where
  x : Nat
  y : Nat
  z : Nat

namespace Jacobian

def infinity : Jacobian := ⟨1, 1, 0⟩

def ofPoint (q : Point) : Jacobian := ⟨q.x, q.y, 1⟩

def toPoint? (q : Jacobian) : Option Point :=
  if q.z = 0 then none
  else
    let w := inverse p q.z
    let w2 := w * w % p
    some ⟨q.x * w2 % p, q.y * (w2 * w % p) % p⟩

def double (q : Jacobian) : Jacobian :=
  if q.z = 0 ∨ q.y = 0 then infinity
  else
    -- the tangent at the point
    let y2 := q.y * q.y % p
    let s := 4 * q.x * y2 % p
    let m := 3 * q.x * q.x % p
    let x := subMod (m * m) (2 * s % p)
    let y := subMod (m * subMod s x) (8 * y2 * y2 % p)
    ⟨x, y, 2 * q.y * q.z % p⟩

def add (a b : Jacobian) : Jacobian :=
  if a.z = 0 then b
  else if b.z = 0 then a
  else
    let az2 := a.z * a.z % p
    let bz2 := b.z * b.z % p
    -- both points over the common denominator
    let u1 := a.x * bz2 % p
    let u2 := b.x * az2 % p
    let s1 := a.y * (bz2 * b.z % p) % p
    let s2 := b.y * (az2 * a.z % p) % p
    -- one abscissa: the points are equal or opposite
    if u1 = u2 then
      if s1 = s2 then a.double else infinity
    else
      -- the chord through two different points
      let h := subMod u2 u1
      let r := subMod s2 s1
      let h2 := h * h % p
      let h3 := h2 * h % p
      let v := u1 * h2 % p
      let x := subMod (r * r) ((h3 + 2 * v) % p)
      let y := subMod (r * subMod v x) (s1 * h3 % p)
      ⟨x, y, a.z * b.z % p * h % p⟩

/-- `k` times `q`, for a scalar of at most `bits` bits. -/
def multiple (q : Jacobian) : Nat → Nat → Jacobian
  | 0, _ => infinity
  | bits + 1, k =>
    let half := (multiple q bits (k / 2)).double
    if k % 2 = 1 then half.add q else half

end Jacobian

/-- `k` times `q`. -/
def Point.scale (k : Nat) (q : Point) : Jacobian := (Jacobian.ofPoint q).multiple 256 k

end CommitteeConsensus.Secp256k1
