import CommitteeConsensus.Hash.Sha256
import CommitteeConsensus.Secp256k1.PublicKey

/-! # Recoverable signatures

    A signature is `r || s || v`: two scalars of 32 bytes and the parity of the nonce point.
    Signing takes its nonce from the key and the message, so it is deterministic, and keeps `s`
    in the lower half of the scalars. Recovering refuses `s` in the upper half, so that a
    signature cannot be restated by negating `s`.
-/

namespace CommitteeConsensus.Secp256k1

def isScalar (k : Nat) : Bool := 0 < k && k < n

def isHigh (s : Nat) : Bool := n / 2 < s

/-! ## Nonces -/

/-- The generator of nonces: a key and a chained value. -/
structure NonceSource where
  key : Hash
  value : Hash

namespace NonceSource

def stir (g : NonceSource) (data : List UInt8) : NonceSource :=
  let key := hmacSha256 g.key.toList (g.value.toList ++ data)
  ⟨key, hmacSha256 key.toList g.value.toList⟩

def seeded (secret : Nat) (hash : Hash) : NonceSource :=
  let seed := bigEndian 32 secret ++ hash.toList
  let start : NonceSource := ⟨.zero 32, ⟨List.replicate 32 1, by simp⟩⟩
  (start.stir (0 :: seed)).stir (1 :: seed)

/-- The first candidate that is a scalar, of at most `tries`. -/
def next? : Nat → NonceSource → Option Nat
  | 0, _ => none
  | tries + 1, g =>
    let value := hmacSha256 g.key.toList g.value.toList
    let candidate := ofBigEndian value.toList
    if isScalar candidate then some candidate else next? tries (stir ⟨g.key, value⟩ [0])

end NonceSource

/-! ## Signing and recovering -/

def encode (r s : Nat) (v : UInt8) : Signature :=
  ⟨bigEndian 32 r ++ bigEndian 32 s ++ [v], by simp⟩

/-- Signs a digest; fails only where no nonce yields a signature. -/
def sign? (secret : Nat) (hash : Hash) : Option Signature := do
  let k ← (NonceSource.seeded secret hash).next? 128
  let q ← (generator.scale k).toPoint?
  let r := q.x % n
  let s := inverse n k * ((ofBigEndian hash.toList + r * secret) % n) % n
  guard (r ≠ 0 ∧ s ≠ 0)
  let odd := q.y % 2 = 1
  -- negating `s` belongs to the opposite nonce point, whose parity is the other one
  return if isHigh s then encode r (n - s) (if odd then 0 else 1)
    else encode r s (if odd then 1 else 0)

/-- The parity that a recovery byte asks for, in either of its two spellings. -/
def parity? (v : UInt8) : Option Bool :=
  if v = 0 ∨ v = 27 then some false else if v = 1 ∨ v = 28 then some true else none

/-- The key whose signature of `hash` this is. -/
def recoverKey? (hash : Hash) (signature : Signature) : Option Point := do
  let odd ← parity? (signature.toList.getD 64 0)
  let r := ofBigEndian (signature.toList.take 32)
  let s := ofBigEndian ((signature.toList.drop 32).take 32)
  guard (isScalar r && isScalar s && !isHigh s)
  let q ← Point.ofX? r odd
  -- the key is (s * q - digest * generator) / r
  let w := inverse n r
  let u1 := (n - w * ofBigEndian hash.toList % n) % n
  let u2 := w * s % n
  ((generator.scale u1).add (q.scale u2)).toPoint?

def recover? (hash : Hash) (signature : Signature) : Option Address :=
  (recoverKey? hash signature).map Point.address

end CommitteeConsensus.Secp256k1
