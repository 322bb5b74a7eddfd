import CommitteeConsensus.Bytes

/-! # Keccak-256

    The digest behind every commitment: a sponge over the permutation Keccak-f[1600] with
    blocks of 136 bytes, padded by a one bit, zeros and a one bit, and squeezed once
    for 32 bytes. The state is five rows (planes of constant `y`) of five 64-bit lanes.
-/

namespace CommitteeConsensus.Keccak

def rotate (lane amount : UInt64) : UInt64 := lane <<< amount ||| lane >>> (64 - amount)

/-! ## State -/

structure Row where
  x0 : UInt64
  x1 : UInt64
  x2 : UInt64
  x3 : UInt64
  x4 : UInt64
deriving DecidableEq

namespace Row

def zero : Row := ⟨0, 0, 0, 0, 0⟩

def xor (a b : Row) : Row :=
  ⟨a.x0 ^^^ b.x0, a.x1 ^^^ b.x1, a.x2 ^^^ b.x2, a.x3 ^^^ b.x3, a.x4 ^^^ b.x4⟩

/-- The first five lanes of a list; lanes past its end are zero. -/
def ofList (lanes : List UInt64) : Row :=
  ⟨lanes.getD 0 0, lanes.getD 1 0, lanes.getD 2 0, lanes.getD 3 0, lanes.getD 4 0⟩

/-- Each lane is flipped where the next one is zero and the one after it is one. -/
def chi (r : Row) : Row where
  x0 := r.x0 ^^^ (~~~r.x1 &&& r.x2)
  x1 := r.x1 ^^^ (~~~r.x2 &&& r.x3)
  x2 := r.x2 ^^^ (~~~r.x3 &&& r.x4)
  x3 := r.x3 ^^^ (~~~r.x4 &&& r.x0)
  x4 := r.x4 ^^^ (~~~r.x0 &&& r.x1)

end Row

structure State where
  y0 : Row
  y1 : Row
  y2 : Row
  y3 : Row
  y4 : Row
deriving DecidableEq

namespace State

def zero : State := ⟨.zero, .zero, .zero, .zero, .zero⟩

/-! ## Permutation -/

/-- Each lane is flipped by the parities of the columns on its two sides. -/
def theta (s : State) : State :=
  let c := s.y0.xor s.y1 |>.xor s.y2 |>.xor s.y3 |>.xor s.y4
  let d : Row :=
    ⟨c.x4 ^^^ rotate c.x1 1, c.x0 ^^^ rotate c.x2 1, c.x1 ^^^ rotate c.x3 1,
      c.x2 ^^^ rotate c.x4 1, c.x3 ^^^ rotate c.x0 1⟩
  ⟨s.y0.xor d, s.y1.xor d, s.y2.xor d, s.y3.xor d, s.y4.xor d⟩

/-- Rotates every lane by its own offset and moves lane `(x, y)` to `(y, 2 * x + 3 * y)`. -/
def rhoPi (s : State) : State where
  y0 := ⟨s.y0.x0, rotate s.y1.x1 44, rotate s.y2.x2 43, rotate s.y3.x3 21, rotate s.y4.x4 14⟩
  y1 := ⟨rotate s.y0.x3 28, rotate s.y1.x4 20, rotate s.y2.x0 3, rotate s.y3.x1 45,
    rotate s.y4.x2 61⟩
  y2 := ⟨rotate s.y0.x1 1, rotate s.y1.x2 6, rotate s.y2.x3 25, rotate s.y3.x4 8,
    rotate s.y4.x0 18⟩
  y3 := ⟨rotate s.y0.x4 27, rotate s.y1.x0 36, rotate s.y2.x1 10, rotate s.y3.x2 15,
    rotate s.y4.x3 56⟩
  y4 := ⟨rotate s.y0.x2 62, rotate s.y1.x3 55, rotate s.y2.x4 39, rotate s.y3.x0 41,
    rotate s.y4.x1 2⟩

def chi (s : State) : State := ⟨s.y0.chi, s.y1.chi, s.y2.chi, s.y3.chi, s.y4.chi⟩

def round (s : State) (constant : UInt64) : State :=
  let t := s.theta.rhoPi.chi
  { t with y0 := { t.y0 with x0 := t.y0.x0 ^^^ constant } }

end State

def roundConstants : List UInt64 :=
  [0x0000000000000001, 0x0000000000008082, 0x800000000000808a, 0x8000000080008000,
   0x000000000000808b, 0x0000000080000001, 0x8000000080008081, 0x8000000000008009,
   0x000000000000008a, 0x0000000000000088, 0x0000000080008009, 0x000000008000000a,
   0x000000008000808b, 0x800000000000008b, 0x8000000000008089, 0x8000000000008003,
   0x8000000000008002, 0x8000000000000080, 0x000000000000800a, 0x800000008000000a,
   0x8000000080008081, 0x8000000000008080, 0x0000000080000001, 0x8000000080008008]

/-- The permutation: one round for each constant. -/
def State.permute (s : State) : State := roundConstants.foldl State.round s

/-! ## Sponge -/

def rate : Nat := 136

/-- Padding that fills the last block: at least one byte, `81` when it is exactly one. -/
def padding (length : Nat) : List UInt8 :=
  match rate - length % rate - 1 with
  | 0 => [0x81]
  | n + 1 => 0x01 :: List.replicate n 0 ++ [0x80]

def laneOfBytes (bytes : List UInt8) : UInt64 :=
  bytes.foldr (fun b lane => lane <<< 8 ||| b.toUInt64) 0

/-- The first `count` lanes of a message, eight bytes each, least significant first. -/
def lanes : Nat → List UInt8 → List UInt64
  | 0, _ => []
  | count + 1, bytes => laneOfBytes (bytes.take 8) :: lanes count (bytes.drop 8)

def State.absorb (s : State) (block : List UInt8) : State :=
  -- the last eight lanes are the capacity, which no block reaches
  let l := lanes 17 block
  { s with
    y0 := s.y0.xor (.ofList l)
    y1 := s.y1.xor (.ofList (l.drop 5))
    y2 := s.y2.xor (.ofList (l.drop 10))
    y3 := s.y3.xor (.ofList (l.drop 15)) }.permute

/-- Absorbs the first `count` blocks of a padded message. -/
def absorbBlocks : Nat → State → List UInt8 → State
  | 0, s, _ => s
  | count + 1, s, message =>
    absorbBlocks count (s.absorb (message.take rate)) (message.drop rate)

def bytesOfLane (lane : UInt64) : List UInt8 := littleEndian 8 lane.toNat

def squeeze (s : State) : Hash :=
  ⟨bytesOfLane s.y0.x0 ++ bytesOfLane s.y0.x1 ++ bytesOfLane s.y0.x2 ++ bytesOfLane s.y0.x3,
    by simp [bytesOfLane]⟩

end CommitteeConsensus.Keccak

namespace CommitteeConsensus

open Keccak in
/-- The Keccak-256 digest of a message. -/
def keccak256 (message : List UInt8) : Hash :=
  squeeze (absorbBlocks (message.length / rate + 1) .zero
    (message ++ padding message.length))

/-- The digest of a list of digests, in order. -/
def digestHashes (hashes : List Hash) : Hash := keccak256 (hashes.flatMap Bytes.toList)

def emptyUncleHash : Hash := keccak256 []

end CommitteeConsensus
