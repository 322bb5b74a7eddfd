import CommitteeConsensus.Bytes

/-! # SHA-256 and its keyed form

    The digest that drives deterministic nonces, and HMAC over it. A message is padded to
    blocks of 64 bytes; each block is expanded to 64 words that update eight working words.
-/

namespace CommitteeConsensus.Sha256

def rotateRight (x amount : UInt32) : UInt32 := x >>> amount ||| x <<< (32 - amount)

/-- The eight working words. -/
structure State where
  a : UInt32
  b : UInt32
  c : UInt32
  d : UInt32
  e : UInt32
  f : UInt32
  g : UInt32
  h : UInt32
deriving DecidableEq

def State.initial : State :=
  ⟨0x6a09e667, 0xbb67ae85, 0x3c6ef372, 0xa54ff53a, 0x510e527f, 0x9b05688c, 0x1f83d9ab, 0x5be0cd19⟩

def State.add (s t : State) : State :=
  ⟨s.a + t.a, s.b + t.b, s.c + t.c, s.d + t.d, s.e + t.e, s.f + t.f, s.g + t.g, s.h + t.h⟩

def roundConstants : List UInt32 :=
  [0x428a2f98, 0x71374491, 0xb5c0fbcf, 0xe9b5dba5, 0x3956c25b, 0x59f111f1, 0x923f82a4, 0xab1c5ed5,
   0xd807aa98, 0x12835b01, 0x243185be, 0x550c7dc3, 0x72be5d74, 0x80deb1fe, 0x9bdc06a7, 0xc19bf174,
   0xe49b69c1, 0xefbe4786, 0x0fc19dc6, 0x240ca1cc, 0x2de92c6f, 0x4a7484aa, 0x5cb0a9dc, 0x76f988da,
   0x983e5152, 0xa831c66d, 0xb00327c8, 0xbf597fc7, 0xc6e00bf3, 0xd5a79147, 0x06ca6351, 0x14292967,
   0x27b70a85, 0x2e1b2138, 0x4d2c6dfc, 0x53380d13, 0x650a7354, 0x766a0abb, 0x81c2c92e, 0x92722c85,
   0xa2bfe8a1, 0xa81a664b, 0xc24b8b70, 0xc76c51a3, 0xd192e819, 0xd6990624, 0xf40e3585, 0x106aa070,
   0x19a4c116, 0x1e376c08, 0x2748774c, 0x34b0bcb5, 0x391c0cb3, 0x4ed8aa4a, 0x5b9cca4f, 0x682e6ff3,
   0x748f82ee, 0x78a5636f, 0x84c87814, 0x8cc70208, 0x90befffa, 0xa4506ceb, 0xbef9a3f7, 0xc67178f2]

def State.round (s : State) (constant word : UInt32) : State :=
  -- from the second half of the words, with this round's part of the message
  let s1 := rotateRight s.e 6 ^^^ rotateRight s.e 11 ^^^ rotateRight s.e 25
  let choice := (s.e &&& s.f) ^^^ (~~~s.e &&& s.g)
  let t1 := s.h + s1 + choice + constant + word
  -- from the first half
  let s0 := rotateRight s.a 2 ^^^ rotateRight s.a 13 ^^^ rotateRight s.a 22
  let majority := (s.a &&& s.b) ^^^ (s.a &&& s.c) ^^^ (s.b &&& s.c)
  ⟨t1 + (s0 + majority), s.a, s.b, s.c, s.d + t1, s.e, s.f, s.g⟩

def wordOfBytes (bytes : List UInt8) : UInt32 :=
  bytes.foldl (fun word b => word <<< 8 ||| b.toUInt32) 0

def wordsOfBytes : Nat → List UInt8 → List UInt32
  | 0, _ => []
  | count + 1, bytes => wordOfBytes (bytes.take 4) :: wordsOfBytes count (bytes.drop 4)

/-- The word that follows sixteen words of the schedule. -/
def nextWord (window : List UInt32) : UInt32 :=
  let w1 := window.getD 1 0
  let w14 := window.getD 14 0
  let s0 := rotateRight w1 7 ^^^ rotateRight w1 18 ^^^ w1 >>> 3
  let s1 := rotateRight w14 17 ^^^ rotateRight w14 19 ^^^ w14 >>> 10
  window.getD 0 0 + s0 + window.getD 9 0 + s1

/-- Runs one round for each constant, sliding a window of sixteen words along the schedule. -/
def compress : List UInt32 → List UInt32 → State → State
  | [], _, s => s
  | constant :: constants, window, s =>
    compress constants (window.drop 1 ++ [nextWord window]) (s.round constant (window.getD 0 0))

def State.absorb (s : State) (block : List UInt8) : State :=
  s.add (compress roundConstants (wordsOfBytes 16 block) s)

def absorbBlocks : Nat → State → List UInt8 → State
  | 0, s, _ => s
  | count + 1, s, message => absorbBlocks count (s.absorb (message.take 64)) (message.drop 64)

/-- A one bit, zeros, and the length in bits, up to a whole number of blocks. -/
def padding (length : Nat) : List UInt8 :=
  0x80 :: List.replicate ((119 - length % 64) % 64) 0 ++ bigEndian 8 (8 * length)

def bytesOfWord (word : UInt32) : List UInt8 := bigEndian 4 word.toNat

def State.digest (s : State) : Hash :=
  ⟨bytesOfWord s.a ++ bytesOfWord s.b ++ bytesOfWord s.c ++ bytesOfWord s.d ++ bytesOfWord s.e ++
    bytesOfWord s.f ++ bytesOfWord s.g ++ bytesOfWord s.h, by simp [bytesOfWord]⟩

end CommitteeConsensus.Sha256

namespace CommitteeConsensus

open Sha256 in
def sha256 (message : List UInt8) : Hash :=
  let padded := message ++ padding message.length
  (absorbBlocks (padded.length / 64) .initial padded).digest

/-- HMAC-SHA-256 under a key of at most 64 bytes. -/
def hmacSha256 (key message : List UInt8) : Hash :=
  let block := key ++ List.replicate (64 - key.length) 0
  let inner := sha256 (block.map (· ^^^ 0x36) ++ message)
  sha256 (block.map (· ^^^ 0x5c) ++ inner.toList)

end CommitteeConsensus
