import CommitteeConsensus.Hash.Keccak
import CommitteeConsensus.Secp256k1.Point

/-! # Public keys

    A public key is a point of the curve. Its account address is the tail of the digest of its
    two coordinates. Keys are read from the compressed (`02`, `03`), compact (`05`, even `y`) and
    uncompressed (`04`) encodings.
-/

namespace CommitteeConsensus.Secp256k1

/-- Reads an encoded key; the point at infinity is none. -/
def Point.ofEncoded? : List UInt8 → Option Point
  | 0x02 :: x => if x.length = 32 then Point.ofX? (ofBigEndian x) false else none
  | 0x03 :: x => if x.length = 32 then Point.ofX? (ofBigEndian x) true else none
  | 0x05 :: x => if x.length = 32 then Point.ofX? (ofBigEndian x) false else none
  | 0x04 :: xy =>
    let q : Point := ⟨ofBigEndian (xy.take 32), ofBigEndian (xy.drop 32)⟩
    if xy.length = 64 ∧ q.OnCurve then some q else none
  | _ => none

/-- The account of a key: the last twenty bytes of the digest of its coordinates. -/
def Point.address (q : Point) : Address :=
  ⟨(keccak256 (bigEndian 32 q.x ++ bigEndian 32 q.y)).toList.drop 12, by simp⟩

end CommitteeConsensus.Secp256k1
