import CommitteeConsensus.Binary
import CommitteeConsensus.Chain.Transaction

/-! # Headers and blocks

    A header's hash commits to every field in order; its one field of variable length, the
    extra-data, is preceded by its length. Headers are also stored as records.
-/

namespace CommitteeConsensus

structure Header where
  parentHash : Hash := .zero 32
  uncleHash : Hash := .zero 32
  coinbase : Address := .zero 20
  stateRoot : Hash := .zero 32
  transactionsRoot : Hash := .zero 32
  receiptsRoot : Hash := .zero 32
  difficulty : UInt64 := 0
  number : UInt64 := 0
  gasLimit : UInt64 := 0
  gasUsed : UInt64 := 0
  time : UInt64 := 0
  extra : List UInt8 := []
  mixDigest : Hash := .zero 32
  nonce : UInt64 := 0
deriving DecidableEq

namespace Header

/-- The bytes that the hash commits to. -/
def preimage (h : Header) : List UInt8 :=
  h.parentHash.toList ++ h.uncleHash.toList ++ h.coinbase.toList ++ h.stateRoot.toList
    ++ h.transactionsRoot.toList ++ h.receiptsRoot.toList ++ bigEndian 8 h.difficulty.toNat
    ++ bigEndian 8 h.number.toNat ++ bigEndian 8 h.gasLimit.toNat ++ bigEndian 8 h.gasUsed.toNat
    ++ bigEndian 8 h.time.toNat ++ bigEndian 8 h.extra.length ++ h.extra ++ h.mixDigest.toList
    ++ bigEndian 8 h.nonce.toNat

def hash (h : Header) : Hash := keccak256 h.preimage

def isGenesis (h : Header) : Bool := h.number = 0

/-- `h` as a child of `parent`: its number and parent hash follow from the parent. -/
def childOf (h parent : Header) : Header :=
  { h with number := parent.number + 1, parentHash := parent.hash }

/-! ## Stored form -/

def stored (h : Header) : List UInt8 :=
  h.parentHash.toList ++ h.uncleHash.toList ++ h.coinbase.toList ++ h.stateRoot.toList
    ++ h.transactionsRoot.toList ++ h.receiptsRoot.toList ++ Binary.word h.difficulty
    ++ Binary.word h.number ++ Binary.word h.gasLimit ++ Binary.word h.gasUsed
    ++ Binary.word h.time ++ littleEndian 8 h.extra.length ++ h.extra ++ h.mixDigest.toList
    ++ Binary.word h.nonce

open Binary in
def reader : Reader Header := do
  return {
    parentHash := ← readBytes 32
    uncleHash := ← readBytes 32
    coinbase := ← readBytes 20
    stateRoot := ← readBytes 32
    transactionsRoot := ← readBytes 32
    receiptsRoot := ← readBytes 32
    difficulty := ← readWord
    number := ← readWord
    gasLimit := ← readWord
    gasUsed := ← readWord
    time := ← readWord
    extra := (← readBytes (← readWord).toNat).toList
    mixDigest := ← readBytes 32
    nonce := ← readWord }

def ofStored? (bytes : List UInt8) : Option Header := Binary.read? reader bytes

end Header

structure Block where
  header : Header
  transactions : List Transaction := []
  uncles : List Header := []
deriving DecidableEq

namespace Block

def hash (b : Block) : Hash := b.header.hash

def number (b : Block) : UInt64 := b.header.number

end Block

end CommitteeConsensus
