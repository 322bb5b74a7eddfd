import CommitteeConsensus.Amount
import CommitteeConsensus.Hash.Keccak

/-! # Transactions and receipts

    The two lists a block commits to. Each item is hashed as the concatenation of its fields,
    with a marker byte before an optional recipient, and a list is hashed as the concatenation
    of its items' hashes.
-/

namespace CommitteeConsensus

structure Transaction where
  sender : Address
  recipient : Option Address
  value : Amount
  nonce : UInt64
  data : List UInt8
deriving DecidableEq

namespace Transaction

def recipientBytes : Option Address → List UInt8
  | none => [0]
  | some address => 1 :: address.toList

/-- The bytes that the hash commits to. -/
def preimage (tx : Transaction) : List UInt8 :=
  tx.sender.toList ++ recipientBytes tx.recipient ++ bigEndian 32 tx.value.toNat
    ++ bigEndian 8 tx.nonce.toNat ++ tx.data

def hash (tx : Transaction) : Hash := keccak256 tx.preimage

end Transaction

structure Receipt where
  transactionHash : Hash
  success : Bool
  gasUsed : UInt64
deriving DecidableEq

namespace Receipt

def preimage (receipt : Receipt) : List UInt8 :=
  receipt.transactionHash.toList ++ [if receipt.success then 1 else 0]
    ++ bigEndian 8 receipt.gasUsed.toNat

def hash (receipt : Receipt) : Hash := keccak256 receipt.preimage

end Receipt

def transactionsRoot (transactions : List Transaction) : Hash :=
  digestHashes (transactions.map Transaction.hash)

def receiptsRoot (receipts : List Receipt) : Hash :=
  digestHashes (receipts.map Receipt.hash)

end CommitteeConsensus
