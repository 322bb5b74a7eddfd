import CommitteeConsensus.Json.Basic
import CommitteeConsensus.Word

/-! # Requests for the return of stake

    An account may ask for its stake back. The request waits until it is mature; at each block
    the mature requests are taken out of the queue and the others stay in order.
-/

namespace CommitteeConsensus

structure RefundRequest where
  address : Address
  /-- First block at which the stake may be returned. -/
  maturityBlock : UInt64
deriving DecidableEq

namespace RefundRequest

def requestedAt (address : Address) (block period : UInt64) : RefundRequest :=
  ⟨address, Word.satAdd block period⟩

def isMature (r : RefundRequest) (block : UInt64) : Bool := r.maturityBlock ≤ block

/-- The mature requests and the pending ones. -/
def splitMatured (requests : List RefundRequest) (block : UInt64) :
    List RefundRequest × List RefundRequest :=
  requests.partition (·.isMature block)

def toJson (r : RefundRequest) : Json :=
  .ofFields [("address", .ofBytes r.address), ("maturity_block", .ofWord r.maturityBlock)]

end RefundRequest

end CommitteeConsensus
