import CommitteeConsensus.Node.Basic

/-! # Batch verification

    A batch is verified in order, each header with the ones before it as ancestors. What follows a
    refused header descends from it and is refused without being looked at. The caller may abort
    the batch at any time; the verifying task looks for the signal before each header and again
    before it delivers the header's result, so a signal is a function `aborted` of these
    observations: number `2 * i` precedes header `i`, number `2 * i + 1` its result.
-/

namespace CommitteeConsensus.Node

/-- Verifies the rest of a batch, of which `done` came before. Returns the results delivered. -/
def verifyRest (aborted : Nat → Bool) (seals : List Bool) (done : List Header) (failed : Bool) :
    List Header → Node → List (Except Error Unit) × Node
  | [], n => ([], n)
  | h :: rest, n =>
    let i := done.length
    if aborted (2 * i) then ([], n)
    else
      let (result, n) :=
        if failed then (.error .unknownAncestor, n) else n.verify done h (seals.getD i true)
      if aborted (2 * i + 1) then ([], n)
      else
        let (results, n) :=
          verifyRest aborted seals (done ++ [h]) (failed || !result.toBool) rest n
        (result :: results, n)

/-- Verifies a batch; a header without a flag of its own is verified with its seal. -/
def verifyHeaders (aborted : Nat → Bool) (seals : List Bool) (headers : List Header) (n : Node) :
    List (Except Error Unit) × Node :=
  verifyRest aborted seals [] false headers n

end CommitteeConsensus.Node
