import CommitteeConsensus.Json.Decode

/-! # Committee records

    The outcome of an election as a header publishes it: members in turn order and one column
    each for reward share, stake and storage contribution, beside the table of accounts bound to
    a main account. The last two columns may be absent.
-/

namespace CommitteeConsensus

/-- Main accounts with the accounts bound to them. -/
abbrev Bindings := AddressTable (List Address)

structure CommitteeRecord where
  rank : List Address := []
  proportion : List UInt64 := []
  committeeStake : List UInt64 := []
  sentinelContribution : List UInt64 := []
  accountBinding : Bindings := .empty
deriving DecidableEq

namespace CommitteeRecord

def isEmpty (r : CommitteeRecord) : Bool := r.rank.isEmpty

/-! ## Written form -/

def fieldNames : List String :=
  ["rank", "proportion", "committee_stake", "sentinel_contribution", "account_binding"]

def toJson (r : CommitteeRecord) : Json := .ofFields [
  ("rank", .ofList .ofBytes r.rank),
  ("proportion", .ofList .ofWord r.proportion),
  ("committee_stake", .ofList .ofWord r.committeeStake),
  ("sentinel_contribution", .ofList .ofWord r.sentinelContribution),
  ("account_binding", .ofTable .ofBytes (.ofList .ofBytes) r.accountBinding)]

/-- Reads a record; absent fields are empty. -/
def ofJson? (j : Json) : Option CommitteeRecord := do
  match ← j.fields? fieldNames with
  | [rank, proportion, stake, contribution, binding] =>
    return {
      rank := ← Json.orDefault? (Json.list? Json.bytes?) [] rank
      proportion := ← Json.orDefault? (Json.list? Json.word?) [] proportion
      committeeStake := ← Json.orDefault? (Json.list? Json.word?) [] stake
      sentinelContribution := ← Json.orDefault? (Json.list? Json.word?) [] contribution
      accountBinding :=
        ← Json.orDefault? (Json.table? Json.bytes? (Json.list? Json.bytes?)) .empty binding }
  | _ => none

end CommitteeRecord

end CommitteeConsensus
