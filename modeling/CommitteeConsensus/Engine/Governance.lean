import CommitteeConsensus.Calendar
import CommitteeConsensus.Chain.ExtraData
import CommitteeConsensus.Chain.Index
import CommitteeConsensus.Store.Cache

/-! # Which committee governs a block

    The snapshot of a turn is looked up in the cache, and on a miss made from the header that
    published its committee: the genesis header, or the last header of an earlier turn.
    Ancestors that are still being verified (`pending`, the latest last) come before the chain.
    A snapshot is cached only when its publisher is canonical on the chain, because a pending
    header may yet be rejected.
-/

namespace CommitteeConsensus

/-- The header at a number among pending ancestors and the chain, and whether it is the chain's. -/
def findHeader? (chain : Chain) (pending : List Header) (number : UInt64) :
    Option (Header × Bool) :=
  let onChain := chain.headerAt? number
  match pending.reverse.find? (·.number = number) with
  | some h => some (h, onChain.any (·.hash = h.hash))
  | none => onChain.map (·, true)

/-- The header that publishes the committee of a turn, and whether it is the chain's. -/
def publisher (config : Config) (chain : Chain) (pending : List Header) (turn : UInt64) :
    Except Error (Header × Bool) :=
  if config.usesGenesisCommittee turn then
    match chain.genesis? with
    | some h => .ok (h, true)
    | none => .error .unknownBlock
  else
    match findHeader? chain pending (config.publishingBlock turn) with
    | some found => .ok found
    | none => .error .unknownAncestor

/-- The snapshot of a turn from the header that publishes its committee. -/
def publishedSnapshot (config : Config) (h : Header) (turn : UInt64) : Except Error Snapshot := do
  let x ← ExtraData.decode h.extra
  Snapshot.ofRecord config h.number h.hash turn x.committee

/-- The snapshot of a turn, and the cache afterwards. -/
def snapshotForTurn (config : Config) (chain : Chain) (pending : List Header) (turn : UInt64)
    (cache : SnapshotCache) : Except Error Snapshot × SnapshotCache :=
  match cache.find turn with
  | (.error e, cache) => (.error e, cache)
  | (.ok (some s), cache) => (.ok s, cache)
  | (.ok none, cache) =>
    match publisher config chain pending turn with
    | .error e => (.error e, cache)
    | .ok (h, canonical) =>
      match publishedSnapshot config h turn with
      | .error e => (.error e, cache)
      | .ok s =>
        -- a pending publisher may yet be rejected: its committee is used but not kept
        if canonical then
          match cache.insert s with
          | .error e => (.error e, cache)
          | .ok cache => (.ok s, cache)
        else (.ok s, cache)

/-- The snapshot that governs a block, and the cache afterwards. -/
def governingSnapshot (config : Config) (chain : Chain) (pending : List Header) (number : UInt64)
    (cache : SnapshotCache) : Except Error Snapshot × SnapshotCache :=
  snapshotForTurn config chain pending (config.turnOf number) cache

end CommitteeConsensus
