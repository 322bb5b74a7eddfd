import CommitteeConsensus.Committee.Snapshot
import CommitteeConsensus.Store.Recent

/-! # The snapshot store and its cache

    Snapshots are kept in a store of binary records, and the recently used ones in memory. A
    snapshot is stored before it is remembered, and one that is only stored is remembered when
    it is looked up, so memory never knows what the store does not.
-/

namespace CommitteeConsensus

/-! ## Store -/

structure SnapshotStore where
  records : Table (List UInt8) (List UInt8) := .empty
  /-- Whether every write is refused. -/
  rejectsWrites : Bool := false
deriving DecidableEq

namespace SnapshotStore

def get? (s : SnapshotStore) (key : List UInt8) : Option (List UInt8) := s.records.get? key

def put (s : SnapshotStore) (key value : List UInt8) : Except StoreError SnapshotStore :=
  if s.rejectsWrites then .error (.writeFailed "write rejected")
  else .ok { s with records := s.records.insert key value }

def size (s : SnapshotStore) : Nat := s.records.size

end SnapshotStore

/-! ## Cache -/

structure SnapshotCache where
  recent : Recent UInt64 Snapshot
  store : SnapshotStore := {}
  /-- Lookups answered from memory, and those that were not. -/
  hits : Nat := 0
  misses : Nat := 0

namespace SnapshotCache

/-- A cache over a store, with nothing in memory. -/
def ofStore (capacity : Nat) (store : SnapshotStore) : SnapshotCache :=
  { recent := .empty capacity, store }

/-- Forgets what is in memory. -/
def reopen (c : SnapshotCache) (capacity : Nat) : SnapshotCache :=
  { c with recent := .empty capacity }

/-- The snapshot of an epoch, from memory or from the store. -/
def find (c : SnapshotCache) (epoch : UInt64) : Except Error (Option Snapshot) × SnapshotCache :=
  match c.recent.get? epoch with
  | some s => (.ok (some s), { c with recent := c.recent.touch epoch, hits := c.hits + 1 })
  | none =>
    let c := { c with misses := c.misses + 1 }
    let key := Snapshot.storeKey epoch
    match c.store.get? key with
    | none => (.ok none, c)
    | some bytes =>
      match Snapshot.ofStored key bytes with
      | .ok s => (.ok (some s), { c with recent := c.recent.put epoch s })
      | .error e => (.error (.ofSnapshotStore e), c)

/-- Stores a snapshot, then remembers it. -/
def insert (c : SnapshotCache) (s : Snapshot) : Except Error SnapshotCache :=
  match c.store.put (Snapshot.storeKey s.epoch) s.stored with
  | .ok store => .ok { c with store, recent := c.recent.put s.epoch s }
  | .error e => .error (.ofSnapshotStore e)

end SnapshotCache

end CommitteeConsensus
