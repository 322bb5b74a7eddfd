import CommitteeConsensus.Proofs.Store.Cache
import Mathlib.Data.List.Induction
import Mathlib.Logic.Function.Basic

/-! # The cache is a map

    Seen from outside, a cache with its store is a table of snapshots by turn. A lookup answers
    with the snapshot that was inserted last for the turn, and memory decides only how fast it
    does (`find_serveAll`).

    The relation that carries the proof is `Mirrors`: the store has a record of every snapshot of
    the table and of no other, and what is in memory is in the table too. A lookup lets nothing
    into memory but its own answer, and an insertion writes the record before it lets the
    snapshot in, so each request keeps the relation.
-/

namespace CommitteeConsensus

/-! ## Memory -/

namespace Recent

variable {κ α : Type} [DecidableEq κ] {r : Recent κ α} {k : κ} {v : α} {e : κ × α}

theorem mem_of_get? (h : r.get? k = some v) : (k, v) ∈ r.entries := by
  obtain ⟨e, he, rfl⟩ := Option.map_eq_some_iff.1 h
  have hkey : e.1 = k := by simpa using List.find?_some he
  rw [← hkey]
  exact List.mem_of_find?_eq_some he

/-- A new value takes the place of the one with its key; of the others some may be given up. -/
theorem mem_of_mem_put (h : e ∈ (r.put k v).entries) :
    e = (k, v) ∨ (e ∈ r.entries ∧ e.1 ≠ k) := by
  rcases List.mem_cons.1 (List.mem_of_mem_take h) with rfl | hold
  · exact .inl rfl
  · obtain ⟨hmem, hkey⟩ := List.mem_filter.1 hold
    exact .inr ⟨hmem, of_decide_eq_true hkey⟩

theorem mem_of_mem_touch (h : e ∈ (r.touch k).entries) : e ∈ r.entries := by
  unfold touch at h
  split at h
  · next d hd =>
    rcases List.mem_cons.1 h with rfl | hold
    · exact List.mem_of_find?_eq_some hd
    · exact (List.mem_filter.1 hold).1
  · exact h

theorem size_touch_le (r : Recent κ α) (k : κ) : (r.touch k).size ≤ r.size := by
  unfold touch
  split
  · next d hd =>
    -- the entry that is put in front is one of those that are taken out
    have hkey : ¬ decide (d.1 ≠ k) = true := by simpa using List.find?_some hd
    exact List.length_filter_lt_length_iff_exists.2 ⟨d, List.mem_of_find?_eq_some hd, hkey⟩
  · exact Nat.le_refl _

@[simp] theorem capacity_touch (r : Recent κ α) (k : κ) : (r.touch k).capacity = r.capacity := by
  unfold touch
  split <;> rfl

@[simp] theorem capacity_put (r : Recent κ α) (k : κ) (v : α) :
    (r.put k v).capacity = r.capacity := rfl

end Recent

/-! ## Requests -/

/-- What is asked of a cache, and of its store. -/
inductive CacheRequest
  | insert (s : Snapshot)
  | find (turn : UInt64)
  | rejectWrites (rejects : Bool)

/-- Snapshots by turn, and whether a new one is refused. -/
structure SnapshotMap where
  get? : UInt64 → Option Snapshot := fun _ => none
  rejectsWrites : Bool := false

namespace SnapshotMap

/-- The snapshot that was accepted last for a turn is the one of the turn. -/
def serve (m : SnapshotMap) : CacheRequest → SnapshotMap
  | .insert s =>
    if m.rejectsWrites then m else { m with get? := Function.update m.get? s.epoch (some s) }
  | .find _ => m
  | .rejectWrites rejects => { m with rejectsWrites := rejects }

def serveAll (requests : List CacheRequest) : SnapshotMap := requests.foldl serve {}

end SnapshotMap

/-- Writes a record into the store in place. -/
def SnapshotStore.write (key value : List UInt8) : Change StoreError SnapshotStore Unit := do
  if (← get).rejectsWrites then throw (.writeFailed "write rejected")
  else modify fun store => { store with records := store.records.insert key value }

namespace SnapshotCache

/-- Stores a snapshot in place, then remembers it. Whatever the write leaves of the store stays. -/
def record (s : Snapshot) : Change Error SnapshotCache Unit := do
  let c ← get
  let (written, store) := SnapshotStore.write (Snapshot.storeKey s.epoch) s.stored c.store
  set { c with store }
  match written with
  | .ok () => modify fun c => { c with recent := c.recent.put s.epoch s }
  | .error e => throw (.ofSnapshotStore e)

/-- The cache that a request leaves behind, whether it fails or not. -/
def serve (c : SnapshotCache) : CacheRequest → SnapshotCache
  | .insert s => (record s c).2
  | .find turn => (c.find turn).2
  | .rejectWrites rejects => { c with store := { c.store with rejectsWrites := rejects } }

/-- A cache that has started with an empty store. -/
def serveAll (capacity : Nat) (requests : List CacheRequest) : SnapshotCache :=
  requests.foldl serve (ofStore capacity {})

/-! ## One request -/

variable {c : SnapshotCache} {m : SnapshotMap}

/-- An insertion fails where writes are refused, and there alone. -/
theorem insert_eq (c : SnapshotCache) (s : Snapshot) :
    c.insert s = if c.store.rejectsWrites
      then .error (.ofSnapshotStore (.writeFailed "write rejected"))
      else .ok { c with
        recent := c.recent.put s.epoch s
        store := { c.store with
          records := c.store.records.insert (Snapshot.storeKey s.epoch) s.stored } } := by
  unfold insert SnapshotStore.put
  by_cases hrejects : c.store.rejectsWrites
  · rw [if_pos hrejects, if_pos hrejects]
  · rw [if_neg hrejects, if_neg hrejects]

theorem write_eq (key value : List UInt8) (store : SnapshotStore) :
    SnapshotStore.write key value store = Change.outcome store (store.put key value) := by
  unfold SnapshotStore.write SnapshotStore.put
  rw [Change.get_bind]
  by_cases hrejects : store.rejectsWrites
  · rw [if_pos hrejects, if_pos hrejects]
    rfl
  · rw [if_neg hrejects, if_neg hrejects]
    rfl

/-- An insertion writes neither into memory nor into the store before it fails. -/
theorem record_eq (c : SnapshotCache) (s : Snapshot) :
    record s c = Change.outcome c (c.insert s) := by
  unfold record insert
  rw [Change.get_bind, write_eq]
  cases c.store.put (Snapshot.storeKey s.epoch) s.stored with
  | ok store => rfl
  | error e => rfl

theorem serve_insert (c : SnapshotCache) (s : Snapshot) :
    c.serve (.insert s) = if c.store.rejectsWrites then c else { c with
      recent := c.recent.put s.epoch s
      store := { c.store with
        records := c.store.records.insert (Snapshot.storeKey s.epoch) s.stored } } := by
  show (record s c).2 = _
  rw [record_eq, insert_eq]
  by_cases hrejects : c.store.rejectsWrites
  · rw [if_pos hrejects, if_pos hrejects]
    rfl
  · rw [if_neg hrejects, if_neg hrejects]
    rfl

/-- A lookup lets nothing into memory but its own answer. -/
theorem mem_recent_of_find {turn : UInt64} {e : UInt64 × Snapshot}
    (h : e ∈ (c.find turn).2.recent.entries) :
    e ∈ c.recent.entries ∨ (e.1 = turn ∧ (c.find turn).1 = .ok (some e.2)) := by
  revert h
  unfold find
  split
  · exact fun h => .inl (Recent.mem_of_mem_touch h)
  · dsimp only
    split
    · exact .inl
    · split
      · intro h
        rcases Recent.mem_of_mem_put h with rfl | ⟨hold, -⟩
        · exact .inr ⟨rfl, rfl⟩
        · exact .inl hold
      · exact .inl

/-- Memory has no more room than it was given, and does not outgrow it. -/
structure Bounded (room : Nat) (c : SnapshotCache) : Prop where
  capacity : c.recent.capacity = room
  size : c.recent.size ≤ room

theorem Bounded.put_recent {room : Nat} (h : c.Bounded room) (turn : UInt64) (s : Snapshot) :
    (c.recent.put turn s).capacity = room ∧ (c.recent.put turn s).size ≤ room := by
  have hsize := c.recent.size_put_le turn s
  rw [h.capacity] at hsize
  exact ⟨h.capacity, hsize⟩

theorem Bounded.serve {room : Nat} (h : c.Bounded room) (request : CacheRequest) :
    (c.serve request).Bounded room := by
  cases request with
  | insert s =>
    rw [serve_insert]
    split
    · exact h
    · exact ⟨(h.put_recent s.epoch s).1, (h.put_recent s.epoch s).2⟩
  | find turn =>
    show (c.find turn).2.Bounded room
    unfold find
    split
    · have hsize := c.recent.size_touch_le turn
      exact ⟨(Recent.capacity_touch _ _).trans h.capacity, Nat.le_trans hsize h.size⟩
    · dsimp only
      split
      · exact ⟨h.capacity, h.size⟩
      · split
        · next s _ => exact ⟨(h.put_recent turn s).1, (h.put_recent turn s).2⟩
        · exact ⟨h.capacity, h.size⟩
  | rejectWrites rejects => exact ⟨h.capacity, h.size⟩

/-- The store has the records of the snapshots in the map, and memory has some of these. -/
structure Mirrors (m : SnapshotMap) (c : SnapshotCache) : Prop where
  recent : ∀ e ∈ c.recent.entries, m.get? e.1 = some e.2
  store : ∀ turn, c.store.get? (Snapshot.storeKey turn) = (m.get? turn).map Snapshot.stored
  rejectsWrites : c.store.rejectsWrites = m.rejectsWrites
  storable : ∀ turn s, m.get? turn = some s → s.Storable

theorem Mirrors.holds (h : c.Mirrors m) : c.Holds fun turn s => m.get? turn = some s where
  recent turn s hs := h.recent (turn, s) (Recent.mem_of_get? hs)
  store turn bytes hbytes := by
    rw [h.store, Option.map_eq_some_iff] at hbytes
    obtain ⟨s, hs, rfl⟩ := hbytes
    exact ⟨s, hs, rfl⟩

/-- A lookup answers with what the map has, and leaves the store alone. -/
theorem Mirrors.find (h : c.Mirrors m) (turn : UInt64) :
    (c.find turn).1 = .ok (m.get? turn) ∧ (c.find turn).2.store = c.store := by
  obtain ⟨answer, c', hrun, -, hstore, hanswer⟩ := find_of_holds h.storable h.holds turn
  rw [hrun]
  refine ⟨?_, hstore⟩
  rcases hanswer with ⟨s, rfl, hs⟩ | ⟨rfl, hnone⟩
  · rw [hs]
  · -- what the store has no record of is not in the map
    rw [Stores, h.store, Option.isSome_map, Bool.not_eq_true, Option.isSome_eq_false_iff,
      Option.isNone_iff_eq_none] at hnone
    rw [hnone]

/-- Each request does to the map what it does to the cache. -/
theorem Mirrors.serve (h : c.Mirrors m) {request : CacheRequest}
    (hstorable : ∀ s, request = .insert s → s.Storable) :
    (c.serve request).Mirrors (m.serve request) := by
  cases request with
  | insert s =>
    show (c.serve (.insert s)).Mirrors (if m.rejectsWrites then m else _)
    rw [serve_insert, h.rejectsWrites]
    by_cases hrejects : m.rejectsWrites = true
    · rw [if_pos hrejects, if_pos hrejects]
      exact h
    · rw [if_neg hrejects, if_neg hrejects]
      constructor
      · -- memory gave up what it had for the turn
        intro e he
        rcases Recent.mem_of_mem_put he with rfl | ⟨hold, hne⟩
        · exact Function.update_self ..
        · exact (Function.update_of_ne hne ..).trans (h.recent e hold)
      · intro turn
        show (c.store.records.insert (Snapshot.storeKey s.epoch) s.stored).get?
          (Snapshot.storeKey turn) = (Function.update m.get? s.epoch (some s) turn).map _
        rw [Table.get?_insert]
        by_cases hturn : turn = s.epoch
        · rw [hturn, if_pos rfl, Function.update_self, Option.map_some]
        · rw [if_neg fun hkey => hturn (Snapshot.storeKey_inj hkey).symm,
            Function.update_of_ne hturn]
          exact h.store turn
      · exact h.rejectsWrites
      · intro turn u hu
        by_cases hturn : turn = s.epoch
        · subst hturn
          obtain rfl : s = u := by simpa using hu
          exact hstorable s rfl
        · exact h.storable turn u ((Function.update_of_ne hturn ..).symm.trans hu)
  | find turn =>
    obtain ⟨hanswer, hstore⟩ := h.find turn
    constructor
    · intro e he
      rcases mem_recent_of_find he with hold | ⟨hturn, hfound⟩
      · exact h.recent e hold
      · rw [hanswer, Except.ok.injEq] at hfound
        rw [hturn]
        exact hfound
    · intro t
      show (c.find turn).2.store.get? _ = _
      rw [hstore]
      exact h.store t
    · exact (congrArg SnapshotStore.rejectsWrites hstore).trans h.rejectsWrites
    · exact h.storable
  | rejectWrites rejects => exact ⟨h.recent, h.store, rfl, h.storable⟩

/-! ## Any number of requests -/

theorem bounded_serveAll (capacity : Nat) (requests : List CacheRequest) :
    (serveAll capacity requests).Bounded (max capacity 1) := by
  unfold serveAll
  induction requests using List.reverseRecOn with
  | nil => exact ⟨rfl, Nat.zero_le _⟩
  | append_singleton requests request ih =>
    rw [List.foldl_append]
    exact ih.serve request

theorem mirrors_serveAll (capacity : Nat) {requests : List CacheRequest}
    (hstorable : ∀ s, .insert s ∈ requests → s.Storable) :
    (serveAll capacity requests).Mirrors (.serveAll requests) := by
  unfold serveAll SnapshotMap.serveAll
  induction requests using List.reverseRecOn with
  | nil => exact ⟨by simp [ofStore, Recent.empty], fun _ => rfl, rfl, by simp⟩
  | append_singleton requests request ih =>
    rw [List.foldl_append, List.foldl_append]
    have hbefore := ih fun s hs => hstorable s (List.mem_append_left _ hs)
    apply hbefore.serve
    rintro s rfl
    exact hstorable s (List.mem_append_right _ (List.mem_singleton_self _))

/-- After any requests to a cache over an empty store a lookup answers with the snapshot that was
    accepted last for the turn, or with none if there was none. An insertion that fails, which is
    one whose write is refused, leaves memory and store as they were. Whatever is in memory is what
    its record in the store reads as, and memory keeps to its capacity. Snapshots have lists that
    can be counted by words. -/
theorem find_serveAll (capacity : Nat) {requests : List CacheRequest}
    (hstorable : ∀ s, .insert s ∈ requests → s.Storable) :
    let c := serveAll capacity requests
    let m := SnapshotMap.serveAll requests
    (∀ turn, (c.find turn).1 = .ok (m.get? turn))
      ∧ (∀ s, (∃ e, c.insert s = .error e) ↔ m.rejectsWrites = true)
      ∧ (∀ s, record s c = Change.outcome c (c.insert s))
      ∧ (∀ s e, c.insert s = .error e → c.serve (.insert s) = c)
      ∧ (∀ e ∈ c.recent.entries, ∃ bytes, c.store.get? (Snapshot.storeKey e.1) = some bytes
        ∧ Snapshot.ofStored (Snapshot.storeKey e.1) bytes = .ok e.2)
      ∧ c.recent.size ≤ max capacity 1 := by
  intro c m
  have hmirrors : c.Mirrors m := mirrors_serveAll capacity hstorable
  refine ⟨fun turn => (hmirrors.find turn).1, ?_, record_eq c, ?_, ?_,
    (bounded_serveAll capacity requests).size⟩
  · intro s
    rw [insert_eq, hmirrors.rejectsWrites]
    cases m.rejectsWrites <;> simp
  · intro s e hfailed
    show (record s c).2 = c
    rw [record_eq, hfailed]
    rfl
  · intro e he
    have hknown := hmirrors.recent e he
    refine ⟨e.2.stored, ?_, ?_⟩
    · rw [hmirrors.store, hknown, Option.map_some]
    · have hread := Snapshot.ofStored_stored (hmirrors.storable e.1 e.2 hknown)
        (Snapshot.storeKey e.1) []
      rwa [List.append_nil] at hread

/-! ## A memory with room for one -/

/-- The snapshot of a turn whose committee has a single member. -/
def sole (turn : UInt64) (member : Address) : Snapshot where
  epoch := turn
  publishedAt := 0
  publishedBy := .zero 32
  rank := [member]
  proportion := [10000]
  members := Table.empty.insert member ⟨member, 0, 0⟩
  accountBinding := .empty
  epochLength := 2
  blockInterval := 1

/-- The second turn drives the first one out of memory; another snapshot of the first is refused. -/
def crowded : List CacheRequest :=
  [.insert (sole 1 (.zero 20)), .insert (sole 2 (.zero 20)), .rejectWrites true,
    .insert (sole 1 ⟨List.replicate 20 0xff, rfl⟩), .find 2]

/-- The first turn is still answered with what was accepted for it. -/
theorem find_serveAll_crowded :
    (serveAll 1 crowded).recent.get? 1 = none
      ∧ (∀ s, .insert s ∈ crowded → s.Storable)
      ∧ ((serveAll 1 crowded).find 1).1 = .ok (some (sole 1 (.zero 20))) := by
  have hstorable : ∀ s, .insert s ∈ crowded → s.Storable := by
    intro s hs
    simp only [crowded, List.mem_cons, CacheRequest.insert.injEq, reduceCtorEq, List.not_mem_nil,
      false_or, or_false] at hs
    rcases hs with rfl | rfl | rfl
    all_goals exact ⟨by decide, by decide, by decide, by decide, by decide⟩
  obtain ⟨hfind, -⟩ := find_serveAll 1 hstorable
  exact ⟨by decide +kernel, hstorable, hfind 1⟩

end SnapshotCache

end CommitteeConsensus
