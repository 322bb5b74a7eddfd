import CommitteeConsensus.Proofs.Committee.Stored
import CommitteeConsensus.Proofs.Outcome
import CommitteeConsensus.Store.Cache

/-! # What a snapshot cache answers

    A cache is described by a relation `P` between turns and snapshots that everything it holds
    satisfies, in memory and in the store (`Holds`). A lookup answers with a snapshot that
    satisfies `P` when the turn is known and with none otherwise (`find_of_holds`), and neither
    a lookup nor an insertion lets in anything else.
-/

namespace CommitteeConsensus

/-! ## Memory -/

namespace Recent

variable {κ α : Type} [DecidableEq κ]

theorem find?_without_of_ne (r : Recent κ α) {k j : κ} (h : j ≠ k) :
    (r.without k).find? (fun e => e.1 = j) = r.entries.find? fun e => e.1 = j := by
  rw [without, List.find?_filter]
  congr
  funext e
  by_cases he : e.1 = j
  · simp [he, h]
  · simp [he]

/-- Touching a key changes only the order in which keys are given up. -/
theorem get?_touch (r : Recent κ α) (k j : κ) : (r.touch k).get? j = r.get? j := by
  unfold touch
  split
  · next e he =>
    have hkey : e.1 = k := by simpa using List.find?_some he
    by_cases hj : j = k
    · subst hj
      simp [get?, hkey, he]
    · have hne : ¬ e.1 = j := fun h => hj (h.symm.trans hkey)
      simp only [get?, List.find?_cons, hne, decide_false]
      rw [find?_without_of_ne r hj]
  · rfl

/-- What a memory knows after a value was put into it: the value, or what it knew before. -/
theorem get?_put {r : Recent κ α} {k j : κ} {v w : α} (h : (r.put k v).get? j = some w) :
    (j = k ∧ w = v) ∨ r.get? j = some w := by
  simp only [get?, put, Option.map_eq_some_iff] at h
  obtain ⟨e, he, rfl⟩ := h
  have hall := (List.take_prefix _ _).find?_eq_some he
  by_cases hj : j = k
  · subst hj
    simp only [List.find?_cons, decide_true, Option.some.injEq] at hall
    exact .inl ⟨rfl, by rw [← hall]⟩
  · have hne : ¬ k = j := fun h => hj h.symm
    simp only [List.find?_cons, hne, decide_false] at hall
    rw [find?_without_of_ne r hj] at hall
    exact .inr (by simp [get?, hall])

end Recent

/-! ## Store -/

/-- Turns have different keys. -/
theorem Snapshot.storeKey_inj {t u : UInt64} (h : storeKey t = storeKey u) : t = u := by
  have hbytes : bigEndian 8 t.toNat = bigEndian 8 u.toNat := List.append_cancel_left h
  have hnat := congrArg ofBigEndian hbytes
  rw [ofBigEndian_bigEndian t.toNat_lt, ofBigEndian_bigEndian u.toNat_lt] at hnat
  exact UInt64.toNat_inj.1 hnat

open Snapshot

namespace SnapshotCache

/-- Whether the store has a record for the turn. -/
def Stores (c : SnapshotCache) (turn : UInt64) : Prop := (c.store.get? (storeKey turn)).isSome

/-- Everything in the cache satisfies `P`. -/
structure Holds (P : UInt64 → Snapshot → Prop) (c : SnapshotCache) : Prop where
  recent : ∀ turn s, c.recent.get? turn = some s → P turn s
  store : ∀ turn bytes, c.store.get? (storeKey turn) = some bytes →
    ∃ s, P turn s ∧ bytes = s.stored

variable {P Q : UInt64 → Snapshot → Prop} {c : SnapshotCache}

theorem Holds.imp (h : c.Holds P) (hPQ : ∀ turn s, P turn s → Q turn s) : c.Holds Q where
  recent turn s hs := hPQ turn s (h.recent turn s hs)
  store turn bytes hbytes := by
    obtain ⟨s, hs, hstored⟩ := h.store turn bytes hbytes
    exact ⟨s, hPQ turn s hs, hstored⟩

theorem holds_ofStore_empty (capacity : Nat) : (ofStore capacity {}).Holds P where
  recent turn s hs := by simp [ofStore, Recent.get?, Recent.empty] at hs
  store turn bytes hbytes := by simp [ofStore, SnapshotStore.get?] at hbytes

/-- A value that the cache may hold stays one when it is put into memory. -/
theorem Holds.put_recent (h : c.Holds P) {turn : UInt64} {s : Snapshot} (hs : P turn s)
    {t : UInt64} {u : Snapshot} (hu : (c.recent.put turn s).get? t = some u) : P t u := by
  rcases Recent.get?_put hu with ⟨rfl, rfl⟩ | hu
  · exact hs
  · exact h.recent t u hu

/-- A lookup answers with a snapshot that the cache may hold, or the store has none. -/
theorem find_of_holds (hP : ∀ turn s, P turn s → s.Storable) (h : c.Holds P) (turn : UInt64) :
    ∃ answer c', c.find turn = (.ok answer, c') ∧ c'.Holds P ∧ c'.store = c.store
      ∧ ((∃ s, answer = some s ∧ P turn s) ∨ (answer = none ∧ ¬ c.Stores turn)) := by
  unfold find
  split
  · next s hs =>
    refine ⟨some s, _, rfl, ⟨?_, h.store⟩, rfl, .inl ⟨s, rfl, h.recent turn s hs⟩⟩
    intro t u hu
    rw [Recent.get?_touch] at hu
    exact h.recent t u hu
  · dsimp only
    split
    · next hbytes =>
      refine ⟨none, _, rfl, ⟨h.recent, h.store⟩, rfl, .inr ⟨rfl, ?_⟩⟩
      simp [Stores, hbytes]
    · next bytes hbytes =>
      -- what is stored is a snapshot, so its record can be read
      obtain ⟨s, hs, rfl⟩ := h.store turn bytes hbytes
      have hread := ofStored_stored (hP turn s hs) (storeKey turn) []
      rw [List.append_nil] at hread
      rw [hread]
      refine ⟨some s, _, rfl, ⟨?_, h.store⟩, rfl, .inl ⟨s, rfl, hs⟩⟩
      intro t u hu
      exact h.put_recent hs hu

/-- An insertion lets in the snapshot and nothing else. -/
theorem insert_of_holds (h : c.Holds P) (hwrites : c.store.rejectsWrites = false) {s : Snapshot}
    (hs : P s.epoch s) :
    ∃ c', c.insert s = .ok c' ∧ c'.Holds P ∧ c'.store.rejectsWrites = false
      ∧ ∀ t, c'.Stores t ↔ t = s.epoch ∨ c.Stores t := by
  have hget : ∀ t, (c.store.records.insert (storeKey s.epoch) s.stored).get? (storeKey t)
      = if t = s.epoch then some s.stored else c.store.get? (storeKey t) := by
    intro t
    rw [Table.get?_insert]
    by_cases ht : t = s.epoch
    · simp [ht]
    · have hkey : storeKey s.epoch ≠ storeKey t := fun hk => ht (storeKey_inj hk).symm
      rw [if_neg hkey, if_neg ht, SnapshotStore.get?]
  have hinsert : c.insert s = .ok { c with
      recent := c.recent.put s.epoch s
      store := { c.store with
        records := c.store.records.insert (storeKey s.epoch) s.stored } } := by
    simp [insert, SnapshotStore.put, hwrites]
  -- memory, store and the turns that the store has
  refine ⟨_, hinsert, ⟨?_, ?_⟩, hwrites, ?_⟩
  · intro t u hu
    exact h.put_recent hs hu
  · intro t bytes hbytes
    rw [SnapshotStore.get?, hget] at hbytes
    by_cases ht : t = s.epoch
    · simp only [ht, if_true, Option.some.injEq] at hbytes
      exact ⟨s, ht ▸ hs, hbytes.symm⟩
    · rw [if_neg ht] at hbytes
      exact h.store t bytes hbytes
  · intro t
    rw [Stores, SnapshotStore.get?, hget]
    by_cases ht : t = s.epoch <;> simp [ht, Stores]

/-- Where it succeeds, the store takes writes, so nothing need be known of the store. -/
theorem holds_of_insert (h : c.Holds P) {c' : SnapshotCache} {s : Snapshot} (hs : P s.epoch s)
    (hinsert : c.insert s = .ok c') : c'.Holds P := by
  cases hwrites : c.store.rejectsWrites with
  | true => simp [insert, SnapshotStore.put, hwrites] at hinsert
  | false =>
    obtain ⟨inserted, hrun, hheld, -⟩ := insert_of_holds h hwrites hs
    obtain rfl : inserted = c' := Except.ok.inj (hrun.symm.trans hinsert)
    exact hheld

end SnapshotCache

end CommitteeConsensus
