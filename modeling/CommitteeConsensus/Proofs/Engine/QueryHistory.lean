import CommitteeConsensus.Proofs.Engine.Governance

/-! # What queries leave in a cache

    A cache that was filled by queries on the chain knows exactly the turns that were asked for
    (`Filled.knows`). A later lookup answers for such a turn with what the chain publishes,
    whatever ancestors it is given; for any other turn it goes by its ancestors (`recalled`).
    So the ancestors are looked at last, and what they publish is overruled by what was asked
    before.
-/

namespace CommitteeConsensus

variable {config : Config} {chain : Chain} {turns : List UInt64} {cache : SnapshotCache}

/-! ## Queries -/

/-- The caches that successful queries on the chain leave behind, with the turns asked for. -/
inductive Filled (config : Config) (chain : Chain) : List UInt64 → SnapshotCache → Prop
  | start (capacity : Nat) : Filled config chain [] (.ofStore capacity {})
  | query {turns : List UInt64} {cache cache' : SnapshotCache} {turn : UInt64} {s : Snapshot} :
    Filled config chain turns cache →
    snapshotForTurn config chain [] turn cache = (.ok s, cache') →
    Filled config chain (turn :: turns) cache'

/-- What a query for one of the turns is answered with. -/
def Asked (config : Config) (chain : Chain) (turns : List UInt64) (turn : UInt64) (s : Snapshot) :
    Prop :=
  turn ∈ turns ∧ canonicalSnapshot config chain turn = .ok s

theorem Asked.storable {turn : UInt64} {s : Snapshot} (h : Asked config chain turns turn s) :
    s.Storable :=
  storable_of_freshSnapshot h.2

/-- The cache has all of these turns in its store, and holds only what satisfies `P`. -/
structure SnapshotCache.Knows (turns : List UInt64) (P : UInt64 → Snapshot → Prop)
    (cache : SnapshotCache) : Prop where
  holds : cache.Holds P
  writes : cache.store.rejectsWrites = false
  stores : ∀ t ∈ turns, cache.Stores t

theorem SnapshotCache.Knows.imp {P Q : UInt64 → Snapshot → Prop} (h : cache.Knows turns P)
    (hPQ : ∀ t s, P t s → Q t s) : cache.Knows turns Q where
  holds := h.holds.imp hPQ
  writes := h.writes
  stores := h.stores

theorem Filled.knows (h : Filled config chain turns cache) :
    cache.Knows turns (Asked config chain turns) := by
  induction h with
  | start capacity =>
    refine ⟨SnapshotCache.holds_ofStore_empty capacity, rfl, ?_⟩
    intro t ht
    simp at ht
  | @query turns cache cache' turn s _ hquery ih =>
    obtain ⟨result, c, hrun, hholds, hwrites, hstores, hresult⟩ :=
      snapshotForTurn_of_holds [] turn (Q := Asked config chain (turn :: turns))
        (fun t s hs => hs.storable) (fun t s hs => ⟨List.mem_cons_of_mem turn hs.1, hs.2⟩)
        ih.holds ih.writes fun g s _ _ hs => ⟨List.mem_cons_self, hs⟩
    rw [hquery] at hrun
    obtain ⟨rfl, rfl⟩ := Prod.mk.inj hrun
    -- the turn was known before, or its snapshot has been stored now
    have hturn : cache'.Stores turn := by
      rcases hresult with ⟨u, -, hu⟩ | ⟨hfresh, -, hkept⟩
      · exact hstores turn (ih.stores turn hu.1)
      · obtain ⟨g, canonical, hpub, -⟩ := freshSnapshot_eq_ok_iff.1 hfresh.symm
        have hcanonical : canonical = true := (publisher_nil_eq_ok_iff.1 hpub).2
        rw [hcanonical] at hpub
        exact hkept g s hpub rfl
    refine ⟨hholds, hwrites, ?_⟩
    intro t ht
    rcases List.mem_cons.1 ht with rfl | ht
    · exact hturn
    · exact hstores t (ih.stores t ht)

/-! ## Lookups after queries -/

/-- What a lookup answers after queries for `turns`. -/
def recalled (config : Config) (chain : Chain) (turns : List UInt64) (pending : List Header)
    (turn : UInt64) : Except Error Snapshot :=
  if turn ∈ turns then canonicalSnapshot config chain turn
  else freshSnapshot config chain pending turn

theorem Asked.recalled_eq {turn : UInt64} {s : Snapshot} (h : Asked config chain turns turn s)
    (pending : List Header) : recalled config chain turns pending turn = .ok s := by
  rw [recalled, if_pos h.1, h.2]

/-- Queries matter through the turn alone. -/
theorem recalled_congr {turns' : List UInt64} {pending : List Header} {turn : UInt64}
    (h : turn ∈ turns ↔ turn ∈ turns') :
    recalled config chain turns pending turn = recalled config chain turns' pending turn := by
  unfold recalled
  by_cases hturn : turn ∈ turns
  · rw [if_pos hturn, if_pos (h.1 hturn)]
  · rw [if_neg hturn, if_neg fun hturn' => hturn (h.2 hturn')]

/-- Where one of two caches alone was asked for the turn, it goes by the chain, and the other by
    the ancestors. -/
theorem recalled_bind_eq_iff {α : Type} {turns' : List UInt64} {pending : List Header}
    {turn : UInt64} (h : turn ∈ turns ↔ turn ∉ turns') (f : Snapshot → Except Error α) :
    (recalled config chain turns pending turn >>= f)
        = (recalled config chain turns' pending turn >>= f)
      ↔ (canonicalSnapshot config chain turn >>= f)
        = (freshSnapshot config chain pending turn >>= f) := by
  unfold recalled
  by_cases hturn : turn ∈ turns
  · rw [if_pos hturn, if_neg (h.1 hturn)]
  · have hturn' : turn ∈ turns' := Decidable.not_not.1 fun hnot => hturn (h.2 hnot)
    rw [if_neg hturn, if_pos hturn', eq_comm]

variable {P Q : UInt64 → Snapshot → Prop}

/-- A lookup answers as the queries and the ancestors say, when all that the cache holds for the
    turn does so too. -/
theorem snapshotForTurn_eq_recalled (pending : List Header) (turn : UInt64)
    (hP : ∀ t s, P t s → s.Storable) (hPQ : ∀ t s, P t s → Q t s) (h : cache.Knows turns P)
    (hrecalled : ∀ s, P turn s → recalled config chain turns pending turn = .ok s)
    (hfresh : ∀ s, turn ∉ turns → freshSnapshot config chain pending turn = .ok s → Q turn s) :
    ∃ cache', snapshotForTurn config chain pending turn cache
        = (recalled config chain turns pending turn, cache') ∧ cache'.Knows turns Q := by
  obtain ⟨result, cache', hrun, hholds, hwrites, hstores, hresult⟩ :=
    snapshotForTurn_of_holds pending turn hP hPQ h.holds h.writes
      fun g s hnone _ hs => hfresh s (fun ht => hnone (h.stores turn ht)) hs
  have hanswer : result = recalled config chain turns pending turn := by
    rcases hresult with ⟨s, rfl, hs⟩ | ⟨rfl, hnone, -⟩
    · exact (hrecalled s hs).symm
    · rw [recalled, if_neg fun ht => hnone (h.stores turn ht)]
  exact ⟨cache', hanswer ▸ hrun, hholds, hwrites, fun t ht => hstores t (h.stores t ht)⟩

/-- A turn that was asked for is governed by the chain, and any other by the ancestors first. -/
theorem Filled.governingSnapshot_fst (h : Filled config chain turns cache)
    (pending : List Header) (number : UInt64) :
    (governingSnapshot config chain pending number cache).1
      = recalled config chain turns pending (config.turnOf number) := by
  obtain ⟨cache', hrun, -⟩ := snapshotForTurn_eq_recalled pending (config.turnOf number)
    (Q := fun _ _ => True) (fun _ _ hs => hs.storable) (fun _ _ _ => trivial) h.knows
    (fun _ hs => hs.recalled_eq pending) fun _ _ _ => trivial
  rw [governingSnapshot, hrun]

/-- The ancestors matter to a lookup only where one of them publishes the committee. -/
theorem freshSnapshot_eq_canonicalSnapshot {pending : List Header} {turn : UInt64}
    (h : ∀ g ∈ pending, g.number ≠ config.publishingBlock turn) :
    freshSnapshot config chain pending turn = canonicalSnapshot config chain turn := by
  rw [← List.nil_append pending, freshSnapshot_append h, canonicalSnapshot]

end CommitteeConsensus
