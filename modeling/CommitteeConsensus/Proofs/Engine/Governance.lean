import CommitteeConsensus.Engine.Governance
import CommitteeConsensus.Proofs.Chain.ExtraData
import CommitteeConsensus.Proofs.Chain.Index
import CommitteeConsensus.Proofs.Committee.Snapshot
import CommitteeConsensus.Proofs.Store.Cache

/-! # Lookups answer with the committee that the chain publishes

    `freshSnapshot` makes the snapshot of a turn from its publisher without asking the cache, and
    `canonicalSnapshot` does so from the chain alone. A cache that agrees with the chain changes
    nothing about what a lookup on the chain answers (`snapshotForTurn_nil`); with pending
    ancestors it decides between the two (`snapshotForTurn_of_holds`).
-/

namespace CommitteeConsensus

variable {config : Config} {chain : Chain}

/-! ## Publishers -/

/-- The snapshot of a turn, made from the header that publishes its committee. -/
def freshSnapshot (config : Config) (chain : Chain) (pending : List Header) (turn : UInt64) :
    Except Error Snapshot := do
  let (h, _) ← publisher config chain pending turn
  publishedSnapshot config h turn

/-- The snapshot that the chain gives to a turn. -/
def canonicalSnapshot (config : Config) (chain : Chain) (turn : UInt64) : Except Error Snapshot :=
  freshSnapshot config chain [] turn

theorem publishedSnapshot_eq_ok_iff {h : Header} {turn : UInt64} {s : Snapshot} :
    publishedSnapshot config h turn = .ok s ↔ ∃ x, ExtraData.decode h.extra = .ok x
      ∧ Snapshot.ofRecord config h.number h.hash turn x.committee = .ok s := by
  rw [publishedSnapshot, bind_eq_ok_iff]

theorem freshSnapshot_eq_ok_iff {pending : List Header} {turn : UInt64} {s : Snapshot} :
    freshSnapshot config chain pending turn = .ok s ↔ ∃ h canonical,
      publisher config chain pending turn = .ok (h, canonical)
        ∧ publishedSnapshot config h turn = .ok s := by
  rw [freshSnapshot, bind_eq_ok_iff]
  constructor
  · rintro ⟨⟨h, canonical⟩, hpub, hs⟩
    exact ⟨h, canonical, hpub, hs⟩
  · rintro ⟨h, canonical, hpub, hs⟩
    exact ⟨(h, canonical), hpub, hs⟩

/-- The publisher of a turn is the header that its snapshot is made from. -/
theorem publishedSnapshot_of_publisher {pending : List Header} {turn : UInt64} {h : Header}
    {canonical : Bool} {s : Snapshot}
    (hpub : publisher config chain pending turn = .ok (h, canonical))
    (hs : freshSnapshot config chain pending turn = .ok s) :
    publishedSnapshot config h turn = .ok s := by
  rw [← hs, freshSnapshot, hpub, ok_bind]

/-- Every snapshot is made from a record that some header published. -/
theorem ofRecord_of_freshSnapshot {pending : List Header} {turn : UInt64} {s : Snapshot}
    (h : freshSnapshot config chain pending turn = .ok s) :
    ∃ publishedAt publishedBy r,
      Snapshot.ofRecord config publishedAt publishedBy turn r = .ok s := by
  obtain ⟨g, _, -, hs⟩ := freshSnapshot_eq_ok_iff.1 h
  obtain ⟨x, -, hrecord⟩ := publishedSnapshot_eq_ok_iff.1 hs
  exact ⟨g.number, g.hash, x.committee, hrecord⟩

theorem epoch_of_freshSnapshot {pending : List Header} {turn : UInt64} {s : Snapshot}
    (h : freshSnapshot config chain pending turn = .ok s) : s.epoch = turn := by
  obtain ⟨_, _, _, hrecord⟩ := ofRecord_of_freshSnapshot h
  obtain ⟨-, rfl⟩ := Snapshot.ofRecord_eq_ok_iff.1 hrecord
  rfl

theorem storable_of_freshSnapshot {pending : List Header} {turn : UInt64} {s : Snapshot}
    (h : freshSnapshot config chain pending turn = .ok s) : s.Storable := by
  obtain ⟨g, _, -, hs⟩ := freshSnapshot_eq_ok_iff.1 h
  obtain ⟨x, hx, hrecord⟩ := publishedSnapshot_eq_ok_iff.1 hs
  obtain ⟨hsize, hlists⟩ := ExtraData.decode_accountBinding hx
  exact Snapshot.storable_ofRecord hrecord hsize hlists

theorem publisher_of_findHeader? {pending : List Header} {turn : UInt64} {found : Header × Bool}
    (hturn : config.usesGenesisCommittee turn = false)
    (hfound : findHeader? chain pending (config.publishingBlock turn) = some found) :
    publisher config chain pending turn = .ok found := by
  unfold publisher
  rw [hturn, hfound]
  rfl

/-- Ancestors that do not publish the committee of a turn change nothing about its snapshot. -/
theorem freshSnapshot_append {pending between : List Header} {turn : UInt64}
    (h : ∀ g ∈ between, g.number ≠ config.publishingBlock turn) :
    freshSnapshot config chain (pending ++ between) turn
      = freshSnapshot config chain pending turn := by
  have hfind : findHeader? chain (pending ++ between) (config.publishingBlock turn)
      = findHeader? chain pending (config.publishingBlock turn) := by
    have hnone : between.reverse.find? (fun g => g.number = config.publishingBlock turn)
        = none := by
      rw [List.find?_eq_none]
      intro g hg
      simpa using h g (List.mem_reverse.1 hg)
    unfold findHeader?
    rw [List.reverse_append, List.find?_append, hnone, Option.none_or]
  unfold freshSnapshot publisher
  rw [hfind]

/-! ## The chain's own publishers -/

/-- The canonical header that publishes the committee of a turn. -/
def canonicalPublisher? (config : Config) (chain : Chain) (turn : UInt64) : Option Header :=
  if config.usesGenesisCommittee turn then chain.genesis?
  else chain.headerAt? (config.publishingBlock turn)

theorem has_of_canonicalPublisher? {turn : UInt64} {h : Header}
    (hpub : canonicalPublisher? config chain turn = some h) : chain.Has h := by
  unfold canonicalPublisher? at hpub
  split at hpub
  · exact ⟨0, hpub⟩
  · exact ⟨_, hpub⟩

/-- Without pending ancestors the publisher is the canonical one. -/
theorem publisher_nil_eq_ok_iff {turn : UInt64} {h : Header} {canonical : Bool} :
    publisher config chain [] turn = .ok (h, canonical)
      ↔ canonicalPublisher? config chain turn = some h ∧ canonical = true := by
  unfold publisher canonicalPublisher?
  by_cases hgenesis : config.usesGenesisCommittee turn
  · rw [if_pos hgenesis, if_pos hgenesis]
    cases chain.genesis? <;> simp [eq_comm]
  · rw [if_neg hgenesis, if_neg hgenesis]
    simp only [findHeader?, List.reverse_nil, List.find?_nil]
    cases chain.headerAt? (config.publishingBlock turn) <;> simp [eq_comm]

theorem canonicalSnapshot_eq_ok_iff {turn : UInt64} {s : Snapshot} :
    canonicalSnapshot config chain turn = .ok s ↔ ∃ h,
      canonicalPublisher? config chain turn = some h ∧ publishedSnapshot config h turn = .ok s := by
  rw [canonicalSnapshot, freshSnapshot_eq_ok_iff]
  constructor
  · rintro ⟨h, canonical, hpub, hs⟩
    exact ⟨h, (publisher_nil_eq_ok_iff.1 hpub).1, hs⟩
  · rintro ⟨h, hpub, hs⟩
    exact ⟨h, true, publisher_nil_eq_ok_iff.2 ⟨hpub, rfl⟩, hs⟩

theorem publishedBy_of_publishedSnapshot {h : Header} {turn : UInt64} {s : Snapshot}
    (hs : publishedSnapshot config h turn = .ok s) : s.publishedBy = h.hash := by
  obtain ⟨x, -, hrecord⟩ := publishedSnapshot_eq_ok_iff.1 hs
  obtain ⟨-, rfl⟩ := Snapshot.ofRecord_eq_ok_iff.1 hrecord
  rfl

/-- A publisher that counts as the chain's is the canonical one, or a pending header that has its
    hash. -/
theorem exists_canonicalPublisher {pending : List Header} {turn : UInt64} {g : Header}
    (hpub : publisher config chain pending turn = .ok (g, true)) :
    ∃ h, canonicalPublisher? config chain turn = some h ∧ g.hash = h.hash
      ∧ (g = h ∨ g ∈ pending) := by
  unfold publisher at hpub
  unfold canonicalPublisher?
  by_cases hgenesis : config.usesGenesisCommittee turn
  · rw [if_pos hgenesis] at hpub ⊢
    split at hpub
    · next h hh =>
      obtain ⟨rfl, -⟩ := Prod.mk.inj (Except.ok.inj hpub)
      exact ⟨h, hh, rfl, .inl rfl⟩
    · simp at hpub
  · rw [if_neg hgenesis] at hpub ⊢
    split at hpub
    · next found hfound =>
      obtain rfl : found = (g, true) := Except.ok.inj hpub
      unfold findHeader? at hfound
      dsimp only at hfound
      split at hfound
      · next h hh =>
        simp only [Option.some.injEq, Prod.mk.injEq, Option.any_eq_true, decide_eq_true_eq]
          at hfound
        obtain ⟨rfl, onChain, hat, hsame⟩ := hfound
        exact ⟨onChain, hat, hsame.symm, .inr (List.mem_reverse.1 (List.mem_of_find?_eq_some hh))⟩
      · exact ⟨g, by simpa using hfound, rfl, .inl rfl⟩
    · simp at hpub

theorem canonicalPublisher?_of_publisher {pending : List Header} {turn : UInt64} {g : Header}
    (hhash : HashesIdentify fun h => h ∈ pending ∨ chain.Has h)
    (hpub : publisher config chain pending turn = .ok (g, true)) :
    canonicalPublisher? config chain turn = some g := by
  obtain ⟨h, hcanonical, hsame, rfl | hpending⟩ := exists_canonicalPublisher hpub
  · exact hcanonical
  · have hhas : chain.Has h := has_of_canonicalPublisher? hcanonical
    rw [hcanonical, hhash g h (.inl hpending) (.inr hhas) hsame]

/-! ## Lookups -/

/-- The cache holds nothing but what the chain publishes. -/
def SnapshotCache.Agrees (config : Config) (chain : Chain) (c : SnapshotCache) : Prop :=
  c.Holds fun turn s => canonicalSnapshot config chain turn = .ok s

variable {P Q : UInt64 → Snapshot → Prop} {cache : SnapshotCache}

/-- A snapshot that was made and not kept leaves the cache as the search left it. -/
theorem snapshotForTurn_of_not_kept {pending : List Header} {turn : UInt64} {c : SnapshotCache}
    (hfind : cache.find turn = (.ok none, c))
    (hkept : ¬ ∃ g s, publisher config chain pending turn = .ok (g, true)
      ∧ freshSnapshot config chain pending turn = .ok s) :
    snapshotForTurn config chain pending turn cache
      = (freshSnapshot config chain pending turn, c) := by
  unfold snapshotForTurn
  rw [hfind]
  cases hpub : publisher config chain pending turn with
  | error e => rw [freshSnapshot, hpub, error_bind]
  | ok found =>
    obtain ⟨g, canonical⟩ := found
    have hmade : freshSnapshot config chain pending turn = publishedSnapshot config g turn := by
      rw [freshSnapshot, hpub, ok_bind]
    rw [hmade]
    cases hs : publishedSnapshot config g turn with
    | error e => simp only [hs]
    | ok s =>
      cases canonical with
      | false => simp [hs]
      | true => exact absurd ⟨g, s, hpub, hmade.trans hs⟩ hkept

/-- A known turn is answered from the cache, and its publisher is not looked for. -/
theorem snapshotForTurn_of_known {pending : List Header} {turn : UInt64} {c : SnapshotCache}
    {s : Snapshot} (hfind : cache.find turn = (.ok (some s), c)) :
    snapshotForTurn config chain pending turn cache = (.ok s, c) := by
  unfold snapshotForTurn
  rw [hfind]

/-- A snapshot whose publisher is the chain's is kept. -/
theorem snapshotForTurn_of_kept {pending : List Header} {turn : UInt64} {c c' : SnapshotCache}
    {g : Header} {s : Snapshot} (hfind : cache.find turn = (.ok none, c))
    (hpub : publisher config chain pending turn = .ok (g, true))
    (hs : freshSnapshot config chain pending turn = .ok s) (hinsert : c.insert s = .ok c') :
    snapshotForTurn config chain pending turn cache = (.ok s, c') := by
  have hmade := publishedSnapshot_of_publisher hpub hs
  unfold snapshotForTurn
  rw [hfind]
  simp only [hpub, hmade, if_true, hinsert]

/-- One that the store refuses is not used at all. -/
theorem snapshotForTurn_of_refused {pending : List Header} {turn : UInt64} {c : SnapshotCache}
    {g : Header} {s : Snapshot} {e : Error} (hfind : cache.find turn = (.ok none, c))
    (hpub : publisher config chain pending turn = .ok (g, true))
    (hs : freshSnapshot config chain pending turn = .ok s) (hinsert : c.insert s = .error e) :
    snapshotForTurn config chain pending turn cache = (.error e, c) := by
  have hmade := publishedSnapshot_of_publisher hpub hs
  unfold snapshotForTurn
  rw [hfind]
  simp only [hpub, hmade, if_true, hinsert]

/-- A lookup answers with a snapshot that the cache holds, or, where the store has none, with
    the one that the publisher gives. What it leaves behind holds nothing new, apart from that
    snapshot where the publisher is the chain's. -/
theorem snapshotForTurn_of_holds (pending : List Header) (turn : UInt64)
    (hP : ∀ t s, P t s → s.Storable) (hPQ : ∀ t s, P t s → Q t s) (h : cache.Holds P)
    (hwrites : cache.store.rejectsWrites = false)
    (hfresh : ∀ g s, ¬ cache.Stores turn → publisher config chain pending turn = .ok (g, true) →
      freshSnapshot config chain pending turn = .ok s → Q turn s) :
    ∃ result cache', snapshotForTurn config chain pending turn cache = (result, cache')
      ∧ cache'.Holds Q ∧ cache'.store.rejectsWrites = false
      ∧ (∀ t, cache.Stores t → cache'.Stores t)
      ∧ ((∃ s, result = .ok s ∧ P turn s)
        ∨ (result = freshSnapshot config chain pending turn ∧ ¬ cache.Stores turn
          ∧ ∀ g s, publisher config chain pending turn = .ok (g, true) → result = .ok s →
            cache'.Stores turn)) := by
  obtain ⟨answer, c, hfind, hc, hstore, hanswer⟩ := SnapshotCache.find_of_holds hP h turn
  have hcQ : c.Holds Q := hc.imp hPQ
  have hstores : ∀ t, cache.Stores t → c.Stores t := by
    intro t ht
    rwa [SnapshotCache.Stores, hstore]
  have hcwrites : c.store.rejectsWrites = false := by rw [hstore, hwrites]
  rcases hanswer with ⟨s, rfl, hs⟩ | ⟨rfl, hnone⟩
  · exact ⟨_, c, snapshotForTurn_of_known hfind, hcQ, hcwrites, hstores, .inl ⟨s, rfl, hs⟩⟩
  · by_cases hkept : ∃ g s, publisher config chain pending turn = .ok (g, true)
        ∧ freshSnapshot config chain pending turn = .ok s
    · obtain ⟨g, s, hpub, hs⟩ := hkept
      have hepoch : s.epoch = turn := epoch_of_freshSnapshot hs
      have hQs : Q s.epoch s := hepoch ▸ hfresh g s hnone hpub hs
      obtain ⟨c', hinsert, hc', hwrites', hstores'⟩ :=
        SnapshotCache.insert_of_holds hcQ hcwrites hQs
      refine ⟨_, c', snapshotForTurn_of_kept hfind hpub hs hinsert, hc', hwrites', ?_,
        .inr ⟨hs.symm, hnone, ?_⟩⟩
      · intro t ht
        exact (hstores' t).2 (.inr (hstores t ht))
      · intro _ _ _ _
        exact (hstores' turn).2 (.inl hepoch.symm)
    · refine ⟨_, c, snapshotForTurn_of_not_kept hfind hkept, hcQ, hcwrites, hstores,
        .inr ⟨rfl, hnone, ?_⟩⟩
      intro g s hpub hs
      exact absurd ⟨g, s, hpub, hs⟩ hkept

/-- Even where the store refuses writes, a lookup answers with what the cache holds or the publisher
    gives, and leaves nothing else behind. -/
theorem snapshotForTurn_holds (pending : List Header) (turn : UInt64)
    (hP : ∀ t s, P t s → s.Storable) (h : cache.Holds P)
    (hfresh : ∀ s, freshSnapshot config chain pending turn = .ok s → P turn s) :
    (snapshotForTurn config chain pending turn cache).2.Holds P
      ∧ ∀ s, (snapshotForTurn config chain pending turn cache).1 = .ok s → P turn s := by
  obtain ⟨answer, c, hfind, hc, -, hanswer⟩ := SnapshotCache.find_of_holds hP h turn
  rcases hanswer with ⟨s, rfl, hs⟩ | ⟨rfl, -⟩
  · rw [snapshotForTurn_of_known hfind]
    exact ⟨hc, fun u hu => Except.ok.inj hu ▸ hs⟩
  · by_cases hkept : ∃ g s, publisher config chain pending turn = .ok (g, true)
        ∧ freshSnapshot config chain pending turn = .ok s
    · obtain ⟨g, s, hpub, hs⟩ := hkept
      have hPs : P s.epoch s := by
        rw [epoch_of_freshSnapshot hs]
        exact hfresh s hs
      cases hinsert : c.insert s with
      | ok c' =>
        rw [snapshotForTurn_of_kept hfind hpub hs hinsert]
        exact ⟨SnapshotCache.holds_of_insert hc hPs hinsert,
          fun u hu => hfresh u (hs.trans hu)⟩
      | error e =>
        rw [snapshotForTurn_of_refused hfind hpub hs hinsert]
        exact ⟨hc, fun u hu => by simp at hu⟩
    · rw [snapshotForTurn_of_not_kept hfind hkept]
      exact ⟨hc, hfresh⟩

/-- On the chain itself a lookup answers with what the chain publishes, whatever is cached. -/
theorem snapshotForTurn_nil (h : cache.Agrees config chain)
    (hwrites : cache.store.rejectsWrites = false) (turn : UInt64) :
    ∃ cache', snapshotForTurn config chain [] turn cache
        = (canonicalSnapshot config chain turn, cache')
      ∧ cache'.Agrees config chain ∧ cache'.store.rejectsWrites = false := by
  obtain ⟨result, cache', hrun, hagrees, hwrites', -, hresult⟩ :=
    snapshotForTurn_of_holds [] turn (fun t s hs => storable_of_freshSnapshot hs)
      (fun t s hs => hs) h hwrites fun g s _ _ hs => hs
  have hcanonical : result = canonicalSnapshot config chain turn := by
    rcases hresult with ⟨s, hs, hPs⟩ | ⟨hs, -⟩
    · rw [hs]
      exact hPs.symm
    · exact hs
  exact ⟨cache', hcanonical ▸ hrun, hagrees, hwrites'⟩

/-- With pending ancestors a cache that agrees with the chain goes on to do so, as far as hashes
    tell headers apart. The answer is the chain's where it is known, and else the publisher's. -/
theorem snapshotForTurn_of_agrees (pending : List Header) (turn : UInt64)
    (hhash : HashesIdentify fun h => h ∈ pending ∨ chain.Has h)
    (h : cache.Agrees config chain) (hwrites : cache.store.rejectsWrites = false) :
    ∃ result cache', snapshotForTurn config chain pending turn cache = (result, cache')
      ∧ cache'.Agrees config chain ∧ cache'.store.rejectsWrites = false
      ∧ ((∃ s, result = .ok s ∧ canonicalSnapshot config chain turn = .ok s)
        ∨ result = freshSnapshot config chain pending turn) := by
  obtain ⟨result, cache', hrun, hagrees, hwrites', -, hresult⟩ :=
    snapshotForTurn_of_holds (P := fun t s => canonicalSnapshot config chain t = .ok s)
      (Q := fun t s => canonicalSnapshot config chain t = .ok s) pending turn
      (fun t s hs => storable_of_freshSnapshot hs) (fun t s hs => hs) h hwrites (by
        -- only what the chain itself publishes is kept
        intro g s _ hpub hs
        exact canonicalSnapshot_eq_ok_iff.2 ⟨g, canonicalPublisher?_of_publisher hhash hpub,
          publishedSnapshot_of_publisher hpub hs⟩)
  refine ⟨result, cache', hrun, hagrees, hwrites', ?_⟩
  rcases hresult with hknown | ⟨hfresh, -⟩
  · exact .inl hknown
  · exact .inr hfresh

theorem governingSnapshot_nil (h : cache.Agrees config chain)
    (hwrites : cache.store.rejectsWrites = false) (number : UInt64) :
    ∃ cache', governingSnapshot config chain [] number cache
        = (canonicalSnapshot config chain (config.turnOf number), cache')
      ∧ cache'.Agrees config chain ∧ cache'.store.rejectsWrites = false :=
  snapshotForTurn_nil h hwrites (config.turnOf number)

/-! ## Caches of built snapshots -/

/-- The snapshot was made under the configuration, for the turn and from some record. -/
structure Snapshot.Built (config : Config) (turn : UInt64) (s : Snapshot) : Prop where
  storable : s.Storable
  made : ∃ publishedAt publishedBy r,
    Snapshot.ofRecord config publishedAt publishedBy turn r = .ok s

/-- A cache of built snapshots answers with built ones, whoever publishes them, and keeps no
    others. -/
theorem governingSnapshot_of_built (chain : Chain) (pending : List Header) (number : UInt64)
    (h : cache.Holds (Snapshot.Built config)) :
    (governingSnapshot config chain pending number cache).2.Holds (Snapshot.Built config)
      ∧ ∀ s, (governingSnapshot config chain pending number cache).1 = .ok s →
        s.Built config (config.turnOf number) :=
  snapshotForTurn_holds pending (config.turnOf number) (fun _ _ hs => hs.storable) h
    fun _ hs => ⟨storable_of_freshSnapshot hs, ofRecord_of_freshSnapshot hs⟩

end CommitteeConsensus
