import CommitteeConsensus.Node.Production
import CommitteeConsensus.Proofs.Node.Consistency

/-! # Snapshots and reorganisations

    A node keeps the snapshot of a turn when the chain itself first answers a query for the turn,
    and from then on it answers with that snapshot, also after the header that published it has
    lost its place on the chain. So the snapshots that a node answers with follow the chain up to
    the first query for a turn and no further (`snapshotForTurn_after`). A query whose pending
    ancestors publish the committee in the chain's place is answered too, but nothing is kept.

    The cache is described by what has been kept for each turn (`Remembers`): a lookup answers
    with it where there is something, and else with what the publisher gives
    (`snapshotForTurn_of_remembers`).
-/

namespace CommitteeConsensus

variable {config : Config} {chain : Chain} {pending : List Header} {turn : UInt64} {s : Snapshot}
  {cache : SnapshotCache} {memory : UInt64 → Option Snapshot}

/-! ## What is kept -/

/-- The snapshot that a query is answered with by the chain's own publisher. -/
def chainAnswer? (config : Config) (chain : Chain) (pending : List Header) (turn : UInt64) :
    Option Snapshot :=
  match publisher config chain pending turn with
  | .ok (h, true) => (publishedSnapshot config h turn).toOption
  | _ => none

theorem chainAnswer?_eq_some_iff : chainAnswer? config chain pending turn = some s ↔
    ∃ h, publisher config chain pending turn = .ok (h, true)
      ∧ publishedSnapshot config h turn = .ok s := by
  unfold chainAnswer?
  split
  · next h hpub => simp [hpub, toOption_eq_some_iff]
  · next hnot =>
    constructor
    · simp
    · rintro ⟨h, hpub, -⟩
      exact absurd hpub (hnot h)

/-- What the chain answers is made anew from its own publisher. -/
theorem chainAnswer?_eq_some_iff_fresh : chainAnswer? config chain pending turn = some s ↔
    ∃ h, publisher config chain pending turn = .ok (h, true)
      ∧ freshSnapshot config chain pending turn = .ok s := by
  rw [chainAnswer?_eq_some_iff]
  constructor
  · rintro ⟨h, hpub, hmade⟩
    exact ⟨h, hpub, freshSnapshot_eq_ok_iff.2 ⟨h, true, hpub, hmade⟩⟩
  · rintro ⟨h, hpub, hfresh⟩
    obtain ⟨g, _, hpub', hmade⟩ := freshSnapshot_eq_ok_iff.1 hfresh
    obtain ⟨rfl, -⟩ := Prod.mk.inj (Except.ok.inj (hpub'.symm.trans hpub))
    exact ⟨g, hpub, hmade⟩

/-- The cache has a snapshot for a turn exactly where the memory has, and no other. -/
structure SnapshotCache.Remembers (memory : UInt64 → Option Snapshot) (cache : SnapshotCache) :
    Prop where
  holds : cache.Holds fun t s => memory t = some s
  writes : cache.store.rejectsWrites = false
  stores : ∀ t s, memory t = some s → cache.Stores t
  storable : ∀ t s, memory t = some s → s.Storable

theorem remembers_ofStore_empty (capacity : Nat) :
    (SnapshotCache.ofStore capacity {}).Remembers fun _ => none where
  holds := SnapshotCache.holds_ofStore_empty capacity
  writes := rfl
  stores t s hs := by simp at hs
  storable t s hs := by simp at hs

/-- What is remembered after a query: what was remembered before, and for the turn that was asked
    for, if nothing was, what the chain answers. -/
def recollect (memory : UInt64 → Option Snapshot) (turn : UInt64) (answer : Option Snapshot) :
    UInt64 → Option Snapshot :=
  fun t => (memory t).or (if t = turn then answer else none)

theorem recollect_eq_some_iff {answer : Option Snapshot} {t : UInt64} :
    recollect memory turn answer t = some s
      ↔ memory t = some s ∨ (memory t = none ∧ t = turn ∧ answer = some s) := by
  rw [recollect, Option.or_eq_some_iff]
  by_cases ht : t = turn
  · simp [ht]
  · simp [ht]

theorem SnapshotCache.Remembers.memory_eq_none (hcache : cache.Remembers memory)
    (hnone : ¬ cache.Stores turn) : memory turn = none := by
  cases hmemory : memory turn with
  | none => rfl
  | some s => exact absurd (hcache.stores turn s hmemory) hnone

/-- A lookup answers with what is remembered, and else with what the publisher gives. -/
theorem snapshotForTurn_of_remembers (config : Config) (chain : Chain) (pending : List Header)
    (turn : UInt64) (hcache : cache.Remembers memory) :
    ∃ cache', snapshotForTurn config chain pending turn cache
        = ((memory turn).elim (freshSnapshot config chain pending turn) .ok, cache')
      ∧ cache'.Remembers (recollect memory turn (chainAnswer? config chain pending turn)) := by
  have hkeep : ∀ t s, memory t = some s →
      recollect memory turn (chainAnswer? config chain pending turn) t = some s := by
    intro t s hs
    exact recollect_eq_some_iff.2 (.inl hs)
  have hnew : ∀ g s, ¬ cache.Stores turn → publisher config chain pending turn = .ok (g, true) →
      freshSnapshot config chain pending turn = .ok s →
      recollect memory turn (chainAnswer? config chain pending turn) turn = some s := by
    intro g s hnone hpub hs
    have hanswer := chainAnswer?_eq_some_iff_fresh.2 ⟨g, hpub, hs⟩
    exact recollect_eq_some_iff.2 (.inr ⟨hcache.memory_eq_none hnone, rfl, hanswer⟩)
  obtain ⟨result, cache', hrun, hholds, hwrites, hstores, hresult⟩ :=
    snapshotForTurn_of_holds (P := fun t s => memory t = some s)
      (Q := fun t s =>
        recollect memory turn (chainAnswer? config chain pending turn) t = some s)
      pending turn hcache.storable hkeep hcache.holds hcache.writes hnew
  refine ⟨cache', ?_, hholds, hwrites, ?_, ?_⟩
  · rcases hresult with ⟨s, rfl, hs⟩ | ⟨rfl, hnone, -⟩
    · rw [hrun, hs, Option.elim_some]
    · rw [hrun, hcache.memory_eq_none hnone, Option.elim_none]
  · -- the store has the turns that it had, and the one that has been kept now
    intro t s hs
    rcases recollect_eq_some_iff.1 hs with hold | ⟨hold, rfl, hanswer⟩
    · exact hstores t (hcache.stores t s hold)
    · obtain ⟨h, hpub, hfresh⟩ := chainAnswer?_eq_some_iff_fresh.1 hanswer
      rcases hresult with ⟨u, -, hu⟩ | ⟨rfl, -, hkept⟩
      · simp [hold] at hu
      · exact hkept h s hpub hfresh
  · intro t s hs
    rcases recollect_eq_some_iff.1 hs with hold | ⟨-, rfl, hanswer⟩
    · exact hcache.storable t s hold
    · obtain ⟨h, -, hfresh⟩ := chainAnswer?_eq_some_iff_fresh.1 hanswer
      exact storable_of_freshSnapshot hfresh

namespace Node

variable {n : Node}

/-! ## Events -/

/-- What happens to a node between two answers: its chain grows or is reorganised, or it is asked
    for the snapshot of a turn, with or without pending ancestors. -/
inductive Event
  | insert (h : Header)
  | query (pending : List Header) (turn : UInt64)

namespace Event

/-- The node after the event. -/
def apply : Event → Node → Node
  | insert h, n => (insertHeader h n).2
  | query pending turn, n => (Node.snapshotForTurn pending turn n).2

def headers : Event → List Header
  | insert h => [h]
  | query pending _ => pending

/-- The snapshot that the chain itself gives to the turn, where the event is a query for it. -/
def answer? (config : Config) (chain : Chain) (turn : UInt64) : Event → Option Snapshot
  | insert _ => none
  | query pending t => if turn = t then chainAnswer? config chain pending t else none

theorem exists_query_of_answer {e : Event} (he : e.answer? config chain turn = some s) :
    ∃ pending, e = query pending turn ∧ chainAnswer? config chain pending turn = some s := by
  cases e with
  | insert h => simp [answer?] at he
  | query pending t =>
    simp only [answer?] at he
    split at he
    · next ht =>
      subst ht
      exact ⟨pending, rfl, he⟩
    · simp at he

end Event

/-- The node after the events. -/
def after (n : Node) (events : List Event) : Node := events.foldl (fun n e => e.apply n) n

/-- The node at the first query for the turn that the chain itself answers, or at the end, if it
    has answered none. -/
def settling (turn : UInt64) : Node → List Event → Node
  | n, [] => n
  | n, e :: events =>
    if (e.answer? n.config n.chain turn).isSome then n else settling turn (e.apply n) events

@[simp] theorem after_nil (n : Node) : n.after [] = n := rfl

@[simp] theorem after_cons (n : Node) (e : Event) (events : List Event) :
    n.after (e :: events) = (e.apply n).after events := rfl

theorem chain_apply_insert (h : Header) (n : Node) :
    ((Event.insert h).apply n).chain = n.chain.insert h := rfl

theorem config_apply (e : Event) (n : Node) : (e.apply n).config = n.config := by
  cases e <;> rfl

/-- Every canonical header was there at the start or was inserted. -/
theorem has_of_after {events : List Event} {g : Header} (hg : (n.after events).chain.Has g) :
    n.chain.Has g ∨ g ∈ events.flatMap Event.headers := by
  induction events generalizing n with
  | nil => exact .inl hg
  | cons e events ih =>
    rw [List.flatMap_cons, List.mem_append]
    rcases ih hg with hhas | hmem
    · cases e with
      | insert h =>
        rcases Chain.has_of_insert hhas with rfl | hhas
        · exact .inr (.inl List.mem_cons_self)
        · exact .inl hhas
      | query pending t => exact .inl hhas
    · exact .inr (.inr hmem)

/-- An event adds to what is remembered what the chain answers to it. -/
theorem remembers_apply (hn : n.snapshots.Remembers memory) (e : Event) :
    (e.apply n).snapshots.Remembers
      fun t => (memory t).or (e.answer? n.config n.chain t) := by
  cases e with
  | insert h =>
    have hsame : (fun t => (memory t).or ((Event.insert h).answer? n.config n.chain t))
        = memory := by
      funext t
      simp [Event.answer?]
    rw [hsame]
    exact hn
  | query pending t =>
    obtain ⟨cache', hrun, hcache'⟩ := snapshotForTurn_of_remembers n.config n.chain pending t hn
    have happly : ((Event.query pending t).apply n).snapshots = cache' := by
      rw [Event.apply, Node.snapshotForTurn, Step.ofLookup_apply, hrun]
    have hmemory : (fun u => (memory u).or ((Event.query pending t).answer? n.config n.chain u))
        = recollect memory t (chainAnswer? n.config n.chain pending t) := rfl
    rw [happly, hmemory]
    exact hcache'

theorem snapshotForTurn_fst_of_remembers (hn : n.snapshots.Remembers memory) (turn : UInt64) :
    (Node.snapshotForTurn [] turn n).1
      = ((memory turn).elim (canonicalSnapshot n.config n.chain turn) .ok).mapError .error := by
  obtain ⟨cache', hrun, -⟩ := snapshotForTurn_of_remembers n.config n.chain [] turn hn
  rw [Node.snapshotForTurn, Step.ofLookup_apply, hrun]
  rfl

/-! ## Runs -/

/-- What is remembered stays, whatever happens to the chain. -/
theorem snapshotForTurn_after_of_remembered {events : List Event}
    (hn : n.snapshots.Remembers memory) (hs : memory turn = some s) :
    (Node.snapshotForTurn [] turn (n.after events)).1 = .ok s := by
  induction events generalizing n memory with
  | nil =>
    rw [after_nil, snapshotForTurn_fst_of_remembers hn, hs]
    rfl
  | cons e events ih =>
    refine ih (remembers_apply hn e) ?_
    rw [hs, Option.some_or]

/-- A node that remembers nothing about a turn answers with what the chain gave to the query that
    settled it. -/
theorem chainAnswer?_of_after {events : List Event} (hn : n.snapshots.Remembers memory)
    (hmemory : memory turn = none)
    (hs : (Node.snapshotForTurn [] turn (n.after events)).1 = .ok s) :
    ∃ pending, (∀ g ∈ pending, g ∈ events.flatMap Event.headers)
      ∧ chainAnswer? n.config (n.settling turn events).chain pending turn = some s := by
  induction events generalizing n memory with
  | nil =>
    rw [after_nil, snapshotForTurn_fst_of_remembers hn, hmemory, Option.elim_none,
      mapError_eq_ok_iff, canonicalSnapshot_eq_ok_iff] at hs
    obtain ⟨h, hpub, hmade⟩ := hs
    refine ⟨[], by simp, chainAnswer?_eq_some_iff.2 ⟨h, ?_, hmade⟩⟩
    exact publisher_nil_eq_ok_iff.2 ⟨hpub, rfl⟩
  | cons e events ih =>
    rw [settling]
    cases hanswer : e.answer? n.config n.chain turn with
    | none =>
      rw [if_neg (by simp)]
      have hnone : (memory turn).or (e.answer? n.config n.chain turn) = none := by
        rw [hmemory, hanswer, Option.none_or]
      obtain ⟨pending, hpending, hchain⟩ := ih (remembers_apply hn e) hnone hs
      rw [config_apply] at hchain
      refine ⟨pending, ?_, hchain⟩
      intro g hg
      rw [List.flatMap_cons]
      exact List.mem_append_right _ (hpending g hg)
    | some u =>
      rw [if_pos (by simp)]
      -- this query settles the turn, and its answer is the answer from now on
      have hsome : (memory turn).or (e.answer? n.config n.chain turn) = some u := by
        rw [hmemory, hanswer, Option.none_or]
      have hsame : u = s := Except.ok.inj
        ((snapshotForTurn_after_of_remembered (remembers_apply hn e) hsome).symm.trans hs)
      obtain ⟨pending, rfl, hchain⟩ := Event.exists_query_of_answer hanswer
      refine ⟨pending, ?_, hsame ▸ hchain⟩
      intro g hg
      rw [List.flatMap_cons]
      exact List.mem_append_left _ hg

/-- A node starts with nothing in its cache. -/
theorem remembers_of_start {config : Config} {chain : Chain} {state : State} {clock : UInt64}
    (hstart : start config chain state clock = .ok n) :
    n.config = config ∧ n.chain = chain ∧ n.snapshots.Remembers fun _ => none := by
  unfold start at hstart
  obtain ⟨_, -, hnode⟩ := CommitteeConsensus.bind_eq_ok_iff.1 hstart
  rw [← Except.ok.inj hnode]
  exact ⟨rfl, rfl, remembers_ofStore_empty _⟩

/-- The query that settles a turn is asked after some of the events. -/
theorem settling_eq_after (n : Node) (turn : UInt64) (events : List Event) :
    ∃ before rest, events = before ++ rest ∧ n.settling turn events = n.after before := by
  induction events generalizing n with
  | nil => exact ⟨[], [], rfl, rfl⟩
  | cons e events ih =>
    rw [settling]
    split
    · exact ⟨[], e :: events, rfl, rfl⟩
    · obtain ⟨before, rest, rfl, hsettling⟩ := ih (e.apply n)
      exact ⟨e :: before, rest, rfl, hsettling⟩

theorem has_of_settling {events : List Event} {g : Header}
    (hg : (n.settling turn events).chain.Has g) :
    n.chain.Has g ∨ g ∈ events.flatMap Event.headers := by
  obtain ⟨before, rest, rfl, hsettling⟩ := settling_eq_after n turn events
  rw [hsettling] at hg
  rw [List.flatMap_append, List.mem_append]
  rcases has_of_after hg with hhas | hmem
  · exact .inl hhas
  · exact .inr (.inl hmem)

/-- A node answers with the snapshot that the chain published when the turn was settled. Its
    publisher is the canonical one for as long as that header is, and again when it is again. -/
theorem snapshotForTurn_after {state : State} {clock : UInt64} {events : List Event}
    (hstart : start config chain state clock = .ok n)
    (hs : (Node.snapshotForTurn [] turn (n.after events)).1 = .ok s) :
    ∃ h, canonicalPublisher? config (n.settling turn events).chain turn = some h
      ∧ s.publishedBy = h.hash
      ∧ (HashesIdentify (fun g => chain.Has g ∨ g ∈ events.flatMap Event.headers) →
        publishedSnapshot config h turn = .ok s
        ∧ ∀ g, canonicalPublisher? config (n.after events).chain turn = some g →
          (s.publishedBy = g.hash ↔ g = h)) := by
  obtain ⟨hconfig, hchain, hnothing⟩ := remembers_of_start hstart
  obtain ⟨pending, hpending, hanswer⟩ := chainAnswer?_of_after hnothing rfl hs
  rw [hconfig] at hanswer
  obtain ⟨p, hpub, hmade⟩ := chainAnswer?_eq_some_iff.1 hanswer
  obtain ⟨h, hcanonical, hsame, hp⟩ := exists_canonicalPublisher hpub
  have hby : s.publishedBy = h.hash := (publishedBy_of_publishedSnapshot hmade).trans hsame
  refine ⟨h, hcanonical, hby, ?_⟩
  intro hhash
  have hh : chain.Has h ∨ h ∈ events.flatMap Event.headers := by
    rw [← hchain]
    exact has_of_settling (has_of_canonicalPublisher? hcanonical)
  constructor
  · rcases hp with rfl | hp
    · exact hmade
    · rwa [hhash p h (.inr (hpending p hp)) hh hsame] at hmade
  · intro g hg
    have hknown : chain.Has g ∨ g ∈ events.flatMap Event.headers := by
      rw [← hchain]
      exact has_of_after (has_of_canonicalPublisher? hg)
    constructor
    · intro hgby
      exact hhash g h hknown hh (hgby.symm.trans hby)
    · intro heq
      rw [heq]
      exact hby

/-! ## A replaced committee -/

open Fork

/-- A node that has seen no header yet. -/
def bare : Node := { unasked with chain := {} }

/-- The chain's committee is asked for, and then the header that published it is replaced. -/
def replaced : List Event :=
  [.insert {}, .insert (epochEnd (.zero 20)), .query [] 1, .insert (epochEnd Lone.signer.address)]

theorem start_bare : start { epoch := 2, electionPeriod := 0 } {} {} 2 = .ok bare := by
  have hvalid : unasked.config.validate = .ok () := toOption_eq_some_iff.1 (by decide +kernel)
  unfold start
  exact (congrArg (· >>= _) hvalid).trans rfl

theorem canonicalPublisher?_replaced : canonicalPublisher? bare.config
    (bare.after replaced).chain 1 = some (epochEnd Lone.signer.address) := by
  have hnumber : bare.config.publishingBlock 1 = (epochEnd Lone.signer.address).number := by decide
  -- the last event inserts the header, whatever the chain was before
  rw [canonicalPublisher?, if_neg (by decide), hnumber, replaced, after_cons, after_cons, after_cons,
    after_cons, after_nil, chain_apply_insert]
  exact Chain.headerAt?_insert_self _ _

theorem hashesIdentify_replaced :
    HashesIdentify fun g => Chain.Has {} g ∨ g ∈ replaced.flatMap Event.headers := by
  refine hashesIdentify_headers.mono ?_
  rintro g (hg | hg)
  · exact absurd hg (Chain.not_has_empty g)
  · have hmem : g = {} ∨ g = epochEnd (.zero 20) ∨ g = epochEnd Lone.signer.address := by
      simpa [replaced, Event.headers] using hg
    rcases hmem with rfl | rfl | rfl
    · simp
    · simp
    · simp

theorem hash_epochEnd_ne :
    (epochEnd (.zero 20)).hash ≠ (epochEnd Lone.signer.address).hash := by
  intro hsame
  have hheaders : epochEnd (.zero 20) = epochEnd Lone.signer.address :=
    hashesIdentify_headers _ _ (by simp) (by simp) hsame
  -- they put different members into office
  exact absurd (congrArg Header.extra hheaders) (by decide +kernel)

theorem exists_answer_replaced : ∃ s n',
    Node.snapshotForTurn [] 1 (bare.after replaced) = (.ok s, n')
      ∧ decide (s.publishedBy = (epochEnd (.zero 20)).hash) = true :=
  Step.exists_outcome (by decide +kernel)

/-- The replaced header's committee is still the answer. -/
theorem publishedBy_ne_replaced :
    start { epoch := 2, electionPeriod := 0 } {} {} 2 = .ok bare
      ∧ ∃ s g, (Node.snapshotForTurn [] 1 (bare.after replaced)).1 = .ok s
        ∧ canonicalPublisher? bare.config (bare.after replaced).chain 1 = some g
        ∧ s.publishedBy ≠ g.hash := by
  obtain ⟨s, n', hs, hby⟩ := exists_answer_replaced
  refine ⟨start_bare, s, _, congrArg Prod.fst hs, canonicalPublisher?_replaced, ?_⟩
  rw [of_decide_eq_true hby]
  exact hash_epochEnd_ne

/-- The header that published it is the one that was canonical when the turn was settled. -/
theorem snapshotForTurn_after_replaced :
    start { epoch := 2, electionPeriod := 0 } {} {} 2 = .ok bare
      ∧ ∃ s h, (Node.snapshotForTurn [] 1 (bare.after replaced)).1 = .ok s
        ∧ canonicalPublisher? bare.config (bare.settling 1 replaced).chain 1 = some h
        ∧ s.publishedBy = h.hash
        ∧ publishedSnapshot bare.config h 1 = .ok s
        ∧ h ≠ epochEnd Lone.signer.address := by
  obtain ⟨s, n', hanswer, hby⟩ := exists_answer_replaced
  have hs : (Node.snapshotForTurn [] 1 (bare.after replaced)).1 = .ok s :=
    congrArg Prod.fst hanswer
  obtain ⟨h, hpub, hh, hrest⟩ := snapshotForTurn_after start_bare hs
  obtain ⟨hmade, -⟩ := hrest hashesIdentify_replaced
  refine ⟨start_bare, s, h, hs, hpub, hh, hmade, ?_⟩
  rintro rfl
  exact hash_epochEnd_ne ((of_decide_eq_true hby).symm.trans hh)

end Node

end CommitteeConsensus
