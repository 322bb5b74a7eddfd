import CommitteeConsensus.Node.Batch
import CommitteeConsensus.Proofs.Node.Acceptance
import CommitteeConsensus.Proofs.Node.Disagreement

/-! # Verification leaves no trace

    A header that is only verified does not change what a node answers. Verification makes
    snapshots from headers that nobody has imported yet, but it keeps such a snapshot only where
    the chain has the same header; so a cache that agrees with the chain still does so after any
    batch, wherever the batch was aborted (`Standing.verifyRest`). What is asked of the chain
    afterwards is answered as before (`verifyHeaders_leaves_no_trace`).
-/

namespace CommitteeConsensus

variable {config : Config} {chain : Chain} {pending : List Header} {h : Header}
  {cache : SnapshotCache}

/-! ## One header -/

/-- A verification reaches its verdict with what a lookup answers, and the cache that it leaves
    behind agrees with the chain as before. -/
theorem verifyHeader_of_agrees (now : UInt64) (withSeal : Bool)
    (hhash : HashesIdentify fun g => g ∈ pending ∨ chain.Has g)
    (hcache : cache.Agrees config chain) (hwrites : cache.store.rejectsWrites = false) :
    ∃ snapshot cache', verifyHeader config chain now pending h withSeal cache
        = (verdict config chain now pending h withSeal snapshot, cache')
      ∧ cache'.Agrees config chain ∧ cache'.store.rejectsWrites = false
      ∧ ((∃ s, snapshot = .ok s ∧ canonicalSnapshot config chain (config.turnOf h.number) = .ok s)
        ∨ snapshot = freshSnapshot config chain pending (config.turnOf h.number)) := by
  by_cases hsought : ∃ parent, checkHeader config chain now pending h = .ok parent ∧ withSeal = true
  · obtain ⟨parent, hcheck, rfl⟩ := hsought
    obtain ⟨snapshot, cache', hlookup, hagrees, hwrites', hanswer⟩ :=
      snapshotForTurn_of_agrees pending (config.turnOf h.number) hhash hcache hwrites
    exact ⟨snapshot, cache', verifyHeader_of_sought hcheck hlookup, hagrees, hwrites', hanswer⟩
  · exact ⟨_, cache, verifyHeader_of_not_sought hsought _, hcache, hwrites, .inr rfl⟩

namespace Node

variable {n m : Node}

/-- `m` is over the chain of `n`, with the same configuration and clock, and can be relied on. -/
structure Standing (n m : Node) : Prop where
  config_eq : m.config = n.config
  chain_eq : m.chain = n.chain
  now_eq : m.now = n.now
  consistent : m.Consistent

theorem standing_refl (hn : n.Consistent) : Standing n n := ⟨rfl, rfl, rfl, hn⟩

/-- A verified header leaves the node standing, and the verdict on it follows from the chain and
    the pending ancestors. -/
theorem Standing.verify (hm : Standing n m) (withSeal : Bool)
    (hhash : HashesIdentify fun g => g ∈ pending ∨ n.chain.Has g) :
    ∃ snapshot m', m.verify pending h withSeal
        = (verdict n.config n.chain n.now pending h withSeal snapshot, m') ∧ Standing n m'
      ∧ ((∃ s, snapshot = .ok s
          ∧ canonicalSnapshot n.config n.chain (n.config.turnOf h.number) = .ok s)
        ∨ snapshot = freshSnapshot n.config n.chain pending (n.config.turnOf h.number)) := by
  have hagrees : m.snapshots.Agrees n.config n.chain := by
    rw [← hm.config_eq, ← hm.chain_eq]
    exact hm.consistent.agrees
  obtain ⟨snapshot, cache', hrun, hcache, hwrites, hanswer⟩ :=
    verifyHeader_of_agrees (h := h) n.now withSeal hhash hagrees hm.consistent.writes
  refine ⟨snapshot, { m with snapshots := cache' }.record
    (verdict n.config n.chain n.now pending h withSeal snapshot), ?_, ⟨?_, ?_, ?_, ?_⟩, hanswer⟩
  · rw [Node.verify, hm.config_eq, hm.chain_eq, hm.now_eq, hrun]
  · rw [record_config]
    exact hm.config_eq
  · rw [record_chain]
    exact hm.chain_eq
  · rw [record_now]
    exact hm.now_eq
  · constructor
    · rw [record_snapshots, record_config, record_chain]
      show cache'.Agrees m.config m.chain
      rw [hm.config_eq, hm.chain_eq]
      exact hcache
    · rw [record_snapshots]
      exact hwrites

/-! ## Batches -/

/-- The rest of a batch leaves the node standing, wherever it is aborted. -/
theorem Standing.verifyRest {done rest : List Header} {failed : Bool} (hm : Standing n m)
    (hhash : HashesIdentify fun g => g ∈ done ++ rest ∨ n.chain.Has g)
    (aborted : Nat → Bool) (seals : List Bool) :
    Standing n (verifyRest aborted seals done failed rest m).2 := by
  induction rest generalizing done failed m with
  | nil => exact hm
  | cons h rest ih =>
    have hdone : HashesIdentify fun g => g ∈ done ∨ n.chain.Has g :=
      hhash.mono fun g hg => hg.imp_left (List.mem_append_left _)
    have hnext : HashesIdentify fun g => g ∈ (done ++ [h]) ++ rest ∨ n.chain.Has g := by
      rwa [List.append_assoc, List.singleton_append]
    -- whether the header is looked at or not, the node it leaves is standing
    have hheader : Standing n (if failed then ((.error .unknownAncestor : Except Error Unit), m)
        else m.verify done h (seals.getD done.length true)).2 := by
      cases failed with
      | true => exact hm
      | false =>
        obtain ⟨snapshot, m', hrun, hm', -⟩ :=
          hm.verify (h := h) (seals.getD done.length true) hdone
        rw [if_neg (by simp), hrun]
        exact hm'
    rw [Node.verifyRest]
    dsimp only
    split
    · exact hm
    · split
      · exact hheader
      · exact ih hheader hnext

/-- A node that can be relied on answers a query as the chain does. -/
theorem Standing.snapshotForTurn (hm : Standing n m) (turn : UInt64) :
    (Node.snapshotForTurn [] turn m).1
      = (canonicalSnapshot n.config n.chain turn).mapError .error := by
  obtain ⟨cache', hrun, -⟩ := snapshotForTurn_nil hm.consistent.agrees hm.consistent.writes turn
  rw [Node.snapshotForTurn, Step.ofLookup_apply, hrun, hm.config_eq, hm.chain_eq]

/-- Whatever batch a node verifies and wherever the batch is aborted, the node goes on to answer
    queries as if the batch had never come, and every stored snapshot is one that a canonical
    header publishes. -/
theorem verifyHeaders_leaves_no_trace {headers : List Header} (hn : n.Consistent)
    (hhash : HashesIdentify fun g => g ∈ headers ∨ n.chain.Has g)
    (aborted : Nat → Bool) (seals : List Bool) :
    (∀ turn, (Node.snapshotForTurn [] turn (verifyHeaders aborted seals headers n).2).1
        = (Node.snapshotForTurn [] turn n).1)
      ∧ ∀ turn record, (verifyHeaders aborted seals headers n).2.snapshots.store.get?
          (Snapshot.storeKey turn) = some record →
        ∃ h s, canonicalPublisher? n.config n.chain turn = some h
          ∧ publishedSnapshot n.config h turn = .ok s ∧ s.publishedBy = h.hash
          ∧ record = s.stored := by
  have hstanding : Standing n (verifyHeaders aborted seals headers n).2 :=
    (standing_refl hn).verifyRest hhash aborted seals
  constructor
  · intro turn
    rw [hstanding.snapshotForTurn, (standing_refl hn).snapshotForTurn]
  · intro turn record hrecord
    obtain ⟨s, hs, hstored⟩ := hstanding.consistent.agrees.store turn record hrecord
    rw [hstanding.config_eq, hstanding.chain_eq] at hs
    obtain ⟨h, hpub, hmade⟩ := canonicalSnapshot_eq_ok_iff.1 hs
    exact ⟨h, s, hpub, hmade, publishedBy_of_publishedSnapshot hmade, hstored⟩

/-! ## A forged fork -/

theorem has_unasked {g : Header} (hg : Fork.unasked.chain.Has g) :
    g = Fork.epochEnd (.zero 20) ∨ g = {} := by
  rcases Chain.has_of_insert hg with hg | hg
  · exact .inl hg
  · exact .inr ((Chain.has_of_insert hg).resolve_right (Chain.not_has_empty g))

/-- The headers of the fork and of the chain that it leaves have four different hashes. -/
theorem hashesIdentify_headers : HashesIdentify (· ∈ [Fork.epochEnd Lone.signer.address, Fork.next,
    Fork.epochEnd (.zero 20), {}]) :=
  hashesIdentify_of_nodup (by decide +kernel)

theorem hashesIdentify_fork :
    HashesIdentify fun g => g ∈ [Fork.epochEnd Lone.signer.address, Fork.next]
      ∨ Fork.unasked.chain.Has g := by
  refine hashesIdentify_headers.mono ?_
  rintro g (hg | hg)
  · exact List.mem_append_left [Fork.epochEnd (.zero 20), {}] hg
  · rcases has_unasked hg with rfl | rfl
    · simp
    · simp

/-- A fork that puts another member into office leaves the node with the chain's committee. -/
theorem verifyHeaders_leaves_no_trace_fork :
    Fork.unasked.Consistent
      ∧ (HashesIdentify fun g => g ∈ [Fork.epochEnd Lone.signer.address, Fork.next]
        ∨ Fork.unasked.chain.Has g)
      ∧ (Node.snapshotForTurn [] 1 (verifyHeaders (fun _ => false) [false, true]
          [Fork.epochEnd Lone.signer.address, Fork.next] Fork.unasked).2).1
        = (Node.snapshotForTurn [] 1 Fork.unasked).1 := by
  have hconsistent : Fork.unasked.Consistent := ⟨SnapshotCache.holds_ofStore_empty 128, rfl⟩
  refine ⟨hconsistent, hashesIdentify_fork, ?_⟩
  exact (verifyHeaders_leaves_no_trace hconsistent hashesIdentify_fork _ _).1 1

end Node

end CommitteeConsensus
