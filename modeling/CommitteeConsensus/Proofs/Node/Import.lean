import CommitteeConsensus.Node.Production
import CommitteeConsensus.Proofs.Chain.Extension
import CommitteeConsensus.Proofs.Node.Batch
import CommitteeConsensus.Proofs.Node.Consistency

/-! # Batches and imports one by one

    A batch that extends the head of a chain is verified with the same results as when its headers
    are imported one by one, each verified on a chain that has all headers before it
    (`importEach_eq_verifyHeaders`). This goes up to the first refusal: a batch gives up there,
    while the imports go on.

    The simulation relates a node in the middle of the batch, which looks for a parent and for a
    publisher among the pending headers first, to a node whose chain has grown by these headers.
    Both find the same parent (`checkHeader_extend`) and the same publisher
    (`canonicalSnapshot_extend`), so both judge by the same snapshot (`judged`). Neither relies on
    what the other has cached.
-/

namespace CommitteeConsensus

variable {config : Config} {c : Chain} {now : UInt64} {head h : Header} {done rest : List Header}

/-! ## What a grown chain answers -/

/-- The parent of a header is the last pending one, which the grown chain finds by its hash. -/
theorem checkHeader_extend (hchild : ∀ tip, done.getLast? = some tip → h.IsChildOf tip) :
    checkHeader config (c.extend done) now [] h = checkHeader config c now done h := by
  have hparent : findParent (c.extend done) [] h = findParent c done h := by
    rcases List.eq_nil_or_concat done with rfl | ⟨older, tip, rfl⟩
    · rfl
    · rw [List.concat_eq_append] at hchild ⊢
      have hlast : (older ++ [tip]).getLast? = some tip := List.getLast?_concat
      obtain ⟨hnumber, hhash⟩ := hchild tip hlast
      have hbefore : h.number - 1 = tip.number := by
        rw [hnumber]
        exact UInt64.add_sub_cancel tip.number 1
      have hfound : (c.extend (older ++ [tip])).header? h.parentHash (h.number - 1) = some tip := by
        rw [Chain.extend_append_singleton, hhash, hbefore]
        exact Chain.header?_insert_self _ tip
      unfold findParent
      rw [hlast, List.getLast?_nil, hfound]
  unfold checkHeader
  rw [hparent]

/-- The publisher of a turn is the same header, whether it is pending or has been inserted. -/
theorem canonicalSnapshot_extend (hgrown : c.Grown head done) (turn : UInt64) :
    canonicalSnapshot config (c.extend done) turn = freshSnapshot config c done turn := by
  unfold canonicalSnapshot freshSnapshot publisher findHeader?
  rw [hgrown.genesis?, hgrown.headerAt?, List.reverse_nil, List.find?_nil]
  by_cases hgenesis : config.usesGenesisCommittee turn
  · rw [if_pos hgenesis, if_pos hgenesis]
  · rw [if_neg hgenesis, if_neg hgenesis]
    cases done.reverse.find? (fun g => g.number = config.publishingBlock turn) with
    | some g => rfl
    | none => rfl

/-- What a chain publishes is not revoked as long as its canonical headers stay. -/
theorem canonicalSnapshot_of_keeps {c' : Chain}
    (hkeeps : ∀ number g, c.headerAt? number = some g → c'.headerAt? number = some g)
    {turn : UInt64} {s : Snapshot} (hs : canonicalSnapshot config c turn = .ok s) :
    canonicalSnapshot config c' turn = .ok s := by
  obtain ⟨g, hpub, hmade⟩ := canonicalSnapshot_eq_ok_iff.1 hs
  refine canonicalSnapshot_eq_ok_iff.2 ⟨g, ?_, hmade⟩
  unfold canonicalPublisher? at hpub ⊢
  by_cases hgenesis : config.usesGenesisCommittee turn
  · rw [if_pos hgenesis] at hpub ⊢
    exact hkeeps 0 g hpub
  · rw [if_neg hgenesis] at hpub ⊢
    exact hkeeps _ g hpub

namespace Node

open Step

variable {n m : Node} {seals : List Bool}

/-! ## Imports one by one -/

/-- Verifies a header on the chain and inserts it when it is accepted. -/
def importHeader (h : Header) (withSeal : Bool) : Step Unit := do
  verifyHeader h withSeal
  insertHeader h

/-- Imports headers one by one, whatever becomes of each; the flags are for the headers from
    number `i` of the list on, and a header without one is verified with its seal. -/
def importEach (seals : List Bool) : Nat → List Header → Node → List (Except Failure Unit) × Node
  | _, [], n => ([], n)
  | i, h :: rest, n =>
    let (result, n) := importHeader h (seals.getD i true) n
    let (results, n) := importEach seals (i + 1) rest n
    (result :: results, n)

/-- A result of verification as a step reports it. -/
def reported (r : Except Error Unit) : Except Failure Unit := r.mapError .error

theorem importHeader_of_ok {withSeal : Bool} (hverify : n.verify [] h withSeal = (.ok (), m)) :
    importHeader h withSeal n = (.ok (), { m with chain := m.chain.insert h }) := by
  have hstep : verifyHeader h withSeal n = (.ok (), m) := by
    rw [verifyHeader, hverify]
    rfl
  rw [importHeader, bind_apply, hstep]
  rfl

theorem importHeader_of_error {withSeal : Bool} {e : Error}
    (hverify : n.verify [] h withSeal = (.error e, m)) :
    importHeader h withSeal n = (.error (.error e), m) := by
  have hstep : verifyHeader h withSeal n = (.error (.error e), m) := by
    rw [verifyHeader, hverify]
    rfl
  rw [importHeader, bind_apply, hstep]

/-! ## The simulation -/

/-- The verdict on a header under the snapshot that its publisher gives, wherever that is. -/
def judged (n : Node) (seals : List Bool) (done : List Header) (h : Header) : Except Error Unit :=
  verdict n.config n.chain n.now done h (seals.getD done.length true)
    (freshSnapshot n.config n.chain done (n.config.turnOf h.number))

/-- The node over the chain that has grown by the headers. -/
def grownBy (n : Node) (done : List Header) : Node := { n with chain := n.chain.extend done }

/-- In the middle of a batch, headers `done` have been accepted. -/
structure Midway (n : Node) (head : Header) (done rest : List Header) : Prop where
  grown : n.chain.Grown head done
  linked : Header.Linked (done.getLastD head) rest
  hashes : HashesIdentify fun g => g ∈ done ++ rest ∨ n.chain.Has g

theorem Midway.child (hmid : Midway n head done (h :: rest)) :
    ∀ tip, done.getLast? = some tip → h.IsChildOf tip := by
  intro tip htip
  obtain ⟨older, rfl⟩ := List.getLast?_eq_some_iff.1 htip
  have hlinked := hmid.linked.1
  rwa [List.getLastD_concat] at hlinked

/-- The headers up to the next one have hashes of their own. -/
theorem Midway.hashes_upTo (hmid : Midway n head done (h :: rest)) :
    HashesIdentify fun g => g ∈ done ++ [h] ∨ n.chain.Has g := by
  refine hmid.hashes.mono fun g hg => hg.imp_left fun hmem => ?_
  rcases List.mem_append.1 hmem with hmem | hmem
  · exact List.mem_append_left _ hmem
  · rw [List.mem_singleton.1 hmem]
    simp

theorem Midway.next (hmid : Midway n head done (h :: rest)) (hnumber : h.number ≠ 0) :
    Midway n head (done ++ [h]) rest where
  grown := hmid.grown.append hmid.linked.1 hnumber hmid.hashes_upTo
  linked := by
    rw [List.getLastD_concat]
    exact hmid.linked.2
  hashes := by
    rw [List.append_assoc, List.singleton_append]
    exact hmid.hashes

theorem number_ne_zero_of_judged (hok : judged n seals done h = .ok ()) : h.number ≠ 0 := by
  obtain ⟨parent, hcheck⟩ := checkHeader_of_verdict hok
  exact (checkHeader_eq_ok_iff.1 hcheck).1

/-- The batch judges its next header by the snapshot of the publisher, cached or not. -/
theorem Midway.verify_pending (hmid : Midway n head done (h :: rest)) (seals : List Bool)
    (hm : Standing n m) :
    ∃ m', m.verify done h (seals.getD done.length true) = (judged n seals done h, m')
      ∧ Standing n m' := by
  have hdone : HashesIdentify fun g => g ∈ done ∨ n.chain.Has g :=
    hmid.hashes.mono fun g hg => hg.imp_left (List.mem_append_left _)
  obtain ⟨snapshot, m', hrun, hm', hanswer⟩ :=
    hm.verify (h := h) (seals.getD done.length true) hdone
  have hsnapshot : snapshot = freshSnapshot n.config n.chain done (n.config.turnOf h.number) := by
    rcases hanswer with ⟨s, rfl, hs⟩ | hfresh
    · -- what was cached before the batch is what the publisher still gives
      rw [← canonicalSnapshot_extend hmid.grown]
      exact (canonicalSnapshot_of_keeps hmid.grown.keeps hs).symm
    · exact hfresh
  exact ⟨m', by rw [hrun, hsnapshot, judged], hm'⟩

/-- The node that imports judges the header in the same way. -/
theorem Midway.verify_grown (hmid : Midway n head done (h :: rest)) (seals : List Bool)
    (hm : Standing (n.grownBy done) m) :
    ∃ m', m.verify [] h (seals.getD done.length true) = (judged n seals done h, m')
      ∧ Standing (n.grownBy done) m' := by
  have hhash : HashesIdentify fun g => g ∈ [] ∨ (n.grownBy done).chain.Has g := by
    refine hmid.hashes.mono ?_
    rintro g (hg | hg)
    · simp at hg
    · exact (Chain.has_of_extend hg).imp_left (List.mem_append_left _)
  obtain ⟨snapshot, m', hrun, hm', hanswer⟩ :=
    hm.verify (h := h) (seals.getD done.length true) hhash
  have hsnapshot : snapshot = canonicalSnapshot n.config (n.chain.extend done)
      (n.config.turnOf h.number) := by
    rcases hanswer with ⟨s, rfl, hs⟩ | hfresh
    · exact hs.symm
    · exact hfresh
  refine ⟨m', ?_, hm'⟩
  rw [hrun, hsnapshot, canonicalSnapshot_extend hmid.grown, judged]
  unfold verdict
  rw [show checkHeader (n.grownBy done).config (n.grownBy done).chain (n.grownBy done).now [] h
    = checkHeader n.config n.chain n.now done h from checkHeader_extend hmid.child]
  rfl

/-- An accepted header is inserted, and the node stands over the chain with it. -/
theorem Midway.standing_insert (hmid : Midway n head done (h :: rest)) (hnumber : h.number ≠ 0)
    (hm : Standing (n.grownBy done) m) :
    Standing (n.grownBy (done ++ [h])) { m with chain := m.chain.insert h } := by
  have hchain : m.chain.insert h = n.chain.extend (done ++ [h]) := by
    rw [hm.chain_eq, Chain.extend_append_singleton]
    rfl
  refine ⟨hm.config_eq, hchain, hm.now_eq, ⟨?_, hm.consistent.writes⟩⟩
  -- what was published before stays published
  refine hm.consistent.agrees.imp fun turn s hs => ?_
  rw [hm.chain_eq] at hs
  refine canonicalSnapshot_of_keeps (fun number g hg => ?_) hs
  rw [hm.chain_eq]
  exact hmid.grown.keeps_insert hmid.linked.1 hnumber hmid.hashes_upTo hg

/-- The imports agree with the judge up to the first refusal, and accept all that he accepts. -/
theorem Midway.importEach (hmid : Midway n head done rest) (hm : Standing (n.grownBy done) m) :
    (∀ k : Nat, (∀ i < k, (outcomes (judged n seals) done rest)[i]? = some (Except.ok ())) →
        (importEach seals done.length rest m).1[k]?
          = (outcomes (judged n seals) done rest)[k]?.map reported)
      ∧ ((∀ r ∈ outcomes (judged n seals) done rest, r = .ok ())
        ↔ ∀ r ∈ (importEach seals done.length rest m).1, r = .ok ()) := by
  induction rest generalizing done m with
  | nil => simp [outcomes, Node.importEach]
  | cons h rest ih =>
    obtain ⟨m', hverify, hm'⟩ := hmid.verify_grown seals hm
    cases hjudged : judged n seals done h with
    | error e =>
      rw [hjudged] at hverify
      rw [outcomes_cons_of_error hjudged, Node.importEach, importHeader_of_error hverify]
      constructor
      · intro k hbefore
        cases k with
        | zero => rfl
        | succ k =>
          have hfirst := hbefore 0 (Nat.succ_pos k)
          simp at hfirst
      · simp
    | ok _ =>
      rw [hjudged] at hverify
      have hnumber := number_ne_zero_of_judged hjudged
      obtain ⟨hlater, hall⟩ := ih (hmid.next hnumber) (hmid.standing_insert hnumber hm')
      rw [List.length_append, List.length_singleton] at hlater hall
      rw [outcomes_cons_of_ok hjudged, Node.importEach, importHeader_of_ok hverify]
      constructor
      · intro k hbefore
        cases k with
        | zero => rfl
        | succ k =>
          exact hlater k fun i hi => hbefore (i + 1) (Nat.succ_lt_succ hi)
      · rw [List.forall_mem_cons, List.forall_mem_cons, hall]
        simp

/-- The batch delivers what the judge says. -/
theorem Midway.verifyHeaders {headers : List Header} (hmid : Midway n head [] headers)
    (hn : n.Consistent) (seals : List Bool) :
    (verifyHeaders (fun _ => false) seals headers n).1 = outcomes (judged n seals) [] headers := by
  have hstep : ∀ done h after m, headers = done ++ h :: after →
      (∀ rest, headers = done ++ rest → Midway n head done rest) ∧ Standing n m →
      ∃ m', m.verify done h (seals.getD done.length true) = (judged n seals done h, m')
        ∧ (judged n seals done h = .ok () →
          (∀ rest, headers = done ++ [h] ++ rest → Midway n head (done ++ [h]) rest)
            ∧ Standing n m') := by
    rintro done h after m hsplit ⟨hdone, hm⟩
    have hhere := hdone (h :: after) hsplit
    obtain ⟨m', hrun, hm'⟩ := hhere.verify_pending seals hm
    refine ⟨m', hrun, fun hok => ⟨?_, hm'⟩⟩
    intro rest hrest
    rw [hsplit, List.append_assoc, List.singleton_append] at hrest
    obtain rfl : after = rest := (List.cons.inj (List.append_cancel_left hrest)).2
    exact hhere.next (number_ne_zero_of_judged hok)
  have hstart : ∀ rest, headers = [] ++ rest → Midway n head [] rest := by
    intro rest hrest
    rw [List.nil_append] at hrest
    exact hrest ▸ hmid
  exact verifyRest_eq_outcomes hstep rfl ⟨hstart, standing_refl hn⟩

/-- A batch that extends the head of the chain is verified with the results of imports one by one,
    up to and including the first refusal; so it is accepted as a whole exactly when every import
    is. -/
theorem importEach_eq_verifyHeaders {headers : List Header} (seals : List Bool)
    (hn : n.Consistent) (hindexed : n.chain.Indexed) (hhead : n.chain.head? = some head)
    (hlinked : Header.Linked head headers)
    (hhash : HashesIdentify fun g => g ∈ headers ∨ n.chain.Has g) :
    (∀ k : Nat, (∀ i < k, (verifyHeaders (fun _ => false) seals headers n).1[i]?
          = some (Except.ok ())) →
        (importEach seals 0 headers n).1[k]?
          = ((verifyHeaders (fun _ => false) seals headers n).1[k]?).map reported)
      ∧ ((∀ r ∈ (verifyHeaders (fun _ => false) seals headers n).1, r = .ok ())
        ↔ ∀ r ∈ (importEach seals 0 headers n).1, r = .ok ()) := by
  have hmid : Midway n head [] headers := ⟨Chain.grown_nil hindexed hhead, hlinked, hhash⟩
  rw [hmid.verifyHeaders hn seals]
  exact hmid.importEach (standing_refl hn)

/-! ## A batch across the end of an epoch -/

/-- A node that knows nothing but the genesis header, in epochs of two blocks. -/
def rooted : Node := { Fork.unasked with chain := .ofGenesis {} }

theorem has_rooted {g : Header} (hg : rooted.chain.Has g) : g = {} :=
  Chain.has_ofGenesis hg

theorem hashesIdentify_rooted : HashesIdentify fun g =>
    g ∈ [Fork.epochEnd Lone.signer.address, Fork.next] ∨ rooted.chain.Has g := by
  refine hashesIdentify_headers.mono ?_
  rintro g (hg | hg)
  · exact List.mem_append_left [Fork.epochEnd (.zero 20), {}] hg
  · rw [has_rooted hg]
    simp

/-- The second header is sealed by a member that the first one puts into office. Both are accepted
    in one batch, and so both are when they are imported one by one. -/
theorem importEach_eq_verifyHeaders_rooted :
    rooted.Consistent ∧ rooted.chain.Indexed ∧ rooted.chain.head? = some {}
      ∧ Header.Linked {} [Fork.epochEnd Lone.signer.address, Fork.next]
      ∧ (∀ r ∈ (verifyHeaders (fun _ => false) [false, true]
          [Fork.epochEnd Lone.signer.address, Fork.next] rooted).1, r = .ok ())
      ∧ ∀ r ∈ (importEach [false, true] 0
          [Fork.epochEnd Lone.signer.address, Fork.next] rooted).1, r = .ok () := by
  have hconsistent : rooted.Consistent := ⟨SnapshotCache.holds_ofStore_empty 128, rfl⟩
  have hindexed : rooted.chain.Indexed := by
    apply Chain.indexed_empty.insert
    intro h hh
    exact absurd hh (Chain.not_has_empty h)
  have hhead : rooted.chain.head? = some {} := by decide +kernel
  have hlinked : Header.Linked {} [Fork.epochEnd Lone.signer.address, Fork.next] :=
    ⟨⟨rfl, rfl⟩, ⟨rfl, rfl⟩, trivial⟩
  have hbatch : ∀ r ∈ (verifyHeaders (fun _ => false) [false, true]
      [Fork.epochEnd Lone.signer.address, Fork.next] rooted).1, r = .ok () := by
    have hall : (verifyHeaders (fun _ => false) [false, true]
        [Fork.epochEnd Lone.signer.address, Fork.next] rooted).1.all (·.toBool) = true := by
      decide +kernel
    intro r hr
    have hok := List.all_eq_true.1 hall r hr
    cases r with
    | ok _ => rfl
    | error e => simp [Except.toBool] at hok
  refine ⟨hconsistent, hindexed, hhead, hlinked, hbatch, ?_⟩
  exact (importEach_eq_verifyHeaders [false, true] hconsistent hindexed hhead hlinked
    hashesIdentify_rooted).2.1 hbatch

end Node

end CommitteeConsensus
