import CommitteeConsensus.Proofs.Calendar
import CommitteeConsensus.Proofs.Chain.Extension
import CommitteeConsensus.Proofs.Engine.QueryHistory
import CommitteeConsensus.Proofs.Node.Batch
import CommitteeConsensus.Proofs.Node.Steps

/-! # When nodes disagree about a fork

    Two nodes over one chain differ in what they were asked before. A batch that forks off the
    chain may publish a committee of its own at the end of an epoch. A node that was asked for
    the turn of that committee goes on with the chain's, a node that was not goes by the fork.
    So their results differ, and they differ only where such a turn, known to one of them alone,
    is published inside the batch and the two committees judge a seal differently
    (`verifyHeaders_eq_iff`).

    The lookups of a batch also fill the cache. What they add was published by the batch or the
    chain before the turn began, so a later lookup of the batch would find the same (`Kept`).
-/

namespace CommitteeConsensus

variable {config : Config} {chain : Chain} {now : UInt64} {turns : List UInt64}
  {done : List Header} {h : Header} {s : Snapshot}

/-! ## Numbers along a batch -/

/-- Each header is numbered after the ones before it, and none is a first block. -/
structure Ascending (done : List Header) : Prop where
  ascending : done.Pairwise fun g g' => g.number < g'.number
  positive : ∀ g ∈ done, g.number ≠ 0

theorem ascending_nil : Ascending [] where
  ascending := List.Pairwise.nil
  positive g hg := by simp at hg

/-- A header is numbered after its parent. -/
theorem lt_of_findParent {parent : Header} (hnumber : h.number ≠ 0)
    (hparent : findParent chain done h = .ok parent) : parent.number < h.number := by
  obtain ⟨-, hnext, hhash⟩ := findParent_eq_ok_iff.1 hparent
  have hchild : h.IsChildOf parent := ⟨hnext.symm, hhash.symm⟩
  exact hchild.lt hnumber

theorem Ascending.append {parent : Header} (hdone : Ascending done)
    (hcheck : checkHeader config chain now done h = .ok parent) : Ascending (done ++ [h]) := by
  obtain ⟨hnumber, _, -, -, -, -, -, hparent, -⟩ := checkHeader_eq_ok_iff.1 hcheck
  have hlt : parent.number < h.number := lt_of_findParent hnumber hparent
  -- the parent is the last of the ancestors, and the others are numbered before it
  have hbelow : ∀ g ∈ done, g.number < h.number := by
    intro g hg
    obtain ⟨hcandidate, -, -⟩ := findParent_eq_ok_iff.1 hparent
    unfold parentCandidate? at hcandidate
    split at hcandidate
    · next last hgetLast =>
      obtain rfl : last = parent := Option.some.inj hcandidate
      obtain ⟨older, rfl⟩ := List.getLast?_eq_some_iff.1 hgetLast
      rcases List.mem_append.1 hg with hg | hg
      · have holder := (List.pairwise_append.1 hdone.ascending).2.2 g hg last (by simp)
        exact UInt64.lt_trans holder hlt
      · rw [List.mem_singleton.1 hg]
        exact hlt
    · next hgetLast =>
      rw [List.getLast?_eq_none_iff.1 hgetLast] at hg
      simp at hg
  constructor
  · rw [List.pairwise_append]
    refine ⟨hdone.ascending, List.pairwise_singleton _ _, ?_⟩
    intro g hg g' hg'
    rw [List.mem_singleton.1 hg']
    exact hbelow g hg
  · intro g hg
    rcases List.mem_append.1 hg with hg | hg
    · exact hdone.positive g hg
    · rw [List.mem_singleton.1 hg]
      exact hnumber

/-! ## What a batch leaves in the cache -/

/-- What a cache may hold once `done` has been verified: what was asked for before, and, for any
    other turn, what a header of the turn among `done` was verified with. -/
def Kept (config : Config) (chain : Chain) (turns : List UInt64) (done : List Header)
    (turn : UInt64) (s : Snapshot) : Prop :=
  Asked config chain turns turn s
    ∨ (turn ∉ turns ∧ ∃ before g after, done = before ++ g :: after
      ∧ config.turnOf g.number = turn ∧ freshSnapshot config chain before turn = .ok s)

theorem Kept.storable {turn : UInt64} (hs : Kept config chain turns done turn s) :
    s.Storable := by
  rcases hs with hs | ⟨-, _, _, _, -, -, hs⟩
  · exact hs.storable
  · exact storable_of_freshSnapshot hs

theorem Kept.append {turn : UInt64} (hs : Kept config chain turns done turn s) (h : Header) :
    Kept config chain turns (done ++ [h]) turn s := by
  rcases hs with hs | ⟨hturn, before, g, after, hdone, hg, hs⟩
  · exact .inl hs
  · refine .inr ⟨hturn, before, g, after ++ [h], ?_, hg, hs⟩
    rw [hdone, List.append_assoc, List.cons_append]

/-- What was kept for the turn of the next header is what a lookup for it would make anew, since
    the publisher is none of the headers since. -/
theorem Kept.recalled_eq (hepoch : config.epoch ≠ 0)
    (hlast : config.validPeriod = 0 → h.number.toNat < Word.max)
    (hbatch : Ascending (done ++ [h]))
    (hs : Kept config chain turns done (config.turnOf h.number) s) :
    recalled config chain turns done (config.turnOf h.number) = .ok s := by
  rcases hs with hs | ⟨hturn, before, g, after, hdone, hg, hs⟩
  · exact hs.recalled_eq done
  · -- the headers since then are of the same turn, before its last block, so none publishes it
    rw [hdone] at hbatch ⊢
    obtain ⟨hdone', -, hlt⟩ := List.pairwise_append.1 hbatch.ascending
    obtain ⟨-, hsince, -⟩ := List.pairwise_append.1 hdone'
    have hbetween : ∀ b ∈ g :: after, b.number ≠ config.publishingBlock (config.turnOf h.number) := by
      intro b hb
      have hmem : b ∈ before ++ g :: after := List.mem_append_right before hb
      have hbh : b.number < h.number := hlt b hmem h (List.mem_singleton_self h)
      have hgb : g.number ≤ b.number := by
        rcases List.mem_cons.1 hb with rfl | hb
        · exact UInt64.le_refl b.number
        · exact UInt64.le_of_lt (List.rel_of_pairwise_cons hsince hb)
      have hturnb := Config.turnOf_eq_of_between hg hgb (UInt64.le_of_lt hbh)
      exact Config.publishingBlock_ne_of_lt hepoch hturnb hbh
        (hbatch.positive b (List.mem_append_left _ hmem)) hlast
    rw [recalled, if_neg hturn, freshSnapshot_append hbetween, hs]

/-- The engine's verdict on the next header of a batch, and what it leaves in the cache. -/
theorem verifyHeader_of_kept (now : UInt64) {cache : SnapshotCache} (hepoch : config.epoch ≠ 0)
    (hlast : config.validPeriod = 0 → h.number.toNat < Word.max) (hdone : Ascending done)
    (hcache : cache.Knows turns (Kept config chain turns done)) (withSeal : Bool) :
    ∃ cache', verifyHeader config chain now done h withSeal cache
        = (verdict config chain now done h withSeal
          (recalled config chain turns done (config.turnOf h.number)), cache')
      ∧ cache'.Knows turns (Kept config chain turns (done ++ [h])) := by
  by_cases hsought : ∃ parent, checkHeader config chain now done h = .ok parent ∧ withSeal = true
  · obtain ⟨parent, hcheck, rfl⟩ := hsought
    obtain ⟨cache', hlookup, hknows⟩ := snapshotForTurn_eq_recalled done
      (config.turnOf h.number) (fun _ _ hs => hs.storable) (fun _ _ hs => hs.append h) hcache
      (fun _ hs => hs.recalled_eq hepoch hlast (hdone.append hcheck))
      fun s hturn hs => .inr ⟨hturn, done, h, [], rfl, rfl, hs⟩
    exact ⟨cache', verifyHeader_of_sought hcheck hlookup, hknows⟩
  · -- nothing is looked up, so nothing is added
    exact ⟨cache, verifyHeader_of_not_sought hsought _, hcache.imp fun _ _ hs => hs.append h⟩

namespace Node

/-! ## Runs -/

/-- A node in the middle of a batch, after queries for `turns` and headers `done`. -/
structure Carries (config : Config) (chain : Chain) (now : UInt64) (turns : List UInt64)
    (done : List Header) (n : Node) : Prop where
  config_eq : n.config = config
  chain_eq : n.chain = chain
  now_eq : n.now = now
  knows : n.snapshots.Knows turns (Kept config chain turns done)
  ascending : Ascending done

/-- A node that has answered queries is ready for a batch. -/
theorem carries_of_filled {n : Node} (h : Filled n.config n.chain turns n.snapshots) :
    Carries n.config n.chain n.now turns [] n where
  config_eq := rfl
  chain_eq := rfl
  now_eq := rfl
  knows := h.knows.imp fun _ _ hs => .inl hs
  ascending := ascending_nil

/-- The verdict on a header of a batch, after queries for `turns`. -/
def judgement (config : Config) (chain : Chain) (now : UInt64) (turns : List UInt64)
    (seals : List Bool) (done : List Header) (h : Header) : Except Error Unit :=
  verdict config chain now done h (seals.getD done.length true)
    (recalled config chain turns done (config.turnOf h.number))

/-- A node that carries on through a batch answers as the queries and the ancestors say. -/
theorem verify_of_carries {n : Node} {seals : List Bool} (hepoch : config.epoch ≠ 0)
    (hlast : config.validPeriod = 0 → h.number.toNat < Word.max)
    (hn : Carries config chain now turns done n) :
    ∃ m, n.verify done h (seals.getD done.length true)
        = (judgement config chain now turns seals done h, m)
      ∧ (judgement config chain now turns seals done h = .ok () →
        Carries config chain now turns (done ++ [h]) m) := by
  obtain ⟨cache', hrun, hknows⟩ :=
    verifyHeader_of_kept now hepoch hlast hn.ascending hn.knows (seals.getD done.length true)
  refine ⟨{ n with snapshots := cache' }.record (judgement config chain now turns seals done h),
    ?_, ?_⟩
  · rw [verify, hn.config_eq, hn.chain_eq, hn.now_eq, hrun, judgement]
  · intro hok
    obtain ⟨parent, hcheck⟩ := checkHeader_of_verdict hok
    constructor
    · rw [record_config]
      exact hn.config_eq
    · rw [record_chain]
      exact hn.chain_eq
    · rw [record_now]
      exact hn.now_eq
    · rwa [record_snapshots]
    · exact hn.ascending.append hcheck

/-- The results of a batch follow from the turns that were asked for before. -/
theorem verifyHeaders_of_filled {n : Node} (seals : List Bool) {headers : List Header}
    (hepoch : n.config.epoch ≠ 0)
    (hlast : n.config.validPeriod = 0 → ∀ h ∈ headers, h.number.toNat < Word.max)
    (h : Filled n.config n.chain turns n.snapshots) :
    (verifyHeaders (fun _ => false) seals headers n).1
      = outcomes (judgement n.config n.chain n.now turns seals) [] headers := by
  have hstep : ∀ done g after m, headers = done ++ g :: after →
      Carries n.config n.chain n.now turns done m →
      ∃ m', m.verify done g (seals.getD done.length true)
          = (judgement n.config n.chain n.now turns seals done g, m')
        ∧ (judgement n.config n.chain n.now turns seals done g = .ok () →
          Carries n.config n.chain n.now turns (done ++ [g]) m') := by
    intro done g after m hsplit hm
    apply verify_of_carries hepoch _ hm
    intro hvalid
    apply hlast hvalid g
    rw [hsplit]
    exact List.mem_append_right done List.mem_cons_self
  exact verifyRest_eq_outcomes hstep rfl (carries_of_filled h)

/-! ## Two nodes -/

/-- Verdicts after different queries differ only on a seal that the chain's committee and the
    batch's judge differently. -/
theorem judgement_eq_iff {turns' : List UInt64} {seals : List Bool} :
    judgement config chain now turns seals done h = judgement config chain now turns' seals done h
      ↔ ∀ parent, seals.getD done.length true = true →
        checkHeader config chain now done h = .ok parent →
        (config.turnOf h.number ∈ turns ↔ config.turnOf h.number ∉ turns') →
        (∃ g ∈ done, g.number = config.publishingBlock (config.turnOf h.number)) →
        (canonicalSnapshot config chain (config.turnOf h.number)
            >>= fun s => checkSeal config s parent h)
          = (freshSnapshot config chain done (config.turnOf h.number)
            >>= fun s => checkSeal config s parent h) := by
  generalize hturn : config.turnOf h.number = turn
  unfold judgement verdict
  rw [hturn]
  cases hcheck : checkHeader config chain now done h with
  | error e => simp
  | ok parent =>
    cases hseal : seals.getD done.length true with
    | false => simp
    | true =>
      dsimp only
      rw [if_pos rfl, if_pos rfl]
      by_cases hknown : turn ∈ turns ↔ turn ∉ turns'
      · rw [recalled_bind_eq_iff hknown]
        constructor
        · intro heq g _ hg _ _
          obtain rfl : parent = g := Except.ok.inj hg
          exact heq
        · intro hall
          by_cases hpublished : ∃ g ∈ done, g.number = config.publishingBlock turn
          · exact hall parent rfl rfl hknown hpublished
          · -- nobody in the batch publishes the committee, so the chain does
            rw [freshSnapshot_eq_canonicalSnapshot fun g hg hnumber => hpublished ⟨g, hg, hnumber⟩]
      · -- both were asked for the turn, or neither
        have hsame : turn ∈ turns ↔ turn ∈ turns' := by
          by_cases hturns : turn ∈ turns <;> by_cases hturns' : turn ∈ turns' <;> simp_all
        rw [recalled_congr hsame]
        constructor
        · intro _ _ _ _ hknown'
          exact absurd hknown' hknown
        · intro _
          rfl

/-- A node goes by the chain for every turn that it was asked for, whatever ancestors it is given.
    So two nodes that differ in nothing but what they were asked before agree on a batch exactly
    when no accepted ancestor in it publishes a committee for a turn that one of them alone was
    asked for, unless the seal is judged alike under that committee and the chain's. -/
theorem verifyHeaders_eq_iff {a b : Node} {turns turns' : List UInt64} {seals : List Bool}
    {headers : List Header} (hvalid : a.config.validate = .ok ())
    (hconfig : b.config = a.config) (hchain : b.chain = a.chain) (hnow : b.now = a.now)
    (ha : Filled a.config a.chain turns a.snapshots)
    (hb : Filled a.config a.chain turns' b.snapshots)
    (hlast : a.config.validPeriod = 0 → ∀ h ∈ headers, h.number.toNat < Word.max) :
    (∀ pending number, (governingSnapshot a.config a.chain pending number a.snapshots).1
      = if a.config.turnOf number ∈ turns
        then canonicalSnapshot a.config a.chain (a.config.turnOf number)
        else freshSnapshot a.config a.chain pending (a.config.turnOf number))
    ∧ ((verifyHeaders (fun _ => false) seals headers a).1
        = (verifyHeaders (fun _ => false) seals headers b).1
      ↔ ∀ before h after parent, headers = before ++ h :: after →
        (∀ r ∈ (verifyHeaders (fun _ => false) seals before a).1, r = .ok ()) →
        seals.getD before.length true = true →
        checkHeader a.config a.chain a.now before h = .ok parent →
        (a.config.turnOf h.number ∈ turns ↔ a.config.turnOf h.number ∉ turns') →
        (∃ g ∈ before, g.number = a.config.publishingBlock (a.config.turnOf h.number)) →
        (canonicalSnapshot a.config a.chain (a.config.turnOf h.number)
            >>= fun s => checkSeal a.config s parent h)
          = (freshSnapshot a.config a.chain before (a.config.turnOf h.number)
            >>= fun s => checkSeal a.config s parent h)) := by
  have hepoch : a.config.epoch ≠ 0 := ((Config.validate_eq_ok_iff a.config).1 hvalid).1
  refine ⟨fun pending number => ha.governingSnapshot_fst pending number, ?_⟩
  have hrun := verifyHeaders_of_filled seals hepoch hlast ha
  have hrun' : (verifyHeaders (fun _ => false) seals headers b).1
      = outcomes (judgement a.config a.chain a.now turns' seals) [] headers := by
    rw [← hconfig, ← hchain] at hb
    rw [← hconfig] at hepoch hlast
    rw [verifyHeaders_of_filled seals hepoch hlast hb, hconfig, hchain, hnow]
  rw [hrun, hrun', outcomes_eq_iff]
  -- what comes before a header in the batch is a batch of its own
  have hbefore : ∀ before h after, headers = before ++ h :: after →
      (verifyHeaders (fun _ => false) seals before a).1
        = outcomes (judgement a.config a.chain a.now turns seals) [] before := by
    intro before h after hsplit
    apply verifyHeaders_of_filled seals hepoch _ ha
    intro hzero g hg
    apply hlast hzero g
    rw [hsplit]
    exact List.mem_append_left _ hg
  -- header by header, the verdicts are compared under the conditions that make them differ
  constructor
  · intro hagree before h after parent hsplit haccepted hseal hcheck hknown hpublished
    rw [hbefore before h after hsplit] at haccepted
    have hverdict := hagree before h after hsplit haccepted
    exact judgement_eq_iff.1 hverdict parent hseal hcheck hknown hpublished
  · intro hagree before h after hsplit haccepted
    rw [← hbefore before h after hsplit] at haccepted
    refine judgement_eq_iff.2 ?_
    intro parent hseal hcheck hknown hpublished
    exact hagree before h after parent hsplit haccepted hseal hcheck hknown hpublished

end Node

/-! ## A smallest fork -/

namespace Fork

/-- The first epoch ends with a header that puts one member into office. -/
def epochEnd (member : Address) : Header := Lone.child {} (Lone.office member)

/-- The seal of the first block of the second epoch, by a member that the chain does not know. -/
def sealed : ExtraData :=
  { signature := [76, 164, 234, 42, 228, 91, 127, 164, 40, 169, 58, 215, 170, 60, 175, 208, 184, 82,
      226, 240, 253, 223, 138, 74, 189, 121, 84, 113, 10, 206, 229, 113, 41, 208, 12, 230, 226,
      179, 201, 176, 37, 161, 135, 24, 22, 33, 222, 146, 29, 179, 110, 46, 194, 137, 135, 204, 33,
      247, 15, 32, 4, 5, 144, 169, 0] }

def next : Header := Lone.child (epochEnd Lone.signer.address) sealed

/-- A node whose chain puts somebody else into office. Its epochs have two blocks, and the first
    epoch alone is governed by the genesis header. -/
def unasked : Node where
  config := { epoch := 2, electionPeriod := 0 }
  chain := (Chain.ofGenesis {}).insert (epochEnd (.zero 20))
  snapshots := .ofStore 128 {}
  state := {}
  clock := 2

/-- The same node once it was asked for the second committee. -/
def asked : Node :=
  { unasked with
    snapshots := (snapshotForTurn unasked.config unasked.chain [] 1 unasked.snapshots).2 }

/-- The chain puts one member into office. -/
theorem canonicalSnapshot_unasked : canonicalSnapshot unasked.config unasked.chain 1
    = .ok (Lone.term unasked.config (epochEnd (.zero 20)) 1 (.zero 20)) := by
  have hat : unasked.chain.headerAt? 1 = some (epochEnd (.zero 20)) :=
    Chain.headerAt?_insert_self (Chain.ofGenesis {}) (epochEnd (.zero 20))
  have hfound : findHeader? unasked.chain [] 1 = some (epochEnd (.zero 20), true) := by
    simp [findHeader?, hat]
  have hpublisher : publisher unasked.config unasked.chain [] 1
      = .ok (epochEnd (.zero 20), true) := publisher_of_findHeader? rfl hfound
  rw [canonicalSnapshot, freshSnapshot, hpublisher]
  exact Lone.publishedSnapshot_office rfl (by decide +kernel) rfl

/-- The fork puts another one into office. -/
theorem freshSnapshot_unasked :
    freshSnapshot unasked.config unasked.chain [epochEnd Lone.signer.address] 1
      = .ok (Lone.term unasked.config (epochEnd Lone.signer.address) 1 Lone.signer.address) := by
  have hpending : [epochEnd Lone.signer.address].reverse.find? (fun g => g.number = 1)
      = some (epochEnd Lone.signer.address) := rfl
  -- whether the chain has the same header there is of no matter
  obtain ⟨canonical, hfound⟩ : ∃ canonical, findHeader? unasked.chain
      [epochEnd Lone.signer.address] 1 = some (epochEnd Lone.signer.address, canonical) := by
    unfold findHeader?
    rw [hpending]
    exact ⟨_, rfl⟩
  have hpublisher : publisher unasked.config unasked.chain [epochEnd Lone.signer.address] 1
      = .ok (epochEnd Lone.signer.address, canonical) := publisher_of_findHeader? rfl hfound
  rw [freshSnapshot, hpublisher]
  exact Lone.publishedSnapshot_office rfl (by decide +kernel) rfl

theorem filled_unasked : Filled unasked.config unasked.chain [] unasked.snapshots := .start 128

theorem filled_asked : Filled unasked.config unasked.chain [1] asked.snapshots := by
  have hknows := filled_unasked.knows
  obtain ⟨cache, hquery, -⟩ := snapshotForTurn_nil
    (hknows.holds.imp fun _ _ hs => hs.2) hknows.writes 1
  rw [canonicalSnapshot_unasked] at hquery
  have hcache : asked.snapshots = cache := by simp only [asked, hquery]
  rw [hcache]
  exact .query filled_unasked hquery

/-- The fork leaves the chain after the genesis header. -/
theorem checkHeader_epochEnd :
    checkHeader unasked.config unasked.chain unasked.now [] (epochEnd Lone.signer.address)
      = .ok {} := by
  apply Lone.checkHeader_child (by decide +kernel) (by decide) rfl (by decide) (by decide)
    (fun _ => rfl)
  show unasked.chain.header? ({} : Header).hash 0 = some {}
  decide +kernel

theorem checkHeader_next : checkHeader unasked.config unasked.chain unasked.now
    [epochEnd Lone.signer.address] next = .ok (epochEnd Lone.signer.address) :=
  Lone.checkHeader_child (by decide +kernel) (by decide) rfl (by decide) (by decide)
    (fun hend => absurd hend (by decide)) rfl

theorem author_next : next.author = .ok Lone.signer.address :=
  toOption_eq_some_iff.1 (by decide +kernel)

end Fork

namespace Node

open Fork

/-- The node that was asked for the committee refuses the fork that the other one accepts. -/
theorem verifyHeaders_ne_fork :
    Filled unasked.config unasked.chain [] unasked.snapshots
      ∧ Filled unasked.config unasked.chain [1] asked.snapshots
      ∧ (verifyHeaders (fun _ => false) [false, true]
          [epochEnd Lone.signer.address, next] unasked).1
        ≠ (verifyHeaders (fun _ => false) [false, true]
          [epochEnd Lone.signer.address, next] asked).1 := by
  refine ⟨filled_unasked, filled_asked, ?_⟩
  intro heq
  have hvalid : unasked.config.validate = .ok () := toOption_eq_some_iff.1 (by decide +kernel)
  have hconfig : asked.config = unasked.config := by rw [asked]
  have hchain : asked.chain = unasked.chain := by rw [asked]
  have hnow : asked.now = unasked.now := by simp only [Node.now, asked]
  have hagree := (verifyHeaders_eq_iff hvalid hconfig hchain hnow filled_unasked filled_asked
    fun hzero => absurd hzero (by decide)).2.1 heq
  -- the end of the epoch is accepted without its seal
  have hverify : unasked.verify [] (epochEnd Lone.signer.address) false
      = (.ok (), unasked.record (.ok ())) := by
    rw [verify, CommitteeConsensus.verifyHeader, checkHeader_epochEnd]
    rfl
  have haccepted : ∀ r ∈ (verifyHeaders (fun _ => false) [false, true]
      [epochEnd Lone.signer.address] unasked).1, r = .ok () := by
    rw [verifyHeaders, verifyRest_cons_of_ok hverify, verifyRest]
    simp
  have hsame := hagree [epochEnd Lone.signer.address] next [] _ rfl haccepted rfl checkHeader_next
    (by decide) ⟨epochEnd Lone.signer.address, List.mem_singleton_self _, by decide⟩
  -- the author of the next block is in the committee of the fork and not in the chain's
  have hrefused : checkSeal unasked.config
      (Lone.term unasked.config (epochEnd (.zero 20)) 1 (.zero 20))
      (epochEnd Lone.signer.address) next = .error (.unauthorized Lone.signer.address) :=
    checkSeal_of_not_isMember author_next (by decide +kernel)
  have hchecked : checkSeal unasked.config
      (Lone.term unasked.config (epochEnd Lone.signer.address) 1 Lone.signer.address)
      (epochEnd Lone.signer.address) next = .ok () :=
    checkSeal_eq_ok_iff.2
      ⟨_, author_next, by decide +kernel, by decide +kernel, by decide +kernel⟩
  have hturn : unasked.config.turnOf next.number = 1 := by decide
  rw [hturn, canonicalSnapshot_unasked, freshSnapshot_unasked, ok_bind, ok_bind, hrefused,
    hchecked] at hsame
  exact absurd hsame (by simp)

end Node

end CommitteeConsensus
