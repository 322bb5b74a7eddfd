import CommitteeConsensus.Proofs.Committee.Office
import CommitteeConsensus.Proofs.Engine.Windows
import CommitteeConsensus.Proofs.Node.Import
import CommitteeConsensus.Proofs.Node.Replay
import CommitteeConsensus.Proofs.Node.Stall

/-! # A committee without challengers

    As long as nobody with stake stands for election, the committee of the genesis header stays in
    office (`committee_persists`). Every end of an epoch publishes the committee that governs the
    block, and that one was made from the genesis header or from an earlier end of an epoch; so
    the blocks that publish are the ones that the invariant speaks of (`Persists.office`). What
    happens to a node between its blocks does not matter: queries, stakes, bindings and requests
    may come and go.
-/

namespace CommitteeConsensus

variable {config : Config} {chain : Chain}

/-! ## Lookups and publishers -/

/-- Whatever a lookup on the chain answers is what the chain publishes, and so is what it leaves in
    the cache, even if the store refuses writes. -/
theorem snapshotForTurn_nil_agrees {cache : SnapshotCache} (h : cache.Agrees config chain)
    (turn : UInt64) : (snapshotForTurn config chain [] turn cache).2.Agrees config chain
      ∧ ∀ s, (snapshotForTurn config chain [] turn cache).1 = .ok s →
        canonicalSnapshot config chain turn = .ok s :=
  snapshotForTurn_holds [] turn (fun _ _ hs => storable_of_freshSnapshot hs) h fun _ hs => hs

/-- Number zero, or the end of an epoch up to a last one. -/
def Config.PublishesUpTo (config : Config) (last : Nat) (number : UInt64) : Prop :=
  number = 0 ∨ config.isEpochEnd number = true ∧ (config.turnOf number).toNat ≤ last

/-- The publisher of a turn stands at such a number, up to `validPeriod` turns before. -/
theorem publishesUpTo_of_canonicalPublisher? {turn : UInt64} {h : Header} {last : Nat}
    (hepoch : config.epoch ≠ 0) (hturn : turn.toNat ≤ last + config.validPeriod.toNat)
    (hroom : ∀ number g, chain.headerAt? number = some g → number.toNat + 1 < Word.max)
    (hpub : canonicalPublisher? config chain turn = some h) :
    ∃ number, chain.headerAt? number = some h ∧ config.PublishesUpTo last number := by
  unfold canonicalPublisher? at hpub
  split at hpub
  · exact ⟨0, hpub, .inl rfl⟩
  · refine ⟨_, hpub, ?_⟩
    -- the publisher stands at a number of the chain, so it is not one of the last two
    rcases Config.publishingBlock_eq_zero_or_closes hepoch (hroom _ h hpub) with hzero | hcloses
    · exact .inl hzero
    · obtain ⟨hcloses, helected⟩ := hcloses
      exact .inr ⟨hcloses.isEpochEnd, by omega⟩

/-- A sealed block keeps its number and all of its extra-data but the signature. -/
theorem Sealed.decode_extra {b b' : Block} (h : Sealed b b') {x : ExtraData}
    (hx : ExtraData.decode b.header.extra = .ok x) : b'.header.number = b.header.number
      ∧ ∃ signature, ExtraData.decode b'.header.extra = .ok { x with signature } := by
  obtain ⟨signature, g, hwritten, rfl⟩ := h.exists_signature
  obtain ⟨y, hy, hsigned⟩ := Header.withSignature_eq_ok_iff.1 hwritten
  have hread : y = x := Except.ok.inj (hy.symm.trans (ExtraData.decodeOrDefault_of_decode hx))
  rw [hread] at hsigned
  refine ⟨?_, _, Header.decode_withExtra hsigned⟩
  obtain ⟨_, -, rfl⟩ := Header.withExtra_eq_ok_iff.1 hsigned
  rfl

namespace Node

open Step

/-! ## Building block by block -/

/-- A node builds block by block: it finalizes a header of the next number, the block is sealed
    and its header is inserted. Between two blocks it may become any node with the same chain and
    configuration whose cache agrees with the chain. The list has the inserted headers, and the
    node that finalized each. -/
inductive Builds (start : Node) : List (Node × Header) → Node → Prop
  | start : Builds start [] start
  | block {built : List (Node × Header)} {n m : Node} {h : Header}
      {transactions : List Transaction} {uncles : List Header} {receipts : List Receipt}
      {b b' : Block} (run : Builds start built n) (number : h.number.toNat = built.length + 1)
      (final : finalize h transactions uncles receipts n = (.ok b, m)) (signed : Sealed b b') :
      Builds start (built ++ [(n, b'.header)]) { m with chain := m.chain.insert b'.header }
  | meanwhile {built : List (Node × Header)} {n m : Node} (run : Builds start built n)
      (config_eq : m.config = n.config) (chain_eq : m.chain = n.chain)
      (agrees : m.snapshots.Agrees m.config m.chain) : Builds start built m

/-- At every end of an epoch up to a last one, no candidate has stake. -/
def Unchallenged (config : Config) (last : Nat) (built : List (Node × Header)) : Prop :=
  ∀ e ∈ built, config.isEpochEnd e.2.number = true → (config.turnOf e.2.number).toNat ≤ last →
    ∀ a ∈ e.1.state.candidates, e.1.state.latestStake a = 0

/-- The header publishes a committee of the record, from which a snapshot can be made. -/
def PublishesOffice (config : Config) (r : CommitteeRecord) (h : Header) : Prop :=
  ∃ x, ExtraData.decode h.extra = .ok x ∧ x.committee.SameOffice r
    ∧ x.committee.snapshotFlaw? config.committeeMaxSize = none

/-- The blocks that were built stand on the chain above the genesis header, and those that publish
    a committee publish that of the record. -/
structure Persists (config : Config) (genesis : Header) (r : CommitteeRecord) (last : Nat)
    (built : List (Node × Header)) (n : Node) : Prop where
  config_eq : n.config = config
  agrees : n.snapshots.Agrees config n.chain
  indexed : n.chain.Indexed
  spans : ∀ k, (∃ h, n.chain.headerAt? k = some h) ↔ k.toNat ≤ built.length
  has : ∀ h, n.chain.Has h → h ∈ genesis :: built.map Prod.snd
  office : ∀ k h, n.chain.headerAt? k = some h → config.PublishesUpTo last k →
    PublishesOffice config r h

variable {start n : Node} {genesis : Header} {r : CommitteeRecord} {last : Nat}
  {built : List (Node × Header)}

theorem persists_ofGenesis (hagrees : start.snapshots.Agrees start.config start.chain)
    (hchain : start.chain = .ofGenesis genesis) (hnumber : genesis.number = 0)
    (hoffice : PublishesOffice start.config r genesis) :
    Persists start.config genesis r last [] start where
  config_eq := rfl
  agrees := hagrees
  indexed := by
    rw [hchain]
    exact Chain.indexed_ofGenesis genesis
  spans k := by
    rw [hchain, Chain.spans_ofGenesis hnumber k, UInt64.lt_iff_toNat_lt]
    exact Nat.lt_succ_iff
  has h hh := by
    rw [hchain] at hh
    exact List.mem_singleton.2 (Chain.has_ofGenesis hh)
  office k h hh _ := by
    rw [hchain] at hh
    obtain rfl : h = genesis := Chain.has_ofGenesis ⟨k, hh⟩
    exact hoffice

section

variable (hn : Persists config genesis r last built n) (hepoch : config.epoch ≠ 0)
  (hroom : built.length + 1 < Word.max) {turn : UInt64}
  (hturn : turn.toNat ≤ last + config.validPeriod.toNat)

include hn hepoch hroom hturn

/-- The publisher of a turn up to `validPeriod` turns after the last one publishes the
    committee in office. -/
theorem Persists.publishesOffice {h : Header}
    (hpub : canonicalPublisher? config n.chain turn = some h) : PublishesOffice config r h := by
  have hbelow : ∀ k g, n.chain.headerAt? k = some g → k.toNat + 1 < Word.max := by
    intro k g hg
    have hle := (hn.spans k).1 ⟨g, hg⟩
    omega
  obtain ⟨k, hat, hpublishes⟩ := publishesUpTo_of_canonicalPublisher? hepoch hturn hbelow hpub
  exact hn.office k h hat hpublishes

/-- The snapshot of such a turn is made from a record of that committee. -/
theorem Persists.ofRecord_of_canonicalSnapshot {s : Snapshot}
    (hs : canonicalSnapshot config n.chain turn = .ok s) :
    ∃ publishedAt publishedBy r', r'.SameOffice r
      ∧ Snapshot.ofRecord config publishedAt publishedBy turn r' = .ok s := by
  obtain ⟨h, hpub, hmade⟩ := canonicalSnapshot_eq_ok_iff.1 hs
  obtain ⟨x, hx, hsame, -⟩ := hn.publishesOffice hepoch hroom hturn hpub
  obtain ⟨y, hy, hrecord⟩ := publishedSnapshot_eq_ok_iff.1 hmade
  obtain rfl : y = x := Except.ok.inj (hy.symm.trans hx)
  exact ⟨_, _, y.committee, hsame, hrecord⟩

/-- The turn has a snapshot as soon as its publisher is on the chain. -/
theorem Persists.exists_canonicalSnapshot
    (hpublished : config.usesGenesisCommittee turn = true
      ∨ (config.publishingBlock turn).toNat ≤ built.length) :
    ∃ s, canonicalSnapshot config n.chain turn = .ok s := by
  obtain ⟨h, hpub⟩ : ∃ h, canonicalPublisher? config n.chain turn = some h := by
    unfold canonicalPublisher?
    split
    · exact (hn.spans 0).2 (Nat.zero_le _)
    · next hlater => exact (hn.spans _).2 (hpublished.resolve_left hlater)
  obtain ⟨x, hx, -, hflaw⟩ := hn.publishesOffice hepoch hroom hturn hpub
  exact ⟨_, canonicalSnapshot_eq_ok_iff.2
    ⟨h, hpub, publishedSnapshot_eq_ok_iff.2 ⟨x, hx, Snapshot.ofRecord_eq_ok_iff.2 ⟨hflaw, rfl⟩⟩⟩⟩

end

/-- The last block of an epoch publishes the committee in office once more, if nobody with stake
    stands for election. -/
theorem Persists.publishesOffice_of_settle {h h' : Header} {x y : ExtraData} {s : Snapshot}
    {transactions : List Transaction} {receipts : List Receipt} {state : State}
    (hn : Persists config genesis r last built n) (hepoch : config.epoch ≠ 0)
    (hroom : built.length + 1 < Word.max)
    (hs : canonicalSnapshot config n.chain (config.turnOf h.number) = .ok s)
    (hsettle : settle config s h x transactions receipts n.state = (.ok h', state))
    (hy : ExtraData.decode h'.extra = .ok y) (hend : config.isEpochEnd h.number = true)
    (hturn : (config.turnOf h.number).toNat ≤ last)
    (hunstaked : ∀ a ∈ n.state.candidates, n.state.latestStake a = 0) :
    y.committee.SameOffice r
      ∧ y.committee.snapshotFlaw? config.committeeMaxSize = none := by
  obtain ⟨publishedAt, publishedBy, r', hsame, hrecord⟩ :=
    hn.ofRecord_of_canonicalSnapshot hepoch hroom (by omega) hs
  obtain ⟨z, hz, hcommittee⟩ := committee_of_settle hsettle hend
  obtain rfl : y = z := Except.ok.inj (hy.symm.trans hz)
  rw [hcommittee]
  constructor
  · -- elected again, written out, made from a record of the committee in office
    have hreelected := electCommittee_sameOffice hunstaked config h.number s
    exact (hreelected.trans (Snapshot.toRecord_sameOffice hrecord)).trans hsame
  · exact snapshotFlaw?_electCommittee (Snapshot.snapshotFlaw?_toRecord_ofRecord hrecord) n.state

/-! ## A step, a run -/

section

variable (hn : Persists config genesis r last built n) {g : Header}
  (hnumber : g.number.toNat = built.length + 1)
  (hhash : HashesIdentify (· ∈ genesis :: (built.map Prod.snd ++ [g])))

include hn hhash

theorem Persists.eq_of_hash {h : Header} (hh : n.chain.Has h) (heq : h.hash = g.hash) : h = g := by
  refine hhash h g ?_ (by simp) heq
  rw [← List.cons_append]
  exact List.mem_append_left _ (hn.has h hh)

include hnumber

/-- A header of the next number is added above all others. -/
theorem Persists.headerAt?_insert (k : UInt64) : (n.chain.insert g).headerAt? k
    = if k = g.number then some g else n.chain.headerAt? k := by
  have hspans : n.chain.Spans g.number := by
    intro k
    rw [hn.spans k, UInt64.lt_iff_toNat_lt, hnumber]
    exact Nat.lt_succ_iff.symm
  exact Chain.headerAt?_insert_of_below hn.indexed (fun _ => hn.eq_of_hash hhash)
    (hspans.below hn.indexed)

theorem Persists.keeps_insert {k : UInt64} {h : Header} (hh : n.chain.headerAt? k = some h) :
    (n.chain.insert g).headerAt? k = some h := by
  have hle := (hn.spans k).1 ⟨h, hh⟩
  have hne : k ≠ g.number := by
    intro heq
    rw [heq, hnumber] at hle
    omega
  rw [hn.headerAt?_insert hnumber hhash, if_neg hne, hh]

/-- A header of the next number that publishes the committee in office, if it publishes one at all,
    goes onto the chain, with the state as it may be. -/
theorem Persists.insert {state : State} {cache : SnapshotCache}
    (hcache : cache.Agrees config n.chain)
    (hoffice : config.PublishesUpTo last g.number → PublishesOffice config r g) :
    Persists config genesis r last (built ++ [(n, g)])
      { n with state, snapshots := cache, chain := n.chain.insert g } where
  config_eq := hn.config_eq
  agrees := hcache.imp fun _ _ hs =>
    canonicalSnapshot_of_keeps (fun _ _ hh => hn.keeps_insert hnumber hhash hh) hs
  indexed := hn.indexed.insert fun _ => hn.eq_of_hash hhash
  spans k := by
    show (∃ h, (n.chain.insert g).headerAt? k = some h) ↔ _
    rw [hn.headerAt?_insert hnumber hhash, List.length_append, List.length_singleton]
    by_cases heq : k = g.number
    · rw [if_pos heq, heq, hnumber]
      exact ⟨fun _ => Nat.le_refl _, fun _ => ⟨g, rfl⟩⟩
    · have hne : k.toNat ≠ g.number.toNat := fun h => heq (UInt64.toNat_inj.1 h)
      rw [if_neg heq, hn.spans k]
      omega
  has h hh := by
    rw [List.map_append, ← List.cons_append]
    rcases Chain.has_of_insert hh with rfl | hh
    · exact List.mem_append_right _ List.mem_cons_self
    · exact List.mem_append_left _ (hn.has h hh)
  office k h hh hpublishes := by
    rw [show _ = _ from hn.headerAt?_insert hnumber hhash k] at hh
    by_cases heq : k = g.number
    · rw [if_pos heq] at hh
      rw [heq] at hpublishes
      rw [← Option.some.inj hh]
      exact hoffice hpublishes
    · rw [if_neg heq] at hh
      exact hn.office k h hh hpublishes

end

/-- A block that is finalized and sealed goes onto the chain. -/
theorem Persists.block {m : Node} {h : Header} {transactions : List Transaction}
    {uncles : List Header} {receipts : List Receipt} {b b' : Block}
    (hn : Persists config genesis r last built n) (hepoch : config.epoch ≠ 0)
    (hroom : built.length + 1 < Word.max) (hnumber : h.number.toNat = built.length + 1)
    (hfinal : finalize h transactions uncles receipts n = (.ok b, m)) (hsealed : Sealed b b')
    (hhash : HashesIdentify (· ∈ genesis :: (built ++ [(n, b'.header)]).map Prod.snd))
    (hunchallenged : Unchallenged config last (built ++ [(n, b'.header)])) :
    Persists config genesis r last (built ++ [(n, b'.header)])
      { m with chain := m.chain.insert b'.header } := by
  obtain rfl := uncles_of_finalize hfinal
  obtain ⟨-, x, s, cache, h', state, -, hs, hsettle, rfl, rfl⟩ := finalize_eq_ok_iff.1 hfinal
  rw [hn.config_eq] at hs hsettle
  -- the block is settled under the snapshot that the chain gives to its turn
  obtain ⟨hcache, hanswer⟩ := snapshotForTurn_nil_agrees hn.agrees (config.turnOf h.number)
  have hlookup : CommitteeConsensus.snapshotForTurn config n.chain [] (config.turnOf h.number)
      n.snapshots = (.ok s, cache) := hs
  rw [hlookup] at hcache hanswer
  obtain ⟨y, hsettles⟩ := settles_of_settle hsettle
  obtain ⟨hsame, signature, hread⟩ := hsealed.decode_extra hsettles.extra
  have hsame : b'.header.number = h.number := hsame.trans hsettles.number
  rw [List.map_append] at hhash
  apply hn.insert (hsame ▸ hnumber) hhash hcache
  -- a block that publishes a committee is the end of an epoch, as it is not number zero
  intro hpublishes
  have hpublishes : config.isEpochEnd h.number = true ∧ (config.turnOf h.number).toNat ≤ last := by
    rw [← hsame]
    apply hpublishes.resolve_left
    intro hzero
    rw [← hsame, hzero] at hnumber
    simp at hnumber
  have hunstaked : ∀ a ∈ n.state.candidates, n.state.latestStake a = 0 := by
    refine hunchallenged (n, b'.header) (by simp) ?_ ?_
    · rw [hsame]
      exact hpublishes.1
    · rw [hsame]
      exact hpublishes.2
  have hoffice := hn.publishesOffice_of_settle hepoch hroom (hanswer s rfl) hsettle hsettles.extra
    hpublishes.1 hpublishes.2 hunstaked
  exact ⟨{ y with signature }, hread, hoffice⟩

/-- Whatever comes between two blocks, what is published stays. -/
theorem Persists.meanwhile {m : Node} (hn : Persists config genesis r last built n)
    (hconfig : m.config = n.config) (hchain : m.chain = n.chain)
    (hagrees : m.snapshots.Agrees m.config m.chain) :
    Persists config genesis r last built m where
  config_eq := hconfig.trans hn.config_eq
  agrees := by rwa [hconfig, hn.config_eq] at hagrees
  indexed := hchain ▸ hn.indexed
  spans := hchain ▸ hn.spans
  has := hchain ▸ hn.has
  office := hchain ▸ hn.office

/-- The committee of the genesis header stays in office along a whole run. -/
theorem Builds.persists (hrun : Builds start built n) (hepoch : start.config.epoch ≠ 0)
    (hroom : built.length + 1 < Word.max)
    (hhash : HashesIdentify (· ∈ genesis :: built.map Prod.snd))
    (hunchallenged : Unchallenged start.config last built)
    (hstart : Persists start.config genesis r last [] start) :
    Persists start.config genesis r last built n := by
  induction hrun with
  | start => exact hstart
  | block run number final signed ih =>
    rw [List.length_append] at hroom
    have hbefore := ih (by omega)
      (hhash.mono fun g hg => by
        rw [List.map_append, ← List.cons_append]
        exact List.mem_append_left _ hg)
      (fun e he => hunchallenged e (List.mem_append_left _ he))
    exact hbefore.block hepoch (by omega) number final signed hhash hunchallenged
  | meanwhile run config_eq chain_eq agrees ih =>
    exact (ih hroom hhash hunchallenged).meanwhile config_eq chain_eq agrees

/-! ## The committee stays in office -/

/-- A committee without challengers persists. In a run from a genesis header that puts a committee
    into office, if no candidate has stake at any end of an epoch up to turn `last`, then every
    snapshot that a turn up to `last + validPeriod` has is that of the genesis committee: the same
    members in the same order with the same shares, and with the stake and the contribution that
    the genesis header gives to each, where an absent column counts as zeros. And the turn has a
    snapshot as soon as the header that publishes it is there, unless the store refuses it.

    The last two block numbers are left out, since the end of an epoch there is no block number
    any more. -/
theorem committee_persists {x : ExtraData} {g : Snapshot}
    (hvalid : start.config.validate = .ok ())
    (hagrees : start.snapshots.Agrees start.config start.chain)
    (hchain : start.chain = .ofGenesis genesis) (hnumber : genesis.number = 0)
    (hextra : ExtraData.decode genesis.extra = .ok x)
    (hgenesis : publishedSnapshot start.config genesis 0 = .ok g)
    (hrun : Builds start built n) (hroom : built.length + 1 < Word.max)
    (hhash : HashesIdentify (· ∈ genesis :: built.map Prod.snd))
    (hunchallenged : Unchallenged start.config last built) :
    ∀ turn : UInt64, turn.toNat ≤ last + start.config.validPeriod.toNat →
      (∀ s n', snapshotForTurn [] turn n = (.ok s, n') → s.SameOffice g
        ∧ ∀ i a, s.rank[i]? = some a → s.members.get? a
          = some ⟨a, x.committee.committeeStake.getD i 0,
            x.committee.sentinelContribution.getD i 0⟩)
        ∧ (n.snapshots.store.rejectsWrites = false →
          (start.config.usesGenesisCommittee turn = true
            ∨ (start.config.publishingBlock turn).toNat ≤ built.length) →
          ∃ s n', snapshotForTurn [] turn n = (.ok s, n')) := by
  obtain ⟨hepoch, -⟩ := (Config.validate_eq_ok_iff start.config).1 hvalid
  obtain ⟨y, hy, hrecord⟩ := publishedSnapshot_eq_ok_iff.1 hgenesis
  obtain rfl : y = x := Except.ok.inj (hy.symm.trans hextra)
  obtain ⟨hflaw, -⟩ := Snapshot.ofRecord_eq_ok_iff.1 hrecord
  have hoffice : PublishesOffice start.config y.committee genesis :=
    ⟨y, hy, CommitteeRecord.sameOffice_refl _, hflaw⟩
  have hn := hrun.persists hepoch hroom hhash hunchallenged
    (persists_ofGenesis hagrees hchain hnumber hoffice)
  intro turn hturn
  constructor
  · intro s n' hanswer
    have hlookup := (snapshotForTurn_nil_agrees hn.agrees turn).2 s
    rw [snapshotForTurn, ofLookup_apply, hn.config_eq] at hanswer
    have hs := hlookup (mapError_eq_ok_iff.1 (Prod.mk.inj hanswer).1)
    obtain ⟨_, _, r', hsame, hmade⟩ := hn.ofRecord_of_canonicalSnapshot hepoch hroom hturn hs
    have hsameOffice := Snapshot.sameOffice_ofRecord hsame hmade hrecord
    refine ⟨hsameOffice, ?_⟩
    intro i a ha
    have hrank : y.committee.rank[i]? = some a := by
      rw [hsameOffice.rank] at ha
      obtain ⟨-, rfl⟩ := Snapshot.ofRecord_eq_ok_iff.1 hrecord
      exact ha
    -- the columns are read off the genesis snapshot, whose members are the same
    rw [hsameOffice.members]
    exact Snapshot.get?_members_ofRecord hrecord hrank
  · intro hwrites hpublished
    obtain ⟨s, hs⟩ := hn.exists_canonicalSnapshot hepoch hroom hturn hpublished
    obtain ⟨cache, hlookup, -⟩ := snapshotForTurn_nil hn.agrees hwrites turn
    refine ⟨s, { n with snapshots := cache }, ?_⟩
    rw [snapshotForTurn, ofLookup_apply, hn.config_eq, hlookup, hs]
    rfl

end Node

/-! ## The first committee after the genesis committee -/

/-- The first epoch decides who governs the second, and the only candidate has no stake. -/
def Lone.unchallenged : Node :=
  { node (.zero 20) with
    config := { epoch := 2, electionPeriod := 0 }
    state := { candidates := [signer.address] } }

namespace Node

/-- The member that the genesis header puts into office, without columns, governs the second epoch
    too. -/
theorem committee_persists_unchallenged :
    ∃ h n s n', Builds Lone.unchallenged [(Lone.unchallenged, h)] n
      ∧ Lone.unchallenged.config.isEpochEnd h.number = true
      ∧ snapshotForTurn [] 1 n = (.ok s, n') ∧ s.rank = [.zero 20]
      ∧ s.members.get? (.zero 20) = some ⟨.zero 20, 0, 0⟩ := by
  have hsigned : (match finalize (Lone.next (.zero 20)) [] [] [] Lone.unchallenged with
      | (.ok b, m) => !m.snapshots.store.rejectsWrites
        && (b.header.withSignature (.zero 65)).toOption.any fun h =>
          h.number = 1 ∧ h.hash ≠ (Lone.genesis (.zero 20)).hash
      | (.error _, _) => false) = true := by
    decide +kernel
  rcases hfinal : finalize (Lone.next (.zero 20)) [] [] [] Lone.unchallenged with ⟨_ | b, m⟩
  · rw [hfinal] at hsigned
    exact absurd hsigned Bool.false_ne_true
  · rw [hfinal] at hsigned
    obtain ⟨hwrites, hsigned⟩ := (Bool.and_eq_true _ _).mp hsigned
    have hwrites : m.snapshots.store.rejectsWrites = false := by simpa using hwrites
    obtain ⟨h, hh, hkept⟩ := toOption_any_iff.1 hsigned
    obtain ⟨hnumber, hhash⟩ := of_decide_eq_true hkept
    have hrun : Builds Lone.unchallenged [(Lone.unchallenged, h)]
        { m with chain := m.chain.insert h } :=
      .block .start rfl hfinal (.signature hh)
    have hextra : ExtraData.decode (Lone.genesis (.zero 20)).extra
        = .ok (Lone.office (.zero 20)) :=
      ExtraData.decode_frame (by decide +kernel) (ExtraData.parse?_payload _)
    have hgenesis : publishedSnapshot Lone.unchallenged.config (Lone.genesis (.zero 20)) 0
        = .ok (Lone.term Lone.unchallenged.config (Lone.genesis (.zero 20)) 0 (.zero 20)) :=
      Lone.publishedSnapshot_office rfl (by decide +kernel) rfl
    have hidentify : HashesIdentify
        (· ∈ Lone.genesis (.zero 20) :: [(Lone.unchallenged, h)].map Prod.snd) :=
      hashesIdentify_of_nodup (by simpa using fun heq => hhash heq.symm)
    have hunstaked : Unchallenged Lone.unchallenged.config 0 [(Lone.unchallenged, h)] := by
      intro e he _ _ a _
      rw [List.mem_singleton.1 he]
      rfl
    have hvalid : Lone.unchallenged.config.validate = .ok () :=
      toOption_eq_some_iff.1 (by decide +kernel)
    have hagrees : Lone.unchallenged.snapshots.Agrees Lone.unchallenged.config
        Lone.unchallenged.chain := SnapshotCache.holds_ofStore_empty 128
    have hroom : 1 + 1 < Word.max := by decide
    -- the committee of turn one is sought in the block that was built
    have hpublished : (Lone.unchallenged.config.publishingBlock 1).toNat ≤ 1 := by decide
    obtain ⟨hsame, hresolves⟩ := committee_persists hvalid hagrees rfl rfl hextra hgenesis hrun
      hroom hidentify hunstaked 1 (by decide)
    obtain ⟨s, n', hanswer⟩ := hresolves hwrites (.inr hpublished)
    obtain ⟨hoffice, hmembers⟩ := hsame s n' hanswer
    have hrank : s.rank = [.zero 20] := hoffice.rank
    refine ⟨h, _, s, n', hrun, ?_, hanswer, hrank, ?_⟩
    · rw [hnumber]
      rfl
    · exact hmembers 0 (.zero 20) (by rw [hrank]; rfl)

end Node

end CommitteeConsensus
