import CommitteeConsensus.Proofs.Calendar
import CommitteeConsensus.Proofs.Node.Acceptance

/-! # Chains that come to a halt

    A chain that has every block below a number can be extended by a block of that number as soon
    as the committee of the block's turn is found. With a valid period of at least one epoch the
    committee stands in an earlier block, so the chain goes on. With a valid period of zero, which
    a valid configuration may have, it is sought in the last block of the very turn that it is to
    govern: once the genesis committee has served, nobody can add a block any more
    (`stalled_iff`).
-/

namespace CommitteeConsensus

namespace Chain

variable {c : Chain} {g : Header} {number : UInt64}

/-- The canonical numbers are those below `number`. -/
def Spans (c : Chain) (number : UInt64) : Prop :=
  ∀ k, (∃ h, c.headerAt? k = some h) ↔ k < number

theorem Spans.below (hspans : c.Spans number) (hc : c.Indexed) : c.Below number := by
  intro k hk
  obtain ⟨hash, hhash⟩ := Option.isSome_iff_exists.1 hk
  obtain ⟨h, hget, -⟩ := hc k hash hhash
  exact (hspans k).1 ⟨h, headerAt?_eq_some_iff.2 ⟨hash, hhash, hget⟩⟩

/-- A child of the head spans one number more. -/
theorem Spans.insert (hspans : c.Spans g.number) (hc : c.Indexed)
    (hhash : ∀ h, c.Has h → h.hash = g.hash → h = g) (hlast : g.number.toNat < Word.max) :
    (c.insert g).Spans (g.number + 1) := by
  intro k
  rw [headerAt?_insert_of_below hc hhash (hspans.below hc), UInt64.lt_iff_toNat_lt,
    Word.toNat_next hlast]
  by_cases heq : k = g.number
  · rw [if_pos heq, heq]
    exact ⟨fun _ => Nat.lt_succ_self _, fun _ => ⟨g, rfl⟩⟩
  · have hne : k.toNat ≠ g.number.toNat := fun h => heq (UInt64.toNat_inj.1 h)
    rw [if_neg heq, hspans k, UInt64.lt_iff_toNat_lt]
    omega

theorem spans_ofGenesis {genesis : Header} (hnumber : genesis.number = 0) :
    (ofGenesis genesis).Spans 1 := by
  have hempty : ({} : Chain).Spans genesis.number := by
    intro k
    rw [hnumber]
    constructor
    · rintro ⟨h, hh⟩
      exact absurd ⟨k, hh⟩ (not_has_empty h)
    · intro hk
      exact absurd hk (Nat.not_lt_zero _)
  have hinsert := hempty.insert indexed_empty (fun h hh => absurd hh (not_has_empty h))
    (by rw [hnumber]; decide)
  rwa [hnumber] at hinsert

end Chain

/-! ## Publishers that are missing -/

section

variable {config : Config} {chain : Chain}

/-- A record that has been found is refused for what it says. -/
theorem publishedSnapshot_ne_unknownAncestor (h : Header) (turn : UInt64) :
    publishedSnapshot config h turn ≠ .error .unknownAncestor := by
  unfold publishedSnapshot ExtraData.decode Snapshot.ofRecord
  intro herror
  split at herror
  · simp at herror
  · split at herror
    · simp at herror
    · dsimp only at herror
      split at herror
      · simp at herror
      · split at herror
        · rw [ok_bind] at herror
          split at herror
          · simp [CommitteeFlaw.error] at herror
          · simp at herror
        · simp at herror

/-- The committee of a turn has no known ancestor exactly if the publishing number has no
    canonical header. -/
theorem canonicalSnapshot_eq_unknownAncestor_iff {turn : UInt64}
    (hturn : config.usesGenesisCommittee turn = false) :
    canonicalSnapshot config chain turn = .error .unknownAncestor
      ↔ ¬ ∃ h, chain.headerAt? (config.publishingBlock turn) = some h := by
  have hgenesis : ¬ config.usesGenesisCommittee turn = true := by simp [hturn]
  unfold canonicalSnapshot freshSnapshot publisher
  rw [if_neg hgenesis]
  simp only [findHeader?, List.reverse_nil, List.find?_nil]
  cases chain.headerAt? (config.publishingBlock turn) with
  | none => simp
  | some h => simpa using publishedSnapshot_ne_unknownAncestor h turn

end

namespace Node

open Step

/-- The node cannot find the committee of the block, makes no block of this number and accepts
    none. -/
structure Stalled (n : Node) (number : UInt64) : Prop where
  snapshot : (snapshotAt [] number n).1 = .error (.error .unknownAncestor)
  refused : ∀ h, h.number = number → (verifyHeader h true n).1 ≠ .ok ()
  unprepared : ∀ h n' g, h.number = number → prepare h n ≠ (.ok g, n')

/-- Without a committee nothing of the number is prepared or accepted. -/
theorem stalled_of_snapshot {n : Node} {number : UInt64}
    (hmissing : (snapshotAt [] number n).1 = .error (.error .unknownAncestor)) :
    n.Stalled number where
  snapshot := hmissing
  refused := by
    rintro h rfl haccepted
    rw [verifyHeader_fst, mapError_eq_ok_iff] at haccepted
    obtain ⟨-, s, -, hs, -⟩ := verifyHeader_eq_ok_iff.1 haccepted
    rw [snapshotAt, ofLookup_apply, hs] at hmissing
    simp at hmissing
  unprepared := by
    rintro h n' g rfl hprepared
    obtain ⟨s, hs⟩ := snapshotAt_of_prepare hprepared
    rw [hmissing] at hs
    simp at hs

/-- Of the blocks whose committee is not that of the genesis header: the committee is published
    before its turn exactly if it waits for its office and there is something before the turn. A
    chain that has all blocks below one has the publisher exactly if committees wait for their
    office, and the nodes on it stall at the block exactly if they do not. Where committees do not
    wait, the very last block number is left out. -/
theorem stalled_iff {config : Config} (hvalid : config.validate = .ok ()) {number : UInt64}
    (hnumber : number ≠ 0) (hlast : config.validPeriod = 0 → number.toNat < Word.max)
    (hturn : config.usesGenesisCommittee (config.turnOf number) = false) :
    ((config.publishingBlock (config.turnOf number)).toNat
        < (config.turnOf number).toNat * config.epoch.toNat
      ↔ config.validPeriod ≠ 0 ∧ config.turnOf number ≠ 0)
    ∧ ∀ n : Node, n.config = config → n.chain.Spans number →
      ((∃ h, n.chain.headerAt? (config.publishingBlock (config.turnOf number)) = some h)
        ↔ config.validPeriod ≠ 0)
      ∧ (n.Consistent → (n.Stalled number ↔ config.validPeriod = 0)) := by
  obtain ⟨hepoch, -⟩ := (Config.validate_eq_ok_iff config).1 hvalid
  refine ⟨Config.publishingBlock_lt_first_iff hepoch hlast, ?_⟩
  rintro n rfl hspans
  have hpublished : (∃ h, n.chain.headerAt? (n.config.publishingBlock (n.config.turnOf number))
      = some h) ↔ n.config.validPeriod ≠ 0 := by
    rw [hspans, Config.publishingBlock_lt_iff hepoch hnumber hlast]
  refine ⟨hpublished, fun hn => ?_⟩
  -- what the node answers is what the chain says
  obtain ⟨cache, hlookup, -⟩ := governingSnapshot_nil hn.agrees hn.writes number
  have hanswer : (snapshotAt [] number n).1
      = (canonicalSnapshot n.config n.chain (n.config.turnOf number)).mapError .error := by
    rw [snapshotAt, ofLookup_apply, hlookup]
  have hmissing : (snapshotAt [] number n).1 = .error (.error .unknownAncestor)
      ↔ n.config.validPeriod = 0 := by
    have herror : ∀ r : Except Error Snapshot,
        (r.mapError .error : Except Failure Snapshot) = .error (.error .unknownAncestor)
          ↔ r = .error .unknownAncestor := by
      intro r
      cases r <;> simp
    rw [hanswer, herror, canonicalSnapshot_eq_unknownAncestor_iff hturn, hpublished, not_not]
  exact ⟨fun hstalled => hmissing.1 hstalled.snapshot, fun h => stalled_of_snapshot (hmissing.2 h)⟩

end Node

/-! ## A chain that halts after its first epoch -/

/-- A node whose committees are to take office at once, at the end of the first epoch. -/
def Lone.halted : Node :=
  { node (.zero 20) with
    config := { epoch := 2, validPeriod := 0 }
    chain := (Chain.ofGenesis (genesis (.zero 20))).insert (next (.zero 20)) }

namespace Node

theorem spans_halted : Lone.halted.chain.Spans 2 := by
  have hgenesis : (Chain.ofGenesis (Lone.genesis (.zero 20))).Spans 1 :=
    Chain.spans_ofGenesis rfl
  have hindexed := Chain.indexed_ofGenesis (Lone.genesis (.zero 20))
  refine Chain.Spans.insert (g := Lone.next (.zero 20)) hgenesis hindexed ?_ (by decide)
  intro h hh hsame
  rcases Chain.has_of_insert hh with rfl | hnone
  · exact absurd hsame (by decide +kernel)
  · exact absurd hnone (Chain.not_has_empty h)

/-- The configuration is valid, and nobody can add block two. -/
theorem stalled_halted :
    Lone.halted.config.validate = .ok () ∧ Lone.halted.chain.Spans 2 ∧ Lone.halted.Stalled 2 := by
  have hvalid : Lone.halted.config.validate = .ok () :=
    toOption_eq_some_iff.1 (by decide +kernel)
  have hconsistent : Lone.halted.Consistent := ⟨SnapshotCache.holds_ofStore_empty 128, rfl⟩
  obtain ⟨-, hnodes⟩ := stalled_iff hvalid (show (2 : UInt64) ≠ 0 by decide) (fun _ => by decide)
    (by decide)
  obtain ⟨-, hstalled⟩ := hnodes Lone.halted rfl spans_halted
  exact ⟨hvalid, spans_halted, (hstalled hconsistent).2 rfl⟩

end Node

end CommitteeConsensus
