import CommitteeConsensus.Proofs.Engine.Settlement
import CommitteeConsensus.Proofs.Engine.Verification
import CommitteeConsensus.Proofs.Node.Steps
import CommitteeConsensus.Node.Batch

/-! # Published committees

    The last header of an epoch publishes a committee, from which the snapshots of later turns are
    made. What `finalize` publishes always serves (`publishes_of_finalize`): whoever stands for
    election, the record passes verification and gives a snapshot to every turn.

    A header that others have made need not serve. Verification looks at the number of members and
    of their reward shares, while a snapshot also asks for columns of the right length and for
    members that are named once. An accepted header whose record fails one of these gives a
    snapshot to no turn at all (`resolves_iff_of_accepts`), and the chain has no committee for the
    turns that it was to publish.
-/

namespace CommitteeConsensus

namespace Node

open Step

/-! ## What finalizing publishes -/

/-- The record serves at a block of the node: it is accepted, every turn can be given a snapshot
    from it, and it says who is bound to its members and how they share. -/
structure Publishes (n : Node) (number : UInt64) (r : CommitteeRecord) : Prop where
  accepted : checkEpochCommittee n.config number r = .ok ()
  resolves : ∀ publishedAt publishedBy turn,
    ∃ s, Snapshot.ofRecord n.config publishedAt publishedBy turn r = .ok s
  nodup : r.rank.Nodup
  accountBinding : ∀ a,
    r.accountBinding.get? a = if a ∈ r.rank then n.state.bindingTable.get? a else none
  /-- As soon as a candidate has stake, the whole of `base` is shared out. -/
  proportion : (∃ a ∈ n.state.candidates, 0 < n.state.latestStake a) →
    Word.total r.proportion = n.config.rewards.base.toNat

/-- The last block of an epoch publishes a committee that serves, whoever stands for election. -/
theorem publishes_of_finalize {n n' : Node} {h : Header} {transactions : List Transaction}
    {uncles : List Header} {receipts : List Receipt} {b : Block} {current : Snapshot}
    {publishedAt : UInt64} {publishedBy : Hash} {turn : UInt64} {r : CommitteeRecord}
    (hvalid : n.config.validate = .ok ()) (hend : n.config.isEpochEnd h.number)
    (hcurrent : (governingSnapshot n.config n.chain [] h.number n.snapshots).1 = .ok current)
    (hrecord : Snapshot.ofRecord n.config publishedAt publishedBy turn r = .ok current)
    (hfinal : finalize h transactions uncles receipts n = (.ok b, n')) :
    ∃ x, ExtraData.decode b.header.extra = .ok x
      ∧ n.Publishes b.header.number x.committee := by
  obtain rfl := uncles_of_finalize hfinal
  obtain ⟨-, x, s, cache, h', state, -, hs, hsettle, rfl, -⟩ := finalize_eq_ok_iff.1 hfinal
  have hsame : s = current := by
    rw [hs] at hcurrent
    exact Except.ok.inj hcurrent
  subst hsame
  obtain ⟨y, hy, hcommittee⟩ := committee_of_settle hsettle hend
  obtain ⟨-, -, hmax, -⟩ := (Config.validate_eq_ok_iff n.config).1 hvalid
  have hoffice := Snapshot.snapshotFlaw?_toRecord_ofRecord hrecord
  have hflaw : (electCommittee n.config h.number s n.state).snapshotFlaw? n.config.committeeMaxSize
      = none := snapshotFlaw?_electCommittee hoffice n.state
  obtain ⟨hpublication, -, hnodup⟩ := CommitteeRecord.snapshotFlaw?_eq_none_iff.1 hflaw
  refine ⟨y, hy, ?_⟩
  rw [hcommittee]
  exact {
    accepted := checkEpochCommittee_eq_ok_iff.2 hpublication
    resolves := fun _ _ _ => ⟨_, Snapshot.ofRecord_eq_ok_iff.2 ⟨hflaw, rfl⟩⟩
    nodup := hnodup
    accountBinding := accountBinding_electCommittee n.config h.number s n.state
    proportion := total_proportion_electCommittee hmax h.number s }

end Node

/-- A node at which two accounts stand for election, one of them without stake. -/
def Lone.electing : Node :=
  { node (.zero 20) with
    state := {
      stakeLogs := Table.empty.insert signer.address ⟨#[⟨0, 5⟩]⟩
      candidates := [.zero 20, signer.address]
      bindingTable := Table.empty.insert signer.address [.zero 20] } }

namespace Node

open Step

/-- The account with stake is elected, with the whole of `base`. -/
theorem publishes_of_finalize_electing :
    ∃ b n' x, finalize (Lone.next (.zero 20)) [] [] [] Lone.electing = (.ok b, n')
      ∧ ExtraData.decode b.header.extra = .ok x
      ∧ Lone.electing.Publishes b.header.number x.committee
      ∧ Word.total x.committee.proportion = 10000 := by
  obtain ⟨b, n', hfinal, -⟩ := exists_outcome (p := fun _ => true)
    (x := finalize (Lone.next (.zero 20)) [] [] []) (n := Lone.electing) (by decide +kernel)
  have hvalid : Lone.electing.config.validate = .ok () :=
    toOption_eq_some_iff.1 (by decide +kernel)
  have hlength : (Lone.office (.zero 20)).payload.length < 0x100000000 := by decide +kernel
  have hterm := Lone.canonicalSnapshot_genesis hlength
  have hcurrent : (governingSnapshot Lone.electing.config Lone.electing.chain []
      (Lone.next (.zero 20)).number Lone.electing.snapshots).1
      = .ok (Lone.term Lone.config (Lone.genesis (.zero 20)) 0 (.zero 20)) :=
    Lone.governingSnapshot_ofGenesis rfl hlength rfl
  obtain ⟨publishedAt, publishedBy, r, hrecord⟩ := ofRecord_of_freshSnapshot hterm
  obtain ⟨x, hx, hpublishes⟩ :=
    publishes_of_finalize hvalid (by decide) hcurrent hrecord hfinal
  have hstake : ∃ a ∈ Lone.electing.state.candidates, 0 < Lone.electing.state.latestStake a :=
    ⟨Lone.signer.address, by decide, by decide⟩
  exact ⟨b, n', x, hfinal, hx, hpublishes, hpublishes.proportion hstake⟩

/-! ## What verification accepts -/

/-- The node accepts the header with its seal, or inside a batch. -/
def Accepts (n : Node) (h : Header) : Prop :=
  (verifyHeader h true n).1 = .ok ()
    ∨ ∃ (aborted : Nat → Bool) (seals : List Bool) (headers : List Header) (i : Nat),
      headers[i]? = some h ∧ (verifyHeaders aborted seals headers n).1[i]? = some (.ok ())

/-- Verifying a header changes neither chain nor clock. -/
theorem verify_frame (n : Node) (pending : List Header) (h : Header) (withSeal : Bool) :
    (n.verify pending h withSeal).2.config = n.config
      ∧ (n.verify pending h withSeal).2.chain = n.chain
      ∧ (n.verify pending h withSeal).2.now = n.now :=
  ⟨record_config _ _, record_chain _ _, record_now _ _⟩

/-- A header that is accepted in a batch is the next one, and the node has verified it, or it comes
    later, and the node that verifies it differs in nothing that verification looks at but its
    cache. -/
theorem accepted_of_verifyRest_cons {aborted : Nat → Bool} {seals : List Bool}
    {done rest : List Header} {failed : Bool} {n : Node} {i : Nat} {g h : Header}
    (hh : (g :: rest)[i]? = some h)
    (hok : (verifyRest aborted seals done failed (g :: rest) n).1[i]? = some (.ok ())) :
    g = h ∧ (∃ withSeal, (n.verify done h withSeal).1 = .ok ())
      ∨ ∃ (j : Nat) (failed' : Bool) (m : Node), rest[j]? = some h
        ∧ (m.config = n.config ∧ m.chain = n.chain ∧ m.now = n.now)
        ∧ (verifyRest aborted seals (done ++ [g]) failed' rest m).1[j]? = some (.ok ()) := by
  rw [verifyRest] at hok
  dsimp only at hok
  split at hok
  · simp at hok
  · generalize hstep : (if failed then (.error .unknownAncestor, n)
      else n.verify done g (seals.getD done.length true)) = step at hok
    obtain ⟨result, m⟩ := step
    dsimp only at hok
    split at hok
    · simp at hok
    · cases i with
      | zero =>
        obtain rfl : g = h := by simpa using hh
        obtain rfl : result = .ok () := by simpa using hok
        -- it was looked at, or it would have been refused
        cases failed with
        | true => simp at hstep
        | false =>
          rw [if_neg Bool.false_ne_true] at hstep
          exact .inl ⟨rfl, _, by rw [hstep]⟩
      | succ j =>
        have hsame : m.config = n.config ∧ m.chain = n.chain ∧ m.now = n.now := by
          cases failed with
          | true =>
            rw [if_pos rfl] at hstep
            rw [← (Prod.mk.inj hstep).2]
            exact ⟨rfl, rfl, rfl⟩
          | false =>
            rw [if_neg Bool.false_ne_true] at hstep
            have hframe := n.verify_frame done g (seals.getD done.length true)
            rwa [hstep] at hframe
        exact .inr ⟨j, _, m, by simpa using hh, hsame, by simpa using hok⟩

/-- What is accepted in a batch was found in order on the node's own chain. -/
theorem checkHeader_of_verifyRest {aborted : Nat → Bool} {seals : List Bool}
    {done rest : List Header} {failed : Bool} {n : Node} {i : Nat} {h : Header}
    (hh : rest[i]? = some h)
    (hok : (verifyRest aborted seals done failed rest n).1[i]? = some (.ok ())) :
    ∃ pending parent, checkHeader n.config n.chain n.now pending h = .ok parent := by
  induction rest generalizing done failed n i with
  | nil => simp at hh
  | cons g rest ih =>
    rcases accepted_of_verifyRest_cons hh hok with
      ⟨-, withSeal, hverify⟩ | ⟨j, failed', m, hlater, ⟨hconfig, hchain, hnow⟩, hrest⟩
    · exact ⟨done, checkHeader_of_verifyHeader hverify⟩
    · rw [← hconfig, ← hchain, ← hnow]
      exact ih hlater hrest

theorem checkHeader_of_accepts {n : Node} {h : Header} (haccepts : n.Accepts h) :
    ∃ pending parent, checkHeader n.config n.chain n.now pending h = .ok parent := by
  rcases haccepts with halone | ⟨aborted, seals, headers, i, hh, hbatch⟩
  · rw [verifyHeader_fst, mapError_eq_ok_iff] at halone
    exact ⟨[], checkHeader_of_verifyHeader halone⟩
  · exact checkHeader_of_verifyRest hh hbatch

/-- The last header of an epoch that the node accepts gives a snapshot to a turn, any turn, exactly
    if the columns of its committee are parallel and no member is named twice. A chain on which it
    publishes the committee of a turn resolves that turn under the same condition. -/
theorem resolves_iff_of_accepts {n : Node} {h : Header} (haccepts : n.Accepts h)
    (hend : n.config.isEpochEnd h.number) :
    ∃ x, ExtraData.decode h.extra = .ok x ∧ ∀ turn,
      ((∃ s, Snapshot.ofRecord n.config h.number h.hash turn x.committee = .ok s)
        ↔ x.committee.Parallel ∧ x.committee.rank.Nodup)
      ∧ ∀ chain, canonicalPublisher? n.config chain turn = some h →
        ((∃ s, canonicalSnapshot n.config chain turn = .ok s)
          ↔ x.committee.Parallel ∧ x.committee.rank.Nodup) := by
  obtain ⟨pending, parent, hcheck⟩ := checkHeader_of_accepts haccepts
  obtain ⟨-, x, hx, -, -, hpublication, -⟩ := checkHeader_eq_ok_iff.1 hcheck
  have hrecord : ∀ turn, (∃ s, Snapshot.ofRecord n.config h.number h.hash turn x.committee = .ok s)
      ↔ x.committee.Parallel ∧ x.committee.rank.Nodup := by
    intro turn
    simp only [Snapshot.ofRecord_eq_ok_iff, exists_and_left, exists_eq, and_true]
    rw [CommitteeRecord.snapshotFlaw?_eq_none_iff]
    exact and_iff_right (hpublication hend)
  refine ⟨x, hx, fun turn => ⟨hrecord turn, fun chain hpublisher => ?_⟩⟩
  -- the chain looks at the record of its publisher and at nothing else
  rw [← hrecord turn]
  simp only [canonicalSnapshot_eq_ok_iff, hpublisher, publishedSnapshot_eq_ok_iff, hx,
    Option.some.injEq, Except.ok.injEq, exists_eq_left']

end Node

/-! ## A record that names its member twice -/

namespace Lone

/-- A producer whose first epoch decides who governs the second. -/
def successor : Node := { producer with config := { epoch := 2, electionPeriod := 0 } }

/-- The only member puts itself into office twice. -/
def doubled : ExtraData where
  committee := { rank := [signer.address, signer.address], proportion := [5000, 5000] }
  signature := [54, 136, 133, 183, 77, 210, 63, 133, 156, 117, 61, 146, 168, 227, 128, 237, 146,
    31, 201, 91, 248, 18, 187, 245, 108, 9, 131, 26, 168, 45, 161, 192, 106, 205, 224, 70, 208,
    187, 76, 208, 28, 11, 184, 127, 198, 146, 139, 50, 113, 169, 228, 228, 161, 121, 244, 74, 46,
    224, 204, 44, 184, 243, 207, 35, 0]

/-- The end of the first epoch. -/
def epochEnd : Header := child (genesis signer.address) doubled

end Lone

namespace Node

open Step

theorem verifyHeader_doubled : (verifyHeader Lone.epochEnd true Lone.successor).1 = .ok () := by
  have hauthor : Lone.epochEnd.author = .ok Lone.signer.address :=
    toOption_eq_some_iff.1 (by decide +kernel)
  have hcheck : checkHeader Lone.successor.config Lone.successor.chain Lone.successor.now []
      Lone.epochEnd = .ok (Lone.genesis Lone.signer.address) :=
    Lone.checkHeader_child (by decide +kernel) (by decide) rfl (by decide) (by decide)
      (fun _ => rfl) (Chain.header?_insert_self {} (Lone.genesis Lone.signer.address))
  have hs : (governingSnapshot Lone.successor.config Lone.successor.chain [] Lone.epochEnd.number
      Lone.successor.snapshots).1 = .ok (Lone.term Lone.successor.config
        (Lone.genesis Lone.signer.address) 0 Lone.signer.address) :=
    Lone.governingSnapshot_ofGenesis rfl (by decide +kernel) rfl
  have hchecked : checkSeal Lone.successor.config
      (Lone.term Lone.successor.config (Lone.genesis Lone.signer.address) 0 Lone.signer.address)
      (Lone.genesis Lone.signer.address) Lone.epochEnd = .ok () :=
    checkSeal_eq_ok_iff.2 ⟨_, hauthor, by decide +kernel, by decide +kernel, by decide +kernel⟩
  rw [verifyHeader_fst, mapError_eq_ok_iff]
  exact verifyHeader_eq_ok_iff.2 ⟨_, _, hcheck, hs, hchecked⟩

/-- The header is accepted, and the chain that it extends has no committee for the next turn. -/
theorem unresolved_of_accepts_doubled :
    Lone.successor.config.validate = .ok () ∧ Lone.successor.Accepts Lone.epochEnd
      ∧ Lone.successor.config.isEpochEnd Lone.epochEnd.number
      ∧ ¬ ∃ s, canonicalSnapshot Lone.successor.config
        (Lone.successor.chain.insert Lone.epochEnd) 1 = .ok s := by
  have haccepts : Lone.successor.Accepts Lone.epochEnd := .inl verifyHeader_doubled
  have hend : Lone.successor.config.isEpochEnd Lone.epochEnd.number := by decide
  have hpublisher : canonicalPublisher? Lone.successor.config
      (Lone.successor.chain.insert Lone.epochEnd) 1 = some Lone.epochEnd :=
    Chain.headerAt?_insert_self Lone.successor.chain Lone.epochEnd
  obtain ⟨x, hx, hresolves⟩ := resolves_iff_of_accepts haccepts hend
  have hread : ExtraData.decode Lone.epochEnd.extra = .ok Lone.doubled :=
    ExtraData.decode_frame (by decide +kernel) Lone.doubled.parse?_payload
  have hrecord : x = Lone.doubled := Except.ok.inj (hx.symm.trans hread)
  refine ⟨toOption_eq_some_iff.1 (by decide +kernel), haccepts, hend, ?_⟩
  rw [(hresolves 1).2 _ hpublisher, hrecord]
  intro hserves
  exact absurd hserves.2 (by decide)

end Node

end CommitteeConsensus
