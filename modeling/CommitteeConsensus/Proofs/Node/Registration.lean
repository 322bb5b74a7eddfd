import CommitteeConsensus.Node.Production
import CommitteeConsensus.Proofs.Engine.Registration
import CommitteeConsensus.Proofs.Node.Departure

/-! # Nodes that know their candidates in another order

    Two nodes may have come to know the same candidates in different orders. They finalize a
    header to the same block, with the same committee in it, or refuse it for the same reason, and
    their states stay the same in all but that order (`finalize_registered`). What they do not
    agree on is the root of the state, which commits to the order too.
-/

namespace CommitteeConsensus

/-- Blocks that publish the same, and differ in the commitment to the state alone. -/
structure SameBlock (b b' : Block) : Prop where
  extra : b'.header.extra = b.header.extra
  committee : Node.publishedCommittee? b'.header = Node.publishedCommittee? b.header
  rest : b' = { b with header := { b.header with stateRoot := b'.header.stateRoot } }

theorem SameHeader.sameBlock {h h' : Header} (hsame : SameHeader h h')
    (transactions : List Transaction) : SameBlock ⟨h, transactions, []⟩ ⟨h', transactions, []⟩ := by
  unfold SameHeader at hsame
  have hextra : h'.extra = h.extra := by rw [hsame]
  refine ⟨hextra, ?_, congrArg (Block.mk · transactions []) hsame⟩
  unfold Node.publishedCommittee?
  dsimp only
  rw [hextra]

namespace Node

section

variable {n : Node} {t : State}

theorem finalize_reorders (hstate : n.state.Reorders t) (h : Header)
    (transactions : List Transaction) (uncles : List Header) (receipts : List Receipt) :
    ∃ result result' s' t' snapshots,
      finalize h transactions uncles receipts n = (result, { n with state := s', snapshots })
        ∧ finalize h transactions uncles receipts { n with state := t }
          = (result', { n with state := t', snapshots })
        ∧ Alike SameBlock result result' ∧ s'.Reorders t' := by
  unfold finalize CommitteeConsensus.finalize
  dsimp only
  -- up to the lookup of the snapshot neither node looks at its state
  split
  · exact ⟨_, _, _, _, _, rfl, rfl, .error _, hstate⟩
  · split
    · exact ⟨_, _, _, _, _, rfl, rfl, .error _, hstate⟩
    · cases ExtraData.decodeOrDefault h.extra with
      | error e => exact ⟨_, _, _, _, _, rfl, rfl, .error _, hstate⟩
      | ok x =>
        dsimp only
        rcases governingSnapshot n.config n.chain [] h.number n.snapshots with ⟨e | current, cache⟩
        · exact ⟨_, _, _, _, _, rfl, rfl, .error _, hstate⟩
        · obtain ⟨result, result', s', t', hs, ht, hresult, hsettled⟩ :=
            settle_reorders n.config current hstate h x transactions receipts
          dsimp only
          rw [hs, ht]
          cases hresult with
          | error e => exact ⟨_, _, _, _, _, rfl, rfl, .error _, hsettled⟩
          | ok hheader =>
            exact ⟨_, _, _, _, _, rfl, rfl, .ok (hheader.sameBlock transactions), hsettled⟩

/-- An election ranks its candidates the same in whatever order they are given. Two nodes whose
    states differ in the order of registration alone finalize a header alike: both fail, and for
    the same reason, or both succeed, with the same extra-data and the same published committee.
    Their states then differ in the order of registration alone. -/
theorem finalize_registered :
    (∀ (candidates candidates' : List Candidate) (base maxSize : UInt64),
        candidates.Perm candidates' →
          rankCandidates candidates base maxSize = rankCandidates candidates' base maxSize)
      ∧ ∀ (n : Node) (t : State) (h : Header) (transactions : List Transaction)
        (uncles : List Header) (receipts : List Receipt), n.state.Reorders t →
          ∃ result result' s' t' snapshots,
            finalize h transactions uncles receipts n
                = (result, { n with state := s', snapshots })
              ∧ finalize h transactions uncles receipts { n with state := t }
                = (result', { n with state := t', snapshots })
              ∧ Alike SameBlock result result' ∧ s'.Reorders t' :=
  ⟨fun _ _ base maxSize hperm => rankCandidates_perm hperm base maxSize,
    fun _ _ h transactions uncles receipts hstate =>
      finalize_reorders hstate h transactions uncles receipts⟩

end

end Node

/-! ## The other order -/

/-- The state at which two accounts stand for election, had they registered the other way
    round. -/
def Lone.registered : State :=
  Lone.departing.state.setCandidates [signer.address, .zero 20]

namespace Node

open Step

/-- In both orders the same committee is elected, the account with more stake first. -/
theorem finalize_registered_departing :
    rankCandidates [⟨.zero 20, 3, 0⟩, ⟨Lone.signer.address, 5, 0⟩] 10000 2
        = rankCandidates [⟨Lone.signer.address, 5, 0⟩, ⟨.zero 20, 3, 0⟩] 10000 2
      ∧ Lone.registered.candidates ≠ Lone.departing.state.candidates
      ∧ ∃ b b' n' m', finalize (Lone.next (.zero 20)) [] [] [] Lone.departing = (.ok b, n')
        ∧ finalize (Lone.next (.zero 20)) [] [] [] { Lone.departing with state := Lone.registered }
          = (.ok b', m')
        ∧ publishedCommittee? b.header = some Lone.departed
        ∧ publishedCommittee? b'.header = some Lone.departed
        ∧ n'.state.Reorders m'.state := by
  obtain ⟨hrank, hfinalize⟩ := finalize_registered
  refine ⟨hrank _ _ _ _ (.swap _ _ []), by decide, ?_⟩
  obtain ⟨result, result', s', t', snapshots, hs, ht, hresult, hstate⟩ :=
    hfinalize Lone.departing Lone.registered (Lone.next (.zero 20)) [] [] [] ⟨_, .swap _ _ [], rfl⟩
  obtain ⟨b, n', x, hfinal, hx, hcommittee⟩ := finalize_departing
  obtain ⟨rfl, rfl⟩ := outcome_eq_iff.1 (hs.symm.trans hfinal)
  have hpublished : publishedCommittee? b.header = some Lone.departed := by
    rw [publishedCommittee?, ExtraData.decodeOrDefault_of_decode hx, ← hcommittee]
    rfl
  cases hresult with
  | ok hsame =>
    exact ⟨b, _, _, _, hs, ht, hpublished, hsame.committee.trans hpublished, hstate⟩

end Node

end CommitteeConsensus
