import CommitteeConsensus.Proofs.Engine.Settlement
import CommitteeConsensus.Proofs.Node.Steps
import CommitteeConsensus.Proofs.State.Root

/-! # Divergence shows in the root

    A block carries the root of the state that finalizing it leaves behind. The root commits to
    every table, so a producer and a follower that finalize to different states, if only in a
    balance of zero that one of them has set, find different roots (`roots_commit`).
-/

namespace CommitteeConsensus

/-- A settled header carries the root of the state that settling leaves behind. -/
theorem stateRoot_of_settle {config : Config} {current : Snapshot} {h h' : Header} {x : ExtraData}
    {transactions : List Transaction} {receipts : List Receipt} {s s' : State}
    (hsettle : settle config current h x transactions receipts s = (.ok h', s')) :
    h'.stateRoot = s'.root := by
  obtain ⟨paid, elected, -, -, hheader⟩ := settle_eq_ok_iff.1 hsettle
  obtain ⟨bytes, -, rfl⟩ := settledHeader_eq_ok_iff.1 hheader
  rfl

namespace Node

open Step

/-- A finalized block carries the root of the state that it leaves behind. -/
theorem stateRoot_of_finalize {n n' : Node} {h : Header} {transactions : List Transaction}
    {uncles : List Header} {receipts : List Receipt} {b : Block}
    (hfinal : finalize h transactions uncles receipts n = (.ok b, n')) :
    b.header.stateRoot = n'.state.root := by
  obtain rfl := uncles_of_finalize hfinal
  obtain ⟨-, x, s, cache, h', state, -, -, hsettle, rfl, rfl⟩ := finalize_eq_ok_iff.1 hfinal
  exact stateRoot_of_settle hsettle

/-- The text of a state, and without collisions the root, is that of one state only: all tables
    agree where roots do. So two nodes that finalize blocks, whatever they know and whatever the
    blocks are, find one root exactly if they are left with one state. -/
theorem roots_commit :
    Function.Injective State.written
      ∧ (∀ s t : State, DigestsIdentify (· ∈ [s.written, t.written]) → (s.root = t.root ↔ s = t))
      ∧ ∀ {n n' m m' : Node} {h g : Header} {transactions others : List Transaction}
          {uncles kin : List Header} {receipts results : List Receipt} {b c : Block},
          finalize h transactions uncles receipts n = (.ok b, n') →
          finalize g others kin results m = (.ok c, m') →
          DigestsIdentify (· ∈ [n'.state.written, m'.state.written]) →
          (b.header.stateRoot = c.header.stateRoot ↔ n'.state = m'.state) := by
  refine ⟨State.written_injective, fun s t hdigest => State.root_eq_iff hdigest, ?_⟩
  intro n n' m m' h g transactions others uncles kin receipts results b c hproducer hfollower hdigest
  rw [stateRoot_of_finalize hproducer, stateRoot_of_finalize hfollower]
  exact State.root_eq_iff hdigest

/-- A follower at which the balance of an account was set to zero, which others never heard of. -/
def visited : Node :=
  { Lone.node (.zero 20) with state := ({} : State).setBalance (.ofNat 20 7) 0 }

/-- The balance of zero that was set is in the root, before and after a block. -/
theorem roots_commit_visited :
    (DigestsIdentify (· ∈ [({} : State).written, visited.state.written])
        ∧ ({} : State).root ≠ visited.state.root)
      ∧ ∃ b c n' m', finalize (Lone.next (.zero 20)) [] [] [] (Lone.node (.zero 20)) = (.ok b, n')
        ∧ finalize (Lone.next (.zero 20)) [] [] [] visited = (.ok c, m')
        ∧ DigestsIdentify (· ∈ [n'.state.written, m'.state.written])
        ∧ n'.state ≠ m'.state := by
  obtain ⟨-, hstates, hblocks⟩ := roots_commit
  have hwritten : DigestsIdentify (· ∈ [({} : State).written, visited.state.written]) :=
    digestsIdentify_of_nodup (by decide +kernel)
  -- both nodes finalize the block, and write different roots into it
  have hroots : (match (finalize (Lone.next (.zero 20)) [] [] [] (Lone.node (.zero 20))).1,
      (finalize (Lone.next (.zero 20)) [] [] [] visited).1 with
      | .ok b, .ok c => b.header.stateRoot ≠ c.header.stateRoot
      | _, _ => false) = true := by
    decide +kernel
  refine ⟨⟨hwritten, ?_⟩, ?_⟩
  · rw [Ne, hstates _ _ hwritten]
    decide
  · rcases hproducer : finalize (Lone.next (.zero 20)) [] [] [] (Lone.node (.zero 20)) with
      ⟨_ | b, n'⟩
    · simp [hproducer] at hroots
    · rcases hfollower : finalize (Lone.next (.zero 20)) [] [] [] visited with ⟨_ | c, m'⟩
      · simp [hproducer, hfollower] at hroots
      · have hdiffer : b.header.stateRoot ≠ c.header.stateRoot := by
          simpa [hproducer, hfollower] using hroots
        have hdigest : DigestsIdentify (· ∈ [n'.state.written, m'.state.written]) := by
          apply digestsIdentify_of_nodup
          rw [stateRoot_of_finalize hproducer, stateRoot_of_finalize hfollower, State.root,
            State.root] at hdiffer
          exact List.nodup_cons.2 ⟨by simpa using hdiffer, List.nodup_singleton _⟩
        refine ⟨b, c, n', m', rfl, rfl, hdigest, ?_⟩
        rwa [Ne, ← hblocks hproducer hfollower hdigest]

end Node

end CommitteeConsensus
