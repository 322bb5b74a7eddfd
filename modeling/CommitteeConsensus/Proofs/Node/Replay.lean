import CommitteeConsensus.Proofs.Engine.Settlement
import CommitteeConsensus.Proofs.Node.Steps

/-! # Replay of a sealed block

    A block that was finalized and then sealed is finalized by another node, from the same state
    and under the same snapshot, to the very same block: the header it came with, signature
    included, and the state that the producer was left with (`finalize_sealed`).

    The second run starts from a header that is full of results already. It reads back the
    extra-data that the first run wrote, with the signature in it, and overwrites each result
    with the same one.
-/

namespace CommitteeConsensus

/-- `Sealed b b'`: the block `b'` is `b` with a seal, by a node or by any signature at all. -/
inductive Sealed (b : Block) : Block → Prop
  | node {n n' : Node} {abort : Node.Abort} {b' : Block} {waited : UInt64}
      (run : Node.sealBlock b abort n = (.ok (some b', waited), n')) : Sealed b b'
  | signature {signature : Signature} {h : Header}
      (written : b.header.withSignature signature = .ok h) : Sealed b { b with header := h }

/-- Whoever sealed the block, a signature was written into its header and nothing else changed. -/
theorem Sealed.exists_signature {b b' : Block} (h : Sealed b b') :
    ∃ signature g, b.header.withSignature signature = .ok g ∧ b' = { b with header := g } := by
  cases h with
  | node run =>
    obtain ⟨auth, g, -, hseal, hb'⟩ := Node.sealBlock_eq_ok run
    obtain ⟨_, signature, -, -, hwritten⟩ := Node.sealHeader_eq_ok hseal
    exact ⟨signature, g, hwritten, hb'⟩
  | signature written => exact ⟨_, _, written, rfl⟩

namespace Node

/-- A sealed block is finalized to itself by every node that has the producer's state and resolves
    the producer's snapshot, and leaves the producer's state behind. -/
theorem finalize_sealed {n n' m : Node} {h : Header} {transactions : List Transaction}
    {receipts : List Receipt} {b b' : Block}
    (hfinal : finalize h transactions [] receipts n = (.ok b, n')) (hsealed : Sealed b b')
    (hconfig : m.config = n.config) (hstate : m.state = n.state)
    (hsnapshot : (governingSnapshot m.config m.chain [] h.number m.snapshots).1
      = (governingSnapshot n.config n.chain [] h.number n.snapshots).1) :
    ∃ m', finalize b'.header transactions [] receipts m = (.ok b', m') ∧ m'.state = n'.state := by
  obtain ⟨hnumber, x, s, cache, g, state, -, hs, hsettle, rfl, rfl⟩ := finalize_eq_ok_iff.1 hfinal
  obtain ⟨signature, g', hwritten, rfl⟩ := hsealed.exists_signature
  obtain ⟨y, hsettles⟩ := settles_of_settle hsettle
  -- the signature is added to the extra-data that settling wrote
  obtain ⟨z, hz, hsigned⟩ := Header.withSignature_eq_ok_iff.1 hwritten
  have hread : z = y :=
    Except.ok.inj (hz.symm.trans (ExtraData.decodeOrDefault_of_decode hsettles.extra))
  subst hread
  have hagain := settle_settled hsettle hsettles.extra hsigned
  have hextra := ExtraData.decodeOrDefault_of_decode (Header.decode_withExtra hsigned)
  have hsame : g'.number = h.number := by
    obtain ⟨_, -, rfl⟩ := Header.withExtra_eq_ok_iff.1 hsigned
    exact hsettles.number
  -- the follower looks the snapshot up in a cache of its own
  have hfollower : governingSnapshot m.config m.chain [] g'.number m.snapshots
      = (.ok s, (governingSnapshot m.config m.chain [] g'.number m.snapshots).2) := by
    rw [hs, ← hsame] at hsnapshot
    exact Prod.ext hsnapshot rfl
  refine ⟨_, finalize_eq_ok_iff.2 ⟨?_, _, s, _, g', state, hextra, hfollower, ?_, rfl, rfl⟩, rfl⟩
  · rwa [hsame]
  · rw [hconfig, hstate]
    exact hagain

/-- The last block of an epoch, which pays its producer and publishes a committee. -/
theorem finalize_sealed_epoch_end :
    ∃ b b' n' m', finalize (Lone.next (.zero 20)) [] [] [] (Lone.node (.zero 20)) = (.ok b, n')
      ∧ Sealed b b' ∧ finalize b'.header [] [] [] (Lone.node (.zero 20)) = (.ok b', m')
      ∧ m'.state = n'.state := by
  have hsigned : (match (finalize (Lone.next (.zero 20)) [] [] [] (Lone.node (.zero 20))).1 with
      | .ok b => (b.header.withSignature (.zero 65)).toOption.isSome
      | .error _ => false) = true := by
    decide +kernel
  rcases hrun : finalize (Lone.next (.zero 20)) [] [] [] (Lone.node (.zero 20)) with ⟨_ | b, n'⟩
  · simp [hrun] at hsigned
  · cases hg : b.header.withSignature (.zero 65) with
    | error e => simp [hrun, hg, Except.toOption] at hsigned
    | ok g =>
      have hsealed : Sealed b { b with header := g } := .signature hg
      obtain ⟨m', hagain, hstate⟩ :=
        finalize_sealed (m := Lone.node (.zero 20)) hrun hsealed rfl rfl rfl
      exact ⟨b, _, n', m', rfl, hsealed, hagain, hstate⟩

end Node

end CommitteeConsensus
