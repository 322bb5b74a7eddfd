import CommitteeConsensus.Proofs.Node.Epochs
import CommitteeConsensus.Proofs.Node.Pool

/-! # Runs that keep up with their plans

    A plan is raised as far as the epoch before has paid less than it. So a run stays moderate as
    long as every epoch that pays anything for a stream pays a fair part of what the whole pool
    allows (`Run.moderate`). This asks for what the blocks of an epoch pay together, not for the
    shares that they draw: an epoch that pays too little raises the plan of the next one, and that
    lowers the plan of the one after it. So where members seal in every other epoch the plans may
    drift apart over the years, however little the shares differ.
-/

namespace CommitteeConsensus.Node

variable {n n' : Node} {h : Header} {c : Config} {u : ℚ}

section

variable {past : List (Node × Header)}

/-- A producer's reward is planned by what the blocks of the epoch before have paid, whether or not
    the block closes it itself. -/
theorem Shows.previousCoin_closed (hshows : Shows n.config past n.state.ledger)
    (hnumber : h.number.toNat = past.length + 1) (hlast : past.length + 1 < Word.max) :
    (n.closed h).previousEpochCoinRewards
      = .clamp (paidBefore n.config Rewards.producer (n.config.openEpoch (past.length + 1))
        past) := by
  obtain ⟨hcoin, -, hprevious, -⟩ := openLedger_counters n.config h.number n.state.ledger
  rw [n.config.openEpoch_succ]
  unfold closed closedLedger
  simp only [Config.isEpochEnd_next_iff hnumber hlast]
  split
  · exact hcoin.trans hshows.coin
  · exact hprevious.trans hshows.previousCoin

theorem Shows.previousStorage_opened (hshows : Shows n.config past n.state.ledger)
    (hnumber : h.number.toNat = past.length + 1) (hlast : past.length + 1 < Word.max)
    (hend : n.config.isEpochEnd h.number) :
    (n.opened h).previousEpochStorageRewards
      = .clamp (paidBefore n.config Rewards.storage (n.config.openEpoch (past.length + 1))
        past) := by
  obtain ⟨-, -, -, hprevious⟩ := openLedger_counters n.config h.number n.state.ledger
  rw [n.config.openEpoch_succ, if_pos ((Config.isEpochEnd_next_iff hnumber hlast).1 hend)]
  exact hprevious.trans hshows.previousStorage

end

/-- What a block of the run 1, 2, … finds of the epoch before is all that the run pays in it. -/
theorem keepsUp_before {blocks : List (Node × Header)} {ratio : UInt64} {i : Nat}
    (stream : Rewards → Shares)
    (hnumbers : ∀ (i : Nat) (e : Node × Header), blocks[i]? = some e →
      e.2.number.toNat = i + 1)
    (hkept : ∀ epoch < c.openEpoch blocks.length,
      c.rewards.KeepsUp u ratio (paidIn c stream epoch blocks))
    (hi : i < blocks.length) :
    c.rewards.KeepsUp u ratio (paidBefore c stream (c.openEpoch (i + 1)) (blocks.take i)) := by
  have hclosed : c.openEpoch (i + 1) ≤ c.openEpoch blocks.length := c.openEpoch_mono hi
  cases hepoch : c.openEpoch (i + 1) with
  | zero => exact .inl rfl
  | succ epoch =>
    rw [paidBefore, paidIn_take stream hnumbers (by omega)]
    exact hkept epoch (by omega)

/-- Every block of a run over the blocks 1, 2, … on an empty ledger is moderate, if each epoch that
    the run leaves behind has paid nothing for a stream, or at least the `u`-th part of what an
    epoch plans from the whole pool. The very last block number is left out: it counts as the end
    of an epoch. -/
theorem Run.moderate {blocks : List (Node × Header)} (hvalid : c.validate = .ok ())
    (hledger : n.state.ledger = {}) (hrun : Run n blocks n')
    (hnumbers : ∀ (i : Nat) (e : Node × Header), blocks[i]? = some e →
      e.2.number.toNat = i + 1)
    (hlast : blocks.length < Word.max) (hconfig : ∀ e ∈ blocks, e.1.config = c)
    (hcandidates : ∀ e ∈ blocks, e.1.state.candidates.length ≤ Word.bound) (hu : 1 ≤ u)
    (hcoin : ∀ epoch < c.openEpoch blocks.length, c.rewards.KeepsUp u c.rewards.coinRewardsRatio
      (paidIn c Rewards.producer epoch blocks))
    (hstorage : ∀ epoch < c.openEpoch blocks.length,
      c.rewards.KeepsUp u c.rewards.storageRewardsRatio
        (paidIn c Rewards.storage epoch blocks)) :
    ∀ e ∈ blocks, e.1.Moderate c u e.2 := by
  obtain ⟨-, -, -, -, -, hrewards⟩ := (Config.validate_eq_ok_iff c).1 hvalid
  obtain ⟨-, -, hcoinRatio, hstorageRatio, -⟩ :=
    (RewardParams.validate_eq_ok_iff c.rewards).1 hrewards
  intro e he
  obtain ⟨i, hi⟩ := List.mem_iff_getElem?.1 he
  have hlt : i < blocks.length := (List.getElem?_eq_some_iff.1 hi).1
  have hlength : (blocks.take i).length = i := List.length_take_of_le hlt.le
  have hnumber : e.2.number.toNat = (blocks.take i).length + 1 := by
    rw [hlength, hnumbers i e hi]
  have hrange : (blocks.take i).length + 1 < Word.max := by omega
  have hshows := hrun.shows_of_empty hledger hconfig hnumbers hlast hi
  have hkept := keepsUp_before Rewards.producer hnumbers hcoin hlt
  have hkept' := keepsUp_before Rewards.storage hnumbers hstorage hlt
  obtain rfl := hconfig e he
  have hsurplus := hshows.seeded.blockSurplus_le e.2.number
  -- both streams are planned from no more than the pool at first
  constructor
  · rfl
  · rw [hshows.previousCoin_closed hnumber hrange, hlength]
    exact hkept.makesUp hrewards hcoinRatio hu hsurplus
  · intro hend
    rw [hshows.previousStorage_opened hnumber hrange hend, hlength]
    exact hkept'.makesUp hrewards hstorageRatio hu hsurplus
  · exact hcandidates e he

open Step

/-- The third block of this run closes an epoch in which both blocks were paid, and is planned
    within twice of what they got. -/
theorem moderate_yearly :
    ∃ l m n', Run Lone.yearly
        [(Lone.yearly, Lone.later 1), (l, Lone.later 2), (m, Lone.later 3)] n'
      ∧ (m.closed (Lone.later 3)).previousEpochCoinRewards ≠ 0
      ∧ m.Moderate Lone.yearly.config 2 (Lone.later 3) := by
  obtain ⟨⟨_, _⟩, _, hblocks, hm⟩ := exists_outcome (n := Lone.yearly)
    (x := do
      let _ ← finalize (Lone.later 1) [] [] []
      let l ← get
      let _ ← finalize (Lone.later 2) [] [] []
      let m ← get
      let _ ← finalize (Lone.later 3) [] [] []
      pure (l, m))
    (p := fun e =>
      let c := Lone.yearly.config
      let blocks := [(Lone.yearly, Lone.later 1), (e.1, Lone.later 2), (e.2, Lone.later 3)]
      (e.2.closed (Lone.later 3)).previousEpochCoinRewards ≠ 0
        ∧ (∀ b ∈ blocks, b.1.config = c)
        ∧ (∀ b ∈ blocks, b.1.state.candidates.length ≤ Word.bound)
        ∧ c.rewards.rate c.rewards.coinRewardsRatio * c.rewards.genesisSurplus.toNat
          ≤ 2 * paidIn c Rewards.producer 1 blocks
        ∧ c.rewards.rate c.rewards.storageRewardsRatio * c.rewards.genesisSurplus.toNat
          ≤ 2 * paidIn c Rewards.storage 1 blocks)
    (by decide +kernel)
  obtain ⟨hpaid, hconfig, hcandidates, hcoin, hstorage⟩ := of_decide_eq_true hm
  simp only [Step.bind_eq_ok_iff, get_apply, pure_apply, outcome_eq_iff, Except.ok.injEq] at hblocks
  obtain ⟨b, l, hfinal, _, _, ⟨rfl, rfl⟩, b', m, hfinal', _, _, ⟨rfl, rfl⟩, b'', n', hfinal'',
    heq, rfl⟩ := hblocks
  obtain ⟨rfl, rfl⟩ := Prod.mk.inj heq
  have hrun := Run.finalize hfinal (.finalize hfinal' (.finalize hfinal'' (.done n')))
  have hvalid : Lone.yearly.config.validate = .ok () :=
    toOption_eq_some_iff.1 (by decide +kernel)
  have hnumbers : ∀ (i : Nat) (e : Node × Header),
      [(Lone.yearly, Lone.later 1), (l, Lone.later 2), (m, Lone.later 3)][i]? = some e →
        e.2.number.toNat = i + 1 := by
    intro i e hi
    rcases i with _ | _ | _ | i
    · obtain rfl := Option.some.inj hi
      rfl
    · obtain rfl := Option.some.inj hi
      rfl
    · obtain rfl := Option.some.inj hi
      rfl
    · simp at hi
  -- the run leaves behind epoch zero, in which no block leaves the ledger, and epoch one
  have hepochs : Lone.yearly.config.openEpoch 3 = 2 := by decide
  have hkept : ∀ (stream : Rewards → Shares) (ratio : UInt64),
      Lone.yearly.config.rewards.KeepsUp 2 ratio (paidIn Lone.yearly.config stream 1
        [(Lone.yearly, Lone.later 1), (l, Lone.later 2), (m, Lone.later 3)]) →
      ∀ epoch < Lone.yearly.config.openEpoch 3,
        Lone.yearly.config.rewards.KeepsUp 2 ratio (paidIn Lone.yearly.config stream epoch
          [(Lone.yearly, Lone.later 1), (l, Lone.later 2), (m, Lone.later 3)]) := by
    intro stream ratio hone epoch hepoch
    rw [hepochs] at hepoch
    rcases epoch with _ | _ | epoch
    · left
      apply paidIn_eq_zero
      simp only [List.forall_mem_cons]
      decide
    · exact hone
    · omega
  have hlast : 3 < Word.max := by decide
  have hmoderate := hrun.moderate hvalid rfl hnumbers hlast hconfig hcandidates
    (by norm_num) (hkept _ _ (.inr hcoin)) (hkept _ _ (.inr hstorage))
  exact ⟨l, m, n', hrun, hpaid, hmoderate (m, Lone.later 3) (by simp)⟩

end CommitteeConsensus.Node
