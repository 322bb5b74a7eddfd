import CommitteeConsensus.Proofs.Calendar
import CommitteeConsensus.Proofs.Node.Conservation
import CommitteeConsensus.Proofs.Reward.Plan
import CommitteeConsensus.Proofs.Reward.Pool

/-! # The pool over a run

    A run of the blocks 1, 2, … on an empty ledger never takes more out of the pool than the pool
    has, as long as the plans of a year leave room for what can raise them: the coefficient, by
    which an epoch makes up for the one before, and the producers' draws, which sum to more than
    one plan when a member with a large share seals more than its part.
-/

namespace CommitteeConsensus

/-- The ledger that a block finds, the pool being seeded at block one. -/
def seeded (c : Config) (number : Nat) (l : RewardLedger) : RewardLedger :=
  if number = 1 then l.seed c.rewards.genesisSurplus else l

theorem openLedger_eq (c : Config) (number : UInt64) (l : RewardLedger) :
    openLedger c number l = if c.isYearStart number then (seeded c number.toNat l).rolloverYear
      else seeded c number.toNat l := by
  have hone : number = 1 ↔ number.toNat = 1 := (UInt64.toNat_inj (b := 1)).symm
  unfold openLedger seeded
  simp only [hone]

namespace Node

variable {n n' : Node} {h : Header}

/-! ## What a block pays -/

/-- The share of an epoch's coin plan that a block draws. -/
def drawn (n : Node) (h : Header) : ℚ :=
  match (governingSnapshot n.config n.chain [] h.number n.snapshots).1 with
  | .ok s => n.config.rewards.drawn (s.proportionOf h.coinbase) n.config.epoch s.size
  | .error _ => 0

theorem drawn_nonneg (n : Node) (h : Header) : 0 ≤ n.drawn h := by
  unfold drawn
  split
  · exact RewardParams.drawn_nonneg _ _ _ _
  · exact le_refl 0

/-- The ledger that the producer's reward is planned from. -/
def closed (n : Node) (h : Header) : RewardLedger :=
  closedLedger n.config h.number (n.rewards h).storage n.state

/-- A block of a run under one configuration, in which no stream's plan is more than `u` times what
    the epoch before has paid for it. `Run.moderate` gives it for all blocks of a run that keeps up
    with its plans. -/
structure Moderate (c : Config) (u : ℚ) (n : Node) (h : Header) : Prop where
  config : n.config = c
  coin : c.rewards.MakesUp u (blockSurplus c h.number n.state.ledger) c.rewards.coinRewardsRatio
    (n.closed h).previousEpochCoinRewards
  storage : c.isEpochEnd h.number → c.rewards.MakesUp u (blockSurplus c h.number n.state.ledger)
    c.rewards.storageRewardsRatio (n.opened h).previousEpochStorageRewards
  candidates : n.state.candidates.length ≤ Word.bound

section

variable {c : Config} {u : ℚ} {transactions : List Transaction} {uncles : List Header}
  {receipts : List Receipt} {b : Block}

theorem totalWeight_contributions_le (c : Config) (number : UInt64) {s : State}
    (hcandidates : s.candidates.length ≤ Word.bound) :
    totalWeight (contributions c number s) ≤ Amount.max := by
  have hlength : (contributions c number s).length = s.candidates.length := List.length_map _
  calc totalWeight (contributions c number s)
      ≤ (contributions c number s).length * Word.max := totalWeight_le_length_mul _
    _ = s.candidates.length * Word.max := by rw [hlength]
    _ ≤ Word.bound * Word.max := Nat.mul_le_mul_right _ hcandidates
    _ ≤ Amount.max := by decide

/-- The last block of an epoch pays storage rewards within its plan. -/
theorem Moderate.storage_le (hmoderate : n.Moderate c u h) (hu : 1 ≤ u)
    (hend : c.isEpochEnd h.number)
    (hfinal : finalize h transactions uncles receipts n = (.ok b, n')) :
    ((n.rewards h).storage.total : ℚ) ≤ u * c.rewards.rate c.rewards.storageRewardsRatio
      * (blockSurplus c h.number n.state.ledger).toNat := by
  obtain ⟨current, -, hdue⟩ := dueRewards_of_finalize hfinal
  obtain ⟨storage, hstorage, hdue⟩ := bind_eq_ok_iff.1 hdue
  obtain ⟨producer, -, hdue⟩ := bind_eq_ok_iff.1 hdue
  obtain rfl := hmoderate.config
  unfold dueStorage at hstorage
  rw [if_pos hend] at hstorage
  obtain ⟨plan, hplan, hstorage⟩ := bind_eq_ok_iff.1 hstorage
  obtain ⟨shares?, hshares, hstorage⟩ := bind_eq_ok_iff.1 hstorage
  have hplan_le := scaledPlan_le hu (hmoderate.storage hend) hplan
  have htotal : (n.rewards h).storage.total ≤ plan.toNat := by
    rw [← Except.ok.inj hdue, ← Except.ok.inj hstorage]
    cases shares? with
    | none => exact Nat.zero_le _
    | some shares =>
      exact total_storageShares_le
        (totalWeight_contributions_le n.config h.number hmoderate.candidates) hshares
  exact le_trans (Nat.cast_le.2 htotal) hplan_le

/-- A producer is paid within what its block draws of the plan. -/
theorem Moderate.producer_le (hmoderate : n.Moderate c u h) (hu : 1 ≤ u)
    (hfinal : finalize h transactions uncles receipts n = (.ok b, n')) :
    ((n.rewards h).producer.total : ℚ) ≤ u * c.rewards.rate c.rewards.coinRewardsRatio
      * (blockSurplus c h.number n.state.ledger).toNat * n.drawn h := by
  obtain ⟨current, hcurrent, hdue⟩ := dueRewards_of_finalize hfinal
  obtain ⟨storage, -, hdue⟩ := bind_eq_ok_iff.1 hdue
  obtain ⟨producer, hproducer, hdue⟩ := bind_eq_ok_iff.1 hdue
  obtain rfl := hmoderate.config
  have hrewards := Except.ok.inj hdue
  have hcoin := hmoderate.coin
  unfold closed at hcoin
  rw [← hrewards] at hcoin ⊢
  dsimp only at hcoin ⊢
  unfold drawn
  rw [hcurrent]
  unfold dueProducer at hproducer
  dsimp only at hproducer ⊢
  split at hproducer
  · rw [← Except.ok.inj hproducer]
    have hrate := n.config.rewards.rate_nonneg n.config.rewards.coinRewardsRatio
    have hdrawn := n.config.rewards.drawn_nonneg (current.proportionOf h.coinbase)
      n.config.epoch current.size
    have hu' : 0 ≤ u := zero_le_one.trans hu
    show ((0 : Nat) : ℚ) ≤ _
    positivity
  · obtain ⟨amount, hamount, hsplit⟩ := bind_eq_ok_iff.1 hproducer
    rw [total_splitByStake hsplit]
    exact blockCoinReward_le hu hcoin hamount

/-- The ledger that a later block finds shows what this one has booked. -/
theorem Moderate.seeded_finalize (hmoderate : n.Moderate c u h) {number : Nat}
    (hnumber : number ≠ 1)
    (hfinal : finalize h transactions uncles receipts n = (.ok b, n')) :
    seeded c number n'.state.ledger = (openLedger c h.number n.state.ledger).book
      (c.isEpochEnd h.number) (n.rewards h).storage.total (n.rewards h).producer.total := by
  obtain rfl := hmoderate.config
  rw [seeded, if_neg hnumber]
  exact (conserves_of_finalize hfinal).ledger

end

/-! ## Along a run -/

/-- What is known of the ledger once the blocks up to `block` are finalized, the open epoch having
    drawn `spent` of its coin plan. -/
structure InPool (c : Config) (B : Budget) (block : Nat) (spent : ℚ) (l : RewardLedger) :
    Prop where
  within : (seeded c (block + 1) l).Within B (c.closedEpochs block) spent
  spent_nonneg : 0 ≤ spent
  /-- The last block of a year has opened an epoch of its own. -/
  yearEnd : (block + 1) % c.yearLength = 0 →
    B.θ * (seeded c (block + 1) l).actualCoinRewards.toNat
      ≤ B.coin * spent * (seeded c (block + 1) l).surplusCoin.toNat

section

variable {c : Config} {B : Budget} {u : ℚ} {block : Nat} {spent : ℚ} {l : RewardLedger}

theorem inPool_zero (c : Config) (B : Budget) : InPool c B 0 0 {} where
  within := RewardLedger.within_seed B _ _
  spent_nonneg := le_refl 0
  yearEnd := by simp [seeded, RewardLedger.seed]

theorem InPool.total_le (hin : InPool c B block spent l) (hyear : 0 < c.yearLength)
    (hB : B.Allots c.rewards u) :
    ((seeded c (block + 1) l).totalActualRewards.toNat : ℚ)
      ≤ (1 - B.θ) * (seeded c (block + 1) l).surplusCoin.toNat :=
  hin.within.total_le (hB.epochs ▸ Config.closedEpochs_le hyear block)

/-- The next block finds the counters within the budget, whether it starts a year or not, and so is
    what it plans from. -/
theorem InPool.opened (hin : InPool c B block spent l) (hyear : 0 < c.yearLength)
    (hB : B.Allots c.rewards u) {number : UInt64} (hnumber : number.toNat = block + 1)
    (hlast : block + 1 < Word.max) :
    (openLedger c number l).Within B
        (if (block + 1) % c.yearLength = 0 then 0 else c.closedEpochs block) spent
      ∧ B.θ * (blockSurplus c number l).toNat ≤ (openLedger c number l).surplusCoin.toNat := by
  have hstart : c.isYearStart number = true ↔ (block + 1) % c.yearLength = 0 := by
    rw [Config.isYearStart_iff hyear (hnumber ▸ hlast), hnumber]
    exact and_iff_right (Nat.succ_pos block)
  have hwithin : (openLedger c number l).Within B
      (if (block + 1) % c.yearLength = 0 then 0 else c.closedEpochs block) spent := by
    rw [openLedger_eq, hnumber]
    simp only [hstart]
    by_cases hfirst : (block + 1) % c.yearLength = 0
    · rw [if_pos hfirst, if_pos hfirst]
      exact hin.within.rolloverYear (hB.epochs ▸ Config.closedEpochs_le hyear block)
        hin.spent_nonneg (hin.yearEnd hfirst)
    · rw [if_neg hfirst, if_neg hfirst]
      exact hin.within
  exact ⟨hwithin, hwithin.planSurplus_le (c.isYearStart number)⟩

/-- A finalized block keeps the ledger within the budget. -/
theorem InPool.finalize {transactions : List Transaction} {uncles : List Header}
    {receipts : List Receipt} {b : Block} (hin : InPool c B block spent n.state.ledger)
    (hyear : 0 < c.yearLength) (hB : B.Allots c.rewards u) (hspent : spent ≤ B.w)
    (hmoderate : n.Moderate c u h) (hnumber : h.number.toNat = block + 1)
    (hlast : block + 1 < Word.max)
    (hfinal : Node.finalize h transactions uncles receipts n = (.ok b, n')) :
    InPool c B (block + 1) ((if (block + 2) % c.epoch.toNat = 0 then 0 else spent) + n.drawn h)
      n'.state.ledger := by
  obtain ⟨hwithin, hpool⟩ := hin.opened hyear hB hnumber hlast
  have hdrawn := n.drawn_nonneg h
  have hproducer := hmoderate.producer_le hB.one_le hfinal
  rw [← hB.coin] at hproducer
  have hclosed := Config.closedEpochs_succ hyear block
  have hbooked : seeded c (block + 1 + 1) n'.state.ledger = _ :=
    hmoderate.seeded_finalize (by omega) hfinal
  have hend := Config.isEpochEnd_next_iff (c := c) hnumber hlast
  by_cases hlastOfEpoch : (block + 2) % c.epoch.toNat = 0
  · -- the epoch is closed, and its producer is the first one of the next
    have hstored := hmoderate.storage_le hB.one_le (hend.2 hlastOfEpoch) hfinal
    rw [← hB.storage] at hstored
    rw [hend.2 hlastOfEpoch] at hbooked
    rw [if_pos hlastOfEpoch] at hclosed ⊢
    rw [zero_add]
    constructor
    · rw [hbooked, ← hclosed]
      exact hwithin.book_end hspent hpool hdrawn hstored hproducer
    · exact hdrawn
    · intro _
      rw [hbooked]
      exact RewardLedger.actualCoinRewards_book_end_drawn _ hpool hdrawn hproducer
  · -- a block inside an epoch pays no storage rewards
    have hinside : c.isEpochEnd h.number = false := by
      rw [← Bool.not_eq_true, hend]
      exact hlastOfEpoch
    obtain ⟨current, -, hdue⟩ := dueRewards_of_finalize hfinal
    have hnone := total_storage_of_dueRewards hdue (hmoderate.config ▸ hinside)
    rw [hinside, hnone] at hbooked
    rw [if_neg hlastOfEpoch] at hclosed ⊢
    rw [Nat.add_zero] at hclosed
    constructor
    · rw [hbooked, ← hclosed]
      exact hwithin.book_open hpool hdrawn hproducer
    · exact add_nonneg hin.spent_nonneg hdrawn
    · -- the end of a year is the end of an epoch
      intro hyearEnd
      have hdvd : c.epoch.toNat ∣ c.yearLength := Nat.dvd_mul_left _ _
      exact absurd (Nat.mod_eq_zero_of_dvd (hdvd.trans (Nat.dvd_of_mod_eq_zero hyearEnd)))
        hlastOfEpoch

/-- What the blocks draw together of the coin plan of one epoch. The last block of an epoch draws on
    the plan of the next one, in which its producer is paid. -/
def drawnIn (c : Config) (epoch : Nat) (blocks : List (Node × Header)) : ℚ :=
  ((blocks.filter fun e => (e.2.number.toNat + 1) / c.epoch.toNat = epoch).map
    fun e => e.1.drawn e.2).sum

theorem drawnIn_nonneg (c : Config) (epoch : Nat) (blocks : List (Node × Header)) :
    0 ≤ drawnIn c epoch blocks := by
  apply List.sum_nonneg
  intro d hd
  obtain ⟨e, -, rfl⟩ := List.mem_map.1 hd
  exact e.1.drawn_nonneg e.2

theorem drawnIn_nil (c : Config) (epoch : Nat) : drawnIn c epoch [] = 0 := rfl

theorem drawnIn_cons (c : Config) (epoch : Nat) (e : Node × Header) (rest : List (Node × Header)) :
    drawnIn c epoch (e :: rest)
      = (if (e.2.number.toNat + 1) / c.epoch.toNat = epoch then e.1.drawn e.2 else 0)
        + drawnIn c epoch rest := by
  unfold drawnIn
  by_cases he : (e.2.number.toNat + 1) / c.epoch.toNat = epoch
  · simp [he]
  · simp [he]

/-- What the rest of a run may draw once a block has drawn its part. -/
theorem drawnIn_rest {w : ℚ} {e : Node × Header} {rest : List (Node × Header)}
    (hnumber : e.2.number.toNat = block + 1) (hspent : 0 ≤ spent)
    (hdrawn : ∀ epoch, (if epoch = (block + 1) / c.epoch.toNat then spent else 0)
      + drawnIn c epoch (e :: rest) ≤ w) (epoch : Nat) :
    (if epoch = (block + 2) / c.epoch.toNat then
      (if (block + 2) % c.epoch.toNat = 0 then 0 else spent) + e.1.drawn e.2 else 0)
      + drawnIn c epoch rest ≤ w := by
  have hepoch := hdrawn epoch
  rw [drawnIn_cons, hnumber] at hepoch
  have hnext : (block + 2) / c.epoch.toNat = (block + 1) / c.epoch.toNat
      + if (block + 2) % c.epoch.toNat = 0 then 1 else 0 := c.succ_div_epoch (block + 1)
  by_cases hend : (block + 2) % c.epoch.toNat = 0
  · -- the block draws on a new plan
    rw [if_pos hend] at hnext
    rw [if_pos hend, zero_add]
    by_cases hthis : epoch = (block + 2) / c.epoch.toNat
    · rw [if_neg (by omega), if_pos hthis.symm, zero_add] at hepoch
      rwa [if_pos hthis]
    · rw [if_neg (Ne.symm hthis), zero_add] at hepoch
      rw [if_neg hthis, zero_add]
      have hopen : 0 ≤ if epoch = (block + 1) / c.epoch.toNat then spent else 0 := by
        split
        · exact hspent
        · exact le_refl 0
      linarith
  · have hsame : (block + 2) / c.epoch.toNat = (block + 1) / c.epoch.toNat := by
      rw [hnext, if_neg hend, Nat.add_zero]
    rw [if_neg hend, hsame]
    rw [hsame] at hepoch
    by_cases hthis : epoch = (block + 1) / c.epoch.toNat
    · rw [if_pos hthis, if_pos hthis.symm] at hepoch
      rw [if_pos hthis]
      linarith
    · rw [if_neg hthis, if_neg (Ne.symm hthis)] at hepoch
      rw [if_neg hthis]
      linarith

/-- As long as a run stays within its plans, no block finds more paid by the closed epochs of the
    year than a year may take. -/
theorem Run.total_le {blocks : List (Node × Header)} (hrun : Run n blocks n')
    (hin : block < Word.max → InPool c B block spent n.state.ledger)
    (hyear : 0 < c.yearLength) (hB : B.Allots c.rewards u) (hspent : 0 ≤ spent)
    (hnumbers : ∀ i e, blocks[i]? = some e → e.2.number.toNat = block + 1 + i)
    (hmoderate : ∀ e ∈ blocks, e.1.Moderate c u e.2)
    (hdrawn : ∀ epoch, (if epoch = (block + 1) / c.epoch.toNat then spent else 0)
      + drawnIn c epoch blocks ≤ B.w) :
    ∀ e ∈ blocks,
      ((seeded c e.2.number.toNat e.1.state.ledger).totalActualRewards.toNat : ℚ)
        ≤ (1 - B.θ) * (seeded c e.2.number.toNat e.1.state.ledger).surplusCoin.toNat := by
  -- the run is followed with what its open epoch has drawn; beyond the last block number nothing
  -- is known, and nothing need be, for there are no blocks
  induction hrun generalizing block spent with
  | done n => simp
  | @finalize n m n' h transactions uncles receipts b blocks hfinal hrun ih =>
    have hnumber : h.number.toNat = block + 1 := hnumbers 0 (n, h) rfl
    have hlast : block < Word.max := by
      -- the block has a number
      have hmax := Word.toNat_le_max h.number
      omega
    have hblock := hmoderate (n, h) List.mem_cons_self
    have hspent_le : spent ≤ B.w := by
      have hopen := hdrawn ((block + 1) / c.epoch.toNat)
      rw [if_pos rfl] at hopen
      have hrest := drawnIn_nonneg c ((block + 1) / c.epoch.toNat) ((n, h) :: blocks)
      linarith
    intro e he
    rcases List.mem_cons.1 he with rfl | hrest
    · rw [hnumber]
      exact (hin hlast).total_le hyear hB
    · have hnext : block + 1 < Word.max → InPool c B (block + 1)
          ((if (block + 2) % c.epoch.toNat = 0 then 0 else spent) + n.drawn h)
          m.state.ledger := by
        intro hmore
        exact (hin hlast).finalize hyear hB hspent_le hblock hnumber hmore hfinal
      refine ih hnext ?_ ?_ ?_ ?_ e hrest
      · have hd := n.drawn_nonneg h
        show 0 ≤ (if (block + 2) % c.epoch.toNat = 0 then 0 else spent) + n.drawn h
        split <;> linarith
      · intro i e hi
        have hlater := hnumbers (i + 1) e (by simpa using hi)
        omega
      · exact fun e he => hmoderate e (List.mem_cons_of_mem _ he)
      · exact drawnIn_rest (e := (n, h)) hnumber hspent hdrawn
  | meanwhile hledger hwealth hrun ih =>
    exact ih (fun hlast => hledger ▸ hin hlast) hspent hnumbers hmoderate hdrawn

end

/-- The ledger that the block finds, before it closes a year. -/
def entered (n : Node) (h : Header) : RewardLedger :=
  seeded n.config h.number.toNat n.state.ledger

theorem opened_of_yearStart (hstart : n.config.isYearStart h.number = true) :
    n.opened h = (n.entered h).rolloverYear := by
  rw [opened, openLedger_eq, if_pos hstart]
  rfl

/-- On an empty ledger the pool covers all that a year pays, in every run over the blocks 1, 2, …
    whose plans leave room for what raises them: no plan is more than `u` times what the epoch
    before has paid, and the blocks of an epoch draw its coin plan at most `w` times. What a year
    may then plan is `u * (coin * w + storage)` of the yearly ratio; if that is at most
    `θ ^ 2 * (1 - θ)`, no year takes more than `1 - θ` out of the pool, and closing a year takes
    out what was paid. -/
theorem pool_covers_year {blocks : List (Node × Header)} {c : Config} {θ u w : ℚ}
    (hvalid : c.validate = .ok ()) (hledger : n.state.ledger = {}) (hrun : Run n blocks n')
    (hnumbers : ∀ (i : Nat) (e : Node × Header), blocks[i]? = some e →
      e.2.number.toNat = i + 1)
    (hmoderate : ∀ e ∈ blocks, e.1.Moderate c u e.2)
    (hdrawn : ∀ epoch, drawnIn c epoch blocks ≤ w)
    (hθ : 0 < θ) (hθ' : θ ≤ 1) (hu : 1 ≤ u)
    (hplan : u * (c.rewards.coinRewardsRatio.toNat * w + c.rewards.storageRewardsRatio.toNat)
      * c.rewards.ratioPerYear.toNat ≤ θ ^ 2 * (1 - θ) * c.rewards.base.toNat ^ 2) :
    ∀ e ∈ blocks,
      ((e.1.entered e.2).totalActualRewards.toNat : ℚ)
          ≤ (1 - θ) * (e.1.entered e.2).surplusCoin.toNat
        ∧ (e.1.config.isYearStart e.2.number = true →
          (e.1.opened e.2).surplusCoin.toNat + (e.1.entered e.2).totalActualRewards.toNat
            = (e.1.entered e.2).surplusCoin.toNat) := by
  have hyear := Config.yearLength_pos hvalid
  obtain ⟨-, -, -, -, -, hrewards⟩ := (Config.validate_eq_ok_iff c).1 hvalid
  have hw : 0 ≤ w := (drawnIn_nonneg c 0 blocks).trans (hdrawn 0)
  obtain ⟨B, rfl, rfl, hB⟩ := Budget.exists_of_plan hrewards hθ hθ' hu hw hplan
  have hstart : 0 < Word.max → InPool c B 0 0 n.state.ledger := by
    intro _
    rw [hledger]
    exact inPool_zero c B
  have hfollow : ∀ i e, blocks[i]? = some e → e.2.number.toNat = 0 + 1 + i := by
    intro i e hi
    rw [hnumbers i e hi]
    omega
  have hplanned : ∀ epoch, (if epoch = (0 + 1) / c.epoch.toNat then 0 else 0)
      + drawnIn c epoch blocks ≤ B.w := by
    intro epoch
    simpa using hdrawn epoch
  have hcovered := hrun.total_le hstart hyear hB (le_refl 0) hfollow hmoderate hplanned
  intro e he
  have hle : ((e.1.entered e.2).totalActualRewards.toNat : ℚ)
      ≤ (1 - B.θ) * (e.1.entered e.2).surplusCoin.toNat := by
    rw [entered, (hmoderate e he).config]
    exact hcovered e he
  refine ⟨hle, ?_⟩
  intro hstart
  rw [opened_of_yearStart hstart]
  have hfits : (e.1.entered e.2).totalActualRewards.toNat
      ≤ (e.1.entered e.2).surplusCoin.toNat := by
    have hone : (1 - B.θ) * ((e.1.entered e.2).surplusCoin.toNat : ℚ)
        ≤ (e.1.entered e.2).surplusCoin.toNat :=
      mul_le_of_le_one_left (Nat.cast_nonneg _) (by linarith)
    exact_mod_cast hle.trans hone
  exact Nat.sub_add_cancel hfits

end Node

/-! ## A year that is covered and a year that is not -/

namespace Lone

/-- The header of a later block. -/
def later (number : UInt64) : Header := { next (.zero 20) with number }

/-- A node whose years are of one epoch, which its first block closes. -/
def yearly : Node := { settling with config := { epoch := 2, rewards := { epochsPerYear := 1 } } }

/-- A node that plans for each stream the whole of its pool. -/
def lavish : Node :=
  { node (.zero 20) with
    config := { epoch := 3, rewards := {
      coinRewardsRatio := 10000
      storageRewardsRatio := 10000
      ratioPerYear := 10000
      epochsPerYear := 1
      genesisSurplus := ⟨900, by decide⟩ } }
    state := {
      heftLogs := Table.empty.insert signer.address ⟨#[⟨0, 1⟩]⟩
      candidates := [signer.address] } }

end Lone

namespace Node

open Step

/-- Half of the pool covers the first year, and closing it takes out what it paid. -/
theorem pool_covers_year_first :
    ∃ m n', Run Lone.yearly [(Lone.yearly, Lone.later 1), (m, Lone.later 2)] n'
      ∧ (m.entered (Lone.later 2)).totalActualRewards ≠ 0
      ∧ ((m.entered (Lone.later 2)).totalActualRewards.toNat : ℚ)
        ≤ (1 - 1 / 2) * (m.entered (Lone.later 2)).surplusCoin.toNat
      ∧ (m.opened (Lone.later 2)).surplusCoin.toNat
        + (m.entered (Lone.later 2)).totalActualRewards.toNat
          = (m.entered (Lone.later 2)).surplusCoin.toNat := by
  obtain ⟨m, n', hblocks, hm⟩ := exists_outcome (n := Lone.yearly)
    (x := do
      let _ ← finalize (Lone.later 1) [] [] []
      let m ← get
      let _ ← finalize (Lone.later 2) [] [] []
      pure m)
    (p := fun m => m.config = Lone.yearly.config ∧ m.state.candidates.length ≤ Word.bound
      ∧ (m.closed (Lone.later 2)).previousEpochCoinRewards = 0
      ∧ (m.entered (Lone.later 2)).totalActualRewards ≠ 0
      ∧ Lone.yearly.drawn (Lone.later 1) = 1 / 2 ∧ m.drawn (Lone.later 2) = 1 / 2)
    (by decide +kernel)
  obtain ⟨hconfig, hcandidates, hprevious, hpaid, hfirst, hsecond⟩ := of_decide_eq_true hm
  simp only [Step.bind_eq_ok_iff, get_apply, pure_apply, outcome_eq_iff, Except.ok.injEq] at hblocks
  obtain ⟨b, m, hfinal, _, _, ⟨rfl, rfl⟩, b', n', hfinal', rfl, rfl⟩ := hblocks
  have hrun := Run.finalize hfinal (Run.finalize hfinal' (Run.done n'))
  have hclosing : Lone.yearly.Moderate Lone.yearly.config 1 (Lone.later 1) :=
    ⟨rfl, .inl rfl, fun _ => .inl rfl, by decide⟩
  have hopening : m.Moderate Lone.yearly.config 1 (Lone.later 2) :=
    ⟨hconfig, .inl hprevious, fun hend => absurd hend (by decide), hcandidates⟩
  -- both blocks draw on the plan of the second epoch
  have hdrawn : ∀ epoch, drawnIn Lone.yearly.config epoch
      [(Lone.yearly, Lone.later 1), (m, Lone.later 2)] ≤ 1 := by
    intro epoch
    have hone : ((Lone.later 1).number.toNat + 1) / Lone.yearly.config.epoch.toNat = 1 := by
      decide
    have htwo : ((Lone.later 2).number.toNat + 1) / Lone.yearly.config.epoch.toNat = 1 := by decide
    simp only [drawnIn_cons, drawnIn_nil, hone, htwo, hfirst, hsecond]
    split <;> norm_num
  have hplan : (1 : ℚ) * (Lone.yearly.config.rewards.coinRewardsRatio.toNat * 1
      + Lone.yearly.config.rewards.storageRewardsRatio.toNat)
        * Lone.yearly.config.rewards.ratioPerYear.toNat
      ≤ (1 / 2) ^ 2 * (1 - 1 / 2) * Lone.yearly.config.rewards.base.toNat ^ 2 := by
    decide +kernel
  have hvalid : Lone.yearly.config.validate = .ok () :=
    toOption_eq_some_iff.1 (by decide +kernel)
  have hnumbers : ∀ (i : Nat) (e : Node × Header),
      [(Lone.yearly, Lone.later 1), (m, Lone.later 2)][i]? = some e →
        e.2.number.toNat = i + 1 := by
    intro i e hi
    rcases i with _ | _ | i
    · obtain rfl := Option.some.inj hi
      rfl
    · obtain rfl := Option.some.inj hi
      rfl
    · simp at hi
  have hyear := pool_covers_year hvalid rfl hrun hnumbers (by simpa using ⟨hclosing, hopening⟩)
    hdrawn (by norm_num) (by norm_num) (le_refl 1) hplan (m, Lone.later 2) (by simp)
  have hstart : m.config.isYearStart (Lone.later 2).number = true := by
    rw [hconfig]
    decide
  exact ⟨m, n', hrun, hpaid, hyear.1, hyear.2 hstart⟩

/-- No ratio of a valid configuration is more than one, but those of the two streams may sum to
    more: then a year may pay more than the pool has, and closing it takes out all there is. -/
theorem overspent_of_run_lavish :
    Lone.lavish.config.validate = .ok ()
      ∧ ∃ l m n, Run Lone.lavish
          [(Lone.lavish, Lone.later 1), (l, Lone.later 2), (m, Lone.later 3)] n
        ∧ m.config.isYearStart 3
        ∧ (m.entered (Lone.later 3)).totalActualRewards.toNat = 1200
        ∧ (m.entered (Lone.later 3)).surplusCoin.toNat = 900
        ∧ (m.opened (Lone.later 3)).surplusCoin.toNat = 0 := by
  have hvalid : Lone.lavish.config.validate = .ok () :=
    toOption_eq_some_iff.1 (by decide +kernel)
  obtain ⟨⟨l, m⟩, n, hblocks, hm⟩ := exists_outcome (n := Lone.lavish)
    (x := do
      let _ ← finalize (Lone.later 1) [] [] []
      let l ← get
      let _ ← finalize (Lone.later 2) [] [] []
      let m ← get
      let _ ← finalize (Lone.later 3) [] [] []
      pure (l, m))
    (p := fun e => e.2.config.isYearStart 3
      ∧ (e.2.entered (Lone.later 3)).totalActualRewards.toNat = 1200
      ∧ (e.2.entered (Lone.later 3)).surplusCoin.toNat = 900
      ∧ (e.2.opened (Lone.later 3)).surplusCoin.toNat = 0)
    (by decide +kernel)
  simp only [Step.bind_eq_ok_iff, get_apply, pure_apply, outcome_eq_iff, Except.ok.injEq] at hblocks
  obtain ⟨b, l', hfinal, _, _, ⟨rfl, rfl⟩, b', m', hfinal', _, _, ⟨rfl, rfl⟩, b'', n', hfinal'',
    heq, rfl⟩ := hblocks
  obtain ⟨rfl, rfl⟩ := Prod.mk.inj heq
  exact ⟨hvalid, _, _, _, .finalize hfinal (.finalize hfinal' (.finalize hfinal'' (.done _))),
    of_decide_eq_true hm⟩

end Node

end CommitteeConsensus
