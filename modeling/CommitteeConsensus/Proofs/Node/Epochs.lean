import CommitteeConsensus.Proofs.Calendar
import CommitteeConsensus.Proofs.Node.Conservation

/-! # What the ledger shows of a run

    A block reads off the ledger what its epoch has paid so far, and what the epoch before has
    paid. Along a run of the blocks 1, 2, … on an empty ledger both are what the blocks themselves
    paid (`Run.shows_of_empty`): every block books its own rewards, and the last one of an epoch
    hands the counters of the epoch over. The pool never grows beyond what it was seeded with.
-/

namespace CommitteeConsensus

/-- Opening a block leaves the counters of the epochs alone. -/
theorem openLedger_counters (c : Config) (number : UInt64) (l : RewardLedger) :
    (openLedger c number l).actualCoinRewards = l.actualCoinRewards
      ∧ (openLedger c number l).actualStorageRewards = l.actualStorageRewards
      ∧ (openLedger c number l).previousEpochCoinRewards = l.previousEpochCoinRewards
      ∧ (openLedger c number l).previousEpochStorageRewards = l.previousEpochStorageRewards := by
  unfold openLedger
  dsimp only
  split <;> split <;> exact ⟨rfl, rfl, rfl, rfl⟩

/-- The pool, and that of the year before, are no larger than the pool was seeded. -/
structure RewardLedger.Seeded (c : Config) (l : RewardLedger) : Prop where
  pool : l.surplusCoin.toNat ≤ c.rewards.genesisSurplus.toNat
  lastYear : l.previousYearSurplus.toNat ≤ c.rewards.genesisSurplus.toNat

namespace RewardLedger.Seeded

variable {c : Config} {l : RewardLedger}

theorem openLedger (h : l.Seeded c) (number : UInt64) :
    (CommitteeConsensus.openLedger c number l).Seeded c := by
  have hyear : ∀ l' : RewardLedger, l'.Seeded c → l'.rolloverYear.Seeded c := by
    intro l' hl'
    exact ⟨Nat.le_trans (Nat.sub_le _ _) hl'.pool, hl'.pool⟩
  have hseed : (l.seed c.rewards.genesisSurplus).Seeded c := ⟨Nat.le_refl _, h.lastYear⟩
  unfold CommitteeConsensus.openLedger
  dsimp only
  by_cases hone : number = 1
  · rw [if_pos hone]
    split
    · exact hyear _ hseed
    · exact hseed
  · rw [if_neg hone]
    split
    · exact hyear _ h
    · exact h

/-- A block plans from no more than the pool was seeded with. -/
theorem blockSurplus_le (h : l.Seeded c) (number : UInt64) :
    (blockSurplus c number l).toNat ≤ c.rewards.genesisSurplus.toNat := by
  have hopened := h.openLedger number
  unfold blockSurplus planSurplus
  split
  · exact hopened.lastYear
  · exact hopened.pool

end RewardLedger.Seeded

namespace Node

variable {n n' : Node} {h : Header} {c : Config}

/-! ## What the blocks of an epoch pay -/

/-- What the blocks that leave the ledger in this epoch have paid of a stream. The storage rewards
    of an epoch are paid by its last block, and count with those of the epoch that it opens. -/
def paidIn (c : Config) (stream : Rewards → Shares) (epoch : Nat)
    (blocks : List (Node × Header)) : Nat :=
  ((blocks.filter fun e => c.openEpoch e.2.number.toNat = epoch).map
    fun e => (stream (e.1.rewards e.2)).total).sum

/-- What the blocks have paid of a stream in the epoch before. -/
def paidBefore (c : Config) (stream : Rewards → Shares) :
    Nat → List (Node × Header) → Nat
  | 0, _ => 0
  | epoch + 1, blocks => paidIn c stream epoch blocks

section

variable (stream : Rewards → Shares) {epoch : Nat} {past rest blocks : List (Node × Header)}
  {e : Node × Header}

theorem paidIn_append (epoch : Nat) (past rest : List (Node × Header)) :
    paidIn c stream epoch (past ++ rest)
      = paidIn c stream epoch past + paidIn c stream epoch rest := by
  simp only [paidIn, List.filter_append, List.map_append, List.sum_append]

theorem paidIn_eq_zero (h : ∀ e ∈ blocks, c.openEpoch e.2.number.toNat ≠ epoch) :
    paidIn c stream epoch blocks = 0 := by
  have hnone : blocks.filter (fun e => c.openEpoch e.2.number.toNat = epoch) = [] := by
    rw [List.filter_eq_nil_iff]
    intro e he
    simpa using h e he
  rw [paidIn, hnone]
  rfl

theorem paidIn_concat_of_eq (h : c.openEpoch e.2.number.toNat = epoch) :
    paidIn c stream epoch (past ++ [e])
      = paidIn c stream epoch past + (stream (e.1.rewards e.2)).total := by
  rw [paidIn_append]
  simp [paidIn, h]

theorem paidIn_concat_of_ne (h : c.openEpoch e.2.number.toNat ≠ epoch) :
    paidIn c stream epoch (past ++ [e]) = paidIn c stream epoch past := by
  have hnone : paidIn c stream epoch [e] = 0 := paidIn_eq_zero stream (by simpa using h)
  rw [paidIn_append, hnone, Nat.add_zero]

/-- A block adds nothing to the epoch before its own. -/
theorem paidBefore_concat (h : epoch ≤ c.openEpoch e.2.number.toNat) :
    paidBefore c stream epoch (past ++ [e]) = paidBefore c stream epoch past := by
  cases epoch with
  | zero => rfl
  | succ epoch => exact paidIn_concat_of_ne stream (Nat.ne_of_gt h)

/-- Of the blocks 1, 2, … the later ones add nothing to the epochs before. -/
theorem paidIn_take {i : Nat}
    (hnumbers : ∀ (j : Nat) (e : Node × Header), blocks[j]? = some e →
      e.2.number.toNat = j + 1)
    (hepoch : epoch < c.openEpoch (i + 1)) :
    paidIn c stream epoch (blocks.take i) = paidIn c stream epoch blocks := by
  have hlater : paidIn c stream epoch (blocks.drop i) = 0 := by
    apply paidIn_eq_zero
    intro e he
    obtain ⟨j, hj⟩ := List.mem_iff_getElem?.1 he
    rw [List.getElem?_drop] at hj
    have hmono : c.openEpoch (i + 1) ≤ c.openEpoch e.2.number.toNat := by
      rw [hnumbers _ e hj]
      exact c.openEpoch_mono (by omega)
    omega
  calc paidIn c stream epoch (blocks.take i)
      = paidIn c stream epoch (blocks.take i) + paidIn c stream epoch (blocks.drop i) := by
        rw [hlater, Nat.add_zero]
    _ = paidIn c stream epoch blocks := by rw [← paidIn_append, List.take_append_drop]

end

/-! ## What the ledger shows -/

/-- The ledger shows what the blocks so far have paid, in the epoch that they leave open and in the
    one before. -/
structure Shows (c : Config) (past : List (Node × Header)) (l : RewardLedger) : Prop where
  numbers : ∀ e ∈ past, e.2.number.toNat ≤ past.length
  seeded : l.Seeded c
  coin : l.actualCoinRewards
    = .clamp (paidIn c Rewards.producer (c.openEpoch past.length) past)
  storage : l.actualStorageRewards = 0
  previousCoin : l.previousEpochCoinRewards
    = .clamp (paidBefore c Rewards.producer (c.openEpoch past.length) past)
  previousStorage : l.previousEpochStorageRewards
    = .clamp (paidIn c Rewards.storage (c.openEpoch past.length) past)

theorem shows_empty (c : Config) : Shows c [] {} where
  numbers := by simp
  seeded := ⟨Nat.zero_le _, Nat.zero_le _⟩
  coin := rfl
  storage := rfl
  previousCoin := by cases c.openEpoch 0 <;> rfl
  previousStorage := rfl

section

variable {past blocks : List (Node × Header)} {transactions : List Transaction}
  {uncles : List Header} {receipts : List Receipt} {b : Block}

/-- No block before has been paid in an epoch that is not open yet. -/
theorem Shows.paidIn_later {l : RewardLedger} (h : Shows c past l) (stream : Rewards → Shares)
    {epoch : Nat} (hepoch : c.openEpoch past.length < epoch) :
    paidIn c stream epoch past = 0 := by
  apply paidIn_eq_zero
  intro e he
  have hmono := c.openEpoch_mono (h.numbers e he)
  omega

theorem Shows.numbers_concat {l : RewardLedger} {e : Node × Header} (h : Shows c past l)
    (hnumber : e.2.number.toNat = past.length + 1) :
    ∀ e' ∈ past ++ [e], e'.2.number.toNat ≤ (past ++ [e]).length := by
  intro e' he'
  rw [List.length_append, List.length_singleton]
  rcases List.mem_append.1 he' with he' | he'
  · exact Nat.le_succ_of_le (h.numbers e' he')
  · rw [List.mem_singleton.1 he', hnumber]

theorem seeded_of_finalize (hseeded : n.state.ledger.Seeded n.config)
    (hfinal : Node.finalize h transactions uncles receipts n = (.ok b, n')) :
    n'.state.ledger.Seeded n.config := by
  have hconserves := conserves_of_finalize hfinal
  have hopened : (n.opened h).Seeded n.config := hseeded.openLedger h.number
  constructor
  · rw [hconserves.surplusCoin]
    exact hopened.pool
  · rw [hconserves.previousYearSurplus]
    exact hopened.lastYear

/-- The last block of an epoch hands the counters of the epoch over, and starts those of the
    next. -/
theorem Shows.finalize_end (hshows : Shows n.config past n.state.ledger)
    (hnumber : h.number.toNat = past.length + 1) (hend : n.config.isEpochEnd h.number = true)
    (hsucc : n.config.openEpoch (past.length + 1) = n.config.openEpoch past.length + 1)
    (hfinal : Node.finalize h transactions uncles receipts n = (.ok b, n')) :
    Shows n.config (past ++ [(n, h)]) n'.state.ledger := by
  have hledger := (conserves_of_finalize hfinal).ledger
  rw [hend] at hledger
  obtain ⟨hcoin, hstorage, -, -⟩ := openLedger_counters n.config h.number n.state.ledger
  have hlength : (past ++ [(n, h)]).length = past.length + 1 := by simp
  have hthis : n.config.openEpoch h.number.toNat = n.config.openEpoch past.length + 1 := by
    rw [hnumber, hsucc]
  -- nothing was paid in the new epoch before this block
  have hfirst : ∀ stream : Rewards → Shares, paidIn n.config stream
      (n.config.openEpoch past.length + 1) (past ++ [(n, h)]) = (stream (n.rewards h)).total := by
    intro stream
    rw [paidIn_concat_of_eq stream (e := (n, h)) hthis,
      hshows.paidIn_later stream (Nat.lt_succ_self _), Nat.zero_add]
  constructor
  case numbers => exact hshows.numbers_concat hnumber
  case seeded => exact seeded_of_finalize hshows.seeded hfinal
  case coin =>
    rw [hledger, hlength, hsucc, hfirst]
    exact Amount.zero_satAdd_clamp _
  case storage =>
    rw [hledger]
    rfl
  case previousCoin =>
    rw [hledger, hlength, hsucc, paidBefore,
      paidIn_concat_of_ne _ (e := (n, h)) (hthis ▸ Nat.succ_ne_self _)]
    exact hcoin.trans hshows.coin
  case previousStorage =>
    have hhanded : n'.state.ledger.previousEpochStorageRewards
        = (n.opened h).actualStorageRewards.satAdd (.clamp (n.rewards h).storage.total) := by
      rw [hledger]
      rfl
    rw [hhanded, hlength, hsucc, hfirst, opened, hstorage, hshows.storage]
    exact Amount.zero_satAdd_clamp _

/-- A block inside an epoch adds its producer's reward. -/
theorem Shows.finalize_inside (hshows : Shows n.config past n.state.ledger)
    (hnumber : h.number.toNat = past.length + 1) (hinside : n.config.isEpochEnd h.number = false)
    (hsame : n.config.openEpoch (past.length + 1) = n.config.openEpoch past.length)
    (hfinal : Node.finalize h transactions uncles receipts n = (.ok b, n')) :
    Shows n.config (past ++ [(n, h)]) n'.state.ledger := by
  have hledger := (conserves_of_finalize hfinal).ledger
  rw [hinside] at hledger
  obtain ⟨hcoin, hstorage, hpreviousCoin, hpreviousStorage⟩ :=
    openLedger_counters n.config h.number n.state.ledger
  have hlength : (past ++ [(n, h)]).length = past.length + 1 := by simp
  have hthis : n.config.openEpoch h.number.toNat = n.config.openEpoch past.length := by
    rw [hnumber, hsame]
  have hnone : (n.rewards h).storage.total = 0 := by
    obtain ⟨current, -, hdue⟩ := dueRewards_of_finalize hfinal
    exact total_storage_of_dueRewards hdue hinside
  constructor
  case numbers => exact hshows.numbers_concat hnumber
  case seeded => exact seeded_of_finalize hshows.seeded hfinal
  case coin =>
    have hadded : n'.state.ledger.actualCoinRewards
        = (n.opened h).actualCoinRewards.satAdd (.clamp (n.rewards h).producer.total) := by
      rw [hledger]
      rfl
    rw [hadded, hlength, hsame, paidIn_concat_of_eq _ (e := (n, h)) hthis, opened, hcoin,
      hshows.coin]
    exact Amount.clamp_satAdd_clamp _ _
  case storage =>
    rw [hledger]
    exact hstorage.trans hshows.storage
  case previousCoin =>
    rw [hledger, hlength, hsame, paidBefore_concat _ (e := (n, h)) hthis.ge]
    exact hpreviousCoin.trans hshows.previousCoin
  case previousStorage =>
    -- inside an epoch no storage rewards are paid, and those of the last one stay as they are
    rw [hledger, hlength, hsame, paidIn_concat_of_eq _ (e := (n, h)) hthis, hnone, Nat.add_zero]
    exact hpreviousStorage.trans hshows.previousStorage

/-- A finalized block hands on a ledger that shows it as well. -/
theorem Shows.finalize (hshows : Shows c past n.state.ledger) (hconfig : n.config = c)
    (hnumber : h.number.toNat = past.length + 1) (hlast : past.length + 1 < Word.max)
    (hfinal : Node.finalize h transactions uncles receipts n = (.ok b, n')) :
    Shows c (past ++ [(n, h)]) n'.state.ledger := by
  subst hconfig
  have hsucc := n.config.openEpoch_succ past.length
  have hend := Config.isEpochEnd_next_iff (c := n.config) hnumber hlast
  by_cases hlastOfEpoch : (past.length + 2) % n.config.epoch.toNat = 0
  · rw [if_pos hlastOfEpoch] at hsucc
    exact hshows.finalize_end hnumber (hend.2 hlastOfEpoch) hsucc hfinal
  · have hinside : n.config.isEpochEnd h.number = false := by
      rw [← Bool.not_eq_true, hend]
      exact hlastOfEpoch
    have hsame : n.config.openEpoch (past.length + 1) = n.config.openEpoch past.length := by
      rw [hsucc, if_neg hlastOfEpoch, Nat.add_zero]
    exact hshows.finalize_inside hnumber hinside hsame hfinal

/-- Every block of a run finds a ledger that shows the blocks before it. -/
theorem Run.shows (hrun : Run n blocks n') (hshows : Shows c past n.state.ledger)
    (hconfig : ∀ e ∈ blocks, e.1.config = c)
    (hnumbers : ∀ i e, blocks[i]? = some e → e.2.number.toNat = past.length + 1 + i)
    (hlast : past.length + blocks.length < Word.max) :
    ∀ i e, blocks[i]? = some e → Shows c (past ++ blocks.take i) e.1.state.ledger := by
  -- the run is followed with the blocks that it has behind it
  induction hrun generalizing past with
  | done n => simp
  | @finalize n m n' h transactions uncles receipts b blocks hfinal hrun ih =>
    rw [List.length_cons] at hlast
    have hlength : (past ++ [(n, h)]).length = past.length + 1 := by simp
    have hnext : Shows c (past ++ [(n, h)]) m.state.ledger :=
      hshows.finalize (hconfig (n, h) List.mem_cons_self) (hnumbers 0 (n, h) rfl) (by omega) hfinal
    have hrest : ∀ i e, blocks[i]? = some e →
        Shows c (past ++ [(n, h)] ++ blocks.take i) e.1.state.ledger := by
      apply ih hnext
      · exact fun e he => hconfig e (List.mem_cons_of_mem _ he)
      · intro i e hi
        have hlater := hnumbers (i + 1) e (by simpa using hi)
        omega
      · omega
    intro i e hi
    cases i with
    | zero =>
      obtain rfl := Option.some.inj hi
      simpa using hshows
    | succ i => simpa using hrest i e (by simpa using hi)
  | meanwhile hledger hwealth hrun ih =>
    -- nobody writes to the ledger between two blocks
    exact ih (hledger ▸ hshows) hconfig hnumbers hlast

/-- In a run of the blocks 1, 2, … on an empty ledger there is nothing to show before the first. -/
theorem Run.shows_of_empty (hrun : Run n blocks n') (hledger : n.state.ledger = {})
    (hconfig : ∀ e ∈ blocks, e.1.config = c)
    (hnumbers : ∀ (i : Nat) (e : Node × Header), blocks[i]? = some e →
      e.2.number.toNat = i + 1)
    (hlast : blocks.length < Word.max) {i : Nat} {e : Node × Header} (hi : blocks[i]? = some e) :
    Shows c (blocks.take i) e.1.state.ledger := by
  have hempty : Shows c [] n.state.ledger := hledger ▸ shows_empty c
  apply hrun.shows hempty hconfig _ _ i e hi
  · intro j e hj
    rw [hnumbers j e hj, List.length_nil]
    omega
  · rwa [List.length_nil, Nat.zero_add]

end

end Node

end CommitteeConsensus
