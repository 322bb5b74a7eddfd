import CommitteeConsensus.Error
import CommitteeConsensus.Word

/-! # Configuration

    The parameters of an engine, their defaults, and `validate`, which refuses those that would
    divide by zero or pay out more than the pool.
-/

namespace CommitteeConsensus

/-- The pool that rewards are paid from when the chain starts. -/
def Amount.genesisPool : Amount := ⟨175000000 * coin.toNat, by decide⟩

/-- Economic parameters; ratios are fractions of `base`. -/
structure RewardParams where
  base : UInt64 := 10000
  coinRewardsRatio : UInt64 := 5000
  storageRewardsRatio : UInt64 := 5000
  ratioPerYear : UInt64 := 700
  epochsPerYear : UInt64 := 15768
  genesisSurplus : Amount := .genesisPool
deriving DecidableEq

structure Config where
  /-- Blocks per epoch. -/
  epoch : UInt64 := 2000
  /-- Blocks per turn of a committee member. -/
  blockInterval : UInt64 := 10
  /-- Epochs between the material of an election and the election. -/
  electionPeriod : UInt64 := 1
  /-- Epochs between the election of a committee and its first block. -/
  validPeriod : UInt64 := 1
  committeeMaxSize : UInt64 := 101
  /-- Seconds between blocks. -/
  period : UInt64 := 1
  /-- Blocks a synchronisation checkpoint may lag behind; zero for any number. -/
  syncWindow : UInt64 := 0
  /-- Blocks between the request for a stake's return and its maturity. -/
  backStakePeriod : UInt64 := 5000
  /-- Base units in a logged unit of stake. -/
  stakeUnit : Amount := .coin
  snapshotCacheSize : UInt64 := 128
  rewards : RewardParams := {}
deriving DecidableEq

/-! ## Validation -/

def require (holds : Bool) (reason : String) : Except Error Unit :=
  if holds then .ok () else .error (.config reason)

def RewardParams.validate (params : RewardParams) : Except Error Unit := do
  require (params.base ≠ 0) "rewards.base cannot be 0"
  require (params.epochsPerYear ≠ 0) "rewards.epochs_per_year cannot be 0"
  ratio "coin_rewards_ratio" params.coinRewardsRatio
  ratio "storage_rewards_ratio" params.storageRewardsRatio
  ratio "ratio_per_year" params.ratioPerYear
where
  ratio (name : String) (value : UInt64) : Except Error Unit :=
    require (value ≤ params.base)
      ("rewards." ++ name ++ " (" ++ toString value ++ ") exceeds base (" ++ toString params.base ++ ")")

namespace Config

def validate (c : Config) : Except Error Unit := do
  require (c.epoch ≠ 0) "epoch cannot be 0"
  require (c.blockInterval ≠ 0) "block_interval cannot be 0"
  require (c.committeeMaxSize ≠ 0) "committee_max_size cannot be 0"
  require (c.committeeMaxSize.toNat * c.blockInterval.toNat ≤ Word.max)
    ("committee_max_size (" ++ toString c.committeeMaxSize ++ ") x block_interval ("
      ++ toString c.blockInterval ++ ") overflows")
  require (c.snapshotCacheSize ≠ 0) "snapshot_cache_size cannot be 0"
  c.rewards.validate

/-- Blocks in a reward year. -/
def blocksPerYear (c : Config) : UInt64 := Word.satMul c.rewards.epochsPerYear c.epoch

end Config

/-! ## What a valid configuration satisfies -/

@[simp] theorem require_eq_ok_iff {holds : Bool} {reason : String} :
    require holds reason = .ok () ↔ holds = true := by
  cases holds <;> simp [require]

/-- A check passes after another one when both pass. -/
theorem check_then_eq_ok_iff {first next : Except Error Unit} :
    (first >>= fun _ => next) = .ok () ↔ first = .ok () ∧ next = .ok () := by
  rcases first with e | ⟨⟨⟩⟩ <;> simp [bind, Except.bind]

theorem RewardParams.validate_eq_ok_iff (params : RewardParams) :
    params.validate = .ok () ↔ params.base ≠ 0 ∧ params.epochsPerYear ≠ 0
      ∧ params.coinRewardsRatio ≤ params.base ∧ params.storageRewardsRatio ≤ params.base
      ∧ params.ratioPerYear ≤ params.base := by
  simp only [validate, validate.ratio, check_then_eq_ok_iff, require_eq_ok_iff, decide_eq_true_eq]

theorem Config.validate_eq_ok_iff (c : Config) :
    c.validate = .ok () ↔ c.epoch ≠ 0 ∧ c.blockInterval ≠ 0 ∧ c.committeeMaxSize ≠ 0
      ∧ c.committeeMaxSize.toNat * c.blockInterval.toNat ≤ Word.max ∧ c.snapshotCacheSize ≠ 0
      ∧ c.rewards.validate = .ok () := by
  simp only [validate, check_then_eq_ok_iff, require_eq_ok_iff, decide_eq_true_eq]

end CommitteeConsensus
