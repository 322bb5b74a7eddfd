import CommitteeConsensus.Config.Basic
import CommitteeConsensus.Toml.Document

/-! # Configuration files

    A configuration is read from a TOML document: absent keys keep their defaults and unknown
    ones are ignored. Amounts are written in hexadecimal or as arrays of bytes, the most
    significant first. The reward parameters may also be an array in the order of the fields.
-/

namespace CommitteeConsensus.Config

open Toml (Node Entries)

def word? : Node → Option UInt64
  | .scalar (.integer n) => do
    guard (0 ≤ n)
    return UInt64.ofNat n.toNat
  | _ => none

def byte? : Node → Option UInt8
  | .scalar (.integer n) => do
    guard (0 ≤ n ∧ n < 256)
    return UInt8.ofNat n.toNat
  | _ => none

/-! ## Amounts -/

def isSkipped (c : Char) : Bool := c = ' ' || c = '\t' || c = '\r' || c = '\n'

/-- The bytes of hexadecimal digits; a digit without a partner at the end is dropped. -/
def pairDigits : List UInt8 → List UInt8
  | hi :: lo :: rest => (16 * hi + lo) :: pairDigits rest
  | _ => []

/-- Reads 1 to 64 characters of hexadecimal digits and blanks, which are skipped. An odd number of
    characters stands for one with a zero in front. -/
def hexAmount? (text : List Char) : Option Amount := do
  let body := if text.take 2 = ['0', 'x'] then text.drop 2 else text
  let length := (String.ofList body).utf8ByteSize
  guard (1 ≤ length ∧ length ≤ 64)
  let digits ← (body.filter (!isSkipped ·)).mapM hexValue?
  Amount.ofNat? (ofBigEndian (pairDigits (if length % 2 = 1 then 0 :: digits else digits)))

def amount? : Node → Option Amount
  | .scalar (.text text) => hexAmount? text
  | .array items => do
    guard (1 ≤ items.length ∧ items.length ≤ 32)
    Amount.ofNat? (ofBigEndian (← items.mapM byte?))
  | _ => none

/-! ## Records -/

def orDefault? {α : Type} (read : Node → Option α) (default : α) : Option Node → Option α
  | none => some default
  | some node => read node

/-- Reward parameters from the values of their fields, each where it is given. -/
def rewardParams? (get : Nat → String → Option Node) : Option RewardParams := do
  let default : RewardParams := {}
  return {
    base := ← orDefault? word? default.base (get 0 "base")
    coinRewardsRatio := ← orDefault? word? default.coinRewardsRatio (get 1 "coin_rewards_ratio")
    storageRewardsRatio :=
      ← orDefault? word? default.storageRewardsRatio (get 2 "storage_rewards_ratio")
    ratioPerYear := ← orDefault? word? default.ratioPerYear (get 3 "ratio_per_year")
    epochsPerYear := ← orDefault? word? default.epochsPerYear (get 4 "epochs_per_year")
    genesisSurplus := ← orDefault? amount? default.genesisSurplus (get 5 "genesis_surplus") }

def rewards? : Node → Option RewardParams
  | .table _ entries | .inlineTable entries => rewardParams? fun _ key => Entries.get? key.toList entries
  | .array items => rewardParams? fun i _ => items[i]?
  | .scalar .dateTime => some {}
  | _ => none

def ofEntries? (entries : Entries) : Option Config := do
  let default : Config := {}
  let word (key : String) (d : UInt64) := orDefault? word? d (Entries.get? key.toList entries)
  return {
    epoch := ← word "epoch" default.epoch
    blockInterval := ← word "block_interval" default.blockInterval
    electionPeriod := ← word "election_period" default.electionPeriod
    validPeriod := ← word "valid_period" default.validPeriod
    committeeMaxSize := ← word "committee_max_size" default.committeeMaxSize
    period := ← word "period" default.period
    syncWindow := ← word "syn_block_len" default.syncWindow
    backStakePeriod := ← word "back_stake_period" default.backStakePeriod
    stakeUnit := ← orDefault? amount? default.stakeUnit (Entries.get? "stake_unit".toList entries)
    snapshotCacheSize := ← word "snapshot_cache_size" default.snapshotCacheSize
    rewards := ← orDefault? rewards? default.rewards (Entries.get? "rewards".toList entries) }

/-- Reads and validates a configuration. -/
def ofToml (text : String) : Except Error Config := do
  match (Toml.parse? text).bind ofEntries? with
  | some c =>
    c.validate
    return c
  | none => .error (.config "<toml>")

end CommitteeConsensus.Config
