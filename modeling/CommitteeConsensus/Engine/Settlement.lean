import CommitteeConsensus.Committee.Election
import CommitteeConsensus.Engine.Governance
import CommitteeConsensus.Reward.Plan
import CommitteeConsensus.State.Basic

/-! # Settlement of a block

    What finalizing a block does to the state. The ledger is opened for the block (seeded at
    block one, rolled over at the start of a year). At the end of an epoch storage rewards are
    paid, the epoch is closed and the next committee is elected. Every block pays its producer
    and returns the stakes whose requests are mature. The roots and the extra-data of the header
    then say what happened.

    Arithmetic faults leave no result at all. An error can only come from the return of stakes or
    from writing the header, after rewards were paid, so `settle` also returns the state that it
    leaves behind.
-/

namespace CommitteeConsensus

/-! ## Ledger -/

/-- The ledger as the block finds it: seeded at block one, the year closed at its end. -/
def openLedger (config : Config) (number : UInt64) (ledger : RewardLedger) : RewardLedger :=
  let ledger := if number = 1 then ledger.seed config.rewards.genesisSurplus else ledger
  if config.isYearStart number then ledger.rolloverYear else ledger

/-- The pool that the plans of a block are made from. -/
def blockSurplus (config : Config) (number : UInt64) (ledger : RewardLedger) : Amount :=
  (openLedger config number ledger).planSurplus (config.isYearStart number)

/-! ## End of an epoch -/

/-- Storage contribution of each candidate over the closing epoch. -/
def contributions (config : Config) (number : UInt64) (s : State) : Weights :=
  let window := config.storageWindow number
  s.candidates.map fun a => (a, (s.heftLog a).rangeDiff window.1 window.2)

/-- Pays the storage rewards of the closing epoch; without contributions the plan is forfeited. -/
def payStorage (config : Config) (number : UInt64) (surplus : Amount)
    (s : State) (ledger : RewardLedger) : Except Fault (State × RewardLedger) := do
  let plan ← epochStoragePlan config.rewards ledger surplus
  match ← storageShares plan (contributions config number s) with
  | none => return (s, ledger)
  | some shares =>
    return (s.creditAll shares, ledger.recordStorage (Amount.satSum (shares.map Prod.snd)))

/-- The candidates of the election at an epoch-end block, with their latest stake and their
    contribution over the window that the elected committee depends on. -/
def electionCandidates (config : Config) (number : UInt64) (s : State) : List Candidate :=
  let window := config.electionWindow number
  s.candidates.map fun a => ⟨a, s.latestStake a, (s.heftLog a).rangeDiff window.1 window.2⟩

/-- The record published at an epoch-end block: the elected committee, or the current one when
    nobody can be elected, with the bindings of its members. -/
def electCommittee (config : Config) (number : UInt64) (current : Snapshot) (s : State) :
    CommitteeRecord :=
  let record := rankCandidates (electionCandidates config number s) config.rewards.base
    config.committeeMaxSize
  -- nobody stands for election: the committee stays in office
  let record := if record.isEmpty then current.toRecord else record
  { record with accountBinding := s.bindingTable.filterKeys record.rank.contains }

/-! ## Every block -/

/-- Pays the producer of a block, who shares with its bound accounts. Without a reward share
    there is no payment. -/
def payCoin (config : Config) (current : Snapshot) (coinbase : Address) (surplus : Amount)
    (s : State) (ledger : RewardLedger) : Except Fault (State × RewardLedger) := do
  let proportion := current.proportionOf coinbase
  if proportion = 0 then return (s, ledger)
  let amount ← blockCoinReward config.rewards ledger surplus proportion config.epoch current.size
  let subs := (current.subAccounts coinbase).map fun sub => (sub, s.latestStake sub)
  let shares ← splitByStake amount coinbase (s.latestStake coinbase) subs
  return (s.creditAll shares, ledger.recordCoin amount)

/-- Returns the stake of one account: credits it and logs a stake of zero. -/
def refund (config : Config) (number : UInt64) (s : State) (a : Address) :
    Except StoreError Unit × State :=
  let s := s.credit a (config.stakeUnit.satMul (.ofWord (s.latestStake a)))
  match s.recordStake a number 0 with
  | .error e => (.error e, s)
  | .ok s => (.ok (), s)

def refundEach (config : Config) (number : UInt64) :
    List RefundRequest → State → Except StoreError Unit × State
  | [], s => (.ok (), s)
  | r :: rest, s =>
    match refund config number s r.address with
    | (.error e, s) => (.error e, s)
    | (.ok (), s) => refundEach config number rest s

/-- Serves the mature requests and strikes their accounts off the candidates. -/
def refundMatured (config : Config) (number : UInt64) (s : State) :
    Except StoreError Unit × State :=
  let (matured, pending) := RefundRequest.splitMatured s.refunds number
  if matured.isEmpty then (.ok (), s)
  else
    -- the list is read before any stake is returned and written after all of them are
    let candidates := s.candidates.filter fun a => !(matured.map RefundRequest.address).contains a
    match refundEach config number matured s with
    | (.error e, s) => (.error e, s)
    | (.ok (), s) => (.ok (), (s.setCandidates candidates).setRefunds pending)

/-! ## A whole block -/

/-- The state, ledger and committee record after the rewards of a block. -/
structure Payout where
  state : State
  ledger : RewardLedger
  /-- The newly elected committee, at the end of an epoch. -/
  elected : Option CommitteeRecord

/-- Closes the epoch, where the block is its last one. -/
def closeEpoch (config : Config) (number : UInt64) (current : Snapshot) (surplus : Amount)
    (s : State) (ledger : RewardLedger) : Except Fault Payout := do
  if config.isEpochEnd number then
    let (s, ledger) ← payStorage config number surplus s ledger
    return ⟨s, ledger.rolloverEpoch, some (electCommittee config number current s)⟩
  else return ⟨s, ledger, none⟩

/-- Pays all rewards of a block and stores the ledger. -/
def payRewards (config : Config) (number : UInt64) (coinbase : Address) (current : Snapshot)
    (s : State) : Except Fault (State × Option CommitteeRecord) := do
  let ledger := openLedger config number s.ledger
  let surplus := blockSurplus config number s.ledger
  let closed ← closeEpoch config number current surplus s ledger
  let (s, ledger) ← payCoin config current coinbase surplus closed.state closed.ledger
  return (s.setLedger ledger, closed.elected)

/-- The extra-data of a settled block. -/
def settledExtra (x : ExtraData) (elected : Option CommitteeRecord) (s : State) : ExtraData :=
  { x with
    committee := elected.getD x.committee
    lastSyncNumber := s.lastSynchronized.1
    lastSyncHash := s.lastSynchronized.2 }

/-- The header of a settled block. -/
def settledHeader (h : Header) (x : ExtraData) (transactions : List Transaction)
    (receipts : List Receipt) (s : State) : Except Error Header := do
  let h ← h.withExtra x
  return { h with
    stateRoot := s.root
    uncleHash := emptyUncleHash
    transactionsRoot := transactionsRoot transactions
    receiptsRoot := receiptsRoot receipts }

/-- Settles a block under its governing snapshot: its header, and the state left behind. -/
def settle (config : Config) (current : Snapshot) (h : Header) (x : ExtraData)
    (transactions : List Transaction) (receipts : List Receipt) (s : State) :
    Except Failure Header × State :=
  match payRewards config h.number h.coinbase current s with
  | .error f => (.error (.fault f), s)
  | .ok (s, elected) =>
    let x := settledExtra x elected s
    match refundMatured config h.number s with
    | (.error e, s) => (.error (.error (.ofState e)), s)
    | (.ok (), s) =>
      match settledHeader h x transactions receipts s with
      | .error e => (.error (.error e), s)
      | .ok h => (.ok h, s)

/-- Finalizes a block: looks up its snapshot and settles it. Returns the block, the state and the
    cache left behind. -/
def finalize (config : Config) (chain : Chain) (h : Header) (transactions : List Transaction)
    (uncles : List Header) (receipts : List Receipt) (s : State) (cache : SnapshotCache) :
    Except Failure Block × State × SnapshotCache :=
  if ¬ uncles.isEmpty then (.error (.error .unclesNotAllowed), s, cache)
  else if h.number = 0 then (.error (.error .unknownBlock), s, cache)
  else
    match ExtraData.decodeOrDefault h.extra with
    | .error e => (.error (.error e), s, cache)
    | .ok x =>
      match governingSnapshot config chain [] h.number cache with
      | (.error e, cache) => (.error (.error e), s, cache)
      | (.ok current, cache) =>
        match settle config current h x transactions receipts s with
        | (.error e, s) => (.error e, s, cache)
        | (.ok h, s) => (.ok ⟨h, transactions, []⟩, s, cache)

end CommitteeConsensus
