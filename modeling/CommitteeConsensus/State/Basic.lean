import CommitteeConsensus.Hash.Keccak
import CommitteeConsensus.Refund
import CommitteeConsensus.Reward.Ledger
import CommitteeConsensus.Reward.Share
import CommitteeConsensus.SampleLog.Search
import CommitteeConsensus.Committee.Record

/-! # Account state

    The tables that finalization reads and writes: balances, sample logs of stake and storage
    contribution (heft), registered candidates, bound accounts, the reward ledger, the queue of
    refund requests and the synchronisation checkpoint.

    The state root is the digest of the written form of all tables, in which absent entries and
    entries with a default differ: a balance of zero that was set is written.
-/

namespace CommitteeConsensus

structure State where
  balances : AddressTable Amount := .empty
  stakeLogs : AddressTable SampleLog := .empty
  heftLogs : AddressTable SampleLog := .empty
  /-- Registered candidates, in order of registration. -/
  candidates : List Address := []
  bindingTable : Bindings := .empty
  ledger : RewardLedger := {}
  refunds : List RefundRequest := []
  lastSynchronized : UInt64 × Hash := (0, .zero 32)
deriving DecidableEq

namespace State

/-! ## Balances -/

def balance (s : State) (a : Address) : Amount := (s.balances.get? a).getD 0

def setBalance (s : State) (a : Address) (amount : Amount) : State :=
  { s with balances := s.balances.insert a amount }

/-- Adds to a balance, which stays at the top of the range. -/
def credit (s : State) (a : Address) (amount : Amount) : State :=
  s.setBalance a ((s.balance a).satAdd amount)

def debit (s : State) (a : Address) (amount : Amount) : Except StoreError State :=
  if s.balance a < amount then
    .error (.insufficientBalance a (toString amount.toNat) (toString (s.balance a).toNat))
  else .ok (s.setBalance a ((s.balance a).satSub amount))

/-- Credits every account with its share. -/
def creditAll (s : State) (shares : Shares) : State :=
  shares.foldl (fun s share => s.credit share.1 share.2) s

def totalBalance (s : State) : Amount := Amount.satSum s.balances.values

@[simp] theorem balance_setBalance (s : State) (a b : Address) (amount : Amount) :
    (s.setBalance a amount).balance b = if a = b then amount else s.balance b := by
  by_cases h : a = b <;> simp [balance, setBalance, Table.get?_insert, h]

theorem balance_credit (s : State) (a b : Address) (amount : Amount) :
    (s.credit a amount).balance b =
      if a = b then (s.balance b).satAdd amount else s.balance b := by
  by_cases h : a = b
  · subst h; simp [credit]
  · simp [credit, h]

/-! ## Sample logs -/

def stakeLog (s : State) (a : Address) : SampleLog := (s.stakeLogs.get? a).getD .empty

def heftLog (s : State) (a : Address) : SampleLog := (s.heftLogs.get? a).getD .empty

def latestStake (s : State) (a : Address) : UInt64 := (s.stakeLog a).latestValue

def setStakeLog (s : State) (a : Address) (log : SampleLog) : State :=
  { s with stakeLogs := s.stakeLogs.insert a log }

def setHeftLog (s : State) (a : Address) (log : SampleLog) : State :=
  { s with heftLogs := s.heftLogs.insert a log }

def recordStake (s : State) (a : Address) (block value : UInt64) : Except StoreError State := do
  return s.setStakeLog a (← (s.stakeLog a).add ⟨block, value⟩)

def recordHeft (s : State) (a : Address) (block value : UInt64) : Except StoreError State := do
  return s.setHeftLog a (← (s.heftLog a).add ⟨block, value⟩)

@[simp] theorem stakeLog_setStakeLog (s : State) (a b : Address) (log : SampleLog) :
    (s.setStakeLog a log).stakeLog b = if a = b then log else s.stakeLog b := by
  by_cases h : a = b <;> simp [stakeLog, setStakeLog, Table.get?_insert, h]

@[simp] theorem stakeLog_credit (s : State) (a b : Address) (amount : Amount) :
    (s.credit a amount).stakeLog b = s.stakeLog b := rfl

/-! ## Candidates, bound accounts, refunds -/

/-- Registers a candidate once. -/
def addCandidate (s : State) (a : Address) : State :=
  if s.candidates.contains a then s else { s with candidates := s.candidates ++ [a] }

def setCandidates (s : State) (candidates : List Address) : State :=
  { s with candidates := candidates }

/-- Binds an account to a main account once. -/
def bind (s : State) (main sub : Address) : State :=
  let subs := (s.bindingTable.get? main).getD []
  let subs := if subs.contains sub then subs else subs ++ [sub]
  { s with bindingTable := s.bindingTable.insert main subs }

def setBindingTable (s : State) (table : Bindings) : State := { s with bindingTable := table }

def setLedger (s : State) (ledger : RewardLedger) : State := { s with ledger := ledger }

def requestRefund (s : State) (r : RefundRequest) : State := { s with refunds := s.refunds ++ [r] }

def setRefunds (s : State) (requests : List RefundRequest) : State := { s with refunds := requests }

def setLastSynchronized (s : State) (number : UInt64) (hash : Hash) : State :=
  { s with lastSynchronized := (number, hash) }

/-! ## Written form -/

def toJson (s : State) : Json := .ofFields [
  ("balances", .ofTable .ofBytes Amount.toJson s.balances),
  ("stake_logs", .ofTable .ofBytes SampleLog.toJson s.stakeLogs),
  ("heft_logs", .ofTable .ofBytes SampleLog.toJson s.heftLogs),
  ("candidates", .ofList .ofBytes s.candidates),
  ("binding_table", .ofTable .ofBytes (.ofList .ofBytes) s.bindingTable),
  ("reward_ledger", s.ledger.toJson),
  ("back_stakes", .ofList RefundRequest.toJson s.refunds),
  ("last_synchronized", .ofPair .ofWord .ofBytes s.lastSynchronized)]

def written (s : State) : List UInt8 := s.toJson.render

/-- Commitment to all tables. -/
def root (s : State) : Hash := keccak256 s.written

end State

end CommitteeConsensus
