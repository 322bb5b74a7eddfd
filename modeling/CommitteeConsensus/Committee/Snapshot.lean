import CommitteeConsensus.Binary
import CommitteeConsensus.Committee.Record
import CommitteeConsensus.Config.Basic

/-! # Committee snapshots

    The committee that governs one epoch: its members in turn order with their reward shares,
    stake and contribution for each member, and the accounts bound to theirs. A snapshot is made
    from a published record that has no `CommitteeFlaw`, and is never changed afterwards.

    Snapshots are stored as binary records under a key that ends in the epoch's number.
-/

namespace CommitteeConsensus

/-! ## Flaws of a published record -/

inductive CommitteeFlaw
  | emptyRank
  | emptyCommittee
  | tooLarge (size : Nat) (max : UInt64)
  | proportionCount (count members : Nat)
  | columnCount (name : String) (count members : Nat)
  | repeatedMember (address : Address)
deriving DecidableEq

namespace CommitteeFlaw

def message : CommitteeFlaw → String
  | emptyRank => "empty committee rank"
  | emptyCommittee => "empty committee"
  | tooLarge size max => "committee of " ++ toString size ++ " exceeds max " ++ toString max
  | proportionCount count members =>
    toString count ++ " proportions for " ++ toString members ++ " members"
  | columnCount name count members =>
    toString count ++ " " ++ name ++ " entries for " ++ toString members ++ " members"
  | repeatedMember address => "duplicate member " ++ address.text

/-- The refusal of a header that publishes a record with this flaw. -/
def error (number : UInt64) (flaw : CommitteeFlaw) : Error :=
  .invalidEpochBlock number flaw.message

end CommitteeFlaw

/-- The first item that occurs a second time. -/
def firstRepeat? (seen : List Address) : List Address → Option Address
  | [] => none
  | a :: rest => if seen.contains a then some a else firstRepeat? (a :: seen) rest

namespace CommitteeRecord

/-- What is wrong with the number of members or of their reward shares. -/
def shapeFlaw? (r : CommitteeRecord) (max : UInt64) (whenEmpty : CommitteeFlaw) :
    Option CommitteeFlaw :=
  if r.rank.isEmpty then some whenEmpty
  else if max.toNat < r.rank.length then some (.tooLarge r.rank.length max)
  else if r.proportion.length ≠ r.rank.length then
    some (.proportionCount r.proportion.length r.rank.length)
  else none

/-- A column is absent or has an entry for each member. -/
def columnFlaw? (r : CommitteeRecord) (name : String) (column : List UInt64) :
    Option CommitteeFlaw :=
  if ¬ column.isEmpty ∧ column.length ≠ r.rank.length then
    some (.columnCount name column.length r.rank.length)
  else none

/-- Why a header may not publish the record. -/
def publicationFlaw? (r : CommitteeRecord) (max : UInt64) : Option CommitteeFlaw :=
  r.shapeFlaw? max .emptyRank

/-- Why no snapshot can be made from the record. -/
def snapshotFlaw? (r : CommitteeRecord) (max : UInt64) : Option CommitteeFlaw :=
  r.shapeFlaw? max .emptyCommittee
    <|> r.columnFlaw? "committee_stake" r.committeeStake
    <|> r.columnFlaw? "sentinel_contribution" r.sentinelContribution
    <|> (firstRepeat? [] r.rank).map .repeatedMember

end CommitteeRecord

/-! ## Snapshots -/

structure Member where
  signer : Address
  stake : UInt64
  contribution : UInt64
deriving DecidableEq

structure Snapshot where
  epoch : UInt64
  /-- Number and hash of the header that published the committee. -/
  publishedAt : UInt64
  publishedBy : Hash
  rank : List Address
  proportion : List UInt64
  members : AddressTable Member
  accountBinding : Bindings
  epochLength : UInt64
  blockInterval : UInt64
deriving DecidableEq

namespace CommitteeRecord

/-- The members of a record with their columns; an absent column counts as zeros. -/
def memberList (r : CommitteeRecord) : List (Address × Member) :=
  r.rank.zipIdx.map fun (address, i) =>
    (address, ⟨address, r.committeeStake.getD i 0, r.sentinelContribution.getD i 0⟩)

end CommitteeRecord

namespace Snapshot

/-- The snapshot of `epoch` from the record that a header published. -/
def ofRecord (c : Config) (publishedAt : UInt64) (publishedBy : Hash) (epoch : UInt64)
    (r : CommitteeRecord) : Except Error Snapshot :=
  match r.snapshotFlaw? c.committeeMaxSize with
  | some flaw => .error (flaw.error publishedAt)
  | none => .ok {
      epoch, publishedAt, publishedBy
      rank := r.rank
      proportion := r.proportion
      members := .ofList r.memberList
      accountBinding := r.accountBinding
      epochLength := c.epoch
      blockInterval := c.blockInterval }

def size (s : Snapshot) : Nat := s.rank.length

def rankIndex? (s : Snapshot) (address : Address) : Option Nat := s.rank.idxOf? address

def isMember (s : Snapshot) (address : Address) : Bool := s.members.contains address

/-- Reward share of an account, zero for one that has no rank. -/
def proportionOf (s : Snapshot) (address : Address) : UInt64 :=
  ((s.rankIndex? address).bind (s.proportion[·]?)).getD 0

def subAccounts (s : Snapshot) (main : Address) : List Address :=
  (s.accountBinding.get? main).getD []

/-- A column over the ranked members. -/
def column (s : Snapshot) (value : Member → UInt64) : List UInt64 :=
  s.rank.map fun a => ((s.members.get? a).map value).getD 0

/-- The record that the snapshot stands for. -/
def toRecord (s : Snapshot) : CommitteeRecord where
  rank := s.rank
  proportion := s.proportion
  committeeStake := s.column Member.stake
  sentinelContribution := s.column Member.contribution
  accountBinding := s.accountBinding

/-! ## Stored form -/

/-- The key of an epoch's record; keys of one length, so none is the start of another. -/
def storeKey (epoch : UInt64) : List UInt8 := ascii "genaro-snapshot-" ++ bigEndian 8 epoch.toNat

open Binary

def storedMember (m : Member) : List UInt8 :=
  m.signer.toList ++ word m.stake ++ word m.contribution

def readMember : Reader Member := do
  return ⟨← readBytes 20, ← readWord, ← readWord⟩

def stored (s : Snapshot) : List UInt8 :=
  word s.epoch ++ word s.publishedAt ++ s.publishedBy.toList
    ++ list Bytes.toList s.rank
    ++ list word s.proportion
    ++ table Bytes.toList storedMember s.members
    ++ table Bytes.toList (list Bytes.toList) s.accountBinding
    ++ word s.epochLength ++ word s.blockInterval

def reader : Reader Snapshot := do
  return {
    epoch := ← readWord
    publishedAt := ← readWord
    publishedBy := ← readBytes 32
    rank := ← readList (readBytes 20)
    proportion := ← readList readWord
    members := ← readTable (readBytes 20) readMember
    accountBinding := ← readTable (readBytes 20) (readList (readBytes 20))
    epochLength := ← readWord
    blockInterval := ← readWord }

/-- Reads the record stored under a key; what follows the record is ignored. -/
def ofStored (key bytes : List UInt8) : Except StoreError Snapshot :=
  match read? reader bytes with
  | some s => .ok s
  | none => .error (.corrupted (hex key) "<bincode>")

end Snapshot

end CommitteeConsensus
