import CommitteeConsensus.Amount
import CommitteeConsensus.Bytes

/-! # Errors

    Why an operation is refused, the label under which refusals are counted, and the message.
    `Failure` adds the arithmetic faults of reward arithmetic, which have neither.
-/

namespace CommitteeConsensus

/-! ## Storage errors -/

inductive StoreError
  | writeFailed (message : String)
  | corrupted (key message : String)
  | insufficientBalance (address : Address) (needed available : String)
  | outOfOrder (last got : UInt64)
deriving DecidableEq

namespace StoreError

def kind : StoreError → String
  | writeFailed _ => "io"
  | corrupted .. => "corrupted"
  | insufficientBalance .. => "insufficient_balance"
  | outOfOrder .. => "out_of_order"

def message : StoreError → String
  | writeFailed text => "I/O error: " ++ text
  | corrupted key text => "Corrupted record under key " ++ key ++ ": " ++ text
  | insufficientBalance address needed available =>
    "Insufficient balance for " ++ address.text ++ ": need " ++ needed ++ ", have " ++ available
  | outOfOrder last got =>
    "Log entry out of order: block " ++ toString got ++ " after block " ++ toString last

end StoreError

/-! ## Consensus errors -/

inductive Error
  | unknownBlock
  | unknownAncestor
  | unauthorized (signer : Address)
  | invalidEpochBlock (number : UInt64) (reason : String)
  | invalidDifficulty (expected actual : UInt64)
  | invalidBlockTime (number time min : UInt64)
  | futureBlock (time now : UInt64)
  | emptyExtra
  | invalidExtra (reason : String)
  | staleSyncCheckpoint (number lastSync window : UInt64)
  | unclesNotAllowed
  | invalidSignature
  | noSigner
  | signFailed (reason : String)
  | snapshotStore (reason : String)
  | state (reason : String)
  | config (reason : String)
deriving DecidableEq

namespace Error

/-- The short name under which refusals are counted. -/
def label : Error → String
  | unknownBlock => "unknown_block"
  | unknownAncestor => "unknown_ancestor"
  | unauthorized _ => "unauthorized"
  | invalidEpochBlock .. => "invalid_epoch_block"
  | invalidDifficulty .. => "invalid_difficulty"
  | invalidBlockTime .. => "invalid_block_time"
  | futureBlock .. => "future_block"
  | emptyExtra => "empty_extra"
  | invalidExtra _ => "invalid_extra"
  | staleSyncCheckpoint .. => "stale_syn_checkpoint"
  | unclesNotAllowed => "uncles_not_allowed"
  | invalidSignature => "invalid_signature"
  | noSigner => "no_signer"
  | signFailed _ => "sign_failed"
  | snapshotStore _ => "snapshot_store"
  | state _ => "state"
  | config _ => "config"

def message : Error → String
  | unknownBlock => "Unknown block"
  | unknownAncestor => "Unknown ancestor"
  | unauthorized signer => "Unauthorized signer: " ++ signer.text
  | invalidEpochBlock number reason =>
    "Invalid epoch block " ++ toString number ++ ": " ++ reason
  | invalidDifficulty expected actual =>
    "Invalid difficulty: expected " ++ toString expected ++ ", got " ++ toString actual
  | invalidBlockTime number time min =>
    "Invalid block time for block " ++ toString number ++ ": " ++ toString time
      ++ " < minimum " ++ toString min
  | futureBlock time now => "Block in the future: " ++ toString time ++ ", now " ++ toString now
  | emptyExtra => "Extra-data missing signature payload"
  | invalidExtra reason => "Malformed extra-data: " ++ reason
  | staleSyncCheckpoint number lastSync window =>
    "Sync checkpoint " ++ toString lastSync ++ " too old for block " ++ toString number
      ++ " (window " ++ toString window ++ ")"
  | unclesNotAllowed => "Uncles not allowed"
  | invalidSignature => "Invalid seal signature"
  | noSigner => "No signer authorized"
  | signFailed reason => "Signing failed: " ++ reason
  | snapshotStore reason => "Snapshot store error: " ++ reason
  | state reason => "State error: " ++ reason
  | config reason => "Invalid configuration: " ++ reason

def ofSnapshotStore (e : StoreError) : Error := snapshotStore e.message

def ofState (e : StoreError) : Error := state e.message

end Error

/-! ## Failures -/

/-- An operation that moves rewards either refuses its input or leaves the range of amounts. -/
inductive Failure
  | error (e : Error)
  | fault (f : Fault)
deriving DecidableEq

instance : Coe Error Failure := ⟨.error⟩

/-- A fault of arithmetic, seen as a failure of the operation that computes. -/
def Fault.lift {α : Type} : Except Fault α → Except Failure α
  | .ok a => .ok a
  | .error f => .error (.fault f)

end CommitteeConsensus
