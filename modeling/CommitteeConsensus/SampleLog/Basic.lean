import CommitteeConsensus.Error
import CommitteeConsensus.Json.Decode
import CommitteeConsensus.Word

/-! # Sample logs

    A log keeps the samples of one account's cumulative value, the latest last. Samples come in
    block order: one for the last block replaces it, one for an earlier block is refused, so
    the blocks of a log that was built by `add` increase strictly (`Ordered`).

    A log read from text need not be ordered; every operation has an answer on it all the same.
-/

namespace CommitteeConsensus

structure Sample where
  block : UInt64
  value : UInt64
deriving DecidableEq, Inhabited

namespace Sample

def toJson (s : Sample) : Json :=
  .ofFields [("block_number", .ofWord s.block), ("value", .ofWord s.value)]

/-- Reads a sample, which must have both of its fields. -/
def ofJson? (j : Json) : Option Sample := do
  match ← j.fields? ["block_number", "value"] with
  | [some block, some value] => return ⟨← block.word?, ← value.word?⟩
  | _ => none

end Sample

structure SampleLog where
  samples : Array Sample := #[]
deriving DecidableEq, Inhabited

namespace SampleLog

def empty : SampleLog := {}

def toList (log : SampleLog) : List Sample := log.samples.toList

def blocks (log : SampleLog) : List UInt64 := log.toList.map Sample.block

def size (log : SampleLog) : Nat := log.samples.size

def isEmpty (log : SampleLog) : Bool := log.samples.isEmpty

def last? (log : SampleLog) : Option Sample := log.samples.back?

/-- The latest value, zero when there is none. -/
def latestValue (log : SampleLog) : UInt64 := (log.last?.map Sample.value).getD 0

/-- The blocks of the samples increase strictly. -/
def Ordered (log : SampleLog) : Prop := log.blocks.Pairwise (· < ·)

instance (log : SampleLog) : Decidable log.Ordered :=
  inferInstanceAs (Decidable (List.Pairwise _ _))

/-! ## Adding -/

def add (log : SampleLog) (s : Sample) : Except StoreError SampleLog :=
  match log.last? with
  | none => .ok ⟨log.samples.push s⟩
  | some last =>
    if s.block = last.block then .ok ⟨log.samples.pop.push ⟨last.block, s.value⟩⟩
    else if s.block < last.block then .error (.outOfOrder last.block s.block)
    else .ok ⟨log.samples.push s⟩

def ofSamples (samples : List Sample) : Except StoreError SampleLog :=
  samples.foldlM add empty

@[simp] theorem toList_empty : empty.toList = [] := rfl

theorem toList_add_of_lt {log : SampleLog} {s : Sample}
    (h : ∀ last, log.last? = some last → last.block < s.block) :
    ∃ log', log.add s = .ok log' ∧ log'.toList = log.toList ++ [s] := by
  unfold add
  split
  · exact ⟨_, rfl, by simp [toList]⟩
  · next last hlast =>
    have hlt := h last hlast
    have hne : s.block ≠ last.block := fun e => UInt64.lt_irrefl _ (e ▸ hlt)
    rw [if_neg hne, if_neg (UInt64.lt_asymm hlt)]
    exact ⟨_, rfl, by simp [toList]⟩

/-! ## Recent growth -/

/-- Growth that the last sample brought, and its block. -/
def lastDelta (log : SampleLog) : UInt64 × UInt64 :=
  match log.toList.reverse with
  | [] => (0, 0)
  | [only] => (only.value, only.block)
  | last :: previous :: _ => (Word.satSub last.value previous.value, last.block)

/-! ## Written form -/

def toJson (log : SampleLog) : Json := .ofList Sample.toJson log.toList

/-- Reads a log as it is written, whatever the order of its samples. -/
def ofJson? (j : Json) : Option SampleLog := do
  return ⟨(← j.list? Sample.ofJson?).toArray⟩

end SampleLog

end CommitteeConsensus
