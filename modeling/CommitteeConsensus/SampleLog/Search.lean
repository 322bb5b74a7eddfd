import CommitteeConsensus.SampleLog.Basic

/-! # Searching a sample log

    Binary searches for the samples at the two ends of a block window, the growth of the value
    over a window, and the removal of samples before a block. Each search halves the range it
    looks at, so it ends on any log; on an ordered log it finds the sample that its name says.
-/

namespace CommitteeConsensus.SampleLog

/-! ## Searches -/

/-- The lowest index of a range whose block is at or after `block`, provided that the highest
    index is one. -/
def lowerBound (samples : Array Sample) (block : UInt64) (lo hi : Nat)
    (inside : hi < samples.size) : Nat :=
  if _h : lo < hi then
    let mid := lo + (hi - lo) / 2
    have : mid < samples.size := by omega
    if block ≤ samples[mid].block then lowerBound samples block lo mid (by omega)
    else lowerBound samples block (mid + 1) hi inside
  else lo
termination_by hi - lo

/-- The highest index of a range whose block is at or before `block`, provided that the lowest
    index is one. The middle is rounded up, so that the range always shrinks. -/
def upperBound (samples : Array Sample) (block : UInt64) (lo hi : Nat)
    (inside : hi < samples.size) : Nat :=
  if _h : lo < hi then
    let mid := lo + (hi - lo + 1) / 2
    have : mid < samples.size := by omega
    if samples[mid].block ≤ block then upperBound samples block mid hi inside
    else upperBound samples block lo (mid - 1) (by omega)
  else lo
termination_by hi - lo

theorem le_lowerBound {samples : Array Sample} {block : UInt64} {lo hi : Nat}
    (inside : hi < samples.size) (h : lo ≤ hi) :
    lo ≤ lowerBound samples block lo hi inside ∧ lowerBound samples block lo hi inside ≤ hi := by
  fun_induction lowerBound samples block lo hi inside <;> omega

theorem le_upperBound {samples : Array Sample} {block : UInt64} {lo hi : Nat}
    (inside : hi < samples.size) (h : lo ≤ hi) :
    lo ≤ upperBound samples block lo hi inside ∧ upperBound samples block lo hi inside ≤ hi := by
  fun_induction upperBound samples block lo hi inside <;> omega

/-- The lowest sample of the range `[lo, hi]` at or after a block, with its index. -/
def firstAtOrAfter (log : SampleLog) (block : UInt64) (lo hi : Nat) : Option (Sample × Nat) :=
  if h : lo ≤ hi ∧ hi < log.samples.size then
    if log.samples[hi].block < block then none
    else
      let i := lowerBound log.samples block lo hi h.2
      have : i < log.samples.size := Nat.lt_of_le_of_lt (le_lowerBound h.2 h.1).2 h.2
      some (log.samples[i], i)
  else none

/-- The highest sample of the range `[lo, hi]` at or before a block, with its index. -/
def lastAtOrBefore (log : SampleLog) (block : UInt64) (lo hi : Nat) : Option (Sample × Nat) :=
  if h : lo ≤ hi ∧ hi < log.samples.size then
    have : lo < log.samples.size := by omega
    if block < log.samples[lo].block then none
    else
      let i := upperBound log.samples block lo hi h.2
      have : i < log.samples.size := Nat.lt_of_le_of_lt (le_upperBound h.2 h.1).2 h.2
      some (log.samples[i], i)
  else none

/-! ## Windows -/

/-- Growth of the value over the samples of a window. A sample at block zero has none before it,
    so for a window from block zero its value counts as growth. -/
def rangeDiff (log : SampleLog) (start stop : UInt64) : UInt64 :=
  let top := log.size - 1
  match log.firstAtOrAfter start 0 top, log.lastAtOrBefore stop 0 top with
  | some (first, i), some (later, j) =>
    let growth := if i < j ∧ first.value < later.value then later.value - first.value else 0
    if start = 0 ∧ first.block = 0 then Word.satAdd growth first.value else growth
  | _, _ => 0

/-! ## Trimming -/

/-- Where the samples before a block end, in a part of `size` samples from `base` on. -/
def partitionPoint (samples : Array Sample) (block : UInt64) (base size : Nat)
    (inside : base + size ≤ samples.size) : Nat :=
  if _h : 1 < size then
    -- the part always keeps the upper half of its size, so only the size decides the steps
    let half := size / 2
    have : base + half < samples.size := by omega
    if samples[base + half].block < block then
      partitionPoint samples block (base + half) (size - half) (by omega)
    else partitionPoint samples block base (size - half) (by omega)
  else if _h : size = 1 then
    if samples[base].block < block then base + 1 else base
  else base
termination_by size

/-- Drops the samples before a block, all but the last one at most. -/
def trimBefore (log : SampleLog) (block : UInt64) : SampleLog :=
  let cut := partitionPoint log.samples block 0 log.samples.size (by omega)
  ⟨log.samples.extract (min cut (log.size - 1)) log.size⟩

end CommitteeConsensus.SampleLog
