import CommitteeConsensus.Chain.Header

/-! # The chain index

    Every header that was inserted, by its hash, and the canonical header of each number. The
    header inserted last is canonical at its number; when it replaces another one there, the
    canonical numbers above are given up.
-/

namespace CommitteeConsensus

structure Chain where
  headers : Table Hash Header := .empty
  canonical : Table UInt64 Hash := .empty
deriving DecidableEq

namespace Chain

/-- Makes a header canonical at its number. Where it takes the place of another one, the entries from
    the next number on are given up. The last of all numbers has no next one: the overflow there is
    left out, and no entry is above it. -/
def insert (c : Chain) (h : Header) : Chain :=
  let hash := h.hash
  let replaces := (c.canonical.get? h.number).any (· ≠ hash)
  let kept := if replaces then c.canonical.filterKeys (· ≤ h.number) else c.canonical
  { headers := c.headers.insert hash h
    canonical := kept.insert h.number hash }

def ofGenesis (genesis : Header) : Chain := ({} : Chain).insert genesis

/-- The highest canonical number. -/
def height? (c : Chain) : Option UInt64 := c.canonical.keys.getLast?

/-- The canonical header of a number. -/
def headerAt? (c : Chain) (number : UInt64) : Option Header :=
  (c.canonical.get? number).bind c.headers.get?

/-- The canonical headers of so many numbers from one on, if the chain has them all. -/
def headersFrom? (c : Chain) (number : UInt64) : Nat → Option (List Header)
  | 0 => some []
  | count + 1 =>
    (c.headerAt? number).bind fun h => (c.headersFrom? (number + 1) count).map (h :: ·)

/-- The header with a hash, provided that it has the number. -/
def header? (c : Chain) (hash : Hash) (number : UInt64) : Option Header :=
  (c.headers.get? hash).filter (·.number = number)

def head? (c : Chain) : Option Header := c.height?.bind c.headerAt?

def genesis? (c : Chain) : Option Header := c.headerAt? 0

end Chain

end CommitteeConsensus
