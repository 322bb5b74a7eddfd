import CommitteeConsensus.Table

/-! # Stored records

    The layout of records in a store: fields follow each other without separators, words take
    eight bytes with the least significant first, byte strings of known length are written as
    they are, and a list or table begins with the number of its items as a word.

    Writers produce bytes; a `Reader` takes a value off the front of its input. Every reader
    undoes its writer whatever follows, and has no answer where the input ends early.
-/

namespace CommitteeConsensus.Binary

/-! ## Writing -/

def word (n : UInt64) : List UInt8 := littleEndian 8 n.toNat

def list {α : Type} (item : α → List UInt8) (items : List α) : List UInt8 :=
  littleEndian 8 items.length ++ items.flatMap item

def pair {α β : Type} (first : α → List UInt8) (second : β → List UInt8) (x : α × β) : List UInt8 :=
  first x.1 ++ second x.2

def table {κ α : Type} [LT κ] (key : κ → List UInt8) (value : α → List UInt8) (t : Table κ α) :
    List UInt8 :=
  list (pair key value) t.entries

/-! ## Reading -/

abbrev Reader (α : Type) := StateT (List UInt8) Option α

/-- The next `n` bytes. -/
def readBytes (n : Nat) : Reader (Bytes n) := fun input =>
  (Bytes.ofList? (input.take n)).map (·, input.drop n)

def readWord : Reader UInt64 := do
  return UInt64.ofNat (ofLittleEndian (← readBytes 8).toList)

def readMany {α : Type} (item : Reader α) : Nat → Reader (List α)
  | 0 => pure []
  | count + 1 => do
    let first ← item
    let rest ← readMany item count
    return first :: rest

def readList {α : Type} (item : Reader α) : Reader (List α) := do
  readMany item (← readWord).toNat

def readPair {α β : Type} (first : Reader α) (second : Reader β) : Reader (α × β) := do
  let a ← first
  let b ← second
  return (a, b)

/-- Of pairs with one key the last one stays. -/
def readTable {κ α : Type} [LT κ] [DecidableLT κ] [KeyOrder κ] (key : Reader κ)
    (value : Reader α) : Reader (Table κ α) := do
  return Table.ofList (← readList (readPair key value))

/-- The record at the front of the input; what follows it is ignored. -/
def read? {α : Type} (record : Reader α) (input : List UInt8) : Option α :=
  (record.run input).map Prod.fst

/-! ## Laws -/

theorem readBytes_append {n : Nat} (b : Bytes n) (rest : List UInt8) :
    readBytes n (b.toList ++ rest) = some (b, rest) := by
  simp only [readBytes]
  rw [List.take_append_of_le_length (by simp), List.drop_append_of_le_length (by simp)]
  simp [List.take_of_length_le, List.drop_of_length_le]

theorem readWord_append (n : UInt64) (rest : List UInt8) :
    readWord (word n ++ rest) = some (n, rest) := by
  have h := readBytes_append (n := 8) ⟨word n, by simp [word]⟩ rest
  have hn : ofLittleEndian (word n) = n.toNat :=
    ofLittleEndian_littleEndian (Nat.lt_of_lt_of_le n.toNat_lt (by decide))
  -- a reader followed by a conversion is the conversion of what it read
  show ((readBytes 8 (word n ++ rest)).bind fun (b, rest) =>
    some (UInt64.ofNat (ofLittleEndian b.toList), rest)) = some (n, rest)
  rw [h]
  simp [hn]

end CommitteeConsensus.Binary
