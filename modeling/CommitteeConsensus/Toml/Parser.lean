/-! # Reading text from the front

    A parser takes a value off the front of a text or has no answer. Alternatives are tried in
    order, each from the same place. Loops are bounded by the length of the text.
-/

namespace CommitteeConsensus.Toml

abbrev Parser (α : Type) := StateT (List Char) Option α

namespace Parser

/-- The next character, if it is of the class. -/
def satisfy (p : Char → Bool) : Parser Char
  | c :: rest => if p c then some (c, rest) else none
  | [] => none

def char (c : Char) : Parser Unit := do let _ ← satisfy (· = c)

/-- The longest run of characters of the class. -/
def run (p : Char → Bool) : Parser (List Char) := fun s => some (s.takeWhile p, s.dropWhile p)

def run1 (p : Char → Bool) : Parser (List Char) := do
  let first ← satisfy p
  return first :: (← run p)

/-- A fixed text. -/
def exactly : List Char → Parser Unit
  | [] => pure ()
  | c :: cs => do char c; exactly cs

/-- Whether the text goes on with a character of the class. -/
def ahead (p : Char → Bool) : Parser Bool := fun s => some (s.head?.any p, s)

def atEnd : Parser Bool := fun s => some (s.isEmpty, s)

/-- As many values as there are. -/
def manyWithin {α : Type} (q : Parser α) : Nat → Parser (List α)
  | 0 => pure []
  | fuel + 1 => do
    match ← optional q with
    | some a => return a :: (← manyWithin q fuel)
    | none => return []

def many {α : Type} (q : Parser α) : Parser (List α) := fun s => manyWithin q s.length s

/-- At least one value, with separators between. -/
def separated {α : Type} (q : Parser α) (separator : Parser Unit) : Parser (List α) := do
  let first ← q
  return first :: (← many (do separator; q))

end Parser

end CommitteeConsensus.Toml
