import CommitteeConsensus.Toml.Node

/-! # TOML documents

    Keys, values and statements. Arrays and inline tables nest less than `nestingLimit` deep,
    and no key has as many parts.
-/

namespace CommitteeConsensus.Toml

open Toml.Parser

def nestingLimit : Nat := 80

/-! ## Keys -/

def isBareKeyChar (c : Char) : Bool :=
  isDigit c || ('a' ≤ c && c ≤ 'z') || ('A' ≤ c && c ≤ 'Z') || c = '-' || c = '_'

def simpleKey : Parser Key := basicString <|> literalString <|> run1 isBareKeyChar

/-- A key: its path and its last part. -/
def dottedKey : Parser (List Key × Key) := do
  let parts ← separated (do blanks; let part ← simpleKey; blanks; return part) (char '.')
  guard (parts.length < nestingLimit)
  let last ← parts.getLast?
  return (parts.dropLast, last)

/-! ## Values -/

def array (item : Parser Node) : Parser (List Node) := do
  char '['
  -- a comma may follow the last item, but not stand alone
  let items ← optional (separated (do betweenItems; let v ← item; betweenItems; return v) (char ','))
  if items.isSome then
    let _ ← optional (char ',')
  betweenItems
  char ']'
  return items.getD []

def inlineTable (item : Parser Node) : Parser Entries := do
  char '\x7b'
  -- no comma after the last assignment
  let assignments ← optional <| separated (do
    let (path, key) ← dottedKey
    char '='
    blanks
    let value ← item
    blanks
    return (⟨path, key, value⟩ : Assignment)) (char ',')
  blanks
  char '\x7d'
  Entries.assignAll [] (assignments.getD [])

/-- A value whose arrays and inline tables nest at most `depth` deep. -/
def value : Nat → Parser Node
  | 0 => do return .scalar (← scalar)
  | depth + 1 =>
    (do return .array (← array (value depth))) <|>
    (do return .inlineTable (← inlineTable (value depth))) <|>
    (do return .scalar (← scalar))

/-! ## Statements -/

def assignment : Parser Assignment := do
  let (path, key) ← dottedKey
  char '='
  blanks
  let v ← value (nestingLimit - 1)
  lineTrailing
  return ⟨path, key, v⟩

def emptyLine : Parser Unit :=
  (do comment; lineEnd) <|> newline

/-- The assignments up to the next header. -/
def body : Parser (List Assignment) := do
  blanks
  let statements ← many do
    let a ← (do emptyLine; return none) <|> (do return some (← assignment))
    blanks
    return a
  return statements.filterMap id

def section? : Parser Section := do
  let isElement := (← optional (exactly ['[', '['])).isSome
  unless isElement do char '['
  let (path, key) ← dottedKey
  if isElement then exactly [']', ']'] else char ']'
  lineTrailing
  return ⟨path, key, isElement, ← body⟩

def document : Parser Entries := do
  let _ ← optional (char '\ufeff')
  let root ← Entries.assignAll [] (← body)
  let sections ← many section?
  guard (← atEnd)
  (sections.foldlM Entries.addSection root : Option Entries)

/-- The entries of the root table of a document. -/
def parse? (text : String) : Option Entries := document.run' text.toList

end CommitteeConsensus.Toml
