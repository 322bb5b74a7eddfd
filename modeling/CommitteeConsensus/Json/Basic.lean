import CommitteeConsensus.Json.Token
import CommitteeConsensus.Table

/-! # JSON values

    Values as they are written: numbers by lexeme, strings and keys by the bytes between their
    quotes, members in order. `render` writes a value without blanks.

    The constructors `ofWord`, `ofBytes`, `ofTable`, … fix how the library writes its own data:
    numbers in decimal, byte strings as arrays of numbers, tables as arrays of pairs.
-/

namespace CommitteeConsensus

inductive Json
  | null
  | bool (b : Bool)
  | number (lexeme : List UInt8)
  | text (body : List UInt8)
  | array (items : List Json)
  | object (members : List (List UInt8 × Json))

namespace Json

mutual

/-- The tokens of a value, in the order they are written. -/
def tokens : Json → List Token
  | null => [.null]
  | bool b => [.bool b]
  | number lexeme => [.number lexeme]
  | text body => [.text body]
  | array items => .openArray :: itemTokens items
  | object members => .openObject :: memberTokens members

def itemTokens : List Json → List Token
  | [] => [.closeArray]
  | [item] => tokens item ++ [.closeArray]
  | item :: items => tokens item ++ .comma :: itemTokens items

def memberTokens : List (List UInt8 × Json) → List Token
  | [] => [.closeObject]
  | [(key, value)] => .text key :: .colon :: tokens value ++ [.closeObject]
  | (key, value) :: members =>
    .text key :: .colon :: tokens value ++ .comma :: memberTokens members

end

def render (j : Json) : List UInt8 := j.tokens.flatMap Token.bytes

/-! ## Written forms of data -/

def decimal (n : Nat) : List UInt8 :=
  if n < 10 then [UInt8.ofNat (48 + n)] else decimal (n / 10) ++ [UInt8.ofNat (48 + n % 10)]

def ofWord (n : UInt64) : Json := number (decimal n.toNat)

def ofByteList (bytes : List UInt8) : Json := array (bytes.map fun b => number (decimal b.toNat))

def ofBytes {n : Nat} (b : Bytes n) : Json := ofByteList b.toList

def ofList {α : Type} (item : α → Json) (items : List α) : Json := array (items.map item)

def ofPair {α β : Type} (first : α → Json) (second : β → Json) (x : α × β) : Json :=
  array [first x.1, second x.2]

def ofTable {κ α : Type} [LT κ] (key : κ → Json) (value : α → Json) (t : Table κ α) : Json :=
  ofList (ofPair key value) t.entries

/-- A record as an object with its fields in order. -/
def ofFields (fields : List (String × Json)) : Json :=
  object (fields.map fun (name, value) => (ascii name, value))

end Json

end CommitteeConsensus
