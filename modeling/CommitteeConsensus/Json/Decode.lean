import CommitteeConsensus.Json.Parser
import CommitteeConsensus.Word

/-! # Data from JSON values

    How values are understood as data. A number is a word only when it is written as a run of
    digits. A record is an object, whose keys may come in any order beside unknown ones but
    not twice, or an array of its fields in order, in which the last ones may be missing.
-/

namespace CommitteeConsensus.Json

/-! ## Numbers and lists -/

def natOfDigits (digits : List UInt8) : Nat :=
  digits.foldl (fun n d => 10 * n + (d.toNat - 48)) 0

def nat? : Json → Option Nat
  | number lexeme => if lexeme.all isDigit then some (natOfDigits lexeme) else none
  | _ => none

def word? (j : Json) : Option UInt64 := do
  let n ← j.nat?
  guard (n < Word.bound)
  return UInt64.ofNat n

def byte? (j : Json) : Option UInt8 := do
  let n ← j.nat?
  guard (n < 256)
  return UInt8.ofNat n

def list? {α : Type} (item : Json → Option α) : Json → Option (List α)
  | array items => items.mapM item
  | _ => none

def bytes? {n : Nat} (j : Json) : Option (Bytes n) := do
  Bytes.ofList? (← j.list? byte?)

def pair? {α β : Type} (first : Json → Option α) (second : Json → Option β) :
    Json → Option (α × β)
  | array [a, b] => do return (← first a, ← second b)
  | _ => none

/-- Of pairs with one key the last one stays. -/
def table? {κ α : Type} [LT κ] [DecidableLT κ] [KeyOrder κ] (key : Json → Option κ)
    (value : Json → Option α) (j : Json) : Option (Table κ α) := do
  return Table.ofList (← j.list? (pair? key value))

/-! ## Keys -/

def hex4 (a b c d : UInt8) : Nat :=
  [a, b, c, d].foldl (fun n x => 16 * n + (hexNibble? x).getD 0) 0

def utf8 (code : Nat) : List UInt8 := (String.utf8EncodeChar (Char.ofNat code))

/-- What the escape with this letter stands for. -/
def unescaped (letter : UInt8) : UInt8 :=
  if letter = 0x62 then 0x08 else if letter = 0x66 then 0x0c else if letter = 0x6e then 0x0a
  else if letter = 0x72 then 0x0d else if letter = 0x74 then 0x09 else letter

/-- Resolves escapes. Surrogates must come in pairs, which stand for one character. -/
def unescape? : List UInt8 → Option (List UInt8)
  | [] => some []
  | 0x5c :: 0x75 :: a :: b :: c :: d :: rest =>
    let unit := hex4 a b c d
    if 0xdc00 ≤ unit ∧ unit < 0xe000 then none
    else if 0xd800 ≤ unit ∧ unit < 0xdc00 then
      match rest with
      | 0x5c :: 0x75 :: a :: b :: c :: d :: rest =>
        let low := hex4 a b c d
        if 0xdc00 ≤ low ∧ low < 0xe000 then
          (unescape? rest).map (utf8 (0x10000 + (unit - 0xd800) * 0x400 + (low - 0xdc00)) ++ ·)
        else none
      | _ => none
    else (unescape? rest).map (utf8 unit ++ ·)
  | 0x5c :: e :: rest => (unescape? rest).map (unescaped e :: ·)
  | c :: rest => (unescape? rest).map (c :: ·)

def isUtf8 (bytes : List UInt8) : Bool := (String.fromUTF8? ⟨bytes.toArray⟩).isSome

/-- The text of a key: its escapes resolved, and well-formed. -/
def keyText? (body : List UInt8) : Option (List UInt8) := do
  let text ← unescape? body
  guard (isUtf8 text)
  return text

/-! ## Records -/

/-- The value beside a key, unless the key occurs twice. -/
def member? (keyed : List (List UInt8 × Json)) (name : String) : Option (Option Json) :=
  match keyed.filter (·.1 = ascii name) with
  | [] => some none
  | [(_, value)] => some (some value)
  | _ => none

/-- The values of a record's fields, each where it is present. -/
def fields? (names : List String) : Json → Option (List (Option Json))
  | array items =>
    if items.length ≤ names.length then
      some (items.map some ++ List.replicate (names.length - items.length) none)
    else none
  | object members => do
    let keyed ← members.mapM fun (key, value) => do return (← keyText? key, value)
    names.mapM (member? keyed)
  | _ => none

/-- A field that has a default. -/
def orDefault? {α : Type} (read : Json → Option α) (default : α) : Option Json → Option α
  | none => some default
  | some j => read j

end CommitteeConsensus.Json
