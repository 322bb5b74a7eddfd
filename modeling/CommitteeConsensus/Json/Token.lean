import CommitteeConsensus.Bytes

/-! # JSON tokens

    The lexical level of JSON text. A number keeps its lexeme and a string the bytes between its
    quotes, escapes unresolved, so that each token has one written form and skipping a value
    never asks what its strings and numbers mean.

    `scan` reads a whole text and drops the blanks between tokens.
-/

namespace CommitteeConsensus.Json

inductive Token
  | openObject
  | closeObject
  | openArray
  | closeArray
  | colon
  | comma
  | null
  | bool (b : Bool)
  | number (lexeme : List UInt8)
  | text (body : List UInt8)
deriving DecidableEq

/-- The written form of a token. -/
def Token.bytes : Token → List UInt8
  | openObject => ascii "\x7b"
  | closeObject => ascii "\x7d"
  | openArray => ascii "["
  | closeArray => ascii "]"
  | colon => ascii ":"
  | comma => ascii ","
  | null => ascii "null"
  | bool true => ascii "true"
  | bool false => ascii "false"
  | number lexeme => lexeme
  | text body => 0x22 :: body ++ [0x22]

/-! ## Character classes -/

def isBlank (b : UInt8) : Bool := b = 0x20 || b = 0x0a || b = 0x0d || b = 0x09

def isDigit (b : UInt8) : Bool := 0x30 ≤ b && b ≤ 0x39

def hexNibble? (b : UInt8) : Option Nat := (hexValue? (Char.ofNat b.toNat)).map UInt8.toNat

/-- What may follow a backslash, `u` apart: one of `"`, `\`, `/`, `b`, `f`, `n`, `r`, `t`. -/
def isEscape (b : UInt8) : Bool :=
  b = 0x22 || b = 0x5c || b = 0x2f || b = 0x62 || b = 0x66 || b = 0x6e || b = 0x72 || b = 0x74

/-! ## Strings -/

/-- Splits the text after an opening quote at the closing one. Control characters must be
    escaped; a `\u` takes four hexadecimal digits. -/
def textBody? : List UInt8 → Option (List UInt8 × List UInt8)
  | [] => none
  | 0x22 :: rest => some ([], rest)
  | 0x5c :: 0x75 :: a :: b :: c :: d :: rest =>
    if [a, b, c, d].all fun x => (hexNibble? x).isSome then
      (textBody? rest).map fun (body, rest) => (0x5c :: 0x75 :: a :: b :: c :: d :: body, rest)
    else none
  | 0x5c :: e :: rest =>
    if isEscape e then (textBody? rest).map fun (body, rest) => (0x5c :: e :: body, rest) else none
  | c :: rest =>
    if c < 0x20 then none else (textBody? rest).map fun (body, rest) => (c :: body, rest)

/-! ## Numbers -/

/-- A run of at least one digit. -/
def digits? (s : List UInt8) : Option (List UInt8 × List UInt8) :=
  if (s.takeWhile isDigit).isEmpty then none else some (s.takeWhile isDigit, s.dropWhile isDigit)

/-- A zero, or a run of digits that starts with another digit. -/
def integer? : List UInt8 → Option (List UInt8 × List UInt8)
  | 0x30 :: rest => some ([0x30], rest)
  | s => digits? s

def fraction? : List UInt8 → Option (List UInt8 × List UInt8)
  | 0x2e :: rest => (digits? rest).map fun (ds, rest) => (0x2e :: ds, rest)
  | s => some ([], s)

def isSign (b : UInt8) : Bool := b = 0x2b || b = 0x2d

def exponentDigits? : List UInt8 → Option (List UInt8 × List UInt8)
  | b :: rest =>
    if isSign b then (digits? rest).map fun (ds, rest) => (b :: ds, rest) else digits? (b :: rest)
  | [] => none

def exponent? : List UInt8 → Option (List UInt8 × List UInt8)
  | b :: rest =>
    if b = 0x65 || b = 0x45 then
      (exponentDigits? rest).map fun (ds, rest) => (b :: ds, rest)
    else some ([], b :: rest)
  | [] => some ([], [])

def unsigned? (s : List UInt8) : Option (List UInt8 × List UInt8) := do
  let (whole, s) ← integer? s
  let (part, s) ← fraction? s
  let (power, s) ← exponent? s
  return (whole ++ part ++ power, s)

def number? : List UInt8 → Option (List UInt8 × List UInt8)
  | 0x2d :: rest => (unsigned? rest).map fun (lexeme, rest) => (0x2d :: lexeme, rest)
  | s => unsigned? s

/-! ## Texts -/

/-- The token at the front of a text that does not start with a blank. -/
def next? : List UInt8 → Option (Token × List UInt8)
  | 0x7b :: rest => some (.openObject, rest)
  | 0x7d :: rest => some (.closeObject, rest)
  | 0x5b :: rest => some (.openArray, rest)
  | 0x5d :: rest => some (.closeArray, rest)
  | 0x3a :: rest => some (.colon, rest)
  | 0x2c :: rest => some (.comma, rest)
  | 0x22 :: rest => (textBody? rest).map fun (body, rest) => (.text body, rest)
  | 0x6e :: 0x75 :: 0x6c :: 0x6c :: rest => some (.null, rest)
  | 0x74 :: 0x72 :: 0x75 :: 0x65 :: rest => some (.bool true, rest)
  | 0x66 :: 0x61 :: 0x6c :: 0x73 :: 0x65 :: rest => some (.bool false, rest)
  | s => (number? s).map fun (lexeme, rest) => (.number lexeme, rest)

/-- The tokens of a text; every step shortens it, so its length is fuel enough. -/
def scanWithin : Nat → List UInt8 → Option (List Token)
  | _, [] => some []
  | 0, _ => none
  | fuel + 1, b :: rest =>
    if isBlank b then scanWithin fuel rest
    else do
      let (token, rest) ← next? (b :: rest)
      return token :: (← scanWithin fuel rest)

def scan (s : List UInt8) : Option (List Token) := scanWithin s.length s

end CommitteeConsensus.Json
