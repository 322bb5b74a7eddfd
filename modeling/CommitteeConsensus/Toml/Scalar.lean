import CommitteeConsensus.Bytes
import CommitteeConsensus.Toml.Parser

/-! # TOML scalars

    Strings in their four spellings, integers, floats and date-times. Integers must fit 64 bits
    with sign. Of a float only its spelling and that it does not round to infinity matter here,
    of a date-time that it exists.
-/

namespace CommitteeConsensus.Toml

open Toml.Parser

inductive Scalar
  | text (chars : List Char)
  | integer (n : Int)
  | float
  | bool (b : Bool)
  | dateTime
deriving DecidableEq

/-! ## Blanks and comments -/

def isBlank (c : Char) : Bool := c = ' ' || c = '\t'

def isNonAscii (c : Char) : Bool := 0x80 ≤ c.toNat

/-- What may stand in a line: no control characters but the tab. -/
def isPrintable (c : Char) : Bool := c = '\t' || (' ' ≤ c && c ≤ '~') || isNonAscii c

def blanks : Parser Unit := do let _ ← run isBlank

def newline : Parser Unit := char '\n' <|> exactly ['\r', '\n']

def comment : Parser Unit := do
  char '#'
  let _ ← run isPrintable

/-- The end of a line, or of the text. -/
def lineEnd : Parser Unit := newline <|> do guard (← atEnd)

/-- What may follow a statement on its line. -/
def lineTrailing : Parser Unit := do
  blanks
  let _ ← optional comment
  lineEnd

/-- Blanks, comments and line ends between the items of an array. -/
def betweenItems : Parser Unit := do
  blanks
  let _ ← many do
    (do comment; newline) <|> newline
    blanks

/-! ## Strings -/

def isHex (c : Char) : Bool := (hexValue? c).isSome

def hexNat (digits : List Char) : Nat :=
  digits.foldl (fun n c => 16 * n + ((hexValue? c).map UInt8.toNat).getD 0) 0

/-- The character with a code of exactly `count` hexadecimal digits. -/
def codePoint (count : Nat) : Parser Char := do
  let digits ← (List.replicate count (satisfy isHex)).mapM id
  let code := hexNat digits
  guard code.isValidChar
  return Char.ofNat code

/-- The character that an escape stands for, after its backslash. -/
def escaped : Parser Char := do
  match ← satisfy fun _ => true with
  | 'b' => return '\x08'
  | 'f' => return '\x0c'
  | 'n' => return '\n'
  | 'r' => return '\r'
  | 't' => return '\t'
  | '"' => return '"'
  | '\\' => return '\\'
  | 'u' => codePoint 4
  | 'U' => codePoint 8
  | _ => failure

def isBasicChar (c : Char) : Bool := isPrintable c && c ≠ '"' && c ≠ '\\'

def isLiteralChar (c : Char) : Bool := isPrintable c && c ≠ '\''

def basicString : Parser (List Char) := do
  char '"'
  let body ← many (satisfy isBasicChar <|> do char '\\'; escaped)
  char '"'
  return body

def literalString : Parser (List Char) := do
  char '\''
  let body ← run isLiteralChar
  char '\''
  return body

/-- A line end inside a string is read as one character whatever its spelling. -/
def bodyNewline : Parser (List Char) := do newline; return ['\n']

/-- A backslash at the end of a line takes the blanks and line ends after it with it. -/
def lineContinuation : Parser (List Char) := do
  char '\\'
  blanks
  newline
  let _ ← many (newline <|> do let _ ← satisfy isBlank)
  return []

/-- One or two quotes inside a string that is closed by three. -/
def innerQuotes (quote : Char) (follows : Parser Unit) : Parser (List Char) :=
  (do exactly [quote, quote]; peek follows; return [quote, quote]) <|>
    (do char quote; peek follows; return [quote])
where
  peek (q : Parser Unit) : Parser Unit := fun s => (q s).map fun _ => ((), s)

/-- A string between triple quotes: a first line end is dropped, one or two quotes may stand
    anywhere, also before the closing ones. -/
def tripleQuoted (quote : Char) (content : Parser (List Char)) : Parser (List Char) := do
  let delimiter := exactly [quote, quote, quote]
  delimiter
  let _ ← optional newline
  let other : Parser Unit := do let _ ← satisfy (· ≠ quote)
  let body ← many (content <|> innerQuotes quote other)
  let last ← optional (innerQuotes quote delimiter)
  delimiter
  return body.flatten ++ last.getD []

def multilineBasic : Parser (List Char) :=
  tripleQuoted '"' ((do return [← satisfy isBasicChar]) <|> bodyNewline <|> lineContinuation <|>
    do char '\\'; return [← escaped])

def multilineLiteral : Parser (List Char) :=
  tripleQuoted '\'' ((do return [← satisfy isLiteralChar]) <|> bodyNewline)

def string : Parser (List Char) :=
  multilineBasic <|> basicString <|> multilineLiteral <|> literalString

/-! ## Numbers -/

def isDigit (c : Char) : Bool := '0' ≤ c && c ≤ '9'

def digitsNat (digits : List Char) : Nat :=
  digits.foldl (fun n c => 10 * n + (c.toNat - 48)) 0

/-- Digits of a class, single underscores between them left out. -/
def grouped (isDigit : Char → Bool) : Parser (List Char) := do
  let first ← satisfy isDigit
  return first :: (← many (satisfy isDigit <|> do char '_'; satisfy isDigit))

def sign : Parser (Option Char) := optional (satisfy fun c => c = '+' || c = '-')

/-- A decimal number without leading zeros: whether it is negative, and its digits. -/
def decimal : Parser (Bool × List Char) := do
  let negative := (← sign) = some '-'
  let digits ← (do guard !(← ahead (· = '0')); grouped isDigit) <|> do return [← satisfy isDigit]
  return (negative, digits)

def exponent : Parser Int := do
  let _ ← satisfy fun c => c = 'e' || c = 'E'
  let negative := (← sign) = some '-'
  let n := digitsNat (← grouped isDigit)
  return if negative then -n else n

def fraction : Parser (List Char) := do
  char '.'
  grouped isDigit

/-- Whether `mantissa * 10 ^ power` rounds to infinity as a float of 64 bits: whether it reaches
    the middle between the largest float and the power of two after it. Powers of ten that
    decide at once are not computed. -/
def overflows (mantissa : Nat) (power : Int) : Bool :=
  if mantissa = 0 then false
  else
    let bits : Int := Nat.log2 mantissa
    -- a decimal digit is worth between three and four bits
    if 400 < bits / 4 + power then true
    else if bits / 3 + power < 300 then false
    else
      let bound := Nat.pow 2 1024 - Nat.pow 2 970
      if power < 0 then decide (bound * Nat.pow 10 power.natAbs ≤ mantissa)
      else decide (bound ≤ mantissa * Nat.pow 10 power.natAbs)

def float : Parser Unit := do
  let (negative, whole) ← decimal
  let (part, power) ← (do return ([], ← exponent)) <|>
    (do return (← fraction, (← optional exponent).getD 0))
  -- negative infinity is let through, positive infinity is not
  guard (negative || !overflows (digitsNat (whole ++ part)) (power - part.length))

def specialFloat : Parser Unit := do
  let _ ← sign
  exactly ['i', 'n', 'f'] <|> exactly ['n', 'a', 'n']

def isOctal (c : Char) : Bool := '0' ≤ c && c ≤ '7'
def isBinary (c : Char) : Bool := c = '0' || c = '1'

def radixNat (radix : Nat) (digits : List Char) : Nat :=
  digits.foldl (fun n c => radix * n + ((hexValue? c).map UInt8.toNat).getD 0) 0

/-- A number after the mark of its radix. -/
def marked (mark : Char) (radix : Nat) (isDigit : Char → Bool) : Parser Int := do
  exactly ['0', mark]
  return radixNat radix (← grouped isDigit)

def integer : Parser Int := do
  let n ← marked 'x' 16 isHex <|> marked 'o' 8 isOctal <|> marked 'b' 2 isBinary <|> do
    let (negative, digits) ← decimal
    return if negative then -(digitsNat digits : Int) else digitsNat digits
  guard (-0x8000000000000000 ≤ n ∧ n < 0x8000000000000000)
  return n

/-! ## Dates and times -/

/-- A number of exactly `count` digits between two bounds. -/
def fixedNat (count low high : Nat) : Parser Nat := do
  let digits ← (List.replicate count (satisfy isDigit)).mapM id
  let n := digitsNat digits
  guard (low ≤ n ∧ n ≤ high)
  return n

def isLeapYear (year : Nat) : Bool := year % 4 = 0 && (year % 100 ≠ 0 || year % 400 = 0)

def daysInMonth (year month : Nat) : Nat :=
  if month = 2 then (if isLeapYear year then 29 else 28)
  else if month = 4 ∨ month = 6 ∨ month = 9 ∨ month = 11 then 30
  else 31

def date : Parser Unit := do
  let year ← fixedNat 4 0 9999
  char '-'
  let month ← fixedNat 2 1 12
  char '-'
  let _ ← fixedNat 2 1 (daysInMonth year month)

def time : Parser Unit := do
  let _ ← fixedNat 2 0 23
  char ':'
  let _ ← fixedNat 2 0 59
  char ':'
  let _ ← fixedNat 2 0 60
  let _ ← optional do
    char '.'
    let _ ← run1 isDigit

def offset : Parser Unit :=
  (do let _ ← satisfy fun c => c = 'Z' || c = 'z') <|> do
    let _ ← satisfy fun c => c = '+' || c = '-'
    let _ ← fixedNat 2 0 23
    char ':'
    let _ ← fixedNat 2 0 59

def dateTime : Parser Unit :=
  (do
    date
    let _ ← optional do
      let _ ← satisfy fun c => c = 'T' || c = 't' || c = ' '
      time
      optional offset) <|> time

/-! ## Any scalar -/

def scalar : Parser Scalar :=
  (do return .text (← string)) <|>
  (do exactly ['t', 'r', 'u', 'e']; return .bool true) <|>
  (do exactly ['f', 'a', 'l', 's', 'e']; return .bool false) <|>
  (do dateTime; return .dateTime) <|>
  (do float; return .float) <|>
  (do specialFloat; return .float) <|>
  (do return .integer (← integer))

end CommitteeConsensus.Toml
