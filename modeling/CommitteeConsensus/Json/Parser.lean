import CommitteeConsensus.Json.Basic

/-! # Reading JSON

    A value is read by a machine that takes one token at a time and keeps the containers it is
    inside of on a stack, so nesting is bounded by nothing but the text. `parse?` accepts a text
    with exactly one value in it.
-/

namespace CommitteeConsensus.Json

/-- A container that is still open, with what it holds so far, last first. -/
inductive Frame
  | array (items : List Json)
  | object (members : List (List UInt8 × Json)) (key : List UInt8)

/-- Where the machine stands. -/
inductive Focus
  /-- A value must follow. -/
  | value (stack : List Frame)
  /-- An array was opened: a value or its end must follow. -/
  | arrayStart (stack : List Frame)
  /-- An object was opened: a key or its end must follow. -/
  | objectStart (stack : List Frame)
  /-- A key must follow. -/
  | key (members : List (List UInt8 × Json)) (stack : List Frame)
  /-- A key was read. -/
  | colon (key : List UInt8) (members : List (List UInt8 × Json)) (stack : List Frame)
  /-- A value was read: a comma or the end of its container must follow. -/
  | done (value : Json) (stack : List Frame)

namespace Focus

/-- A value starts here. -/
def begin? (stack : List Frame) : Token → Option Focus
  | .null => some (done .null stack)
  | .bool b => some (done (.bool b) stack)
  | .number lexeme => some (done (.number lexeme) stack)
  | .text body => some (done (.text body) stack)
  | .openArray => some (arrayStart stack)
  | .openObject => some (objectStart stack)
  | _ => none

/-- Takes one token; there is no next state where the token cannot stand. -/
def step? : Focus → Token → Option Focus
  | value stack, token => begin? stack token
  | arrayStart stack, .closeArray => some (done (.array []) stack)
  | arrayStart stack, token => begin? (.array [] :: stack) token
  | objectStart stack, .closeObject => some (done (.object []) stack)
  | objectStart stack, .text k => some (colon k [] stack)
  | key members stack, .text k => some (colon k members stack)
  | colon k members stack, .colon => some (value (.object members k :: stack))
  | done v (.array items :: stack), .comma => some (value (.array (v :: items) :: stack))
  | done v (.array items :: stack), .closeArray =>
    some (done (.array (v :: items).reverse) stack)
  | done v (.object members k :: stack), .comma => some (key ((k, v) :: members) stack)
  | done v (.object members k :: stack), .closeObject =>
    some (done (.object ((k, v) :: members).reverse) stack)
  | _, _ => none

/-- The value of a text that ends here. -/
def result? : Focus → Option Json
  | done v [] => some v
  | _ => none

end Focus

def ofTokens? (tokens : List Token) : Option Json :=
  (tokens.foldlM Focus.step? (.value [])).bind Focus.result?

def parse? (s : List UInt8) : Option Json := (scan s).bind ofTokens?

end CommitteeConsensus.Json
