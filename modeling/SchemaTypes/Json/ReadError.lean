namespace SchemaTypes

/-- One step from a JSON value to a part of it. A part whose name could not be
    read is `unnamed`. -/
inductive JsonStep where
  | index (position : Nat)
  | name (key : String)
  | unnamed

/-- The text of a path: names are divided by points, positions stand in brackets,
    and the whole document is a single point. -/
def pathText : List JsonStep → String
  | [] => "."
  | first :: rest => step "" first ++ String.join (rest.map (step "."))
where
  step (separator : String) : JsonStep → String
    | .index position => s!"[{position}]"
    | .name key => separator ++ key
    | .unnamed => separator ++ "?"

/-- What makes a text no JSON value. -/
inductive ReadCause where
  | endInValue
  | endInList
  | endInObject
  | endInString
  | expectedValue
  | expectedWord
  | expectedColon
  | expectedListComma
  | expectedObjectComma
  | keyNotString
  | trailingComma
  | trailingCharacters
  | invalidNumber
  | numberOutOfRange
  | invalidEscape
  | controlCharacter
  | unpairedEscape
  | loneSurrogate
  | tooDeep
deriving DecidableEq

def ReadCause.message : ReadCause → String
  | .endInValue => "EOF while parsing a value"
  | .endInList => "EOF while parsing a list"
  | .endInObject => "EOF while parsing an object"
  | .endInString => "EOF while parsing a string"
  | .expectedValue => "expected value"
  | .expectedWord => "expected ident"
  | .expectedColon => "expected `:`"
  | .expectedListComma => "expected `,` or `]`"
  | .expectedObjectComma => "expected `,` or `\x7d`"
  | .keyNotString => "key must be a string"
  | .trailingComma => "trailing comma"
  | .trailingCharacters => "trailing characters"
  | .invalidNumber => "invalid number"
  | .numberOutOfRange => "number out of range"
  | .invalidEscape => "invalid escape"
  | .controlCharacter => "control character (\\u0000-\\u001F) found while parsing a string"
  | .unpairedEscape => "unexpected end of hex escape"
  | .loneSurrogate => "lone leading surrogate in hex escape"
  | .tooDeep => "recursion limit exceeded"

/-- A cause with the place where reading stopped: the part of the document that
    was being read, and the number of bytes of the text that lie behind the
    reported position. -/
structure Located (ε : Type) where
  cause : ε
  remaining : Nat
  path : List JsonStep

abbrev ReadError := Located ReadCause

def byteCount : List Char → Nat
  | [] => 0
  | c :: s => c.utf8Size + byteCount s

namespace Located

variable {ε : Type}

/-- Stopped with `rest` unread. -/
def before (cause : ε) (rest : List Char) : Located ε := ⟨cause, byteCount rest, []⟩

/-- Stopped after the first byte of `rest`, or at the end of the text. -/
def after (cause : ε) (rest : List Char) : Located ε := ⟨cause, byteCount rest - 1, []⟩

/-- The same failure, seen from the value that holds the failing one. -/
def under (step : JsonStep) (e : Located ε) : Located ε := { e with path := step :: e.path }

def map {δ : Type} (f : ε → δ) (e : Located ε) : Located δ := ⟨f e.cause, e.remaining, e.path⟩

/-- Line and column after `offset` bytes of a text. Lines count from one, and the
    column is the number of bytes since the last line break. -/
def lineColumn (offset : Nat) (text : List Char) : Nat × Nat :=
  go offset 1 0 text
where
  go (left line column : Nat) : List Char → Nat × Nat
    | [] => (line, column)
    | c :: rest =>
      if left = 0 then (line, column)
      else if c = '\n' then go (left - 1) (line + 1) 0 rest
      else go (left - c.utf8Size) line (column + min left c.utf8Size) rest

def position (e : Located ε) (text : List Char) : Nat × Nat :=
  lineColumn (byteCount text - e.remaining) text

/-- A message followed by the position in the text that was read. -/
def describe (e : Located ε) (message : ε → String) (text : List Char) : String :=
  let (line, column) := e.position text
  s!"{message e.cause} at line {line} column {column}"

end Located

def ReadError.message (e : ReadError) (text : String) : String :=
  e.describe ReadCause.message text.toList

end SchemaTypes
