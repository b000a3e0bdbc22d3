import SchemaTypes.Json.Reader

namespace SchemaTypes

/-- A word of a jq filter. -/
inductive Token where
  /-- A name or a keyword. -/
  | word (text : String)
  /-- A variable, written with a dollar sign. -/
  | variable (name : String)
  /-- The name of a field behind a point. -/
  | field (name : String)
  | number (literal : NumberLiteral)
  | text (value : String)
  /-- An operator, a bracket or a separator. -/
  | symbol (text : String)
deriving DecidableEq

namespace Token

def isNameStart (c : Char) : Bool := c.isAlpha || c == '_'

def isNameChar (c : Char) : Bool := c.isAlphanum || c == '_'

def isSpace (c : Char) : Bool := c.isWhitespace || c == '\x0b' || c == '\x0c'

/-- Splits a name off the front of a text that starts with one. -/
def splitName (s : List Char) : String × List Char :=
  (String.ofList (s.takeWhile isNameChar), s.dropWhile isNameChar)

/-- Reads a number, which starts with a digit. Leading zeros are allowed. -/
def number? (s : List Char) : Option (NumberLiteral × List Char) := do
  let whole := s.takeWhile Char.isDigit
  let (fraction, rest) ← (Json.readFraction (s.dropWhile Char.isDigit)).toOption
  let (exponent, rest) ← (Json.readExponent rest).toOption
  some (⟨false, whole, fraction, exponent⟩, rest)

/-- Reads a text behind its opening quote. Control characters may stand in it. Each round
    reads a character, so as many rounds as there are characters are enough. -/
def text? : (rounds : Nat) → List Char → Option (List Char × List Char)
  | 0, _ => none
  | _, [] => none
  | _, '"' :: rest => some ([], rest)
  | rounds + 1, '\\' :: rest => do
    let (c, rest) ← (Json.readEscape rest).toOption
    let (cs, rest) ← text? rounds rest
    some (c :: cs, rest)
  | rounds + 1, c :: rest => do
    let (cs, rest) ← text? rounds rest
    some (c :: cs, rest)

/-- Reads a token at the front of a text that starts with no blank. -/
def next? : List Char → Option (Token × List Char)
  | [] => none
  | '/' :: '/' :: rest => some (.symbol "//", rest)
  | '=' :: '=' :: rest => some (.symbol "==", rest)
  | '"' :: rest => do
    let (cs, rest) ← text? (rest.length + 1) rest
    some (.text (String.ofList cs), rest)
  | '.' :: c :: rest =>
    if isNameStart c then
      let (name, rest) := splitName (c :: rest)
      some (.field name, rest)
    else if c = '.' then none
    else some (.symbol ".", c :: rest)
  | '$' :: c :: rest =>
    if isNameStart c then
      let (name, rest) := splitName (c :: rest)
      some (.variable name, rest)
    else none
  | c :: rest =>
    if c ∈ ['.', '|', ',', '+', '-', '?', ':', ';', '(', ')', '[', ']', '\x7b', '\x7d'] then
      some (.symbol c.toString, rest)
    else if c.isDigit then do
      let (literal, rest) ← number? (c :: rest)
      some (.number literal, rest)
    else if isNameStart c then
      let (name, rest) := splitName (c :: rest)
      some (.word name, rest)
    else none

/-- The tokens of a text, or nothing if it has other characters in it. Blanks and
    comments divide tokens. Each round reads a character, so as many rounds as
    there are characters are enough. -/
def tokenize? : (rounds : Nat) → List Char → Option (List Token)
  | 0, _ => none
  | rounds + 1, s =>
    match s.dropWhile isSpace with
    | [] => some []
    | '#' :: rest => tokenize? rounds (rest.dropWhile (· ≠ '\n'))
    | s => do
      let (token, rest) ← next? s
      let tokens ← tokenize? rounds rest
      some (token :: tokens)

def ofText? (text : String) : Option (List Token) :=
  tokenize? (text.length + 1) text.toList

end Token

end SchemaTypes
