import SchemaTypes.Derive.Options
import SchemaTypes.Json.Printer
import SchemaTypes.Json.Reader
import SchemaTypes.Text.Quoted

namespace SchemaTypes

/-- A value that stands where one of another type is expected. -/
inductive Unexpected where
  | null
  | bool (value : Bool)
  | num (value : Number)
  | str (value : String)
  | list
  | object

def Unexpected.text : Unexpected → String
  | .null => "null"
  | .bool value => s!"boolean `{value}`"
  | .num (.int value) => s!"integer `{value}`"
  | .num (.float value) => s!"floating point `{String.ofList (Number.floatChars value)}`"
  | .str value => s!"string {visibleQuoted value}"
  | .list => "sequence"
  | .object => "map"

/-- Why a text holds no settings. -/
inductive OptionsCause where
  | unreadable (cause : ReadCause)
  | wrongType (found : Unexpected) (expected : String)
  | wrongValue (found : Unexpected) (expected : String)
  | unknownField (name : String)
  | duplicateField (name : String)

def OptionsCause.message : OptionsCause → String
  | .unreadable cause => cause.message
  | .wrongType found expected => s!"invalid type: {found.text}, expected {expected}"
  | .wrongValue found expected => s!"invalid value: {found.text}, expected {expected}"
  | .unknownField name => s!"unknown field `{name}`, expected `max_depth` or `memoize`"
  | .duplicateField name => s!"duplicate field `{name}`"

abbrev OptionsError := Located OptionsCause

namespace OptionsError

def ofRead {α : Type} : Except ReadError α → Except OptionsError α
  | .ok a => .ok a
  | .error e => .error (e.map .unreadable)

/-- The failure with the path and the position in the text. -/
def message (e : OptionsError) (text : String) : String :=
  s!"at JSON path {pathText e.path} → {e.describe OptionsCause.message text.toList}"

end OptionsError

namespace Options

open Json (skipBlanks readLetters readNumber readQuoted readColon)

/-- The failure for a value of the wrong type at the front of `s`, which starts
    with no blank. A single value is read first, and may turn out to be no value
    at all; a list or an object is not entered. -/
def wrongType (expected : String) (s : List Char) : OptionsError :=
  let found : Except ReadError (Parsed Unexpected) :=
    match s with
    | 'n' :: rest => do return (.null, ← readLetters ['u', 'l', 'l'] rest)
    | 't' :: rest => do return (.bool true, ← readLetters ['r', 'u', 'e'] rest)
    | 'f' :: rest => do return (.bool false, ← readLetters ['a', 'l', 's', 'e'] rest)
    | '-' :: rest => do
      let (n, rest) ← readNumber true rest
      return (.num n, rest)
    | '"' :: rest => do
      let (cs, rest) ← readQuoted rest
      return (.str (String.ofList cs), rest)
    | '[' :: _ => .ok (.list, s)
    | '\x7b' :: _ => .ok (.object, s)
    | c :: _ =>
      if c.isDigit then do
        let (n, rest) ← readNumber false s
        return (.num n, rest)
      else .error (.after .expectedValue s)
    | [] => .error (.before .expectedValue [])
  match found with
  | .error e => e.map .unreadable
  | .ok (found, rest) => .before (.wrongType found expected) rest

/-- Reads a number that is a depth. -/
def readDepthNumber (negative : Bool) (s : List Char) : Except OptionsError (Parsed (Option Nat)) := do
  match ← OptionsError.ofRead (readNumber negative s) with
  | (.int n, rest) =>
    if n < 0 then .error (.before (.wrongValue (.num (.int n)) "usize") rest)
    else .ok (some n.toNat, rest)
  | (.float x, rest) => .error (.before (.wrongType (.num (.float x)) "usize") rest)

/-- Reads a depth or `null`. -/
def readDepth (s : List Char) : Except OptionsError (Parsed (Option Nat)) :=
  match skipBlanks s with
  | [] => .error (.before (.unreadable .endInValue) [])
  | 'n' :: rest => do return (none, ← OptionsError.ofRead (readLetters ['u', 'l', 'l'] rest))
  | '-' :: rest => readDepthNumber true rest
  | c :: rest =>
    if c.isDigit then readDepthNumber false (c :: rest)
    else .error (wrongType "usize" (c :: rest))

def readSwitch (s : List Char) : Except OptionsError (Parsed Bool) :=
  match skipBlanks s with
  | [] => .error (.before (.unreadable .endInValue) [])
  | 't' :: rest => do return (true, ← OptionsError.ofRead (readLetters ['r', 'u', 'e'] rest))
  | 'f' :: rest => do return (false, ← OptionsError.ofRead (readLetters ['a', 'l', 's', 'e'] rest))
  | s => .error (wrongType "a boolean" s)

/-- The settings that have been read so far. -/
structure Given where
  maxDepth : Option (Option Nat) := none
  memoize : Option Bool := none

def Given.options (given : Given) : Options :=
  ⟨given.maxDepth.getD ({} : Options).maxDepth, given.memoize.getD ({} : Options).memoize⟩

/-- A name that may not stand here is reported behind itself, the blanks behind
    it, and the end of the object if that follows at once. -/
def afterName (cause : OptionsCause) (rest : List Char) : OptionsError :=
  match skipBlanks rest with
  | '\x7d' :: rest => .before cause rest
  | rest => .before cause rest

/-- Reads an entry behind the opening quote of its name. -/
def readEntry (given : Given) (s : List Char) : Except OptionsError (Parsed Given) := do
  let (key, rest) ← underStep .unnamed (OptionsError.ofRead (readQuoted s))
  match String.ofList key with
  | "max_depth" =>
    if given.maxDepth.isSome then .error (afterName (.duplicateField "max_depth") rest)
    else
      let rest ← OptionsError.ofRead (readColon rest)
      let (depth, rest) ← underStep (.name "max_depth") (readDepth rest)
      .ok ({ given with maxDepth := some depth }, rest)
  | "memoize" =>
    if given.memoize.isSome then .error (afterName (.duplicateField "memoize") rest)
    else
      let rest ← OptionsError.ofRead (readColon rest)
      let (memoize, rest) ← underStep (.name "memoize") (readSwitch rest)
      .ok ({ given with memoize := some memoize }, rest)
  | name => .error ((afterName (.unknownField name) rest).under (.name name))

def unnamed (e : ReadError) : OptionsError := (e.map .unreadable).under .unnamed

/-- Reads the entries behind the first one. No name may be repeated and there are
    two, so no more rounds are needed. -/
def readMoreEntries : (rounds : Nat) → Given → List Char → Except OptionsError Given
  | 0, given, _ => .ok given
  | rounds + 1, given, s =>
    match skipBlanks s with
    | [] => .error (unnamed (.before .endInObject []))
    | '\x7d' :: _ => .ok given
    | ',' :: rest =>
      match skipBlanks rest with
      | [] => .error (unnamed (.before .endInValue []))
      | '"' :: rest => do
        let (given, rest) ← readEntry given rest
        readMoreEntries rounds given rest
      | '\x7d' :: rest => .error (unnamed (.after .trailingComma ('\x7d' :: rest)))
      | s => .error (unnamed (.after .keyNotString s))
    | s => .error (unnamed (.after .expectedObjectComma s))

/-- Reads an object of settings behind its opening bracket. -/
def readObject (s : List Char) : Except OptionsError Given :=
  match skipBlanks s with
  | [] => .error (unnamed (.before .endInObject []))
  | '\x7d' :: _ => .ok {}
  | '"' :: rest => do
    let (given, rest) ← readEntry {} rest
    readMoreEntries 3 given rest
  | s => .error (unnamed (.after .keyNotString s))

/-- The end of a list that holds all settings. -/
def readListEnd (s : List Char) : Except ReadError Unit :=
  match skipBlanks s with
  | [] => .error (.before .endInList [])
  | ']' :: _ => .ok ()
  | ',' :: rest =>
    match skipBlanks rest with
    | ']' :: rest => .error (.after .trailingComma (']' :: rest))
    | rest => .error (.after .trailingCharacters rest)
  | s => .error (.after .trailingCharacters s)

/-- Reads a list of settings behind its opening bracket: the depth, then whether
    types are kept. What is missing at the end keeps its usual value. -/
def readList (s : List Char) : Except OptionsError Given :=
  match skipBlanks s with
  | [] => .error (.before (.unreadable .endInList) [])
  | ']' :: _ => .ok {}
  | s => do
    let (depth, rest) ← underStep (.index 0) (readDepth s)
    match skipBlanks rest with
    | [] => .error (.before (.unreadable .endInList) [])
    | ']' :: _ => .ok { maxDepth := some depth }
    | ',' :: rest =>
      match skipBlanks rest with
      | [] => .error (.before (.unreadable .endInValue) [])
      | ']' :: rest => .error (.after (.unreadable .trailingComma) (']' :: rest))
      | s => do
        let (memoize, rest) ← underStep (.index 1) (readSwitch s)
        OptionsError.ofRead (readListEnd rest)
        .ok { maxDepth := some depth, memoize := some memoize }
    | s => .error (.after (.unreadable .expectedListComma) s)

/-- Reads settings from the front of a text. What follows them is not looked at. -/
def parse (text : String) : Except OptionsError Options :=
  match skipBlanks text.toList with
  | [] => .error (.before (.unreadable .endInValue) [])
  | '[' :: rest => do return (← readList rest).options
  | '\x7b' :: rest => do return (← readObject rest).options
  | s => .error (wrongType "struct DeriveOptions" s)

end Options

end SchemaTypes
