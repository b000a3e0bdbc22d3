import SchemaTypes.Query.Syntax
import SchemaTypes.Query.Token

namespace SchemaTypes

namespace Query

/-- An operator between two filters. Operators of a higher level bind tighter. -/
structure Operator where
  level : Nat
  rightToLeft : Bool
  build : Query → Query → Query

def pipeLevel : Nat := 0

def commaLevel : Nat := 1

def operator? : Token → Option Operator
  | .symbol "|" => some ⟨pipeLevel, true, .pipe⟩
  | .symbol "," => some ⟨commaLevel, false, .comma⟩
  | .symbol "//" => some ⟨2, true, .orElse⟩
  | .symbol "==" => some ⟨3, false, .equal⟩
  | .symbol "+" => some ⟨4, false, .add⟩
  | .symbol "-" => some ⟨4, false, .subtract⟩
  | _ => none

/-- Words that are no names of filters. -/
def isKeyword (word : String) : Bool :=
  ["if", "then", "elif", "else", "end", "and", "or", "as", "def", "reduce", "foreach", "label",
    "try", "catch", "import", "include", "__loc__"].contains word

/-- Whether an optional mark stands at the front, and the tokens behind all that
    stand there. -/
def optional : List Token → Bool × List Token
  | .symbol "?" :: rest => (true, (optional rest).2)
  | tokens => (false, tokens)

mutual

/-- Reads operators of at least the given level and their operands. A comma is not read
    inside an object, where it divides entries. Every call reads a token or is made at most
    seven deep between two tokens, which bounds the `rounds` that are needed. -/
def parseFrom? : (rounds : Nat) → (level : Nat) → (commas : Bool) → List Token →
    Option (Query × List Token)
  | 0, _, _, _ => none
  | rounds + 1, level, commas, tokens => do
    let (first, tokens) ← parseOperand? rounds tokens
    parseOperators? rounds level commas first tokens

/-- Reads operators of at least the given level behind their first operand. -/
def parseOperators? : (rounds : Nat) → (level : Nat) → (commas : Bool) → Query → List Token →
    Option (Query × List Token)
  | 0, _, _, _, _ => none
  | rounds + 1, level, commas, first, tokens =>
    match tokens with
    | [] => some (first, [])
    | token :: rest =>
      match operator? token with
      | none => some (first, token :: rest)
      | some operator =>
        if operator.level < level || (!commas && operator.level == commaLevel) then
          some (first, token :: rest)
        else do
          let inner := if operator.rightToLeft then operator.level else operator.level + 1
          let (second, rest) ← parseFrom? rounds inner commas rest
          parseOperators? rounds level commas (operator.build first second) rest

/-- Reads a filter without operators, and what selects parts of it. -/
def parseOperand? : (rounds : Nat) → List Token → Option (Query × List Token)
  | 0, _ => none
  | rounds + 1, tokens =>
    match tokens with
    | .number literal :: rest => parseSuffixes? rounds (.number literal) rest
    | .text value :: rest => parseSuffixes? rounds (.text value) rest
    | .variable name :: rest => parseSuffixes? rounds (.variable name) rest
    | .field name :: rest => parseSuffixes? rounds .identity (.field name :: rest)
    | .symbol "." :: .text name :: rest =>
      parseSuffixes? rounds .identity (.symbol "." :: .text name :: rest)
    | .symbol "." :: rest => parseSuffixes? rounds .identity rest
    | .symbol "-" :: rest => do
      let (operand, rest) ← parseOperand? rounds rest
      some (.negate operand, rest)
    | .symbol "(" :: rest => do
      let (body, rest) ← parseFrom? rounds pipeLevel true rest
      match rest with
      | .symbol ")" :: rest => parseSuffixes? rounds body rest
      | _ => none
    | .symbol "[" :: .symbol "]" :: rest => parseSuffixes? rounds (.list none) rest
    | .symbol "[" :: rest => do
      let (body, rest) ← parseFrom? rounds pipeLevel true rest
      match rest with
      | .symbol "]" :: rest => parseSuffixes? rounds (.list (some body)) rest
      | _ => none
    | .symbol "\x7b" :: .symbol "\x7d" :: rest => parseSuffixes? rounds (.object []) rest
    | .symbol "\x7b" :: rest => do
      let (entries, rest) ← parseEntries? rounds rest
      parseSuffixes? rounds (.object entries) rest
    | .word "if" :: rest => do
      let (body, rest) ← parseBranch? rounds rest
      parseSuffixes? rounds body rest
    | .word name :: .symbol "(" :: rest =>
      if isKeyword name then none
      else do
        let (args, rest) ← parseArgs? rounds rest
        parseSuffixes? rounds (.call name args) rest
    | .word name :: rest =>
      if isKeyword name then none else parseSuffixes? rounds (.call name []) rest
    | _ => none

/-- Reads what stands behind a filter: selections of parts, each of which may be
    optional. -/
def parseSuffixes? : (rounds : Nat) → Query → List Token → Option (Query × List Token)
  | 0, _, _ => none
  | rounds + 1, base, tokens =>
    match tokens with
    | .symbol "?" :: rest => parseSuffixes? rounds (.attempt base) rest
    | .field name :: rest =>
      let (optional, rest) := optional rest
      parseSuffixes? rounds (.index base (.text name) optional) rest
    | .symbol "." :: .text name :: rest =>
      let (optional, rest) := optional rest
      parseSuffixes? rounds (.index base (.text name) optional) rest
    | .symbol "." :: .symbol "[" :: rest => parseSuffixes? rounds base (.symbol "[" :: rest)
    | .symbol "[" :: .symbol "]" :: rest =>
      let (optional, rest) := optional rest
      parseSuffixes? rounds (.each base optional) rest
    | .symbol "[" :: .symbol ":" :: rest => do
      let (last, rest) ← parseFrom? rounds pipeLevel true rest
      match rest with
      | .symbol "]" :: rest =>
        let (optional, rest) := optional rest
        parseSuffixes? rounds (.slice base none (some last) optional) rest
      | _ => none
    | .symbol "[" :: rest => do
      let (key, rest) ← parseFrom? rounds pipeLevel true rest
      match rest with
      | .symbol "]" :: rest =>
        let (optional, rest) := optional rest
        parseSuffixes? rounds (.index base key optional) rest
      | .symbol ":" :: .symbol "]" :: rest =>
        let (optional, rest) := optional rest
        parseSuffixes? rounds (.slice base (some key) none optional) rest
      | .symbol ":" :: rest => do
        let (last, rest) ← parseFrom? rounds pipeLevel true rest
        match rest with
        | .symbol "]" :: rest =>
          let (optional, rest) := optional rest
          parseSuffixes? rounds (.slice base (some key) (some last) optional) rest
        | _ => none
      | _ => none
    | tokens => some (base, tokens)

/-- Reads arguments behind the opening bracket. -/
def parseArgs? : (rounds : Nat) → List Token → Option (List Query × List Token)
  | 0, _ => none
  | rounds + 1, tokens => do
    let (arg, rest) ← parseFrom? rounds pipeLevel true tokens
    match rest with
    | .symbol ")" :: rest => some ([arg], rest)
    | .symbol ";" :: rest => do
      let (args, rest) ← parseArgs? rounds rest
      some (arg :: args, rest)
    | _ => none

/-- Reads the entries of an object, up to and with the closing bracket. A name
    without a value stands for the field of that name. -/
def parseEntries? : (rounds : Nat) → List Token → Option (List (Query × Query) × List Token)
  | 0, _ => none
  | rounds + 1, tokens => do
    let (entry, rest) ← match tokens with
      | .word name :: .symbol ":" :: rest => do
        let (value, rest) ← parseFrom? rounds pipeLevel false rest
        some ((.text name, value), rest)
      | .word name :: rest => some ((.text name, .index .identity (.text name) false), rest)
      | .text name :: .symbol ":" :: rest => do
        let (value, rest) ← parseFrom? rounds pipeLevel false rest
        some ((.text name, value), rest)
      | .text name :: rest => some ((.text name, .index .identity (.text name) false), rest)
      | .variable name :: rest => some ((.text name, .variable name), rest)
      | .symbol "(" :: rest => do
        let (key, rest) ← parseFrom? rounds pipeLevel true rest
        match rest with
        | .symbol ")" :: .symbol ":" :: rest => do
          let (value, rest) ← parseFrom? rounds pipeLevel false rest
          some ((key, value), rest)
        | _ => none
      | _ => none
    match rest with
    | .symbol "\x7d" :: rest => some ([entry], rest)
    | .symbol "," :: rest => do
      let (entries, rest) ← parseEntries? rounds rest
      some (entry :: entries, rest)
    | _ => none

/-- Reads a condition and its branches behind the first keyword. A missing last
    branch is the input. -/
def parseBranch? : (rounds : Nat) → List Token → Option (Query × List Token)
  | 0, _ => none
  | rounds + 1, tokens => do
    let (condition, rest) ← parseFrom? rounds pipeLevel true tokens
    match rest with
    | .word "then" :: rest => do
      let (yes, rest) ← parseFrom? rounds pipeLevel true rest
      match rest with
      | .word "end" :: rest => some (.ifElse condition yes .identity, rest)
      | .word "elif" :: rest => do
        let (no, rest) ← parseBranch? rounds rest
        some (.ifElse condition yes no, rest)
      | .word "else" :: rest => do
        let (no, rest) ← parseFrom? rounds pipeLevel true rest
        match rest with
        | .word "end" :: rest => some (.ifElse condition yes no, rest)
        | _ => none
      | _ => none
    | _ => none

end

/-- Reads a filter that takes up the whole text. -/
def parse? (text : String) : Option Query := do
  let tokens ← Token.ofText? text
  match ← parseFrom? (8 * (tokens.length + 1)) pipeLevel true tokens with
  | (query, []) => some query
  | _ => none

end Query

end SchemaTypes
