import SchemaTypes.Proofs.Number.Nearest
import SchemaTypes.TypeScript.TypeExpr

namespace SchemaTypes

/-- What reads a value from the front of a text and gives back the rest. -/
abbrev Reader (α : Type) := List Char → Option (Parsed α)

namespace TypeExpr

open Json (skipBlanks)

/-- Reads one mark, with the blanks before it. -/
def readMark (mark : Char) (s : List Char) : Option (List Char) :=
  match skipBlanks s with
  | [] => none
  | c :: rest => if c = mark then some rest else none

/-- Splits off the letters of the word at the front. -/
def readWord (s : List Char) : Parsed (List Char) :=
  let s := skipBlanks s
  (s.takeWhile isNameChar, s.dropWhile isNameChar)

/-- Reads one given word. -/
def readGiven (word : String) (s : List Char) : Option (List Char) :=
  let (letters, rest) := readWord s
  if letters = word.toList then some rest else none

/-- Reads a quoted text behind its opening quote. -/
def readText (s : List Char) : Option (Parsed String) := do
  let (letters, rest) ← (Json.readQuoted s).toOption
  some (String.ofList letters, rest)

/-- Reads one or more parts with a mark between any two, of which there are at
    most `marks`. -/
def readSeparated {α : Type} (mark : Char) (readPart : Reader α) :
    (marks : Nat) → Reader (α × List α)
  | 0, s => do
    let (part, rest) ← readPart s
    some ((part, []), rest)
  | marks + 1, s => do
    let (part, rest) ← readPart s
    match readMark mark rest with
    | none => some ((part, []), rest)
    | some rest => do
      let ((next, parts), rest) ← readSeparated mark readPart marks rest
      some ((part, next :: parts), rest)

/-- The types that are written as a single word. -/
def ofWord? (letters : List Char) : Option TypeExpr :=
  match String.ofList letters with
  | "never" => some (.keyword .never)
  | "Value" => some (.keyword .value)
  | "null" => some (.keyword .null)
  | "number" => some (.keyword .number)
  | "string" => some (.keyword .string)
  | "boolean" => some (.keyword .boolean)
  | "true" => some (.scalar (.bool true))
  | "false" => some (.scalar (.bool false))
  | _ => none

/-- Reads the name of a property, bare or quoted. -/
def readName (s : List Char) : Option (Parsed String) :=
  match skipBlanks s with
  | [] => none
  | c :: rest =>
    if c = '"' then readText rest
    else if isNameStart c then
      let (letters, rest) := readWord (c :: rest)
      some (String.ofList letters, rest)
    else none

/-- Reads the word `readonly` before a name. It is itself the name where no other
    one follows. -/
def readModifier (s : List Char) : Parsed Bool :=
  match readGiven "readonly" s with
  | none => (false, s)
  | some rest => if (readName rest).isSome then (true, rest) else (false, s)

/-- Reads the mark of a property that may be left out. -/
def readOptional (s : List Char) : Parsed Bool :=
  match readMark '?' s with
  | none => (false, s)
  | some rest => (true, rest)

section

-- Whole types are read by `readType`, and `marks` bounds the marks in a list of parts.
variable (marks : Nat) (readType : Reader TypeExpr)

def readProperty (s : List Char) : Option (Parsed (Property TypeExpr)) := do
  let (readonly, rest) := readModifier s
  let (name, rest) ← readName rest
  let (optional, rest) := readOptional rest
  let rest ← readMark ':' rest
  let (ty, rest) ← readType rest
  some (⟨name, readonly, optional, ty⟩, rest)

/-- Reads `K in string]?: A` behind the opening bracket. -/
def readMapped (s : List Char) : Option (Parsed TypeExpr) := do
  let rest ← readGiven "K" s
  let rest ← readGiven "in" rest
  let rest ← readGiven "string" rest
  let rest ← readMark ']' rest
  let rest ← readMark '?' rest
  let rest ← readMark ':' rest
  let (ty, rest) ← readType rest
  some (.mapped ty, rest)

/-- Reads what stands in braces: properties, a type for all names, or nothing. -/
def readBody (s : List Char) : Option (Parsed TypeExpr) :=
  match readSeparated ';' (readProperty readType) marks s with
  | some ((property, properties), rest) => some (.object (property :: properties), rest)
  | none =>
    match readMark '[' s with
    | some rest => readMapped readType rest
    | none => some (.object [], s)

/-- Reads a word that is a type, or the list type `Array<A>`. -/
def readNamed (s : List Char) : Option (Parsed TypeExpr) :=
  match readGiven "Array" s with
  | some rest => do
    let rest ← readMark '<' rest
    let (item, rest) ← readType rest
    let rest ← readMark '>' rest
    some (.genericArray item, rest)
  | none => do
    let (letters, rest) := readWord s
    let expr ← ofWord? letters
    some (expr, rest)

/-- Reads a type that no operator takes apart. -/
def readPrimary (s : List Char) : Option (Parsed TypeExpr) :=
  match skipBlanks s with
  | [] => none
  | c :: rest =>
    if c = '(' then do
      let (expr, rest) ← readType rest
      let rest ← readMark ')' rest
      some (expr, rest)
    else if c = '\x7b' then do
      let (expr, rest) ← readBody marks readType rest
      let rest ← readMark '\x7d' rest
      some (expr, rest)
    else if c = '"' then do
      let (text, rest) ← readText rest
      some (.scalar (.str text), rest)
    else if isNameStart c then readNamed readType (c :: rest)
    else do
      let (number, rest) ← Number.read (c :: rest)
      some (.scalar (.num number), rest)

/-- Takes each `[]` at the front to the type before it. -/
def readSuffixes (expr : TypeExpr) : List Char → Parsed TypeExpr
  | '[' :: ']' :: rest => readSuffixes (.arrayOf expr) rest
  | s => (expr, s)

def readPostfix (s : List Char) : Option (Parsed TypeExpr) := do
  let (expr, rest) ← readPrimary marks readType s
  some (readSuffixes expr rest)

/-- Reads the types in a list, of which there may be none. -/
def readItems (s : List Char) : Parsed (List TypeExpr) :=
  match readSeparated ',' readType marks s with
  | some ((item, items), rest) => (item :: items, rest)
  | none => ([], s)

/-- Reads `readonly [A, B]`. The word goes with the whole operand, so a suffix
    behind the brackets would stand within it, and none is read. -/
def readTuple (s : List Char) : Option (Parsed TypeExpr) := do
  let rest ← readGiven "readonly" s
  let rest ← readMark '[' rest
  let (items, rest) := readItems marks readType rest
  let rest ← readMark ']' rest
  some (.tuple items, rest)

def readOperand (s : List Char) : Option (Parsed TypeExpr) :=
  match readPostfix marks readType s with
  | some read => some read
  | none => readTuple marks readType s

def readIntersection (s : List Char) : Option (Parsed TypeExpr) := do
  let ((operand, operands), rest) ← readSeparated '&' (readOperand marks readType) marks s
  some (operands.foldl .both operand, rest)

def readUnion (s : List Char) : Option (Parsed TypeExpr) := do
  let ((member, members), rest) ← readSeparated '|' (readIntersection marks readType) marks s
  some (if members.isEmpty then member else .union (member :: members), rest)

end

/-- Reads a type in which brackets are nested less than `depth` deep. The suffix
    `[]` binds tighter than `&`, and `&` tighter than `|`. -/
def readType : (depth : Nat) → Reader TypeExpr
  | 0, _ => none
  | depth + 1, s => readUnion depth (readType depth) s

/-- Reads a text that is one type with nothing but blanks behind it. No text nests
    deeper than it is long. -/
def parse (text : String) : Option TypeExpr := do
  let (expr, rest) ← readType (text.toList.length + 1) text.toList
  if (skipBlanks rest).isEmpty then some expr else none

end TypeExpr

end SchemaTypes
