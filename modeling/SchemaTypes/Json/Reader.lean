import SchemaTypes.Json.Basic
import SchemaTypes.Json.ReadError
import SchemaTypes.Number.Literal

namespace SchemaTypes

/-- A value read from the front of a text, and the rest of the text. -/
abbrev Parsed (α : Type) := α × List Char

/-- The same result, a failure being placed one step further down. -/
def underStep {ε α : Type} (step : JsonStep) : Except (Located ε) α → Except (Located ε) α
  | .ok a => .ok a
  | .error e => .error (e.under step)

namespace Json

def isBlank (c : Char) : Bool := c == ' ' || c == '\n' || c == '\t' || c == '\r'

def skipBlanks (s : List Char) : List Char := s.dropWhile isBlank

/-- Reads the given letters. -/
def readLetters : List Char → List Char → Except ReadError (List Char)
  | [], s => .ok s
  | _ :: _, [] => .error (.before .endInValue [])
  | letter :: letters, c :: s =>
    if c = letter then readLetters letters s else .error (.after .expectedWord (c :: s))

/-- Reads one or more digits. -/
def readDigits (s : List Char) : Except ReadError (Parsed (List Char)) :=
  match s.takeWhile Char.isDigit, s.dropWhile Char.isDigit with
  | [], [] => .error (.before .endInValue [])
  | [], rest => .error (.after .invalidNumber rest)
  | digits, rest => .ok (digits, rest)

/-- Reads the digits of the integer part. A leading zero stands alone. -/
def readWhole (s : List Char) : Except ReadError (Parsed (List Char)) := do
  match ← readDigits s with
  | ('0' :: digit :: digits, rest) => .error (.after .invalidNumber (digit :: digits ++ rest))
  | (digits, rest) => .ok (digits, rest)

/-- Reads a decimal point and the digits behind it. -/
def readFraction : List Char → Except ReadError (Parsed (Option (List Char)))
  | '.' :: s => do
    let (digits, rest) ← readDigits s
    .ok (some digits, rest)
  | s => .ok (none, s)

/-- Reads an exponent: whether it is negative, and its digits. -/
def readExponent : List Char → Except ReadError (Parsed (Option (Bool × List Char)))
  | [] => .ok (none, [])
  | c :: s =>
    if c = 'e' ∨ c = 'E' then
      let (negative, s) := match s with
        | '+' :: s => (false, s)
        | '-' :: s => (true, s)
        | s => (false, s)
      do
        let (digits, rest) ← readDigits s
        .ok (some (negative, digits), rest)
    else .ok (none, c :: s)

/-- The digits of an exponent behind the one at which it no longer fits 31 bits. -/
def digitsPastOverflow (value : Nat) : List Char → List Char
  | [] => []
  | c :: rest =>
    let value := 10 * value + NumberLiteral.digitValue c
    if 1 <<< 31 ≤ value then rest else digitsPastOverflow value rest

/-- Where a number that is too large is given up: behind it, or inside an exponent
    that does not even fit 31 bits. -/
def unreadOfLarge (literal : NumberLiteral) (rest : List Char) : List Char :=
  match literal.exponent with
  | some (_, digits) => digitsPastOverflow 0 digits ++ rest
  | none => rest

/-- Reads a number whose sign, if any, has been read. -/
def readNumber (negative : Bool) (s : List Char) : Except ReadError (Parsed Number) := do
  let (whole, rest) ← readWhole s
  let (fraction, rest) ← readFraction rest
  let (exponent, rest) ← readExponent rest
  let literal : NumberLiteral := ⟨negative, whole, fraction, exponent⟩
  match literal.toNumber? with
  | some n => .ok (n, rest)
  | none => .error (.before .numberOutOfRange (unreadOfLarge literal rest))

def hexValue? (c : Char) : Option Nat :=
  if c.isDigit then some (c.toNat - '0'.toNat)
  else if 'a' ≤ c ∧ c ≤ 'f' then some (c.toNat - 'a'.toNat + 10)
  else if 'A' ≤ c ∧ c ≤ 'F' then some (c.toNat - 'A'.toNat + 10)
  else none

/-- Four bytes are looked at whether or not they are hexadecimal digits. -/
def notHex (s : List Char) : ReadError :=
  if byteCount s < 4 then .before .endInString [] else ⟨.invalidEscape, byteCount s - 4, []⟩

/-- Reads the four hexadecimal digits of an escape. -/
def readHex : List Char → Except ReadError (Parsed Nat)
  | a :: b :: c :: d :: rest =>
    match hexValue? a, hexValue? b, hexValue? c, hexValue? d with
    | some a, some b, some c, some d => .ok (((a * 16 + b) * 16 + c) * 16 + d, rest)
    | _, _, _, _ => .error (notHex (a :: b :: c :: d :: rest))
  | s => .error (notHex s)

def isLeading (unit : Nat) : Bool := 0xD800 ≤ unit && unit ≤ 0xDBFF

def isTrailing (unit : Nat) : Bool := 0xDC00 ≤ unit && unit ≤ 0xDFFF

/-- Reads one given character of the second half of a surrogate pair. -/
def readPairing (expected : Char) : List Char → Except ReadError (List Char)
  | [] => .error (.before .endInString [])
  | c :: s => if c = expected then .ok s else .error (.after .unpairedEscape (c :: s))

/-- Reads the digits of a `\u` escape, and the second escape of a surrogate pair. -/
def readUnicode (s : List Char) : Except ReadError (Parsed Char) := do
  let (unit, rest) ← readHex s
  if isTrailing unit then .error (.before .loneSurrogate rest)
  else if isLeading unit then
    let rest ← readPairing '\\' rest
    let rest ← readPairing 'u' rest
    let (second, rest) ← readHex rest
    if isTrailing second then
      .ok (Char.ofNat (0x10000 + (unit - 0xD800) * 0x400 + (second - 0xDC00)), rest)
    else .error (.before .loneSurrogate rest)
  else .ok (Char.ofNat unit, rest)

/-- Reads an escape behind its backslash. -/
def readEscape : List Char → Except ReadError (Parsed Char)
  | [] => .error (.before .endInString [])
  | '"' :: s => .ok ('"', s)
  | '\\' :: s => .ok ('\\', s)
  | '/' :: s => .ok ('/', s)
  | 'b' :: s => .ok ('\x08', s)
  | 'f' :: s => .ok ('\x0c', s)
  | 'n' :: s => .ok ('\n', s)
  | 'r' :: s => .ok ('\r', s)
  | 't' :: s => .ok ('\t', s)
  | 'u' :: s => readUnicode s
  | s => .error (.after .invalidEscape s)

/-- Each of the four readers that a backslash can lead to takes at least one
    character, so that the reader of strings may recurse on what is left. -/
theorem length_lt_of_readHex {s rest : List Char} {unit : Nat} (h : readHex s = .ok (unit, rest)) :
    rest.length < s.length := by
  unfold readHex at h
  split at h
  · split at h
    · cases h
      simp only [List.length_cons]
      omega
    · cases h
  · cases h

theorem length_lt_of_readPairing {s rest : List Char} {expected : Char}
    (h : readPairing expected s = .ok rest) : rest.length < s.length := by
  unfold readPairing at h
  split at h
  · cases h
  · split at h
    · cases h
      simp
    · cases h

theorem length_lt_of_readUnicode {s rest : List Char} {c : Char}
    (h : readUnicode s = .ok (c, rest)) : rest.length < s.length := by
  unfold readUnicode at h
  cases hhex : readHex s with
  | error e => simp [hhex, bind, Except.bind] at h
  | ok read =>
    obtain ⟨unit, rest₁⟩ := read
    have hlt := length_lt_of_readHex hhex
    simp only [hhex, bind, Except.bind] at h
    split at h
    · cases h
    · split at h
      · cases hslash : readPairing '\\' rest₁ with
        | error e => simp [hslash] at h
        | ok rest₂ =>
          have hlt₂ := length_lt_of_readPairing hslash
          simp only [hslash] at h
          cases hu : readPairing 'u' rest₂ with
          | error e => simp [hu] at h
          | ok rest₃ =>
            have hlt₃ := length_lt_of_readPairing hu
            simp only [hu] at h
            cases hsecond : readHex rest₃ with
            | error e => simp [hsecond] at h
            | ok read₂ =>
              obtain ⟨second, rest₄⟩ := read₂
              have hlt₄ := length_lt_of_readHex hsecond
              simp only [hsecond] at h
              split at h
              · simp only [Except.ok.injEq, Prod.mk.injEq] at h
                obtain ⟨_, rfl⟩ := h
                omega
              · cases h
      · simp only [Except.ok.injEq, Prod.mk.injEq] at h
        obtain ⟨_, rfl⟩ := h
        exact hlt

theorem length_lt_of_readEscape {s rest : List Char} {c : Char}
    (h : readEscape s = .ok (c, rest)) : rest.length < s.length := by
  unfold readEscape at h
  split at h
  all_goals first
    | exact Nat.lt_succ_of_lt (length_lt_of_readUnicode h)
    | (cases h; exact Nat.lt_succ_self _)
    | cases h

/-- Reads a text behind its opening quote, up to and with the closing one. -/
def readQuoted : List Char → Except ReadError (Parsed (List Char))
  | [] => .error (.before .endInString [])
  | '"' :: s => .ok ([], s)
  | '\\' :: s =>
    match h : readEscape s with
    | .error e => .error e
    | .ok (c, rest) =>
      have : rest.length < s.length := length_lt_of_readEscape h
      match readQuoted rest with
      | .error e => .error e
      | .ok (cs, rest) => .ok (c :: cs, rest)
  | c :: s =>
    if c.toNat < 0x20 then .error (.after .controlCharacter (c :: s))
    else
      match readQuoted s with
      | .error e => .error e
      | .ok (cs, rest) => .ok (c :: cs, rest)
termination_by s => s.length

/-- Reads the items of a list behind the first one, up to and with the closing
    bracket. The item after the next comma is number `index`. Each round reads a
    comma, so as many rounds as there are characters are enough. -/
def readMoreItems (readItem : List Char → Except ReadError (Parsed Json)) :
    (rounds : Nat) → (index : Nat) → List Char → Except ReadError (Parsed (List Json))
  | 0, _, s => .error (.after .expectedListComma s)
  | rounds + 1, index, s =>
    match skipBlanks s with
    | [] => .error (.before .endInList [])
    | ']' :: rest => .ok ([], rest)
    | ',' :: rest =>
      match skipBlanks rest with
      | [] => .error (.before .endInValue [])
      | ']' :: rest => .error (.after .trailingComma (']' :: rest))
      | s => do
        let (item, rest) ← underStep (.index index) (readItem s)
        let (items, rest) ← readMoreItems readItem rounds (index + 1) rest
        .ok (item :: items, rest)
    | s => .error (.after .expectedListComma s)

/-- Reads a list behind its opening bracket. -/
def readItems (readItem : List Char → Except ReadError (Parsed Json)) (s : List Char) :
    Except ReadError (Parsed (List Json)) :=
  match skipBlanks s with
  | [] => .error (.before .endInList [])
  | ']' :: rest => .ok ([], rest)
  | s => do
    let (item, rest) ← underStep (.index 0) (readItem s)
    let (items, rest) ← readMoreItems readItem (rest.length + 1) 1 rest
    .ok (item :: items, rest)

/-- Reads the colon behind a name. -/
def readColon (s : List Char) : Except ReadError (List Char) :=
  match skipBlanks s with
  | [] => .error (.before .endInObject [])
  | ':' :: rest => .ok rest
  | s => .error (.after .expectedColon s)

/-- Reads an entry behind the opening quote of its name. -/
def readEntry (readItem : List Char → Except ReadError (Parsed Json)) (s : List Char) :
    Except ReadError (Parsed (String × Json)) := do
  let (key, rest) ← underStep .unnamed (readQuoted s)
  let key := String.ofList key
  let rest ← readColon rest
  let (value, rest) ← underStep (.name key) (readItem rest)
  .ok ((key, value), rest)

/-- Reads the entries of an object behind the first one, up to and with the
    closing bracket. -/
def readMoreEntries (readItem : List Char → Except ReadError (Parsed Json)) :
    (rounds : Nat) → List Char → Except ReadError (Parsed (List (String × Json)))
  | 0, s => .error (.after .expectedObjectComma s)
  | rounds + 1, s =>
    match skipBlanks s with
    | [] => underStep .unnamed (.error (.before .endInObject []))
    | '\x7d' :: rest => .ok ([], rest)
    | ',' :: rest =>
      match skipBlanks rest with
      | [] => underStep .unnamed (.error (.before .endInValue []))
      | '"' :: rest => do
        let (entry, rest) ← readEntry readItem rest
        let (entries, rest) ← readMoreEntries readItem rounds rest
        .ok (entry :: entries, rest)
      | '\x7d' :: rest => underStep .unnamed (.error (.after .trailingComma ('\x7d' :: rest)))
      | s => underStep .unnamed (.error (.after .keyNotString s))
    | s => underStep .unnamed (.error (.after .expectedObjectComma s))

/-- Reads an object behind its opening bracket. -/
def readEntries (readItem : List Char → Except ReadError (Parsed Json)) (s : List Char) :
    Except ReadError (Parsed (List (String × Json))) :=
  match skipBlanks s with
  | [] => underStep .unnamed (.error (.before .endInObject []))
  | '\x7d' :: rest => .ok ([], rest)
  | '"' :: rest => do
    let (entry, rest) ← readEntry readItem rest
    let (entries, rest) ← readMoreEntries readItem (rest.length + 1) rest
    .ok (entry :: entries, rest)
  | s => underStep .unnamed (.error (.after .keyNotString s))

/-- Reads a value in which lists and objects are nested at most `depth` deep.
    Repeated names are kept. -/
def readValue (depth : Nat) (s : List Char) : Except ReadError (Parsed Json) :=
  match skipBlanks s with
  | [] => .error (.before .endInValue [])
  | 'n' :: rest => do
    let rest ← readLetters ['u', 'l', 'l'] rest
    .ok (.null, rest)
  | 't' :: rest => do
    let rest ← readLetters ['r', 'u', 'e'] rest
    .ok (.bool true, rest)
  | 'f' :: rest => do
    let rest ← readLetters ['a', 'l', 's', 'e'] rest
    .ok (.bool false, rest)
  | '-' :: rest => do
    let (n, rest) ← readNumber true rest
    .ok (.num n, rest)
  | '"' :: rest => do
    let (cs, rest) ← readQuoted rest
    .ok (.str (String.ofList cs), rest)
  | '[' :: rest =>
    match depth with
    | 0 => .error (.after .tooDeep ('[' :: rest))
    | depth + 1 => do
      let (items, rest) ← readItems (readValue depth) rest
      .ok (.arr items, rest)
  | '\x7b' :: rest =>
    match depth with
    | 0 => .error (.after .tooDeep ('\x7b' :: rest))
    | depth + 1 => do
      let (entries, rest) ← readEntries (readValue depth) rest
      .ok (.obj entries, rest)
  | c :: rest =>
    if c.isDigit then do
      let (n, rest) ← readNumber false (c :: rest)
      .ok (.num n, rest)
    else .error (.after .expectedValue (c :: rest))

/-- The deepest nesting of lists and objects that is read. -/
def maxNesting : Nat := 127

/-- Reads the first value of a text. -/
def readFirst (text : String) : Except ReadError (Parsed Json) := readValue maxNesting text.toList

/-- Reads a text that holds one value and nothing but blanks behind it. -/
def parse (text : String) : Except ReadError Json := do
  let (value, rest) ← readFirst text
  match skipBlanks rest with
  | [] => .ok value.lastWins
  | rest => .error (.after .trailingCharacters rest)

end Json

end SchemaTypes
