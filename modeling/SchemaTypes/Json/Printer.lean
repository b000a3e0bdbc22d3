import SchemaTypes.Json.Basic

namespace SchemaTypes

/-- Puts a separator between the parts of a text. -/
def joinChars (separator : List Char) : List (List Char) → List Char
  | [] => []
  | [part] => part
  | part :: rest => part ++ separator ++ joinChars separator rest

namespace Json

/-- A character inside a quoted text. Quote, backslash and control characters are
    escaped, the common ones by a letter, and all else is written as it is. -/
def escapedChar (c : Char) : List Char :=
  match c with
  | '"' => ['\\', '"']
  | '\\' => ['\\', '\\']
  | '\n' => ['\\', 'n']
  | '\r' => ['\\', 'r']
  | '\t' => ['\\', 't']
  | '\x08' => ['\\', 'b']
  | '\x0c' => ['\\', 'f']
  | c =>
    if c.toNat < 0x20 then
      ['\\', 'u', '0', '0', Nat.digitChar (c.toNat / 16), Nat.digitChar (c.toNat % 16)]
    else [c]

def quotedChars (s : String) : List Char :=
  '"' :: s.toList.flatMap escapedChar ++ ['"']

mutual

/-- The text of a value without any blanks. -/
def chars : Json → List Char
  | .null => "null".toList
  | .bool true => "true".toList
  | .bool false => "false".toList
  | .num n => n.chars
  | .str s => quotedChars s
  | .arr items => '[' :: joinChars [','] (itemChars items) ++ [']']
  | .obj entries => '\x7b' :: joinChars [','] (entryChars entries) ++ ['\x7d']

def itemChars : List Json → List (List Char)
  | [] => []
  | x :: xs => x.chars :: itemChars xs

def entryChars : List (String × Json) → List (List Char)
  | [] => []
  | (name, x) :: xs => (quotedChars name ++ ':' :: x.chars) :: entryChars xs

end

def compact (value : Json) : String := String.ofList value.chars

/-- A bracketed list with one part on each line, two columns deeper than the brackets. -/
def block (opening closing : Char) (indent : Nat) : List (List Char) → List Char
  | [] => [opening, closing]
  | parts =>
    let margin := '\n' :: List.replicate (indent + 2) ' '
    opening :: (margin ++ joinChars (',' :: margin) parts) ++
      '\n' :: List.replicate indent ' ' ++ [closing]

mutual

/-- The text of a value spread over lines, the brackets standing at column `indent`. -/
def prettyChars (indent : Nat) : Json → List Char
  | .arr items => block '[' ']' indent (prettyItems (indent + 2) items)
  | .obj entries => block '\x7b' '\x7d' indent (prettyEntries (indent + 2) entries)
  | value => value.chars

def prettyItems (indent : Nat) : List Json → List (List Char)
  | [] => []
  | x :: xs => x.prettyChars indent :: prettyItems indent xs

def prettyEntries (indent : Nat) : List (String × Json) → List (List Char)
  | [] => []
  | (name, x) :: xs =>
    (quotedChars name ++ ':' :: ' ' :: x.prettyChars indent) :: prettyEntries indent xs

end

def pretty (value : Json) : String := String.ofList (value.prettyChars 0)

end Json

end SchemaTypes
