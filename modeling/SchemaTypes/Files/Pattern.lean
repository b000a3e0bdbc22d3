namespace SchemaTypes

/-- The characters that a bracket in a pattern stands for. -/
structure CharRange where
  first : Char
  last : Char
deriving DecidableEq

/-- A part of a pattern for names. -/
inductive PatternPart where
  | char (c : Char)
  | anyChar
  | anySequence
  /-- Two stars, which stand for any number of directories. -/
  | anyDirectories
  | within (ranges : List CharRange)
  | outside (ranges : List CharRange)
deriving DecidableEq

inductive PatternCause where
  | tooManyStars
  | starsInName
  | invalidRange
deriving DecidableEq

def PatternCause.message : PatternCause → String
  | .tooManyStars => "wildcards are either regular `*` or recursive `**`"
  | .starsInName => "recursive wildcards must form a single path component"
  | .invalidRange => "invalid range pattern"

/-- A text that is no pattern, with the number of characters in front of the fault. -/
structure PatternError where
  position : Nat
  cause : PatternCause
deriving DecidableEq

def PatternError.message (e : PatternError) : String :=
  s!"Pattern syntax error near position {e.position}: {e.cause.message}"

namespace PatternPart

/-- The ranges between two brackets: three characters with a dash in the middle
    are a range, and every other one stands for itself. -/
def ranges : List Char → List CharRange
  | first :: '-' :: last :: rest => ⟨first, last⟩ :: ranges rest
  | c :: rest => ⟨c, c⟩ :: ranges rest
  | [] => []

/-- Splits the text between two brackets, which has at least one character, from
    what follows. -/
def splitRange : List Char → Option (List Char × List Char)
  | [] => none
  | c :: rest =>
    if rest.contains ']' then
      some (c :: rest.takeWhile (· ≠ ']'), (rest.dropWhile (· ≠ ']')).drop 1)
    else none

/-- Reads a bracket behind its opening one. -/
def bracket? : List Char → Option (PatternPart × List Char)
  | '!' :: rest => (splitRange rest).map fun (inside, rest) => (.outside (ranges inside), rest)
  | rest => (splitRange rest).map fun (inside, rest) => (.within (ranges inside), rest)

/-- A bracket is closed by a character of its own, so that reading it shortens the
    text. The reader of patterns recurses on the rest. -/
theorem splitRange_length {s inside rest : List Char} (h : splitRange s = some (inside, rest)) :
    rest.length < s.length := by
  cases s with
  | nil => simp [splitRange] at h
  | cons c s =>
    simp only [splitRange] at h
    split at h
    · simp only [Option.some.injEq, Prod.mk.injEq] at h
      obtain ⟨_, rfl⟩ := h
      have hdrop := (List.dropWhile_sublist (l := s) (· ≠ ']')).length_le
      simp only [List.length_drop, List.length_cons]
      omega
    · simp at h

theorem bracket?_length {s rest : List Char} {part : PatternPart}
    (h : bracket? s = some (part, rest)) : rest.length < s.length := by
  simp only [bracket?] at h
  split at h
  · obtain ⟨⟨inside, after⟩, hsplit, heq⟩ := Option.map_eq_some_iff.mp h
    cases heq
    exact Nat.lt_succ_of_lt (splitRange_length hsplit)
  · obtain ⟨⟨inside, after⟩, hsplit, heq⟩ := Option.map_eq_some_iff.mp h
    cases heq
    exact splitRange_length hsplit

/-- The parts of a pattern of which `position` characters have been read, the last
    of them being `before`. -/
def parse (position : Nat) (before : Option Char) :
    List Char → Except PatternError (List PatternPart)
  | [] => .ok []
  | '?' :: rest => do return .anyChar :: (← parse (position + 1) (some '?') rest)
  | '*' :: '*' :: '*' :: _ => .error ⟨position + 2, .tooManyStars⟩
  | '*' :: '*' :: rest =>
    if before = none ∨ before = some '/' then
      match rest with
      | [] => .ok [.anyDirectories]
      | '/' :: rest => do return .anyDirectories :: (← parse (position + 3) (some '/') rest)
      | _ => .error ⟨position + 2, .starsInName⟩
    else .error ⟨position - 1, .starsInName⟩
  | '*' :: rest => do return .anySequence :: (← parse (position + 1) (some '*') rest)
  | '[' :: rest =>
    match h : bracket? rest with
    | none => .error ⟨position, .invalidRange⟩
    | some (part, after) => do
      return part :: (← parse (position + 1 + (rest.length - after.length)) (some ']') after)
  | c :: rest => do return .char c :: (← parse (position + 1) (some c) rest)
termination_by s => s.length
decreasing_by
  all_goals simp only [List.length_cons]
  all_goals first
    | omega
    | exact Nat.lt_succ_of_lt (bracket?_length h)

def ofText (text : String) : Except PatternError (List PatternPart) := parse 0 none text.toList

/-- The ends of a list, from the whole to the empty one. -/
def tails {α : Type} : List α → List (List α)
  | [] => [[]]
  | x :: xs => (x :: xs) :: tails xs

def inRange (c : Char) (range : CharRange) : Bool := range.first ≤ c && c ≤ range.last

/-- Whether a name fits a pattern. -/
def fits : List PatternPart → List Char → Bool
  | [], s => s.isEmpty
  | .anySequence :: parts, s => (tails s).any fun rest => fits parts rest
  | .anyDirectories :: parts, s => (tails s).any fun rest => fits parts rest
  | .char c :: parts, d :: s => c == d && fits parts s
  | .anyChar :: parts, _ :: s => fits parts s
  | .within ranges :: parts, c :: s => ranges.any (inRange c) && fits parts s
  | .outside ranges :: parts, c :: s => !ranges.any (inRange c) && fits parts s
  | _, [] => false

/-- Whether the pattern is no pattern but a name. -/
def isLiteral (parts : List PatternPart) : Bool :=
  parts.all fun
    | .char _ => true
    | _ => false

end PatternPart

end SchemaTypes
