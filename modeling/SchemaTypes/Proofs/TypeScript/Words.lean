import SchemaTypes.Proofs.Json.Text
import SchemaTypes.Proofs.TypeScript.Reader

namespace SchemaTypes

namespace TypeExpr

open Json (skipBlanks skipBlanks_cons)

/-- The reader takes the text off whatever follows it, if that is fit to follow. -/
def ReadsAs {α : Type} (reader : Reader α) (fits : List Char → Prop) (text : List Char)
    (value : α) : Prop :=
  ∀ rest, fits rest → reader (text ++ rest) = some (value, rest)

/-- What follows lengthens neither a word nor a number. -/
def EndsWord (rest : List Char) : Prop := ∀ c ∈ rest.head?, isNameChar c = false ∧ c ≠ '.'

/-- What follows does not bind tighter than `&`. -/
structure EndsOperand (rest : List Char) : Prop where
  word : EndsWord rest
  suffix : rest.head? ≠ some '['

/-- What follows does not bind tighter than `|`. -/
structure EndsIntersection (rest : List Char) : Prop extends EndsOperand rest where
  ampersand : readMark '&' rest = none

/-- What follows does not belong to the type. -/
structure EndsUnion (rest : List Char) : Prop extends EndsIntersection rest where
  bar : readMark '|' rest = none

section Blanks

theorem isBlank_of_isNameChar {c : Char} (h : isNameChar c = true) : Json.isBlank c = false := by
  by_contra hblank
  simp only [Json.isBlank, Bool.not_eq_false, Bool.or_eq_true, beq_iff_eq] at hblank
  rcases hblank with ((rfl | rfl) | rfl) | rfl <;> simp [isNameChar, isNameStart] at h

variable (marks : Nat) (reader : Reader TypeExpr) (s : List Char)

@[simp]
theorem readGiven_blank (word : String) : readGiven word (' ' :: s) = readGiven word s := rfl

@[simp]
theorem readName_blank : readName (' ' :: s) = readName s := rfl

/-- A blank in front of a part is passed over. The same holds of all readers that
    a separator comes before. -/
theorem readProperty_blank : readProperty reader (' ' :: s) = readProperty reader s := by
  simp only [readProperty, readModifier, readGiven_blank]
  cases readGiven "readonly" s with
  | none => rfl
  | some rest => cases hname : (readName rest).isSome <;> simp [hname]

theorem readOperand_blank : readOperand marks reader (' ' :: s) = readOperand marks reader s := rfl

theorem readSeparated_blank {α : Type} {mark : Char} {readPart : Reader α}
    (h : readPart (' ' :: s) = readPart s) :
    readSeparated mark readPart marks (' ' :: s) = readSeparated mark readPart marks s := by
  cases marks <;> simp only [readSeparated, h]

theorem readIntersection_blank :
    readIntersection marks reader (' ' :: s) = readIntersection marks reader s := by
  rw [readIntersection, readSeparated_blank _ _ (readOperand_blank ..), ← readIntersection]

end Blanks

theorem readType_blank (depth : Nat) (s : List Char) : readType depth (' ' :: s) = readType depth s := by
  cases depth with
  | zero => rfl
  | succ depth =>
    simp only [readType, readUnion, readSeparated_blank _ _ (readIntersection_blank ..)]

/-- No type starts with a closing bracket, which is how an empty tuple is told. -/
theorem readType_bracket (depth : Nat) (s : List Char) : readType depth (']' :: s) = none := by
  cases depth with
  | zero => rfl
  | succ depth => cases depth <;> rfl

section Words

variable {rest : List Char}

/-- A word is read up to the first character that cannot belong to it. -/
theorem readWord_append {letters : List Char} (hne : letters ≠ [])
    (hletters : ∀ c ∈ letters, isNameChar c = true) (hrest : EndsWord rest) :
    readWord (letters ++ rest) = (letters, rest) := by
  have hstop : rest.takeWhile isNameChar = [] ∧ rest.dropWhile isNameChar = rest := by
    cases rest with
    | nil => exact ⟨rfl, rfl⟩
    | cons c rest => simp [hrest c rfl]
  have hskip : skipBlanks (letters ++ rest) = letters ++ rest := by
    cases letters with
    | nil => exact absurd rfl hne
    | cons c letters => exact skipBlanks_cons (isBlank_of_isNameChar (hletters c (by simp))) _
  rw [readWord, hskip, List.takeWhile_append_of_pos hletters, List.dropWhile_append_of_pos hletters,
    hstop.1, hstop.2, List.append_nil]

/-- A given word is found if it is there as a whole. The start of a longer word is
    not taken for it. -/
theorem readGiven_append {letters : List Char} (hne : letters ≠ [])
    (hletters : ∀ c ∈ letters, isNameChar c = true) (hrest : EndsWord rest) (word : String) :
    readGiven word (letters ++ rest) = if letters = word.toList then some rest else none := by
  rw [readGiven, readWord_append hne hletters hrest]

theorem readText_append (text : String) :
    readText (text.toList.flatMap Json.escapedChar ++ '"' :: rest) = some (text, rest) := by
  rw [readText, Json.readQuoted_escaped]
  simp [Except.toOption]

/-- A name is written bare if it has the form of a word, and is quoted otherwise. -/
theorem nameChars_cases (name : String) :
    (∃ c letters, name.toList = c :: letters ∧ nameChars name = c :: letters ∧
      isNameStart c = true ∧ ∀ c ∈ name.toList, isNameChar c = true) ∨
    nameChars name = '"' :: (name.toList.flatMap Json.escapedChar ++ ['"']) := by
  rw [nameChars]
  split
  next => exact .inr rfl
  next c letters hname =>
    split
    next hbare =>
      rw [Bool.and_eq_true, List.all_eq_true] at hbare
      refine .inl ⟨c, letters, hname, rfl, hbare.1, ?_⟩
      rw [hname]
      rintro d (_ | ⟨_, hd⟩)
      · simp [isNameChar, hbare.1]
      · exact hbare.2 d hd
    next => exact .inr rfl

/-- A name is read back, bare or quoted. -/
theorem readName_append (name : String) (hrest : EndsWord rest) :
    readName (nameChars name ++ rest) = some (name, rest) := by
  obtain ⟨c, letters, hname, heq, hstart, hletters⟩ | heq := nameChars_cases name
  · have hchar : isNameChar c = true := hletters c (by simp [hname])
    have hquote : c ≠ '"' := by
      rintro rfl
      simp [isNameStart] at hstart
    have hword : readWord (c :: (letters ++ rest)) = (name.toList, rest) := by
      rw [← List.cons_append, ← hname]
      exact readWord_append (by simp [hname]) hletters hrest
    simp only [heq, List.cons_append, readName, skipBlanks_cons (isBlank_of_isNameChar hchar), hquote,
      hstart, hword, if_false, if_true, String.ofList_toList]
  · rw [heq]
    simp only [List.cons_append, List.append_assoc, List.nil_append]
    exact readText_append name

/-- A name that no other name follows is read as a name, also if it is the word
    `readonly`. -/
theorem readModifier_name (name : String) (hrest : EndsWord rest) (hnone : readName rest = none) :
    readModifier (nameChars name ++ rest) = (false, nameChars name ++ rest) := by
  have hgiven : readGiven "readonly" (nameChars name ++ rest) = none ∨
      readGiven "readonly" (nameChars name ++ rest) = some rest := by
    obtain ⟨c, letters, hname, heq, _, hletters⟩ | heq := nameChars_cases name
    · rw [heq, ← hname, readGiven_append (by simp [hname]) hletters hrest]
      by_cases h : name.toList = "readonly".toList
      · exact .inr (if_pos h)
      · exact .inl (if_neg h)
    · rw [heq]
      exact .inl rfl
  rw [readModifier]
  obtain h | h := hgiven
  · rw [h]
  · simp [h, hnone]

end Words

section Separated

variable {α β : Type} {mark : Char} {separator : List Char} {readPart : Reader β}
  {text : α → List Char} {value : α → β} {fits : List Char → Prop}

/-- A joined text bounds the number of its parts and the length of each. -/
theorem length_of_joinChars (hseparator : separator ≠ []) {items : List α} {n : Nat}
    (h : (joinChars separator (items.map text)).length ≤ n) :
    items.length ≤ n + 1 ∧ ∀ item ∈ items, (text item).length ≤ n := by
  have hpos := List.length_pos_iff.mpr hseparator
  induction items generalizing n with
  | nil => simp
  | cons item items ih =>
    cases items with
    | nil => simpa [joinChars] using h
    | cons next items =>
      simp only [List.map_cons, joinChars, List.length_append] at h ih
      obtain ⟨hcount, hparts⟩ := ih (Nat.le_refl _)
      refine ⟨by simp only [List.length_cons] at hcount ⊢; omega, ?_⟩
      rintro part (_ | ⟨_, hpart⟩)
      · omega
      · have := hparts part hpart
        omega

theorem readSeparated_single {s rest : List Char} {part : β} (hpart : readPart s = some (part, rest))
    (hend : readMark mark rest = none) {marks : Nat} :
    readSeparated mark readPart marks s = some ((part, []), rest) := by
  cases marks <;> simp [readSeparated, hpart, hend]

/-- Parts with a mark between any two are read back, if each part is read back
    wherever a mark may follow it. As many marks are allowed as there are parts
    behind the first. -/
theorem readSeparated_joinChars (hblank : ∀ s, readPart (' ' :: s) = readPart s)
    (hmark : ∀ s, readMark mark (separator ++ s) = some (' ' :: s))
    (hfits : ∀ s, fits (separator ++ s)) {item : α} {items : List α}
    (hread : ∀ x ∈ item :: items, ReadsAs readPart fits (text x) (value x))
    {marks : Nat} (hmarks : items.length ≤ marks) {rest : List Char} (hrest : fits rest)
    (hend : readMark mark rest = none) :
    readSeparated mark readPart marks (joinChars separator ((item :: items).map text) ++ rest) =
      some ((value item, items.map value), rest) := by
  induction items generalizing item marks with
  | nil => exact readSeparated_single (hread item (by simp) rest hrest) hend
  | cons next items ih =>
    obtain ⟨marks, rfl⟩ : ∃ n, marks = n + 1 :=
      Nat.exists_eq_succ_of_ne_zero (Nat.ne_of_gt (Nat.lt_of_lt_of_le (Nat.succ_pos _) hmarks))
    -- The mark leaves the blank behind it to the next part, which skips it.
    have hnext := ih (fun x hx => hread x (.tail _ hx)) (Nat.le_of_succ_le_succ hmarks)
    rw [List.map_cons] at hnext
    simp only [List.map_cons, joinChars, List.append_assoc, readSeparated,
      hread item (by simp) _ (hfits _), hmark, readSeparated_blank _ _ (hblank _), hnext,
      Option.bind_eq_bind, Option.bind_some]

end Separated

end TypeExpr

end SchemaTypes
