import SchemaTypes.Proofs.Ty.Normal
import SchemaTypes.Proofs.TypeScript.Forms
import SchemaTypes.TypeScript.Declarations

namespace SchemaTypes

section Printable

/-- No character of the text is a control character. In particular the text is a
    single line. -/
def Printable (text : List Char) : Prop := ∀ c ∈ text, 0x20 ≤ c.toNat

@[simp]
theorem printable_nil : Printable [] := by simp [Printable]

@[simp]
theorem printable_cons {c : Char} {text : List Char} :
    Printable (c :: text) ↔ 0x20 ≤ c.toNat ∧ Printable text := by
  simp [Printable]

@[simp]
theorem printable_append {text rest : List Char} :
    Printable (text ++ rest) ↔ Printable text ∧ Printable rest := by
  simp [Printable, or_imp, forall_and]

theorem Printable.newline_not_mem {text : List Char} (h : Printable text) : '\n' ∉ text :=
  fun hmem => absurd (h '\n' hmem) (by decide)

/-- Parts that are printable, put together with a printable separator, are printable. -/
theorem printable_joinChars {separator : List Char} {parts : List (List Char)}
    (hseparator : Printable separator) (hparts : ∀ part ∈ parts, Printable part) :
    Printable (joinChars separator parts) := by
  fun_induction joinChars separator parts with
  | case1 => exact printable_nil
  | case2 part => exact hparts part List.mem_cons_self
  | case3 part rest _ ih =>
    rw [List.forall_mem_cons] at hparts
    simp only [printable_append]
    exact ⟨⟨hparts.1, hseparator⟩, ih hparts.2⟩

theorem le_toNat_of_isDigit {c : Char} (h : c.isDigit = true) : 0x20 ≤ c.toNat := by
  simp only [Char.isDigit, Bool.and_eq_true, decide_eq_true_eq, UInt32.le_iff_toNat_le,
    Char.reduceVal, UInt32.reduceToNat, ge_iff_le] at h
  rw [Char.toNat]
  omega

theorem NumberLiteral.le_toNat_of_isNumberChar {c : Char} (h : isNumberChar c = true) :
    0x20 ≤ c.toNat := by
  simp only [isNumberChar, Bool.or_eq_true, beq_iff_eq] at h
  rcases h with (((hdigit | rfl) | rfl) | rfl) | rfl
  · exact le_toNat_of_isDigit hdigit
  all_goals decide

namespace Json

/-- Control characters are escaped, so that no text holds one. -/
theorem printable_escapedChar (c : Char) : Printable (escapedChar c) := by
  have hdigit : ∀ n < 16, 0x20 ≤ (Nat.digitChar n).toNat := by decide
  unfold escapedChar
  split
  case h_8 =>
    split
    next hcontrol =>
      have hhigh := hdigit (c.toNat / 16) (by omega)
      have hlow := hdigit (c.toNat % 16) (by omega)
      simp [hhigh, hlow]
    next hplain => simpa using hplain
  all_goals simp

theorem printable_quotedChars (s : String) : Printable (quotedChars s) := by
  have htext : Printable (s.toList.flatMap escapedChar) := by
    intro c hc
    obtain ⟨d, _, hd⟩ := List.mem_flatMap.mp hc
    exact printable_escapedChar d c hd
  simp [quotedChars, htext]

/-- The text of a value is written on one line, whatever strings stand in it. -/
theorem printable_chars (value : Json) : Printable value.chars := by
  induction value with
  | null => simp [chars]
  | bool value => cases value <;> simp [chars]
  | num n =>
    exact fun c hc => NumberLiteral.le_toNat_of_isNumberChar (Number.isNumberChar_of_mem_chars hc)
  | str s => exact printable_quotedChars s
  | arr items ih =>
    have hitems : Printable (joinChars [','] (itemChars items)) := by
      apply printable_joinChars (by simp)
      simpa [itemChars_eq_map] using ih
    simp [chars, hitems]
  | obj entries ih =>
    have hentries : Printable (joinChars [','] (entryChars entries)) := by
      apply printable_joinChars (by simp)
      rw [entryChars_eq_map, List.forall_mem_map]
      intro entry hentry
      simp [printable_quotedChars, ih entry hentry]
    simp [chars, hentries]

end Json

namespace TypeExpr

theorem le_toNat_of_isNameChar {c : Char} (h : isNameChar c = true) : 0x20 ≤ c.toNat := by
  have halpha : c.isAlpha = (decide (c.val ≥ 'A'.val ∧ c.val ≤ 'Z'.val) ||
      (decide (c.val ≥ 'a'.val) && decide (c.val ≤ 'z'.val))) := rfl
  simp only [isNameChar, isNameStart, halpha, Bool.or_eq_true, Bool.and_eq_true, decide_eq_true_eq,
    beq_iff_eq, UInt32.le_iff_toNat_le, Char.reduceVal, UInt32.reduceToNat, ge_iff_le] at h
  rcases h with (((hupper | hlower) | rfl) | rfl) | hdigit
  · rw [Char.toNat]
    omega
  · rw [Char.toNat]
    omega
  · decide
  · decide
  · exact le_toNat_of_isDigit hdigit

/-- Names that are no words are quoted, and the control characters in them escaped. -/
theorem printable_nameChars (name : String) : Printable (nameChars name) := by
  rcases nameChars_cases name with ⟨c, letters, hname, hchars, _, hbare⟩ | hquoted
  · rw [hchars, ← hname]
    exact fun c hc => le_toNat_of_isNameChar (hbare c hc)
  · rw [hquoted]
    exact Json.printable_quotedChars name

theorem printable_parenthesized {wrap : Bool} {text : List Char} (h : Printable text) :
    Printable (parenthesized wrap text) := by
  cases wrap <;> simp [parenthesized, h]

theorem printable_braced {text : List Char} (h : Printable text) : Printable (braced text) := by
  simp [braced, h]

theorem chars_object_cases (context : Context) (properties : List (Property TypeExpr)) :
    (object properties).chars context = ['\x7b', '\x7d'] ∨
      (object properties).chars context = braced (joinChars [';', ' '] (propertyChars properties)) := by
  cases properties with
  | nil => exact .inl rfl
  | cons property properties => exact .inr rfl

theorem printable_propertyText {property : Property TypeExpr}
    (h : Printable (property.ty.chars .union)) : Printable (propertyText property) := by
  have hname := printable_nameChars property.name
  rw [propertyText]
  split <;> split <;> simp [h, hname]

/-- Whatever texts stand in it, an expression is written on one line. The
    induction is on the expression. -/
theorem printable_chars (expr : TypeExpr) (context : Context) : Printable (expr.chars context) := by
  induction expr generalizing context with
  | keyword word =>
    show Printable word.text.toList
    cases word <;> simp [Keyword.text]
  | scalar value => exact value.printable_chars
  | tuple items ih =>
    have hitems : Printable (joinChars [',', ' '] (itemChars .union items)) := by
      apply printable_joinChars (by simp)
      simpa [itemChars_eq_map] using fun item hitem => ih item hitem .union
    exact printable_parenthesized (by simp [hitems])
  | arrayOf item ih =>
    show Printable (item.chars .suffix ++ ['[', ']'])
    simp [ih]
  | genericArray item ih =>
    show Printable ("Array<".toList ++ item.chars .union ++ ['>'])
    simp [ih]
  | object properties ih =>
    have hproperties : Printable (joinChars [';', ' '] (propertyChars properties)) := by
      apply printable_joinChars (by simp)
      simpa [propertyChars_eq_map] using fun property hproperty =>
        printable_propertyText (ih property hproperty .union)
    rcases chars_object_cases context properties with hempty | hbraced
    · rw [hempty]
      simp
    · rw [hbraced]
      exact printable_braced hproperties
  | mapped ty ih => exact printable_braced (by simp [ih])
  | both left right ihleft ihright =>
    exact printable_parenthesized (by simp [ihleft, ihright])
  | union members ih =>
    have hmembers : Printable (joinChars [' ', '|', ' '] (itemChars .intersection members)) := by
      apply printable_joinChars (by simp)
      simpa [itemChars_eq_map] using fun member hmember => ih member hmember .intersection
    exact printable_parenthesized hmembers

end TypeExpr

/-- A type is written on one line. -/
theorem Ty.printable_render (ty : Ty) : Printable ty.render.toList := by
  rw [render, TypeExpr.text, String.toList_ofList]
  exact TypeExpr.printable_chars _ _

end Printable

section LastCharacter

variable {c : Char}

theorem getLast?_append_ne {text rest : List Char} (htext : text.getLast? ≠ some c)
    (hrest : rest.getLast? ≠ some c) : (text ++ rest).getLast? ≠ some c := by
  rw [List.getLast?_append]
  cases hlast : rest.getLast? with
  | none => simpa using htext
  | some d => rwa [hlast] at hrest

theorem getLast?_append_cons_ne {d : Char} {text rest : List Char}
    (h : (d :: rest).getLast? ≠ some c) : (text ++ d :: rest).getLast? ≠ some c := by
  rwa [List.getLast?_append_cons]

/-- The last character of joined parts is that of the separator or of a part. -/
theorem getLast?_joinChars_ne {separator : List Char} {parts : List (List Char)}
    (hseparator : separator.getLast? ≠ some c) (hparts : ∀ part ∈ parts, part.getLast? ≠ some c) :
    (joinChars separator parts).getLast? ≠ some c := by
  fun_induction joinChars separator parts with
  | case1 => simp
  | case2 part => exact hparts part List.mem_cons_self
  | case3 part rest _ ih =>
    rw [List.forall_mem_cons] at hparts
    exact getLast?_append_ne (getLast?_append_ne hparts.1 hseparator) (ih hparts.2)

theorem Json.getLast?_chars (value : Json) : value.chars.getLast? ≠ some 't' := by
  cases value with
  | null => simp [chars]
  | bool value => cases value <;> simp [chars]
  | num n =>
    intro hlast
    have hnumber := Number.isNumberChar_of_mem_chars (List.mem_of_getLast? hlast)
    simp [NumberLiteral.isNumberChar] at hnumber
  | str s => exact getLast?_append_cons_ne (by simp)
  | arr items => exact getLast?_append_cons_ne (by simp)
  | obj entries => exact getLast?_append_cons_ne (by simp)

theorem TypeExpr.getLast?_parenthesized {wrap : Bool} {text : List Char}
    (h : text.getLast? ≠ some 't') : (parenthesized wrap text).getLast? ≠ some 't' := by
  cases wrap
  · exact h
  · exact getLast?_append_cons_ne (by simp)

theorem TypeExpr.getLast?_braced (text : List Char) : (braced text).getLast? ≠ some 't' :=
  getLast?_append_cons_ne (by simp)

/-- No type expression ends with the word `object`, with which the declaration of `Value`
    ends. It is enough to look at the last letter, which no word for a type has. -/
theorem TypeExpr.getLast?_chars (expr : TypeExpr) (context : Context) :
    (expr.chars context).getLast? ≠ some 't' := by
  induction expr generalizing context with
  | keyword word =>
    show word.text.toList.getLast? ≠ some 't'
    cases word <;> simp [Keyword.text]
  | scalar value => exact value.getLast?_chars
  | tuple items => exact getLast?_parenthesized (getLast?_append_cons_ne (by simp))
  | arrayOf item => exact getLast?_append_cons_ne (by simp)
  | genericArray item => exact getLast?_append_cons_ne (by simp)
  | object properties =>
    rcases chars_object_cases context properties with hempty | hbraced
    · rw [hempty]
      simp
    · rw [hbraced]
      exact getLast?_braced _
  | mapped ty => exact getLast?_braced _
  | both left right ihleft ihright =>
    refine getLast?_parenthesized (getLast?_append_ne ?_ (ihright _))
    simp
  | union members ih =>
    refine getLast?_parenthesized (getLast?_joinChars_ne (by simp) ?_)
    simpa [itemChars_eq_map] using fun member hmember => ih member hmember .intersection

end LastCharacter

namespace Ty

theorem fieldsMentionAny_iff {fields : List (String × Field Ty)} :
    fieldsMentionAny fields = true ↔ ∃ entry ∈ fields, entry.2.ty.mentionsAny = true := by
  induction fields with
  | nil => simp [fieldsMentionAny]
  | cons entry fields ih => simp [fieldsMentionAny, ih]

theorem membersMentionAny_iff {members : List Ty} :
    membersMentionAny members = true ↔ ∃ member ∈ members, member.mentionsAny = true := by
  induction members with
  | nil => simp [membersMentionAny]
  | cons member members ih => simp [membersMentionAny, ih]

/-- An object type mentions `any` in a field or in its index. -/
theorem mentionsAny_object {fields : List (String × Field Ty)} {index : Option Ty} :
    (object fields index).mentionsAny = true ↔
      (∃ entry ∈ fields, entry.2.ty.mentionsAny = true) ∨ ∃ ty ∈ index, ty.mentionsAny = true := by
  cases index with
  | none => simp [mentionsAny, fieldsMentionAny_iff]
  | some index => simp [mentionsAny, fieldsMentionAny_iff]

theorem mentionsAny_of_inside {ty : Ty} (h : Inside .any ty) : ty.mentionsAny = true := by
  induction h with
  | self => rfl
  | item _ ih => exact ih
  | field hentry _ ih => exact mentionsAny_object.mpr (.inl ⟨_, hentry, ih⟩)
  | index hrest _ ih => exact mentionsAny_object.mpr (.inr ⟨_, hrest, ih⟩)
  | member hmember _ ih => exact membersMentionAny_iff.mpr ⟨_, hmember, ih⟩

theorem inside_of_mentionsAny {ty : Ty} (h : ty.mentionsAny = true) : Inside .any ty := by
  induction ty with
  | any => exact .self
  | array item ih => exact .item (ih h)
  | object fields index ihfields ihindex =>
    rcases mentionsAny_object.mp h with ⟨entry, hentry, hany⟩ | ⟨rest, hrest, hany⟩
    · exact .field hentry (ihfields entry hentry hany)
    · exact .index hrest (ihindex rest hrest hany)
  | union members ih =>
    obtain ⟨member, hmember, hany⟩ := membersMentionAny_iff.mp h
    exact .member hmember (ih member hmember hany)
  | _ => cases h

/-- The test finds `any` at any depth, and nothing else. -/
theorem mentionsAny_iff_inside {ty : Ty} : ty.mentionsAny = true ↔ Inside .any ty :=
  ⟨inside_of_mentionsAny, mentionsAny_of_inside⟩

end Ty

section Lines

/-- The lines of a text, if each of them ends with a newline. -/
def lines? (text : String) : Option (List String) :=
  let parts := text.toList.splitOn '\n'
  if parts.getLast? = some [] then some (parts.dropLast.map String.ofList) else none

/-- The lines of a text, parted where a line is empty. -/
def paragraphs? (text : String) : Option (List (List String)) :=
  (lines? text).map fun lines => if lines = [] then [] else lines.splitOn ""

/-- Lines are read back from the text that they are put together to, if none of
    them has a newline in it. -/
theorem lines?_intercalate {lines : List String} (h : ∀ line ∈ lines, '\n' ∉ line.toList) :
    lines? ("\n".intercalate (lines ++ [""])) = some lines := by
  have hparts : ("\n".intercalate (lines ++ [""])).toList.splitOn '\n' =
      lines.map String.toList ++ [[]] := by
    rw [String.toList_intercalate, List.map_append]
    apply List.splitOn_intercalate
    · simpa [or_imp, forall_and] using h
    · simp
  rw [lines?, hparts]
  simp [Function.comp_def]

theorem intersperse_eq_intercalate {α : Type} (x : α) (items : List α) :
    items.intersperse x = [x].intercalate (items.map ([·])) := by
  fun_induction List.intersperse x items with
  | case1 => rfl
  | case2 item => rfl
  | case3 item rest hrest ih =>
    rw [List.map_cons, List.intercalate_cons_of_ne_nil (by simpa using hrest), ih]
    rfl

theorem eq_or_mem_of_mem_intersperse {α : Type} {x item : α} {items : List α}
    (h : item ∈ items.intersperse x) : item = x ∨ item ∈ items := by
  fun_induction List.intersperse x items with
  | case1 => cases h
  | case2 other => exact .inr h
  | case3 other rest _ ih =>
    simp only [List.mem_cons] at h ⊢
    rcases h with rfl | rfl | h
    · exact .inr (.inl rfl)
    · exact .inl rfl
    · exact (ih h).imp_right .inr

/-- Items with a separator between any two are parted again, if none of them is
    the separator. -/
theorem splitOn_intersperse {α : Type} [BEq α] [LawfulBEq α] {x : α} {items : List α}
    (hne : items ≠ []) (hitems : x ∉ items) :
    (items.intersperse x).splitOn x = items.map ([·]) := by
  rw [intersperse_eq_intercalate]
  apply List.splitOn_intercalate
  · rw [List.forall_mem_map]
    intro item hitem hx
    rw [List.mem_singleton] at hx
    exact hitems (hx ▸ hitem)
  · simpa using hne

end Lines

namespace Declarations

/-- A line of text that is not empty. -/
structure IsLine (line : String) : Prop where
  ne_empty : line ≠ ""
  newline_not_mem : '\n' ∉ line.toList

theorem toList_typeLine (name : String) (ty : Ty) :
    (typeLine name ty).toList =
      "export type ".toList ++ name.toList ++ [' ', '=', ' '] ++ ty.render.toList ++ [';'] := by
  have hline : typeLine name ty = "export type " ++ name ++ " = " ++ ty.render ++ ";" := rfl
  rw [hline, String.toList_append, String.toList_append, String.toList_append,
    String.toList_append]
  rfl

/-- The declaration of a type is a line of its own. -/
theorem isLine_typeLine {name : String} (hname : '\n' ∉ name.toList) (ty : Ty) :
    IsLine (typeLine name ty) := by
  have hrender := ty.printable_render.newline_not_mem
  constructor
  · intro hempty
    have htext := congrArg String.toList hempty
    simp [toList_typeLine] at htext
  · simp [toList_typeLine, hname, hrender]

theorem isLine_valueLine : IsLine valueLine := by
  constructor
  · decide
  · decide

/-- The declaration of `Value` is not that of another type, by whatever name,
    since the two end differently. -/
theorem typeLine_ne_valueLine (name : String) (ty : Ty) : typeLine name ty ≠ valueLine := by
  intro h
  have hrender : ty.render.toList.getLast? ≠ some 't' := by
    rw [Ty.render, TypeExpr.text, String.toList_ofList]
    exact TypeExpr.getLast?_chars _ _
  -- The names may be anything, so the two lines are compared before the semicolon at the end.
  have hlast := congrArg (fun line => line.toList.dropLast.getLast?) h
  simp only [toList_typeLine, List.dropLast_concat] at hlast
  exact getLast?_append_ne (getLast?_append_cons_ne (by simp)) hrender hlast

section Emission

variable {declarations : Declarations} {name : String} {ty : Ty}

/-- If `any` does not occur in the type, or `Value` is declared already, one line
    is added. -/
theorem emit_settled (h : ty.mentionsAny = true → declarations.valueDeclared = true) :
    declarations.emit name ty =
      { declarations with lines := declarations.lines ++ [typeLine name ty] } := by
  rw [emit, if_neg]
  simpa using h

/-- The first type that `any` occurs in brings the declaration of `Value` with it,
    which comes in front. -/
theorem emit_first (h : declarations.valueDeclared = false) (hty : ty.mentionsAny = true) :
    declarations.emit name ty =
      ⟨declarations.lines ++ [valueLine, typeLine name ty], true⟩ := by
  rw [emit, if_pos]
  simp [h, hty]

/-- Once `Value` is declared, or as long as it is not needed, one line is added
    for each type. The induction is on the list of types, over all that was
    declared before. -/
theorem foldl_emit_settled {types : List (String × Ty)}
    (h : ∀ type ∈ types, type.2.mentionsAny = true → declarations.valueDeclared = true) :
    types.foldl (fun declarations type => declarations.emit type.1 type.2) declarations =
      { declarations with
        lines := declarations.lines ++ types.map fun type => typeLine type.1 type.2 } := by
  induction types generalizing declarations with
  | nil => simp
  | cons type types ih =>
    rw [List.forall_mem_cons] at h
    rw [List.foldl_cons, emit_settled h.1, ih]
    · simp
    · exact h.2

theorem lines_ofList_of_none {types : List (String × Ty)}
    (h : ∀ type ∈ types, ¬ Ty.Inside .any type.2) :
    (ofList types).lines = types.map fun type => typeLine type.1 type.2 := by
  rw [ofList, foldl_emit_settled]
  · simp
  · intro type htype hany
    exact absurd (Ty.mentionsAny_iff_inside.mp hany) (h type htype)

/-- The types before the first one that `any` occurs in, the declaration of
    `Value`, and all other types. -/
theorem lines_ofList_of_first {front back : List (String × Ty)} {type : String × Ty}
    (hfront : ∀ type ∈ front, ¬ Ty.Inside .any type.2) (htype : Ty.Inside .any type.2) :
    (ofList (front ++ type :: back)).lines =
      (front.map fun type => typeLine type.1 type.2) ++
        valueLine :: (type :: back).map fun type => typeLine type.1 type.2 := by
  have hbefore : ∀ type ∈ front, type.2.mentionsAny = true → ({} : Declarations).valueDeclared := by
    intro type htype hany
    exact absurd (Ty.mentionsAny_iff_inside.mp hany) (hfront type htype)
  rw [ofList, List.foldl_append, foldl_emit_settled hbefore, List.foldl_cons,
    emit_first rfl (Ty.mentionsAny_iff_inside.mpr htype), foldl_emit_settled fun _ _ _ => rfl]
  simp

theorem isLine_emit (h : ∀ line ∈ declarations.lines, IsLine line) (hname : '\n' ∉ name.toList) :
    ∀ line ∈ (declarations.emit name ty).lines, IsLine line := by
  have hline := isLine_typeLine hname ty
  unfold emit
  split <;> simp only [List.forall_mem_append, List.forall_mem_cons]
  · exact ⟨h, isLine_valueLine, hline, by simp⟩
  · exact ⟨h, hline, by simp⟩

/-- All that is declared stands on lines that are not empty, if no name has a
    newline in it. -/
theorem isLine_ofList {types : List (String × Ty)} (h : ∀ type ∈ types, '\n' ∉ type.1.toList) :
    ∀ line ∈ (ofList types).lines, IsLine line := by
  apply List.foldlRecOn (motive := fun result : Declarations => ∀ line ∈ result.lines, IsLine line)
  · simp
  · intro declarations hlines type htype
    exact isLine_emit hlines (h type htype)

end Emission

theorem text_eq_intercalate (declarations : Declarations) :
    declarations.text = "\n".intercalate (declarations.lines.intersperse "" ++ [""]) := by
  unfold text
  fun_induction List.intersperse "" declarations.lines with
  | case1 => rfl
  | case2 line => simp [String.intercalate_cons_cons]
  | case3 line rest hrest ih =>
    -- The newline that ends a line and the one that parts two lines enclose an empty line.
    have hmap : rest.map (· ++ "\n") ≠ [] := by simpa using hrest
    rw [List.map_cons, String.intercalate_cons_of_ne_nil hmap, ih]
    simp only [List.cons_append, String.intercalate_cons_cons, String.append_assoc]
    rw [String.intercalate_cons_of_ne_nil (by simp), String.empty_append]

/-- The lines can be told from the text, since an empty line stands between any
    two of them and none of them is empty. -/
theorem paragraphs?_text {declarations : Declarations}
    (h : ∀ line ∈ declarations.lines, IsLine line) :
    paragraphs? declarations.text = some (declarations.lines.map ([·])) := by
  have hlines : lines? declarations.text = some (declarations.lines.intersperse "") := by
    rw [text_eq_intercalate]
    apply lines?_intercalate
    intro line hline
    rcases eq_or_mem_of_mem_intersperse hline with rfl | hmem
    · simp
    · exact (h line hmem).newline_not_mem
  rw [paragraphs?, hlines, Option.map_some]
  have hempty : "" ∉ declarations.lines := fun hmem => (h "" hmem).ne_empty rfl
  cases hcases : declarations.lines with
  | nil => rfl
  | cons line rest =>
    rw [hcases] at hempty
    rw [if_neg, splitOn_intersperse (List.cons_ne_nil line rest) hempty]
    cases rest <;> simp

/-- Declarations are read back from their text as they were given, one in each
    paragraph. The declaration of `Value` stands before the first type that `any`
    occurs in, and nowhere else. -/
theorem text_ofList_reads_back {types : List (String × Ty)}
    (hnames : ∀ type ∈ types, '\n' ∉ type.1.toList) :
    ((∀ type ∈ types, ¬ Ty.Inside .any type.2) →
      paragraphs? (ofList types).text = some (types.map fun type => [typeLine type.1 type.2])) ∧
    (∀ front type back, types = front ++ type :: back →
      (∀ type ∈ front, ¬ Ty.Inside .any type.2) → Ty.Inside .any type.2 →
      paragraphs? (ofList types).text =
        some ((front.map fun type => [typeLine type.1 type.2]) ++
          [valueLine] :: (type :: back).map fun type => [typeLine type.1 type.2])) ∧
    (∀ name ty, typeLine name ty ≠ valueLine) ∧
    ∀ ty : Ty, Printable ty.render.toList := by
  have hread := paragraphs?_text (isLine_ofList hnames)
  refine ⟨fun hnone => ?_, ?_, typeLine_ne_valueLine, Ty.printable_render⟩
  · simp [hread, lines_ofList_of_none hnone]
  · rintro front type back rfl hfront htype
    simp [hread, lines_ofList_of_first hfront htype, Function.comp_def]

/-- A text and a name with a newline in them, and two types that `any` occurs in,
    of which the second is `any` itself. -/
theorem text_ofList_reads_back_list :
    let text := Ty.literal (.str "a\nb")
    let list := Ty.array (.object [("c\nd", ⟨.any, true⟩)] none)
    paragraphs? (ofList [("Text", text), ("List", list), ("Any", .any)]).text =
      some [["export type Text = \"a\\nb\";"],
        ["export type Value = null | number | string | boolean | readonly Value[] | object;"],
        ["export type List = \x7b \"c\\nd\"?: Value \x7d[];"], ["export type Any = Value;"]] := by
  intro text list
  have hnames : ∀ type ∈ [("Text", text), ("List", list), ("Any", .any)],
      '\n' ∉ type.1.toList := by
    simp
  have hfront : ∀ type ∈ [("Text", text)], ¬ Ty.Inside .any type.2 := by
    rw [List.forall_mem_singleton, ← Ty.mentionsAny_iff_inside]
    decide
  have hlist : Ty.Inside .any list := .item (.field List.mem_cons_self .self)
  exact (text_ofList_reads_back hnames).2.1 [("Text", text)] ("List", list) [("Any", .any)] rfl
    hfront hlist

end Declarations

end SchemaTypes
