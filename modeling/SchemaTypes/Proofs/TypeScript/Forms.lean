import SchemaTypes.Proofs.TypeScript.Words

namespace SchemaTypes

namespace TypeExpr

open Json (skipBlanks skipBlanks_cons)

/-- Induction over an expression and all expressions inside it, which stand in
    lists and in properties. -/
@[elab_as_elim, induction_eliminator]
theorem nestedInduction {motive : TypeExpr → Prop} (keyword : ∀ word, motive (.keyword word))
    (scalar : ∀ value, motive (.scalar value))
    (tuple : ∀ items, (∀ item ∈ items, motive item) → motive (.tuple items))
    (arrayOf : ∀ item, motive item → motive (.arrayOf item))
    (genericArray : ∀ item, motive item → motive (.genericArray item))
    (object : ∀ properties, (∀ property ∈ properties, motive property.ty) →
      motive (.object properties))
    (mapped : ∀ ty, motive ty → motive (.mapped ty))
    (both : ∀ left right, motive left → motive right → motive (.both left right))
    (union : ∀ members, (∀ member ∈ members, motive member) → motive (.union members)) :
    ∀ expr, motive expr
  | .keyword word => keyword word
  | .scalar value => scalar value
  | .tuple items => tuple items fun item _ =>
      nestedInduction keyword scalar tuple arrayOf genericArray object mapped both union item
  | .arrayOf item => arrayOf item
      (nestedInduction keyword scalar tuple arrayOf genericArray object mapped both union item)
  | .genericArray item => genericArray item
      (nestedInduction keyword scalar tuple arrayOf genericArray object mapped both union item)
  | .object properties => object properties fun property _ =>
      nestedInduction keyword scalar tuple arrayOf genericArray object mapped both union property.ty
  | .mapped ty => mapped ty
      (nestedInduction keyword scalar tuple arrayOf genericArray object mapped both union ty)
  | .both left right => both left right
      (nestedInduction keyword scalar tuple arrayOf genericArray object mapped both union left)
      (nestedInduction keyword scalar tuple arrayOf genericArray object mapped both union right)
  | .union members => union members fun member _ =>
      nestedInduction keyword scalar tuple arrayOf genericArray object mapped both union member
termination_by expr => sizeOf expr
decreasing_by
  · have := List.sizeOf_lt_of_mem (by assumption)
    simp only [TypeExpr.tuple.sizeOf_spec]
    omega
  · simp
  · simp
  · rename_i hproperty
    have := List.sizeOf_lt_of_mem hproperty
    obtain ⟨name, readonly, optional, ty⟩ := property
    simp only [TypeExpr.object.sizeOf_spec, Property.mk.sizeOf_spec] at this ⊢
    omega
  · simp
  · simp only [TypeExpr.both.sizeOf_spec]
    omega
  · simp only [TypeExpr.both.sizeOf_spec]
    omega
  · have := List.sizeOf_lt_of_mem (by assumption)
    simp only [TypeExpr.union.sizeOf_spec]
    omega

mutual

/-- The expression that is read where the given one is written. The text `null`
    does not tell the literal from the word, and it is read as the word. -/
def asRead : TypeExpr → TypeExpr
  | .keyword word => .keyword word
  | .scalar .null => .keyword .null
  | .scalar value => .scalar value
  | .tuple items => .tuple (asReadItems items)
  | .arrayOf item => .arrayOf (asRead item)
  | .genericArray item => .genericArray (asRead item)
  | .object properties => .object (asReadProperties properties)
  | .mapped ty => .mapped (asRead ty)
  | .both left right => .both (asRead left) (asRead right)
  | .union members => .union (asReadItems members)

def asReadItems : List TypeExpr → List TypeExpr
  | [] => []
  | item :: rest => asRead item :: asReadItems rest

def asReadProperties : List (Property TypeExpr) → List (Property TypeExpr)
  | [] => []
  | ⟨name, readonly, optional, ty⟩ :: rest =>
    ⟨name, readonly, optional, asRead ty⟩ :: asReadProperties rest

end

section Levels

variable {depth : Nat} {text : List Char} {expr : TypeExpr}

/-- Where a suffix is read, the suffixes that follow go to the type as well. -/
def ReadsBeforeSuffix (depth : Nat) (text : List Char) (expr : TypeExpr) : Prop :=
  ∀ rest, EndsWord rest →
    readPostfix depth (readType depth) (text ++ rest) = some (readSuffixes expr rest)

theorem readSuffixes_of_head {rest : List Char} (h : rest.head? ≠ some '[') :
    readSuffixes expr rest = (expr, rest) := by
  unfold readSuffixes
  split
  next => exact absurd rfl h
  next => rfl

/-- What is read where a suffix may follow is an operand of `&`, if no suffix does
    follow. -/
theorem ReadsBeforeSuffix.operand (h : ReadsBeforeSuffix depth text expr) :
    ReadsAs (readOperand depth (readType depth)) EndsOperand text expr := by
  intro rest hrest
  rw [readOperand, h rest hrest.word, readSuffixes_of_head hrest.suffix]

/-- A single operand is an intersection, if no `&` follows. -/
theorem readsAs_intersection
    (h : ReadsAs (readOperand depth (readType depth)) EndsOperand text expr) :
    ReadsAs (readIntersection depth (readType depth)) EndsIntersection text expr := by
  intro rest hrest
  rw [readIntersection, readSeparated_single (h rest hrest.toEndsOperand) hrest.ampersand]
  rfl

/-- A single intersection is a union, if no `|` follows. With the lemma before it,
    this takes a type from the place where it binds tightest to the others. -/
theorem readsAs_union
    (h : ReadsAs (readIntersection depth (readType depth)) EndsIntersection text expr) :
    ReadsAs (readUnion depth (readType depth)) EndsUnion text expr := by
  intro rest hrest
  rw [readUnion, readSeparated_single (h rest hrest.toEndsIntersection) hrest.bar]
  rfl

/-- A type is read as a union that is nested one level less deep. A text is longer
    than it is deep, so that its length may stand in for the depth. -/
theorem readsAs_readType
    (h : ∀ depth, text.length ≤ depth →
      ReadsAs (readUnion depth (readType depth)) EndsUnion text expr) (hdepth : text.length < depth) :
    ReadsAs (readType depth) EndsUnion text expr := by
  cases depth with
  | zero => omega
  | succ depth => exact h depth (by omega)

end Levels

section Fits

-- The marks that can stand behind a type in the place of each level.
variable (s : List Char)

theorem endsWord_cons {c : Char} (h : isNameChar c = false) (hpoint : c ≠ '.') : EndsWord (c :: s) := by
  rintro d (_ | _)
  exact ⟨h, hpoint⟩

theorem endsOperand_ampersand : EndsOperand ([' ', '&', ' '] ++ s) :=
  ⟨endsWord_cons _ (by decide) (by decide), by simp⟩

theorem endsIntersection_bar : EndsIntersection ([' ', '|', ' '] ++ s) :=
  ⟨⟨endsWord_cons _ (by decide) (by decide), by simp⟩, rfl⟩

theorem endsUnion_nil : EndsUnion [] :=
  ⟨⟨⟨by simp [EndsWord], by simp⟩, rfl⟩, rfl⟩

theorem endsUnion_cons {c : Char} (h : c ∈ [')', '>', ',', ']', ';']) : EndsUnion (c :: s) := by
  simp only [List.mem_cons, List.not_mem_nil, or_false] at h
  rcases h with rfl | rfl | rfl | rfl | rfl <;>
    exact ⟨⟨⟨endsWord_cons _ (by decide) (by decide), by simp⟩, rfl⟩, rfl⟩

theorem endsUnion_brace : EndsUnion (' ' :: '\x7d' :: s) :=
  ⟨⟨⟨endsWord_cons _ (by decide) (by decide), by simp⟩, rfl⟩, rfl⟩

end Fits

section Primaries

variable {marks : Nat} {reader : Reader TypeExpr} {expr : TypeExpr}

theorem readPrimary_of_isNameStart {c : Char} (h : isNameStart c = true) (s : List Char) :
    readPrimary marks reader (c :: s) = readNamed reader (c :: s) := by
  have hother : ∀ d, isNameStart d = false → c ≠ d := by
    rintro d hd rfl
    simp [h] at hd
  have hblank : Json.isBlank c = false := isBlank_of_isNameChar (by simp [isNameChar, h])
  simp only [readPrimary, skipBlanks_cons hblank, hother '(' (by decide), hother '\x7b' (by decide),
    hother '"' (by decide), h, if_true, if_false]

/-- A word is read as the type that it is the name of. The word `Array` is left
    out, as it is no type by itself. -/
theorem readsAs_word {c : Char} {letters : List Char} (hstart : isNameStart c = true)
    (hletters : (c :: letters).all isNameChar = true) (harray : c :: letters ≠ "Array".toList)
    (hword : ofWord? (c :: letters) = some expr) :
    ReadsAs (readPrimary marks reader) EndsWord (c :: letters) expr := by
  intro rest hrest
  rw [List.all_eq_true] at hletters
  have hread := readWord_append (by simp) hletters hrest
  have hgiven := readGiven_append (by simp) hletters hrest "Array"
  rw [if_neg harray] at hgiven
  rw [List.cons_append] at hread hgiven ⊢
  rw [readPrimary_of_isNameStart hstart, readNamed, hgiven]
  simp only [hread, hword, Option.bind_eq_bind, Option.bind_some]

theorem readsAs_keyword (word : Keyword) :
    ReadsAs (readPrimary marks reader) EndsWord word.text.toList (.keyword word) := by
  cases word <;> exact readsAs_word rfl rfl (by decide) rfl

theorem readsAs_bool (b : Bool) :
    ReadsAs (readPrimary marks reader) EndsWord (Json.bool b).chars (.scalar (.bool b)) := by
  cases b <;> exact readsAs_word rfl rfl (by decide) rfl

theorem isNameStart_of_isDigit {c : Char} (h : c.isDigit = true) : isNameStart c = false := by
  have hne : c ≠ '_' ∧ c ≠ '$' := by
    constructor <;> rintro rfl <;> simp at h
  have halpha : c.isAlpha = (decide (c.val ≥ 'A'.val ∧ c.val ≤ 'Z'.val) ||
      (decide (c.val ≥ 'a'.val) && decide (c.val ≤ 'z'.val))) := rfl
  simp only [Char.isDigit, Bool.and_eq_true, decide_eq_true_eq, UInt32.le_iff_toNat_le,
    Char.reduceVal, UInt32.reduceToNat, ge_iff_le] at h
  simp only [isNameStart, halpha, Bool.or_eq_false_iff, Bool.and_eq_false_iff,
    decide_eq_false_iff_not, UInt32.le_iff_toNat_le, Char.reduceVal, UInt32.reduceToNat, ge_iff_le,
    beq_eq_false_iff_ne]
  refine ⟨⟨⟨?_, ?_⟩, hne.1⟩, hne.2⟩ <;> omega

theorem EndsWord.endsNumber {rest : List Char} (h : EndsWord rest) : EndsNumber rest := by
  intro c hc
  obtain ⟨hname, hpoint⟩ := h c hc
  simp only [isNameChar, Bool.or_eq_false_iff] at hname
  refine ⟨hname.2, hpoint, ?_, ?_⟩ <;> rintro rfl <;> simp [isNameStart] at hname

/-- A number is read back, with its sign, up to the next character that cannot
    belong to it. -/
theorem readsAs_num (n : Number) :
    ReadsAs (readPrimary marks reader) EndsWord n.chars (.scalar (.num n)) := by
  intro rest hrest
  obtain ⟨c, cs, hchars, hc⟩ := n.head_chars
  have hread := n.read_append hrest.endsNumber
  have hstart : isNameStart c = false := by
    obtain hdigit | rfl := hc
    · exact isNameStart_of_isDigit hdigit
    · decide
  have hblank : Json.isBlank c = false := by
    obtain hdigit | rfl := hc
    · exact isBlank_of_isNameChar (by simp [isNameChar, hdigit])
    · decide
  have hother : c ≠ '(' ∧ c ≠ '\x7b' ∧ c ≠ '"' := by
    refine ⟨?_, ?_, ?_⟩ <;> rintro rfl <;> simp at hc
  rw [hchars, List.cons_append] at hread ⊢
  simp only [readPrimary, skipBlanks_cons hblank, hother, hstart, hread, if_false,
    Bool.false_eq_true, Option.bind_eq_bind, Option.bind_some]

/-- A text is read back from its quotes with all its characters. -/
theorem readsAs_str (text : String) :
    ReadsAs (readPrimary marks reader) EndsWord (Json.quotedChars text) (.scalar (.str text)) := by
  intro rest _
  have hskip : ∀ s, skipBlanks ('"' :: s) = '"' :: s := fun _ => rfl
  simp only [Json.quotedChars, List.cons_append, List.append_assoc, List.nil_append, readPrimary,
    hskip, readText_append, Char.reduceEq, if_true, if_false, Option.bind_eq_bind, Option.bind_some]

end Primaries

section Brackets

variable {marks : Nat} {reader : Reader TypeExpr} {expr : TypeExpr}

/-- A type in parentheses can stand where a type of a single word can. -/
theorem readsAs_parentheses {text : List Char} (h : ReadsAs reader EndsUnion text expr) :
    ReadsAs (readPrimary marks reader) EndsWord ('(' :: text ++ [')']) expr := by
  intro rest _
  have hskip : ∀ s, skipBlanks ('(' :: s) = '(' :: s := fun _ => rfl
  have hclose : readMark ')' (')' :: rest) = some rest := rfl
  have hinner := h (')' :: rest) (endsUnion_cons rest (by simp))
  simp only [List.cons_append, List.append_assoc, List.nil_append, readPrimary, hskip, if_true,
    hinner, hclose, Option.bind_eq_bind, Option.bind_some]

theorem readsAs_genericArray {text : List Char} (h : ReadsAs reader EndsUnion text expr) :
    ReadsAs (readPrimary marks reader) EndsWord ("Array<".toList ++ text ++ ['>'])
      (.genericArray expr) := by
  intro rest _
  have hnamed : ∀ s, readPrimary marks reader ("Array<".toList ++ s) =
      readNamed reader ("Array<".toList ++ s) := fun s =>
    readPrimary_of_isNameStart (by decide) ("rray<".toList ++ s)
  have hgiven : ∀ s, readGiven "Array" ("Array<".toList ++ s) = some ('<' :: s) := fun _ => rfl
  have hopen : ∀ s, readMark '<' ('<' :: s) = some s := fun _ => rfl
  have hclose : readMark '>' ('>' :: rest) = some rest := rfl
  have hinner := h ('>' :: rest) (endsUnion_cons rest (by simp))
  simp only [List.append_assoc, List.cons_append, List.nil_append, hnamed, readNamed, hgiven, hopen,
    hinner, hclose, Option.bind_eq_bind, Option.bind_some]

/-- The text of one property. -/
def propertyText (property : Property TypeExpr) : List Char :=
  (if property.readonly then "readonly ".toList else []) ++ nameChars property.name ++
    (if property.optional then ['?'] else []) ++ [':', ' '] ++ property.ty.chars .union

/-- The type of a property is shorter than the property, which keeps the depth
    within bounds. -/
theorem length_ty_lt_propertyText (property : Property TypeExpr) :
    (property.ty.chars .union).length < (propertyText property).length := by
  simp only [propertyText, List.length_append, List.length_cons]
  omega

/-- The property that is read where the given one is written. -/
def propertyAsRead (property : Property TypeExpr) : Property TypeExpr :=
  { property with ty := property.ty.asRead }

theorem propertyChars_eq_map (properties : List (Property TypeExpr)) :
    propertyChars properties = properties.map propertyText := by
  induction properties with
  | nil => rfl
  | cons property properties ih => exact congrArg (propertyText property :: ·) ih

theorem asReadProperties_eq_map (properties : List (Property TypeExpr)) :
    asReadProperties properties = properties.map propertyAsRead := by
  induction properties with
  | nil => rfl
  | cons property properties ih => exact congrArg (propertyAsRead property :: ·) ih

theorem itemChars_eq_map (context : Context) (items : List TypeExpr) :
    itemChars context items = items.map (chars context) := by
  induction items with
  | nil => rfl
  | cons item items ih => exact congrArg (item.chars context :: ·) ih

theorem asReadItems_eq_map (items : List TypeExpr) : asReadItems items = items.map asRead := by
  induction items with
  | nil => rfl
  | cons item items ih => exact congrArg (item.asRead :: ·) ih

/-- The word `readonly` is a modifier where a name follows. -/
theorem readModifier_readonly {s : List Char} (h : (readName s).isSome = true) :
    readModifier ("readonly ".toList ++ s) = (true, ' ' :: s) := by
  have hgiven : readGiven "readonly" ("readonly ".toList ++ s) = some (' ' :: s) := rfl
  rw [readModifier, hgiven]
  simp only [readName_blank, h, if_true]

/-- A property is read back with its name, its two marks and its type. -/
theorem readsAs_property (hblank : ∀ s, reader (' ' :: s) = reader s) {property : Property TypeExpr}
    (h : ReadsAs reader EndsUnion (property.ty.chars .union) property.ty.asRead) :
    ReadsAs (readProperty reader) EndsUnion (propertyText property) (propertyAsRead property) := by
  intro rest hrest
  obtain ⟨name, readonly, optional, ty⟩ := property
  let tail := (if optional then ['?'] else []) ++ ':' :: ' ' :: (ty.chars .union ++ rest)
  have htext : propertyText ⟨name, readonly, optional, ty⟩ ++ rest =
      (if readonly then "readonly ".toList else []) ++ (nameChars name ++ tail) := by
    simp only [propertyText, tail, List.append_assoc, List.cons_append, List.nil_append]
  have hends : EndsWord tail := by
    cases optional <;> exact endsWord_cons _ (by decide) (by decide)
  have hname : readName (nameChars name ++ tail) = some (name, tail) := readName_append name hends
  obtain ⟨s, hmodifier, hs⟩ : ∃ s, readModifier (propertyText ⟨name, readonly, optional, ty⟩ ++ rest) =
      (readonly, s) ∧ readName s = some (name, tail) := by
    rw [htext]
    cases readonly with
    | true => exact ⟨_, readModifier_readonly (by simp [hname]), hname⟩
    | false => exact ⟨_, readModifier_name name hends (by cases optional <;> rfl), hname⟩
  have hoptional : readOptional tail = (optional, ':' :: ' ' :: (ty.chars .union ++ rest)) := by
    cases optional <;> rfl
  have hcolon : ∀ s, readMark ':' (':' :: s) = some s := fun _ => rfl
  have hty := h rest hrest
  simp only [readProperty, hmodifier, hs, hoptional, hcolon, hblank, hty, Option.bind_eq_bind,
    Option.bind_some, propertyAsRead]

theorem readPrimary_brace {s tail rest : List Char}
    (hbody : readBody marks reader s = some (expr, tail)) (hclose : readMark '\x7d' tail = some rest) :
    readPrimary marks reader ('\x7b' :: s) = some (expr, rest) := by
  have hskip : skipBlanks ('\x7b' :: s) = '\x7b' :: s := rfl
  simp only [readPrimary, hskip, Char.reduceEq, if_true, if_false, hbody, hclose,
    Option.bind_eq_bind, Option.bind_some]

theorem readsAs_noProperties :
    ReadsAs (readPrimary marks reader) EndsWord ['\x7b', '\x7d'] (.object []) := by
  intro rest _
  have hbody : readBody marks reader ('\x7d' :: rest) = some (.object [], '\x7d' :: rest) := by
    cases marks <;> rfl
  exact readPrimary_brace hbody rfl

/-- Properties in braces are read back one after the other. There is at least one,
    since the braces stand close to each other otherwise. -/
theorem readsAs_properties (hblank : ∀ s, reader (' ' :: s) = reader s)
    {property : Property TypeExpr} {properties : List (Property TypeExpr)}
    (hmarks : properties.length ≤ marks)
    (h : ∀ p ∈ property :: properties, ReadsAs reader EndsUnion (p.ty.chars .union) p.ty.asRead) :
    ReadsAs (readPrimary marks reader) EndsWord
      (braced (joinChars [';', ' '] ((property :: properties).map propertyText)))
      (.object ((property :: properties).map propertyAsRead)) := by
  intro rest _
  have hread : readSeparated ';' (readProperty reader) marks
      (joinChars [';', ' '] ((property :: properties).map propertyText) ++ ' ' :: '\x7d' :: rest) =
        some ((propertyAsRead property, properties.map propertyAsRead), ' ' :: '\x7d' :: rest) :=
    readSeparated_joinChars (readProperty_blank reader) (fun _ => rfl)
      (fun s => endsUnion_cons (' ' :: s) (by simp)) (fun p hp => readsAs_property hblank (h p hp))
      hmarks (endsUnion_brace rest) rfl
  have hbody : readBody marks reader (' ' :: (joinChars [';', ' ']
      ((property :: properties).map propertyText) ++ ' ' :: '\x7d' :: rest)) =
        some (.object ((property :: properties).map propertyAsRead), ' ' :: '\x7d' :: rest) := by
    rw [readBody, readSeparated_blank _ _ (readProperty_blank ..), hread]
    rfl
  simp only [braced, List.cons_append, List.append_assoc, List.nil_append]
  exact readPrimary_brace hbody rfl

/-- A type for all names is read back. It is told from properties by the bracket. -/
theorem readsAs_mapped (hblank : ∀ s, reader (' ' :: s) = reader s) {text : List Char}
    (h : ReadsAs reader EndsUnion text expr) :
    ReadsAs (readPrimary marks reader) EndsWord (braced ("[K in string]?: ".toList ++ text))
      (.mapped expr) := by
  intro rest _
  have hmapped : ∀ s, readBody marks reader (' ' :: ("[K in string]?: ".toList ++ s)) =
      (reader (' ' :: s)).bind fun read => some (.mapped read.1, read.2) := by
    intro s
    cases marks <;> rfl
  have hinner := h (' ' :: '\x7d' :: rest) (endsUnion_brace rest)
  have hbody : readBody marks reader
      (' ' :: ("[K in string]?: ".toList ++ (text ++ ' ' :: '\x7d' :: rest))) =
        some (.mapped expr, ' ' :: '\x7d' :: rest) := by
    rw [hmapped, hblank, hinner, Option.bind_some]
  simp only [braced, List.cons_append, List.append_assoc, List.nil_append]
  exact readPrimary_brace hbody rfl

/-- The items of a tuple are read back one after the other, also if there are none. -/
theorem readItems_joinChars (hblank : ∀ s, reader (' ' :: s) = reader s)
    (hnone : ∀ s, reader (']' :: s) = none) {items : List TypeExpr}
    (hmarks : items.length ≤ marks + 1)
    (h : ∀ item ∈ items, ReadsAs reader EndsUnion (item.chars .union) item.asRead)
    (rest : List Char) :
    readItems marks reader (joinChars [',', ' '] (items.map (chars .union)) ++ ']' :: rest) =
      (items.map asRead, ']' :: rest) := by
  cases items with
  | nil =>
    have hread : readSeparated ',' reader marks (']' :: rest) = none := by
      cases marks <;> simp [readSeparated, hnone]
    rw [readItems, List.map_nil, List.map_nil, joinChars, List.nil_append, hread]
  | cons item items =>
    rw [readItems, readSeparated_joinChars hblank (fun _ => rfl)
      (fun s => endsUnion_cons (' ' :: s) (by simp)) h (Nat.le_of_succ_le_succ hmarks)
      (endsUnion_cons rest (by simp)) rfl]
    rfl

theorem readsAs_tuple (hblank : ∀ s, reader (' ' :: s) = reader s)
    (hnone : ∀ s, reader (']' :: s) = none) {items : List TypeExpr}
    (hmarks : items.length ≤ marks + 1)
    (h : ∀ item ∈ items, ReadsAs reader EndsUnion (item.chars .union) item.asRead) :
    ReadsAs (readOperand marks reader) EndsOperand
      ("readonly [".toList ++ joinChars [',', ' '] (items.map (chars .union)) ++ [']'])
      (.tuple (items.map asRead)) := by
  intro rest _
  have hpostfix : ∀ s, readPostfix marks reader ("readonly [".toList ++ s) = none := fun _ => rfl
  have hgiven : ∀ s, readGiven "readonly" ("readonly [".toList ++ s) = some (' ' :: '[' :: s) :=
    fun _ => rfl
  have hopen : ∀ s, readMark '[' (' ' :: '[' :: s) = some s := fun _ => rfl
  have hclose : readMark ']' (']' :: rest) = some rest := rfl
  have hitems := readItems_joinChars hblank hnone hmarks h rest
  simp only [List.append_assoc, List.cons_append, List.nil_append, readOperand, hpostfix, readTuple,
    hgiven, hopen, hitems, hclose, Option.bind_eq_bind, Option.bind_some]

theorem beforeSuffix_of_primary {depth : Nat} {text : List Char}
    (h : ReadsAs (readPrimary depth (readType depth)) EndsWord text expr) :
    ReadsBeforeSuffix depth text expr := by
  intro rest hrest
  rw [readPostfix, h rest hrest]
  rfl

/-- A type of any form may have a suffix if it stands in parentheses. -/
theorem beforeSuffix_parentheses {depth : Nat} {text : List Char}
    (h : ∀ depth, text.length ≤ depth →
      ReadsAs (readUnion depth (readType depth)) EndsUnion text expr)
    (hdepth : ('(' :: text ++ [')']).length ≤ depth) :
    ReadsBeforeSuffix depth ('(' :: text ++ [')']) expr := by
  apply beforeSuffix_of_primary
  apply readsAs_parentheses
  apply readsAs_readType h
  simp at hdepth
  omega

end Brackets

section Operators

variable {depth : Nat} {text leftText rightText : List Char} {expr left right : TypeExpr}

/-- A suffix may follow a type with a suffix. -/
theorem ReadsBeforeSuffix.arrayOf (h : ReadsBeforeSuffix depth text expr) :
    ReadsBeforeSuffix depth (text ++ ['[', ']']) (.arrayOf expr) := by
  intro rest _
  have hitem := h ('[' :: ']' :: rest) (endsWord_cons _ (by decide) (by decide))
  rw [List.append_assoc]
  exact hitem

/-- Two operands with `&` between them are read as an intersection of the two. -/
theorem readsAs_both (hdepth : 0 < depth)
    (hleft : ReadsAs (readOperand depth (readType depth)) EndsOperand leftText left)
    (hright : ReadsAs (readOperand depth (readType depth)) EndsOperand rightText right) :
    ReadsAs (readIntersection depth (readType depth)) EndsIntersection
      (leftText ++ [' ', '&', ' '] ++ rightText) (.both left right) := by
  intro rest hrest
  have hread : ∀ operand ∈ [(leftText, left), (rightText, right)],
      ReadsAs (readOperand depth (readType depth)) EndsOperand operand.1 operand.2 := by
    simp [hleft, hright]
  have hseparated := readSeparated_joinChars (readOperand_blank depth (readType depth))
    (fun _ => rfl) endsOperand_ampersand hread hdepth hrest.toEndsOperand hrest.ampersand
  simp only [List.map_cons, List.map_nil, joinChars] at hseparated
  rw [readIntersection, hseparated]
  rfl

/-- Two or more intersections with `|` between any two are read as a union of all
    of them. -/
theorem readsAs_alternatives {α : Type} {text : α → List Char} {value : α → TypeExpr} {member other : α}
    {members : List α} (hdepth : (other :: members).length ≤ depth)
    (h : ∀ part ∈ member :: other :: members,
      ReadsAs (readIntersection depth (readType depth)) EndsIntersection (text part) (value part)) :
    ReadsAs (readUnion depth (readType depth)) EndsUnion
      (joinChars [' ', '|', ' '] ((member :: other :: members).map text))
      (.union ((member :: other :: members).map value)) := by
  intro rest hrest
  rw [readUnion, readSeparated_joinChars (readIntersection_blank depth (readType depth)) (fun _ => rfl)
    endsIntersection_bar h hdepth hrest.toEndsIntersection hrest.bar]
  rfl

end Operators

end TypeExpr

end SchemaTypes
