import SchemaTypes.Proofs.TypeScript.Forms

namespace SchemaTypes

namespace TypeExpr

/-- The text of an expression is read back in each place where it can stand, if
    brackets may nest as deep as it is long. -/
structure Readable (expr : TypeExpr) : Prop where
  suffix : ∀ depth, (expr.chars .suffix).length ≤ depth →
    ReadsBeforeSuffix depth (expr.chars .suffix) expr.asRead
  intersection : ∀ depth, (expr.chars .intersection).length ≤ depth →
    ReadsAs (readIntersection depth (readType depth)) EndsIntersection (expr.chars .intersection)
      expr.asRead
  union : ∀ depth, (expr.chars .union).length ≤ depth →
    ReadsAs (readUnion depth (readType depth)) EndsUnion (expr.chars .union) expr.asRead

namespace Readable

variable {expr : TypeExpr} {text : List Char}

/-- An expression that needs no parentheses is readable in all places if it is
    read where a suffix may follow. -/
theorem of_beforeSuffix (htext : ∀ context, expr.chars context = text)
    (h : ∀ depth, text.length ≤ depth → ReadsBeforeSuffix depth text expr.asRead) :
    Readable expr := by
  refine ⟨?_, ?_, ?_⟩ <;> rw [htext] <;> intro depth hdepth
  · exact h depth hdepth
  · exact readsAs_intersection (h depth hdepth).operand
  · exact readsAs_union (readsAs_intersection (h depth hdepth).operand)

theorem of_primary (htext : ∀ context, expr.chars context = text)
    (h : ∀ depth, text.length ≤ depth →
      ReadsAs (readPrimary depth (readType depth)) EndsWord text expr.asRead) : Readable expr :=
  of_beforeSuffix htext fun depth hdepth => beforeSuffix_of_primary (h depth hdepth)

/-- An expression that binds like `&` stands in parentheses before a suffix only. -/
theorem of_intersection (hsuffix : expr.chars .suffix = '(' :: text ++ [')'])
    (hintersection : expr.chars .intersection = text) (hunion : expr.chars .union = text)
    (h : ∀ depth, text.length ≤ depth →
      ReadsAs (readIntersection depth (readType depth)) EndsIntersection text expr.asRead) :
    Readable expr := by
  have hread : ∀ depth, text.length ≤ depth →
      ReadsAs (readUnion depth (readType depth)) EndsUnion text expr.asRead := fun depth hdepth =>
    readsAs_union (h depth hdepth)
  refine ⟨?_, ?_, ?_⟩
  · rw [hsuffix]
    exact fun depth hdepth => beforeSuffix_parentheses hread hdepth
  · rwa [hintersection]
  · rwa [hunion]

/-- An expression that binds like `|` stands in parentheses before a suffix and
    beside `&`. -/
theorem of_union (hsuffix : expr.chars .suffix = '(' :: text ++ [')'])
    (hintersection : expr.chars .intersection = '(' :: text ++ [')'])
    (hunion : expr.chars .union = text)
    (h : ∀ depth, text.length ≤ depth →
      ReadsAs (readUnion depth (readType depth)) EndsUnion text expr.asRead) : Readable expr := by
  -- In parentheses it is read like a type that no operator takes apart.
  refine ⟨?_, ?_, ?_⟩
  · rw [hsuffix]
    exact fun depth hdepth => beforeSuffix_parentheses h hdepth
  · rw [hintersection]
    exact fun depth hdepth => readsAs_intersection (beforeSuffix_parentheses h hdepth).operand
  · rwa [hunion]

end Readable

section Readable

variable {expr : TypeExpr}

theorem readable_keyword (word : Keyword) : Readable (.keyword word) :=
  .of_primary (fun _ => rfl) fun _ _ => readsAs_keyword word

theorem readable_null : Readable (.scalar .null) :=
  .of_primary (fun _ => rfl) fun _ _ => readsAs_keyword .null

theorem readable_bool (b : Bool) : Readable (.scalar (.bool b)) := by
  have htext : ∀ context, (scalar (.bool b)).chars context = (Json.bool b).chars := fun _ => rfl
  exact .of_primary htext fun _ _ => readsAs_bool b

theorem readable_num (n : Number) : Readable (.scalar (.num n)) :=
  .of_primary (fun _ => rfl) fun _ _ => readsAs_num n

theorem readable_str (text : String) : Readable (.scalar (.str text)) :=
  .of_primary (fun _ => rfl) fun _ _ => readsAs_str text

/-- A list type is readable, whether or not its items are in parentheses. -/
theorem readable_arrayOf (h : Readable expr) : Readable (.arrayOf expr) := by
  have htext : ∀ context, (arrayOf expr).chars context = expr.chars .suffix ++ ['[', ']'] := fun _ => rfl
  refine .of_beforeSuffix htext fun depth hdepth => (h.suffix depth ?_).arrayOf
  rw [List.length_append] at hdepth
  omega

theorem readable_genericArray (h : Readable expr) : Readable (.genericArray expr) := by
  have htext : ∀ context, (genericArray expr).chars context =
      "Array<".toList ++ expr.chars .union ++ ['>'] := fun _ => rfl
  refine .of_primary htext fun depth hdepth => readsAs_genericArray (readsAs_readType h.union ?_)
  simp only [List.length_append, List.length_singleton] at hdepth
  omega

theorem readable_mapped (h : Readable expr) : Readable (.mapped expr) := by
  have htext : ∀ context, (mapped expr).chars context =
      braced ("[K in string]?: ".toList ++ expr.chars .union) := fun _ => rfl
  refine .of_primary htext fun depth hdepth =>
    readsAs_mapped (readType_blank depth) (readsAs_readType h.union ?_)
  simp only [braced, List.length_append, List.length_cons] at hdepth
  omega

/-- An object type is readable if the types of its properties are. It binds
    tightest, by its braces. -/
theorem readable_object {properties : List (Property TypeExpr)}
    (h : ∀ p ∈ properties, Readable p.ty) : Readable (.object properties) := by
  cases properties with
  | nil => exact .of_primary (fun _ => rfl) fun _ _ => readsAs_noProperties
  | cons property properties =>
    have htext : ∀ context, (object (property :: properties)).chars context =
        braced (joinChars [';', ' '] ((property :: properties).map propertyText)) := by
      intro context
      rw [← propertyChars_eq_map]
      rfl
    have hasRead : (object (property :: properties)).asRead =
        .object ((property :: properties).map propertyAsRead) := by
      rw [← asReadProperties_eq_map]
      rfl
    refine .of_primary htext fun depth hdepth => ?_
    simp only [braced, List.length_append, List.length_cons, List.length_nil] at hdepth
    obtain ⟨hcount, hparts⟩ := length_of_joinChars (by simp) (show (joinChars [';', ' ']
      ((property :: properties).map propertyText)).length ≤ depth by omega)
    rw [hasRead]
    refine readsAs_properties (readType_blank depth) (Nat.le_of_succ_le_succ hcount) fun p hp =>
      readsAs_readType (h p hp).union ?_
    exact Nat.lt_of_lt_of_le (length_ty_lt_propertyText p) (hparts p hp)

theorem readable_tuple {items : List TypeExpr} (h : ∀ item ∈ items, Readable item) :
    Readable (.tuple items) := by
  have hasRead : (tuple items).asRead = .tuple (items.map asRead) := by
    rw [← asReadItems_eq_map]
    rfl
  refine .of_intersection rfl rfl rfl fun depth hdepth => readsAs_intersection ?_
  rw [itemChars_eq_map] at hdepth ⊢
  simp only [List.length_append, List.length_singleton] at hdepth
  obtain ⟨hcount, hparts⟩ := length_of_joinChars (by simp)
    (show (joinChars [',', ' '] (items.map (chars .union))).length ≤ depth - 1 by omega)
  rw [hasRead]
  refine readsAs_tuple (readType_blank depth) (readType_bracket depth) (by omega) fun item hitem =>
    readsAs_readType (h item hitem).union ?_
  have hpart := hparts item hitem
  omega

/-- An intersection is readable if its operands are such that not even a suffix
    would take them apart. -/
theorem readable_both {left right : TypeExpr} (hleft : Readable left) (hright : Readable right)
    (hleftText : left.chars .intersection = left.chars .suffix)
    (hrightText : right.chars .intersection = right.chars .suffix) : Readable (.both left right) := by
  refine .of_intersection rfl rfl rfl fun depth hdepth => ?_
  rw [hleftText, hrightText] at hdepth ⊢
  simp only [List.length_append, List.length_cons] at hdepth
  exact readsAs_both (by omega) (hleft.suffix depth (by omega)).operand
    (hright.suffix depth (by omega)).operand

/-- A union is readable if its members are and there are two of them at least. A
    union of one member would be read as this member. -/
theorem readable_union {members : List TypeExpr} (hlength : 2 ≤ members.length)
    (h : ∀ member ∈ members, Readable member) : Readable (.union members) := by
  obtain ⟨member, other, members, rfl⟩ : ∃ member other others, members = member :: other :: others := by
    match members, hlength with
    | member :: other :: others, _ => exact ⟨member, other, others, rfl⟩
  have hasRead : (union (member :: other :: members)).asRead =
      .union ((member :: other :: members).map asRead) := by
    rw [← asReadItems_eq_map]
    rfl
  refine .of_union rfl rfl rfl fun depth hdepth => ?_
  rw [itemChars_eq_map] at hdepth ⊢
  obtain ⟨hcount, hparts⟩ := length_of_joinChars (by simp) hdepth
  rw [hasRead]
  exact readsAs_alternatives (Nat.le_of_succ_le_succ hcount) fun part hpart =>
    (h part hpart).intersection depth (hparts part hpart)

end Readable

/-- A text that is read as a union up to its end is read as a whole. -/
theorem parse_of_readsAs {text : String} {expr : TypeExpr}
    (h : ∀ depth, text.toList.length ≤ depth →
      ReadsAs (readUnion depth (readType depth)) EndsUnion text.toList expr) :
    parse text = some expr := by
  have hread := readsAs_readType h (Nat.lt_succ_self _) [] endsUnion_nil
  rw [List.append_nil] at hread
  rw [parse, hread]
  rfl

/-- The text of a readable expression is read back, as far as a text can tell. -/
theorem Readable.parse_text {expr : TypeExpr} (h : Readable expr) :
    parse expr.text = some expr.asRead := by
  apply parse_of_readsAs
  rw [text, String.toList_ofList]
  exact h.union

/-- The suffix binds tighter than `&`, and `&` tighter than `|`. The three words
    stand without parentheses. -/
theorem parse_operators (a b c : Keyword) :
    parse (a.text ++ " | " ++ b.text ++ " & " ++ c.text ++ "[]") =
      some (.union [.keyword a, .both (.keyword b) (.arrayOf (.keyword c))]) := by
  let members : List (List Char × TypeExpr) :=
    [(a.text.toList, .keyword a), (b.text.toList ++ [' ', '&', ' '] ++ (c.text.toList ++ ['[', ']']),
      .both (.keyword b) (.arrayOf (.keyword c)))]
  have htext : (a.text ++ " | " ++ b.text ++ " & " ++ c.text ++ "[]").toList =
      joinChars [' ', '|', ' '] (members.map Prod.fst) := by
    simp [members, joinChars]
  apply parse_of_readsAs
  rw [htext]
  intro depth hdepth
  have hpos : 0 < depth := by
    simp only [members, List.map_cons, joinChars, List.length_append, List.length_cons] at hdepth
    omega
  have hword : ∀ word : Keyword, ReadsBeforeSuffix depth word.text.toList (.keyword word) := fun word =>
    beforeSuffix_of_primary (readsAs_keyword word)
  have hmembers : ∀ member ∈ members, ReadsAs (readIntersection depth (readType depth))
      EndsIntersection member.1 member.2 := by
    simp only [members, List.mem_cons, List.not_mem_nil, or_false, forall_eq_or_imp, forall_eq]
    exact ⟨readsAs_intersection (hword a).operand,
      readsAs_both hpos (hword b).operand (hword c).arrayOf.operand⟩
  exact readsAs_alternatives hpos hmembers

end TypeExpr

end SchemaTypes
