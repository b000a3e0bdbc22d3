import SchemaTypes.Command.Run
import SchemaTypes.Proofs.Command.Work
import SchemaTypes.Proofs.TypeScript.Declarations

namespace SchemaTypes

/-- The type of a schema that was loaded. -/
def LoadedSchema.ty (options : Options) (loaded : LoadedSchema) : Ty :=
  (({ options } : Deriver).derive loaded.schema).1

/-- Deriving the type of a loaded schema succeeds and adds to the log only. -/
theorem LoadedSchema.run_derive (options : Options) (loaded : LoadedSchema) (space : Workspace) :
    ∃ log, (loaded.derive options).run space = (.ok (loaded.ty options), { space with log }) :=
  ⟨_, rfl⟩

/-- Every schema gets the type that it has on its own, whichever were derived
    before it, since nothing is kept from one to the next. -/
theorem LoadedSchema.run_mapM_derive (options : Options) (schemas : List LoadedSchema)
    (space : Workspace) :
    ∃ space', (schemas.mapM fun loaded => return (loaded.origin, ← loaded.derive options) :
        Work (List (String × Ty))).run space =
      (.ok (schemas.map fun loaded => (loaded.origin, loaded.ty options)), space') := by
  induction schemas generalizing space with
  | nil => exact ⟨space, rfl⟩
  | cons loaded schemas ih =>
    obtain ⟨log, hfirst⟩ := loaded.run_derive options space
    obtain ⟨space', hrest⟩ := ih { space with log }
    refine ⟨space', ?_⟩
    rw [List.mapM_cons, bind_assoc, Work.run_bind_ok hfirst, pure_bind, Work.run_bind_ok hrest]
    rfl

/-- Once options and schemas have been read, nothing fails any more. -/
theorem Command.run_compose {command : Command} {jq : Query.Interpreter}
    {space space₁ space₂ : Workspace} {options : Options} {schemas : List LoadedSchema}
    (hoptions : command.derivation.options.run space = (.ok options, space₁))
    (hschemas : (command.input.load jq).run space₁ = (.ok schemas, space₂)) :
    ∃ space', (command.compose jq).run space =
      (.ok (command.target.text (schemas.map fun loaded => (loaded.origin, loaded.ty options))),
        space') := by
  obtain ⟨space', htypes⟩ := LoadedSchema.run_mapM_derive options schemas space₂
  refine ⟨space', ?_⟩
  rw [Command.compose, Work.run_bind_ok hoptions, Work.run_bind_ok hschemas,
    Work.run_bind_ok htypes]
  rfl

namespace Declarations

/-- The name and the type of a line that declares a type. -/
def declaration? (line : String) : Option (String × String) :=
  ("export type ".toList.isPrefixOf? line.toList).bind fun rest =>
    (" = ".toList.isPrefixOf? (rest.dropWhile (· != ' '))).bind fun body =>
      if body.getLast? = some ';' then
        some (String.ofList (rest.takeWhile (· != ' ')), String.ofList body.dropLast)
      else none

/-- The declarations that are read in a text, in order, each with its name and its type. -/
def declarationsIn (text : String) : List (String × String) :=
  ((text.toList.splitOn '\n').map String.ofList).filterMap declaration?

/-- How the type of all values is written where it is declared. -/
def valueExpression : String := "null | number | string | boolean | readonly Value[] | object"

/-- The line that declares the type of all values is read as a declaration like
    any other. -/
theorem declaration?_valueLine : declaration? valueLine = some ("Value", valueExpression) := by
  decide

/-- A line that declares a type gives back the name and the type as it is written,
    if the name has no blank in it. Nothing has to be known of the type. -/
theorem declaration?_typeLine {name : String} (hname : ' ' ∉ name.toList) (ty : Ty) :
    declaration? (typeLine name ty) = some (name, ty.render) := by
  have hletters : ∀ c ∈ name.toList, (c != ' ') = true := by
    intro c hc
    rw [bne_iff_ne]
    rintro rfl
    exact hname hc
  have hline : "export type ".toList.isPrefixOf? (typeLine name ty).toList =
      some (name.toList ++ (" = ".toList ++ (ty.render.toList ++ [';']))) := by
    rw [List.isPrefixOf?_eq_some_iff_append_eq, toList_typeLine]
    simp
  have hbody : " = ".toList.isPrefixOf? ((name.toList ++ (" = ".toList ++
      (ty.render.toList ++ [';']))).dropWhile (· != ' ')) = some (ty.render.toList ++ [';']) := by
    rw [List.dropWhile_append_of_pos hletters, List.isPrefixOf?_eq_some_iff_append_eq]
    rfl
  rw [declaration?, hline, Option.bind_some, hbody, Option.bind_some, List.takeWhile_append_of_pos
    hletters]
  simp

theorem filterMap_intersperse {α β : Type} {f : α → Option β} {x : α} (h : f x = none)
    (items : List α) : (items.intersperse x).filterMap f = items.filterMap f := by
  fun_induction List.intersperse x items with
  | case1 => rfl
  | case2 item => rfl
  | case3 item rest _ ih => simp [List.filterMap_cons, h, ih]

/-- The empty lines between declarations are no declarations, so that reading a
    text line by line gives those of its lines in order. -/
theorem declarationsIn_text {declarations : Declarations}
    (h : ∀ line ∈ declarations.lines, IsLine line) :
    declarationsIn declarations.text =
      declarations.lines.filterMap declaration? := by
  have hparts : declarations.text.toList.splitOn '\n' =
      (declarations.lines.intersperse "" ++ [""]).map String.toList := by
    rw [text_eq_intercalate, String.toList_intercalate]
    apply List.splitOn_intercalate
    · rw [List.forall_mem_map]
      intro line hline
      rcases List.mem_append.mp hline with hmem | hlast
      · rcases eq_or_mem_of_mem_intersperse hmem with rfl | hmem
        · simp
        · exact (h line hmem).newline_not_mem
      · rw [List.mem_singleton] at hlast
        simp [hlast]
    · simp
  have hempty : declaration? "" = none := rfl
  rw [declarationsIn, hparts, List.map_map]
  simp [Function.comp_def, filterMap_intersperse hempty, hempty]

/-- Lines that declare types are read one for one. -/
theorem filterMap_typeLines {types : List (String × Ty)}
    (hnames : ∀ type ∈ types, ' ' ∉ type.1.toList) :
    (types.map fun type => typeLine type.1 type.2).filterMap declaration? =
      types.map fun type => (type.1, type.2.render) := by
  rw [List.filterMap_map, ← List.filterMap_eq_map]
  apply List.filterMap_congr
  intro type htype
  exact declaration?_typeLine (hnames type htype) type.2

section OfList

variable {types : List (String × Ty)} (hblank : ∀ type ∈ types, ' ' ∉ type.1.toList)
  (hnewline : ∀ type ∈ types, '\n' ∉ type.1.toList)

include hblank hnewline

/-- Without a type that mentions `any` nothing is declared but the types that were given. -/
theorem declarationsIn_ofList_of_none (hnone : ∀ type ∈ types, ¬ Ty.Inside .any type.2) :
    declarationsIn (ofList types).text = types.map fun type => (type.1, type.2.render) := by
  rw [declarationsIn_text (isLine_ofList hnewline), lines_ofList_of_none hnone,
    filterMap_typeLines hblank]

/-- The declaration of the type of all values goes right before that of the first
    type that mentions `any`, and is not repeated for the ones behind. -/
theorem declarationsIn_ofList_of_first {front back : List (String × Ty)} {first : String × Ty}
    (htypes : types = front ++ first :: back) (hfront : ∀ type ∈ front, ¬ Ty.Inside .any type.2)
    (hfirst : Ty.Inside .any first.2) :
    declarationsIn (ofList types).text =
      (front.map fun type => (type.1, type.2.render)) ++
        ("Value", valueExpression) :: (first :: back).map fun type => (type.1, type.2.render) := by
  subst htypes
  rw [List.forall_mem_append] at hblank
  rw [declarationsIn_text (isLine_ofList hnewline), lines_ofList_of_first hfront hfirst,
    List.filterMap_append, List.filterMap_cons_some declaration?_valueLine,
    filterMap_typeLines hblank.1, filterMap_typeLines hblank.2]

end OfList

end Declarations

namespace Target

open Declarations

/-- The name of the type at a place among a number of types: the given one if
    there is one type, and numbered from one otherwise. -/
def declaredName (typeName : String) (count i : Nat) : String :=
  if count = 1 then typeName else typeName ++ toString (i + 1)

/-- The names as a function of the place and the number of types, which is easier
    to compare than the two cases in which they are given. -/
theorem named_eq_mapIdx (typeName : String) (types : List Ty) :
    named typeName types = types.mapIdx fun i ty => (declaredName typeName types.length i, ty) := by
  unfold named declaredName
  split
  · rfl
  next hmany =>
    have hcount : types.length ≠ 1 := fun hone =>
      have ⟨ty, hty⟩ := List.length_eq_one_iff.mp hone
      hmany ty hty
    simp only [hcount, if_false, List.mapIdx_eq_zipIdx_map]
    rfl

theorem toList_toString (n : Nat) : (toString n).toList = Nat.toDigits 10 n := by
  rw [Nat.toString_eq_repr, Nat.repr_eq_ofList_toDigits, String.toList_ofList]

/-- The numbers behind a common front are told apart by their decimal digits. -/
theorem append_toString_inj {typeName : String} {m n : Nat}
    (h : typeName ++ toString m = typeName ++ toString n) : m = n := by
  have hdigits := congrArg String.toList h
  rw [String.toList_append, String.toList_append, List.append_cancel_left_eq, toList_toString,
    toList_toString] at hdigits
  rw [← Nat.ofDigitChars_ten_toDigits (n := m), hdigits, Nat.ofDigitChars_ten_toDigits]

/-- A numbered name ends with a digit, and the name of the type of all values does not. -/
theorem append_toString_ne_value (typeName : String) (n : Nat) :
    typeName ++ toString n ≠ "Value" := by
  intro h
  have hlast := congrArg (fun name : String => name.toList.getLast?) h
  simp only [String.toList_append, toList_toString] at hlast
  rw [List.getLast?_append_of_ne_nil _ Nat.toDigits_ne_nil] at hlast
  have hdigit := Nat.isDigit_of_mem_toDigits (by decide) (by decide) (List.mem_of_getLast? hlast)
  revert hdigit
  decide

/-- No two types get the same name, whatever the given name is. -/
theorem nodup_declaredNames (typeName : String) (count : Nat) :
    ((List.range count).map (declaredName typeName count)).Nodup := by
  apply List.Nodup.map_on _ List.nodup_range
  intro i hi j hj h
  rw [List.mem_range] at hi hj
  unfold declaredName at h
  split at h
  · omega
  · exact Nat.succ.inj (append_toString_inj h)

/-- The name of the type of all values is given to a type only if it is asked for
    and there is one type, since all other names are numbered. -/
theorem value_mem_declaredNames_iff {typeName : String} {count : Nat} :
    "Value" ∈ (List.range count).map (declaredName typeName count) ↔
      count = 1 ∧ typeName = "Value" := by
  unfold declaredName
  split
  next hone => simp [hone, eq_comm]
  next hmany =>
    simp only [List.mem_map, hmany, false_and, iff_false, not_exists, not_and]
    exact fun i _ => append_toString_ne_value typeName (i + 1)

/-- A character that is no digit is in a name only if it is in the given one.
    Blanks and newlines are kept out this way. -/
theorem not_mem_declaredName {typeName : String} {count i : Nat} {c : Char}
    (hname : c ∉ typeName.toList) (hc : c.isDigit = false) :
    c ∉ (declaredName typeName count i).toList := by
  unfold declaredName
  split
  · exact hname
  · rw [String.toList_append, List.mem_append, toList_toString]
    rintro (hmem | hdigit)
    · exact hname hmem
    · have := Nat.isDigit_of_mem_toDigits (by decide) (by decide) hdigit
      simp [hc] at this

/-- What is declared for the types of schemas, in their order. -/
def ownDeclarations (typeName : String) (types : List Ty) : List (String × String) :=
  types.mapIdx fun i ty => (declaredName typeName types.length i, ty.render)

theorem map_fst_ownDeclarations (typeName : String) (types : List Ty) :
    (ownDeclarations typeName types).map (·.1) =
      (List.range types.length).map (declaredName typeName types.length) := by
  apply List.ext_getElem
  · simp [ownDeclarations]
  · simp [ownDeclarations]

/-- What is declared for the types of schemas is what is written for their names. -/
theorem ownDeclarations_eq_map (typeName : String) (types : List Ty) :
    ownDeclarations typeName types =
      (named typeName types).map fun type => (type.1, type.2.render) := by
  apply List.ext_getElem
  · simp [ownDeclarations, named_eq_mapIdx]
  · simp [ownDeclarations, named_eq_mapIdx]

theorem map_snd_named (typeName : String) (types : List Ty) :
    (named typeName types).map (·.2) = types := by
  apply List.ext_getElem
  · simp [named_eq_mapIdx]
  · simp [named_eq_mapIdx]

/-- No name has a blank or a newline in it if the given one has none. -/
theorem not_mem_of_mem_named {typeName : String} {types : List Ty} {c : Char}
    (hname : c ∉ typeName.toList) (hc : c.isDigit = false) :
    ∀ type ∈ named typeName types, c ∉ type.1.toList := by
  intro type htype
  rw [named_eq_mapIdx, List.mem_mapIdx] at htype
  obtain ⟨i, _, rfl⟩ := htype
  exact not_mem_declaredName hname hc

section Declared

variable {typeName : String} (hblank : ' ' ∉ typeName.toList) (hnewline : '\n' ∉ typeName.toList)
  {types : List Ty}

include hblank hnewline

/-- If no type mentions `any`, the text declares the types of the schemas and
    nothing else. -/
theorem declarationsIn_named_of_none (hnone : ∀ ty ∈ types, ¬ Ty.Inside .any ty) :
    declarationsIn (ofList (named typeName types)).text = ownDeclarations typeName types := by
  rw [← map_snd_named typeName types, List.forall_mem_map] at hnone
  rw [ownDeclarations_eq_map]
  exact declarationsIn_ofList_of_none (not_mem_of_mem_named hblank rfl)
    (not_mem_of_mem_named hnewline rfl) hnone

/-- The declarations of the types that come before the first one that needs the
    type of all values stay in front of the declaration of the latter, and all
    others follow it. -/
theorem declarationsIn_named_of_first {front back : List Ty} {first : Ty}
    (htypes : types = front ++ first :: back) (hfront : ∀ ty ∈ front, ¬ Ty.Inside .any ty)
    (hfirst : Ty.Inside .any first) :
    declarationsIn (ofList (named typeName types)).text =
      (ownDeclarations typeName types).take front.length ++
        ("Value", valueExpression) :: (ownDeclarations typeName types).drop front.length := by
  have hsnd := map_snd_named typeName types
  rw [htypes] at hsnd
  obtain ⟨front', rest, hnamed, rfl, hrest⟩ := List.map_eq_append_iff.mp hsnd
  obtain ⟨first', back', rfl, rfl, rfl⟩ := List.map_eq_cons_iff.mp hrest
  rw [← htypes] at hnamed
  rw [List.forall_mem_map] at hfront
  have hread := declarationsIn_ofList_of_first (not_mem_of_mem_named hblank rfl)
    (not_mem_of_mem_named hnewline rfl) hnamed hfront hfirst
  have hown : ownDeclarations typeName types =
      (front'.map fun type => (type.1, type.2.render)) ++
        (first' :: back').map fun type => (type.1, type.2.render) := by
    rw [ownDeclarations_eq_map, hnamed, List.map_append]
  have hlength : (front'.map (·.2)).length =
      (front'.map fun type => (type.1, type.2.render)).length := by
    rw [List.length_map, List.length_map]
  rw [hread, hown, hlength, List.take_left, List.drop_left]

/-- The only name that can be declared twice is that of the type of all values,
    and it is declared twice just if it is the given name, there is one type and
    this one mentions `any`. -/
theorem nodup_declarationsIn_named_iff :
    ((declarationsIn (ofList (named typeName types)).text).map (·.1)).Nodup ↔
      ¬ (typeName = "Value" ∧ ∃ ty, types = [ty] ∧ Ty.Inside .any ty) := by
  have hnodup := map_fst_ownDeclarations typeName types ▸ nodup_declaredNames typeName types.length
  by_cases hsome : ∃ ty ∈ types, Ty.Inside .any ty
  · obtain ⟨front, first, back, htypes, hfront, hfirst⟩ := exists_first hsome
    have hnames : (ownDeclarations typeName types).map (·.1) =
        ((ownDeclarations typeName types).take front.length).map (·.1) ++
          ((ownDeclarations typeName types).drop front.length).map (·.1) := by
      rw [← List.map_append, List.take_append_drop]
    rw [hnames] at hnodup
    have hsingle : (∃ ty, types = [ty] ∧ Ty.Inside .any ty) ↔ types.length = 1 := by
      rw [List.length_eq_one_iff]
      constructor
      · exact fun ⟨ty, hty, _⟩ => ⟨ty, hty⟩
      · rintro ⟨ty, rfl⟩
        exact ⟨ty, rfl, by simpa using hsome⟩
    rw [declarationsIn_named_of_first hblank hnewline htypes hfront hfirst, List.map_append,
      List.map_cons, List.nodup_middle, List.nodup_cons, ← hnames, map_fst_ownDeclarations,
      value_mem_declaredNames_iff, hsingle, and_iff_left, and_comm]
    rwa [← map_fst_ownDeclarations, hnames]
  · have hnone : ∀ ty ∈ types, ¬ Ty.Inside .any ty := fun ty hty hany => hsome ⟨ty, hty, hany⟩
    rw [declarationsIn_named_of_none hblank hnewline hnone]
    refine iff_of_true hnodup ?_
    rintro ⟨-, ty, rfl, hany⟩
    exact hnone ty List.mem_cons_self hany

end Declared

end Target

namespace Command

open Declarations Target

/-- The declarations in the text of a command are those of the schemas, one for
    each and in their order, and besides that of the type of all values, which
    stands right before that of the first schema whose type needs it. A name is
    declared twice only if it is that of the type of all values, given for the
    only schema, whose type needs it. The given name is an identifier, of which it
    matters only that it is one word. -/
theorem text_declares_each_type (command : Command) {typeName : String}
    (htarget : command.target = .typeScript typeName)
    (hblank : ' ' ∉ typeName.toList) (hnewline : '\n' ∉ typeName.toList)
    {jq : Query.Interpreter} {space space₁ space₂ : Workspace}
    {options : Options} {schemas : List LoadedSchema}
    (hoptions : command.derivation.options.run space = (.ok options, space₁))
    (hschemas : (command.input.load jq).run space₁ = (.ok schemas, space₂)) :
    ∃ text space', (command.compose jq).run space = (.ok text, space') ∧
      ((∀ loaded ∈ schemas, ¬ Ty.Inside .any (loaded.ty options)) →
        declarationsIn text = ownDeclarations typeName (schemas.map (·.ty options))) ∧
      ((∃ loaded ∈ schemas, Ty.Inside .any (loaded.ty options)) →
        ∃ front first back, schemas = front ++ first :: back ∧
          (∀ loaded ∈ front, ¬ Ty.Inside .any (loaded.ty options)) ∧
          Ty.Inside .any (first.ty options) ∧
          declarationsIn text =
            (ownDeclarations typeName (schemas.map (·.ty options))).take front.length ++
              ("Value", valueExpression) ::
                (ownDeclarations typeName (schemas.map (·.ty options))).drop front.length) ∧
      (((declarationsIn text).map (·.1)).Nodup ↔
        ¬ (typeName = "Value" ∧
          ∃ loaded, schemas = [loaded] ∧ Ty.Inside .any (loaded.ty options))) := by
  obtain ⟨space', hrun⟩ := run_compose hoptions hschemas
  have htypes : (schemas.map fun loaded => (loaded.origin, loaded.ty options)).map (·.2) =
      schemas.map (·.ty options) := by
    simp
  rw [htarget, Target.text, htypes] at hrun
  refine ⟨_, space', hrun, fun hnone => ?_, fun hsome => ?_, ?_⟩
  · exact declarationsIn_named_of_none hblank hnewline (List.forall_mem_map.mpr hnone)
  · obtain ⟨front, first, back, hfirst, hfront, hany⟩ := exists_first hsome
    refine ⟨front, first, back, hfirst, hfront, hany, ?_⟩
    have hmap : schemas.map (·.ty options) =
        front.map (·.ty options) ++ first.ty options :: back.map (·.ty options) := by
      rw [hfirst, List.map_append, List.map_cons]
    rw [declarationsIn_named_of_first hblank hnewline hmap (List.forall_mem_map.mpr hfront) hany,
      List.length_map]
  · rw [nodup_declarationsIn_named_iff hblank hnewline]
    simp [List.map_eq_singleton_iff]

/-- Two schemas that say nothing, under the name `Value`: their types are numbered
    and so keep clear of the declaration that both need. -/
theorem text_declares_each_type_two_schemas :
    let command : Command :=
      { target := .typeScript "Value", input := { query := some ".[]", paths := ["-"] } }
    let space : Workspace := { files := .empty, input := "[\x7b\x7d, \x7b\x7d]" }
    ∃ text space', (command.compose Query.interpret).run space = (.ok text, space') ∧
      ((declarationsIn text).map (·.1)).Nodup := by
  intro command space
  have hcount : ((command.input.load Query.interpret).run space).1.toOption.map List.length =
      some 2 := by
    decide +kernel
  obtain ⟨result, space₂, hload⟩ : ∃ result space₂,
      (command.input.load Query.interpret).run space = (result, space₂) := ⟨_, _, rfl⟩
  rw [hload] at hcount
  cases result with
  | error failure => cases hcount
  | ok schemas =>
    have hlength : schemas.length = 2 := Option.some.inj hcount
    obtain ⟨text, space', hrun, -, -, hnodup⟩ :=
      text_declares_each_type command rfl (by decide) (by decide) rfl hload
    refine ⟨text, space', hrun, hnodup.mpr ?_⟩
    rintro ⟨-, loaded, rfl, -⟩
    cases hlength

/-- One schema that says nothing, its type named `Value`. -/
theorem declares_value_twice :
    let space : Workspace := { files := .empty, input := "\x7b\x7d" }
    let command : Command := { target := .typeScript "Value", input := { paths := ["-"] } }
    declarationsIn (command.run space).2.output =
      [("Value", valueExpression), ("Value", "Value")] := by
  decide +kernel

end Command

end SchemaTypes
