import SchemaTypes.Derive.Deriver
import SchemaTypes.Proofs.Json.Text
import SchemaTypes.Proofs.Schema.Shape

namespace SchemaTypes

/-- Run from any state with an invariant, the step gives the value and keeps the
    invariant. -/
def Yields {ς α : Type} (I : ς → Prop) (step : StateM ς α) (value : α) : Prop :=
  ∀ s, I s → (step.run s).1 = value ∧ I (step.run s).2

namespace Yields

variable {ς α β : Type} {I : ς → Prop} {step : StateM ς α} {value : α}

theorem pure (value : α) : Yields I (Pure.pure value) value :=
  fun _ hs => ⟨rfl, hs⟩

/-- Two steps that yield their values one after the other. The second may depend
    on the value of the first, which is known, but not on the state, of which only
    the invariant is. -/
theorem bind {next : α → StateM ς β} {result : β} (h : Yields I step value)
    (hnext : Yields I (next value) result) : Yields I (step >>= next) result := by
  intro s hs
  obtain ⟨hvalue, hstate⟩ := h s hs
  rw [← hvalue] at hnext
  exact hnext _ hstate

theorem map (f : α → β) (h : Yields I step value) : Yields I (f <$> step) (f value) := by
  intro s hs
  obtain ⟨hvalue, hstate⟩ := h s hs
  exact ⟨congrArg f hvalue, hstate⟩

theorem modify {f : ς → ς} (h : ∀ s, I s → I (f s)) : Yields I (modify f) PUnit.unit :=
  fun s hs => ⟨rfl, h s hs⟩

/-- The state may be looked at, if the result is the same for every state with the
    invariant. -/
theorem get_bind {next : ς → StateM ς β} {result : β}
    (h : ∀ s, I s → Yields I (next s) result) : Yields I (get >>= next) result :=
  fun s hs => h s hs s hs

/-- A pass over a list yields the list of what is yielded for each item. -/
theorem listMapM {f : α → StateM ς β} {g : α → β} (h : ∀ x, Yields I (f x) (g x)) (xs : List α) :
    Yields I (xs.mapM f) (xs.map g) := by
  induction xs with
  | nil => exact pure []
  | cons x xs ih =>
    rw [List.mapM_cons]
    exact (h x).bind (ih.bind (pure _))

/-- A pass over the schemas nested in a shape yields the shape of what is yielded
    for each, in whichever order they are visited. -/
theorem shapeMapM {f : α → StateM ς β} {g : α → β} (h : ∀ x, Yields I (f x) (g x))
    (shape : Shape α) : Yields I (shape.mapM f) (shape.map g) := by
  have hitems (items : Items α) : Yields I (items.mapM f) (items.map g) := by
    cases items with
    | absent => exact pure _
    | single schema => exact (h schema).map _
    | positional schemas => exact (listMapM h schemas).map _
  have hadditional (additional : Additional α) :
      Yields I (additional.mapM f) (additional.map g) := by
    cases additional with
    | constrain schema => exact (h schema).map _
    | _ => exact pure _
  have hproperties (properties : List (String × α)) :
      Yields I (properties.mapM fun entry => do return (entry.1, ← f entry.2))
        (properties.map fun entry => (entry.1, g entry.2)) := by
    refine listMapM (fun entry => ?_) properties
    exact (h entry.2).bind (pure _)
  cases shape with
  | oneOf schemas => exact (listMapM h schemas).map _
  | allOf schemas => exact (listMapM h schemas).map _
  | array items additional => exact (hitems items).bind ((hadditional additional).bind (pure _))
  | object properties required additional =>
    cases properties with
    | none => exact (hadditional additional).bind (pure _)
    | some properties =>
      exact (hproperties properties).bind ((hadditional additional).bind (pure _))
  | _ => exact pure _

end Yields

namespace Schema

/-- The type of a schema of which the given number of levels is followed, its own included,
    or all of them. Nothing is kept from one nested schema to the next. -/
def typeWithin (levels : Option Nat) (schema : Json) : Ty :=
  if levels = some 0 then .any
  else Ty.ofShape ((parts schema).map fun ⟨part, _⟩ => typeWithin (levels.map (· - 1)) part)
termination_by sizeOf schema

/-- One level of the derivation: the shape of the schema, with the types of the
    nested schemas in their places. -/
theorem typeWithin_of_ne_zero {levels : Option Nat} (h : levels ≠ some 0) (schema : Json) :
    typeWithin levels schema =
      Ty.ofShape ((classify schema).map (typeWithin (levels.map (· - 1)))) := by
  rw [typeWithin, if_neg h, map_parts]

end Schema

namespace Options

variable {options : Options} {schema schema' : Json} {depth depth' : Nat}

/-- How many levels of schemas are followed from `depth` on, the one there included. -/
def levels (options : Options) (depth : Nat) : Option Nat := options.maxDepth.map (· + 1 - depth)

/-- The limit is reached when no level is left. -/
theorem tooDeep_iff : options.tooDeep depth = true ↔ options.levels depth = some 0 := by
  unfold tooDeep levels
  cases options.maxDepth with
  | none => simp
  | some limit =>
    simp only [Option.map_some, Option.some.injEq, decide_eq_true_eq]
    omega

theorem levels_succ (options : Options) (depth : Nat) :
    options.levels (depth + 1) = (options.levels depth).map (· - 1) := by
  unfold levels
  cases options.maxDepth with
  | none => rfl
  | some limit => simp [Nat.sub_sub]

/-- Equal numbers of remaining levels are the same limit, except beyond it, where
    all of them count as none. No type is kept from there. -/
theorem levels_eq_of_remaining_eq (h : options.remaining depth = options.remaining depth')
    (hdepth : ¬ options.tooDeep depth) (hdepth' : ¬ options.tooDeep depth') :
    options.levels depth = options.levels depth' := by
  unfold remaining at h
  unfold tooDeep at hdepth hdepth'
  unfold levels
  cases hlimit : options.maxDepth with
  | none => rfl
  | some limit =>
    simp only [hlimit, Option.map_some, Option.some.injEq, decide_eq_true_eq] at h hdepth hdepth' ⊢
    omega

/-- A text in the cache stands for one schema and one number of levels below it.
    The number ends at the first character that is no digit, and a schema is known
    from its compact text. -/
theorem cacheKey_inj (h : options.cacheKey schema depth = options.cacheKey schema' depth') :
    options.remaining depth = options.remaining depth' ∧ schema = schema' := by
  unfold cacheKey at h
  cases hlimit : options.maxDepth with
  | none =>
    simp only [remaining, hlimit, Option.map_none] at h ⊢
    exact ⟨trivial, Json.compact_inj h⟩
  | some limit =>
    simp only [remaining, hlimit, Option.map_some, String.ofList_inj] at h ⊢
    have hcolon (rest : List Char) : ∀ c ∈ (':' :: rest).head?, c.isDigit = false := by simp
    have hread := congrArg Json.readDigits h
    rw [NumberLiteral.readDigits_append (NumberLiteral.isDigits_digits _) (hcolon _),
      NumberLiteral.readDigits_append (NumberLiteral.isDigits_digits _) (hcolon _)] at hread
    simp only [Except.ok.injEq, Prod.mk.injEq, List.cons.injEq, true_and] at hread
    obtain ⟨hdigits, hchars⟩ := hread
    have hlevels := congrArg NumberLiteral.digitsValue hdigits
    rw [NumberLiteral.digitsValue_digits, NumberLiteral.digitsValue_digits] at hlevels
    exact ⟨congrArg some hlevels, Json.chars_inj hchars⟩

/-- Every type in the cache is the one that would be found without it. -/
def Sound (options : Options) (memo : Memo) : Prop :=
  ∀ schema depth ty, ¬ options.tooDeep depth →
    memo.cache.lookup (options.cacheKey schema depth) = some ty →
    ty = Schema.typeWithin (options.levels depth) schema

/-- Writing the right type under the text of its schema keeps the cache right,
    since no other schema with another limit has this text. -/
theorem Sound.remember {memo : Memo} (h : options.Sound memo) (hdepth : ¬ options.tooDeep depth) :
    options.Sound (memo.remember (options.cacheKey schema depth)
      (Schema.typeWithin (options.levels depth) schema)) := by
  intro schema' depth' ty hdepth' hlookup
  rw [Memo.remember, List.lookup_cons] at hlookup
  split at hlookup
  next heq =>
    obtain ⟨hremaining, rfl⟩ := cacheKey_inj (eq_of_beq heq)
    rw [levels_eq_of_remaining_eq hremaining hdepth' hdepth, Option.some.inj hlookup]
  next => exact h schema' depth' ty hdepth' hlookup

/-- The cache changes neither what is found for a schema nor that its own types
    are right. The induction is on the schema, as the recursion is, and the
    invariant is that every entry holds the type that would be derived anew. -/
theorem resolve_yields (options : Options) (schema : Json) (depth : Nat) :
    Yields options.Sound (options.resolve schema depth)
      (Schema.typeWithin (options.levels depth) schema) := by
  have hnote (level : Level) (message : String) :
      Yields options.Sound (modify (·.note level message)) PUnit.unit :=
    .modify fun _ hsound => hsound
  rw [resolve]
  split
  next hdeep =>
    rw [Schema.typeWithin, if_pos (tooDeep_iff.mp hdeep)]
    exact (hnote _ _).bind (.pure _)
  next hdeep =>
    have hparts : Yields options.Sound
        ((Schema.parts schema).mapM fun ⟨part, _⟩ => options.resolve part (depth + 1))
        ((Schema.parts schema).map fun ⟨part, _⟩ =>
          Schema.typeWithin ((options.levels depth).map (· - 1)) part) := by
      refine .shapeMapM (fun ⟨part, hpart⟩ => ?_) _
      rw [← levels_succ]
      exact resolve_yields options part (depth + 1)
    have htype := Schema.typeWithin.eq_def (options.levels depth) schema
    rw [if_neg (fun hlevels => hdeep (tooDeep_iff.mpr hlevels))] at htype
    refine (hnote _ _).bind ?_
    split
    · refine .get_bind fun memo hsound => ?_
      split
      next ty hlookup =>
        rw [← hsound schema depth ty hdeep hlookup]
        refine .bind (.modify ?_) (.pure _)
        exact fun _ hsound => hsound
      next =>
        refine hparts.bind ((Yields.modify fun _ hsound => ?_).bind ?_)
        · rw [← htype]
          exact hsound.remember hdeep
        · rw [← htype]
          exact .pure _
    · split
      next hshape =>
        rw [Schema.typeWithin_of_ne_zero fun hlevels => hdeep (tooDeep_iff.mpr hlevels), hshape]
        exact (hnote _ _).bind (.pure _)
      next =>
        rw [htype]
        exact hparts.bind (.pure _)
termination_by sizeOf schema

end Options

namespace Deriver

/-- The types of several schemas, one after the other with one derivation. -/
def deriveAll (deriver : Deriver) : List Json → List Ty × Deriver
  | [] => ([], deriver)
  | schema :: schemas =>
    let (ty, deriver) := deriver.derive schema
    let (tys, deriver) := deriver.deriveAll schemas
    (ty :: tys, deriver)

/-- What the cache of a derivation holds is right. A new derivation is sound, and
    deriving a type keeps it so. -/
def Sound (deriver : Deriver) : Prop := deriver.options.Sound deriver.memo

variable {deriver : Deriver}

/-- A new derivation has an empty cache, of which everything is true. -/
theorem sound_new (options : Options) : ({ options } : Deriver).Sound := by
  intro schema depth ty _ hlookup
  simp at hlookup

theorem Sound.derive (h : deriver.Sound) (schema : Json) : (deriver.derive schema).2.Sound :=
  (deriver.options.resolve_yields schema 0 deriver.memo h).2

/-- What a derivation gives for a schema is the type within the levels of its
    options, whatever it has been used for before. From here on neither the cache
    nor the log nor the state they are kept in have to be looked at: all that is
    proved of derived types is proved of `Schema.typeWithin`. -/
theorem derive_eq (h : deriver.Sound) (schema : Json) :
    (deriver.derive schema).1 = Schema.typeWithin (deriver.options.maxDepth.map (· + 1)) schema :=
  (deriver.options.resolve_yields schema 0 deriver.memo h).1

/-- Several schemas one after the other get the types that each would get alone. -/
theorem deriveAll_eq (h : deriver.Sound) (schemas : List Json) :
    (deriver.deriveAll schemas).1 =
      schemas.map (Schema.typeWithin (deriver.options.maxDepth.map (· + 1))) := by
  induction schemas generalizing deriver with
  | nil => rfl
  | cons schema schemas ih =>
    exact congrArg₂ List.cons (derive_eq h schema) (ih (h.derive schema))

/-- The cache is invisible: a derivation that keeps types from one schema to the
    next gives each schema the type that a new derivation without a cache gives
    it, under any limit on the depth and for any list of schemas. -/
theorem deriveAll_memoize_eq (maxDepth : Option Nat) (schemas : List Json) :
    (({ options := ⟨maxDepth, true⟩ } : Deriver).deriveAll schemas).1 =
      schemas.map fun schema => (({ options := ⟨maxDepth, false⟩ } : Deriver).derive schema).1 := by
  rw [deriveAll_eq (sound_new _)]
  exact List.map_congr_left fun schema _ => (derive_eq (sound_new ⟨maxDepth, false⟩) schema).symm

end Deriver

/-- The type of a schema is the one that is found without a limit. -/
theorem typeOf_eq_typeWithin (schema : Json) : typeOf schema = Schema.typeWithin none schema :=
  Deriver.derive_eq (Deriver.sound_new _) schema

end SchemaTypes
