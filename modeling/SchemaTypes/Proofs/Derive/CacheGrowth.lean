import SchemaTypes.Proofs.Derive.Cache

namespace SchemaTypes

/-- The later cache comes from the earlier one by writing entries, each under a
    text that has none at that moment. A cache keeps everything that is written,
    so a text written twice would stand in it twice. -/
inductive WrittenOnce (earlier : Entries Ty) : Entries Ty → Prop where
  | refl : WrittenOnce earlier earlier
  | write {later : Entries Ty} {key : String} (hlater : WrittenOnce earlier later)
      (hkey : key ∉ later.names) (ty : Ty) : WrittenOnce earlier ((key, ty) :: later)

namespace WrittenOnce

variable {first second third : Entries Ty}

/-- What is written once in two stretches is written once in both together, since
    an entry of the first is not missing in the second. -/
theorem trans (h : WrittenOnce first second) (h' : WrittenOnce second third) :
    WrittenOnce first third := by
  induction h' with
  | refl => exact h
  | write _ hkey ty ih => exact ih.write hkey ty

/-- An entry stays as it was written, whatever is written later. -/
theorem lookup (h : WrittenOnce first second) {key : String} {ty : Ty}
    (hfound : first.lookup key = some ty) : second.lookup key = some ty := by
  induction h with
  | refl => exact hfound
  | @write later new _ hnew _ ih =>
    have hne : key ≠ new := by
      rintro rfl
      rw [Entries.lookup_eq_none_iff.mpr hnew] at ih
      cases ih
    rw [List.lookup_cons, beq_eq_false_iff_ne.mpr hne]
    exact ih

end WrittenOnce

/-- Two states differ in their logs at most. -/
def Memo.UpToLog (a b : Memo) : Prop := a.cache = b.cache ∧ a.hits = b.hits

theorem Memo.UpToLog.trans {a b c : Memo} (h : a.UpToLog b) (h' : b.UpToLog c) : a.UpToLog c :=
  ⟨h.1.trans h'.1, h.2.trans h'.2⟩

namespace Options

variable {options : Options} {schema : Json} {depth : Nat} {memo : Memo}

/-- The shape of a schema with the types of the schemas nested in it. -/
def resolveParts (options : Options) (schema : Json) (depth : Nat) : StateM Memo (Shape Ty) :=
  (Schema.parts schema).mapM fun part => options.resolve part.1 (depth + 1)

/-- The type of a schema is kept for reuse: types are kept at all, and the schema
    is followed and may hold others. -/
structure Keeps (options : Options) (schema : Json) (depth : Nat) : Prop where
  memoize : options.memoize = true
  followed : options.tooDeep depth = false
  composite : (Schema.classify schema).isComposite = true

/-- What working out a schema gives and leaves behind, the log apart: it is not
    looked into, its type is found in the cache, or its type comes from its parts
    and is stored or not. -/
inductive Effect (options : Options) (schema : Json) (depth : Nat) (memo : Memo) :
    Ty × Memo → Prop where
  | skip {after : Memo} (hkeeps : ¬ options.Keeps schema depth) (hafter : after.UpToLog memo) :
    Effect options schema depth memo (.any, after)
  | reuse {ty : Ty} {after : Memo} (hkeeps : options.Keeps schema depth)
      (hfound : memo.cache.lookup (options.cacheKey schema depth) = some ty)
      (hafter : after.UpToLog memo.hit) : Effect options schema depth memo (ty, after)
  | store {start below : Memo} {parts : Shape Ty} (hkeeps : options.Keeps schema depth)
      (hnew : memo.cache.lookup (options.cacheKey schema depth) = none)
      (hstart : start.UpToLog memo)
      (hparts : (options.resolveParts schema depth).run start = (parts, below)) :
    Effect options schema depth memo
      (Ty.ofShape parts, below.remember (options.cacheKey schema depth) (Ty.ofShape parts))
  | pass {start below after : Memo} {parts : Shape Ty} (hkeeps : ¬ options.Keeps schema depth)
      (hstart : start.UpToLog memo)
      (hparts : (options.resolveParts schema depth).run start = (parts, below))
      (hafter : after.UpToLog below) : Effect options schema depth memo (Ty.ofShape parts, after)

/-- What one call does to the cache and to the count of reuses, read off its
    definition once. Every statement about the growth of the cache is derived from
    these cases and not from the definition. -/
theorem resolve_effect (options : Options) (schema : Json) (depth : Nat) (memo : Memo) :
    Effect options schema depth memo ((options.resolve schema depth).run memo) := by
  -- A bind hides the case split behind it. Each of these leads past one kind of bind.
  have hnote {level : Level} {message : String} {next : PUnit → StateM Memo Ty}
      (h : ∀ start : Memo, start.UpToLog memo →
        Effect options schema depth memo ((next ⟨⟩).run start)) :
      Effect options schema depth memo ((modify (·.note level message) >>= next).run memo) :=
    h _ ⟨rfl, rfl⟩
  have hbelow {start : Memo} {next : Shape Ty → StateM Memo Ty}
      (h : ∀ parts below, (options.resolveParts schema depth).run start = (parts, below) →
        Effect options schema depth memo ((next parts).run below)) :
      Effect options schema depth memo ((options.resolveParts schema depth >>= next).run start) :=
    h _ _ rfl
  have hget {start : Memo} {next : Memo → StateM Memo Ty}
      (h : Effect options schema depth memo ((next start).run start)) :
      Effect options schema depth memo ((get >>= next).run start) := h
  rw [resolve]
  split
  next hdeep =>
    have hkeeps : ¬ options.Keeps schema depth := by
      intro h
      simp [h.followed] at hdeep
    exact .skip hkeeps ⟨rfl, rfl⟩
  next hfollowed =>
    rw [Bool.not_eq_true] at hfollowed
    refine hnote fun start hstart => ?_
    split
    next hkept =>
      rw [Bool.and_eq_true] at hkept
      have hkeeps : options.Keeps schema depth := ⟨hkept.1, hfollowed, hkept.2⟩
      refine hget ?_
      rw [hstart.1]
      split
      next ty hfound => exact .reuse hkeeps hfound ⟨hstart.1, congrArg (· + 1) hstart.2⟩
      next hnew => exact hbelow fun parts below hparts => .store hkeeps hnew hstart hparts
    next hkept =>
      have hkeeps : ¬ options.Keeps schema depth := by
        intro h
        simp [h.memoize, h.composite] at hkept
      split
      next => exact .skip hkeeps hstart
      next => exact hbelow fun parts below hparts => .pass hkeeps hstart hparts ⟨rfl, rfl⟩

/-- What is kept by working out each of the nested schemas is kept by working out
    all of them. -/
theorem resolveParts_keeps {P : Memo → Prop} (hsound : options.Sound memo) (hmemo : P memo)
    (hpart : ∀ part : Json, sizeOf part < sizeOf schema → ∀ memo, options.Sound memo → P memo →
      P ((options.resolve part (depth + 1)).run memo).2) :
    P ((options.resolveParts schema depth).run memo).2 := by
  have hyields : Yields (fun memo => options.Sound memo ∧ P memo)
      (options.resolveParts schema depth)
      ((Schema.parts schema).map fun part =>
        Schema.typeWithin (options.levels (depth + 1)) part.1) := by
    refine .shapeMapM (fun part memo ⟨hsound, hmemo⟩ => ?_) _
    obtain ⟨hty, hafter⟩ := options.resolve_yields part.1 (depth + 1) memo hsound
    exact ⟨hty, hafter, hpart part.1 part.2 memo hsound hmemo⟩
  exact (hyields memo ⟨hsound, hmemo⟩).2.2

theorem Sound.of_upToLog {start : Memo} (h : options.Sound memo) (hstart : start.UpToLog memo) :
    options.Sound start := by
  unfold Sound
  rw [hstart.1]
  exact h

/-- The cache has grown by entries of schemas of less than the given size, each
    written once. -/
structure Grown (options : Options) (size : Nat) (earlier later : Entries Ty) : Prop where
  once : WrittenOnce earlier later
  origin : ∀ key ∈ later.names, key ∈ earlier.names ∨
    ∃ schema depth, sizeOf schema < size ∧ key = options.cacheKey schema depth

theorem Grown.refl {size : Nat} {cache : Entries Ty} : options.Grown size cache cache :=
  ⟨.refl, fun _ => .inl⟩

/-- Growth by the entries of smaller schemas may be put together, also if the
    bounds differ. -/
theorem Grown.trans {small size : Nat} {first second third : Entries Ty} (hsize : small ≤ size)
    (h : options.Grown size first second) (h' : options.Grown small second third) :
    options.Grown size first third := by
  refine ⟨h.once.trans h'.once, fun key hkey => ?_⟩
  obtain hsecond | ⟨schema, depth, hschema, rfl⟩ := h'.origin key hkey
  · exact h.origin key hsecond
  · exact .inr ⟨schema, depth, by omega, rfl⟩

/-- No schema nested in another has its text, so that the entry of a schema is
    still missing when the nested ones have got theirs. -/
theorem Grown.write {cache below : Entries Ty} (h : options.Grown (sizeOf schema) cache below)
    (hnew : cache.lookup (options.cacheKey schema depth) = none) (ty : Ty) :
    options.Grown (sizeOf schema + 1) cache ((options.cacheKey schema depth, ty) :: below) := by
  have hkey : options.cacheKey schema depth ∉ below.names := by
    intro hmem
    obtain hold | ⟨part, depth', hpart, heq⟩ := h.origin _ hmem
    · exact Entries.lookup_eq_none_iff.mp hnew hold
    · obtain ⟨_, rfl⟩ := cacheKey_inj heq
      omega
  refine ⟨h.once.write hkey ty, fun key hmem => ?_⟩
  rw [Entries.names_cons, List.mem_cons] at hmem
  obtain rfl | hmem := hmem
  · exact .inr ⟨schema, depth, by omega, rfl⟩
  · exact (h.origin key hmem).imp_right fun ⟨part, depth', hpart, heq⟩ =>
      ⟨part, depth', by omega, heq⟩

/-- One schema adds its own entry to those of the nested ones at most. -/
theorem Effect.grown {ty : Ty} {after : Memo} (h : Effect options schema depth memo (ty, after))
    (hsound : options.Sound memo)
    (hbelow : ∀ start, options.Sound start → options.Grown (sizeOf schema) start.cache
      ((options.resolveParts schema depth).run start).2.cache) :
    options.Grown (sizeOf schema + 1) memo.cache after.cache := by
  cases h with
  | skip _ hafter =>
    rw [hafter.1]
    exact .refl
  | reuse _ _ hafter =>
    rw [hafter.1]
    exact .refl
  | store _ hnew hstart hparts =>
    have hgrown := hbelow _ (hsound.of_upToLog hstart)
    rw [hparts, hstart.1] at hgrown
    exact hgrown.write hnew _
  | pass _ hstart hparts hafter =>
    have hgrown := hbelow _ (hsound.of_upToLog hstart)
    rw [hparts, hstart.1] at hgrown
    rw [hafter.1]
    exact .trans (by omega) .refl hgrown

/-- All that a schema adds to the cache are entries of texts that were missing,
    each for a schema that is no larger. The bound on the size is what shows that
    its own entry is still missing when it is written. -/
theorem resolve_grown {memo : Memo} (hsound : options.Sound memo) (schema : Json) (depth : Nat) :
    options.Grown (sizeOf schema + 1) memo.cache
      ((options.resolve schema depth).run memo).2.cache := by
  refine (options.resolve_effect schema depth memo).grown hsound fun start hstart => ?_
  refine resolveParts_keeps
    (P := fun later => options.Grown (sizeOf schema) start.cache later.cache) hstart .refl
    fun part hpart later hlater hgrown => ?_
  exact hgrown.trans hpart (resolve_grown hlater part (depth + 1))
termination_by sizeOf schema

/-- Without reuse neither the cache nor the count of reuses is touched. -/
theorem resolve_upToLog (hoff : options.memoize = false) {memo : Memo}
    (hsound : options.Sound memo) (schema : Json) (depth : Nat) :
    ((options.resolve schema depth).run memo).2.UpToLog memo := by
  have heffect := options.resolve_effect schema depth memo
  generalize (options.resolve schema depth).run memo = result at heffect ⊢
  cases heffect with
  | skip _ hafter => exact hafter
  | reuse hkeeps => simp [hkeeps.memoize] at hoff
  | store hkeeps => simp [hkeeps.memoize] at hoff
  | @pass start _ _ _ _ hstart hparts hafter =>
    have hbelow : ((options.resolveParts schema depth).run start).2.UpToLog memo := by
      refine resolveParts_keeps (P := (Memo.UpToLog · memo)) (hsound.of_upToLog hstart) hstart
        fun part hpart later hlater hlog => ?_
      exact (resolve_upToLog hoff hlater part (depth + 1)).trans hlog
    rw [hparts] at hbelow
    exact hafter.trans hbelow
termination_by sizeOf schema

/-- A type that is kept is in the cache afterwards. -/
theorem Effect.lookup {ty : Ty} {after : Memo} (h : Effect options schema depth memo (ty, after))
    (hkeeps : options.Keeps schema depth) :
    after.cache.lookup (options.cacheKey schema depth) = some ty := by
  cases h with
  | skip hplain => exact absurd hkeeps hplain
  | reuse _ hfound hafter =>
    rw [hafter.1]
    exact hfound
  | store => exact List.lookup_cons_self
  | pass hplain => exact absurd hkeeps hplain

/-- A type that is in the cache is given, and nothing but the count of reuses changes. -/
theorem Effect.of_lookup {ty found : Ty} {after : Memo}
    (h : Effect options schema depth memo (ty, after)) (hkeeps : options.Keeps schema depth)
    (hfound : memo.cache.lookup (options.cacheKey schema depth) = some found) :
    ty = found ∧ after.UpToLog memo.hit := by
  cases h with
  | skip hplain => exact absurd hkeeps hplain
  | reuse _ hfound' hafter => exact ⟨Option.some.inj (hfound'.symm.trans hfound), hafter⟩
  | store _ hnew =>
    rw [hnew] at hfound
    cases hfound
  | pass hplain => exact absurd hkeeps hplain

theorem keeps_zero (hon : options.memoize = true)
    (hcomposite : (Schema.classify schema).isComposite = true) : options.Keeps schema 0 := by
  refine ⟨hon, ?_, hcomposite⟩
  unfold tooDeep
  split <;> simp

end Options

namespace Deriver

variable {deriver : Deriver}

theorem Sound.deriveAll (h : deriver.Sound) (schemas : List Json) :
    (deriver.deriveAll schemas).2.Sound := by
  induction schemas generalizing deriver with
  | nil => exact h
  | cons schema schemas ih => exact ih (h.derive schema)

theorem options_deriveAll (deriver : Deriver) (schemas : List Json) :
    (deriver.deriveAll schemas).2.options = deriver.options := by
  induction schemas generalizing deriver with
  | nil => rfl
  | cons schema schemas ih => exact ih (deriver.derive schema).2

/-- However many schemas are derived one after the other, no entry is written
    twice or changed. -/
theorem deriveAll_writtenOnce (h : deriver.Sound) (schemas : List Json) :
    WrittenOnce deriver.memo.cache (deriver.deriveAll schemas).2.memo.cache := by
  induction schemas generalizing deriver with
  | nil => exact .refl
  | cons schema schemas ih =>
    exact (Options.resolve_grown h schema 0).once.trans (ih (h.derive schema))

/-- Without reuse a derivation is left as it was, but for its log. -/
theorem deriveAll_upToLog (h : deriver.Sound) (hoff : deriver.options.memoize = false)
    (schemas : List Json) : (deriver.deriveAll schemas).2.memo.UpToLog deriver.memo := by
  induction schemas generalizing deriver with
  | nil => exact ⟨rfl, rfl⟩
  | cons schema schemas ih =>
    exact (ih (h.derive schema) hoff).trans (Options.resolve_upToLog hoff h schema 0)

/-- The type that a schema was given can be looked up from then on, whatever is
    derived next. -/
theorem lookup_deriveAll (h : deriver.Sound) {schemas : List Json} {schema : Json} {ty : Ty}
    (hderived : (schema, ty) ∈ schemas.zip (deriver.deriveAll schemas).1)
    (hkeeps : deriver.options.Keeps schema 0) :
    (deriver.deriveAll schemas).2.memo.cache.lookup (deriver.options.cacheKey schema 0) =
      some ty := by
  induction schemas generalizing deriver with
  | nil => cases hderived
  | cons first schemas ih =>
    rcases List.mem_cons.mp hderived with heq | hlater
    · cases heq
      have hlookup := (deriver.options.resolve_effect schema 0 deriver.memo).lookup hkeeps
      exact (deriveAll_writtenOnce (h.derive schema) schemas).lookup hlookup
    · exact ih (h.derive first) hlater hkeeps

/-- What one derivation does to its cache, whichever schemas it is given one after
    the other. A type is written only under a text that has none, and stays there.
    With reuse, a schema that may hold others and was given before gets the type
    that it got then, which counts as one reuse and leaves the cache as it is.
    Without reuse nothing is written and nothing is counted. -/
theorem deriveAll_writes_once (options : Options) (schemas : List Json) :
    let new : Deriver := { options }
    let deriver := (new.deriveAll schemas).2
    WrittenOnce [] deriver.memo.cache ∧
    (∀ more key ty, deriver.memo.cache.lookup key = some ty →
      (deriver.deriveAll more).2.memo.cache.lookup key = some ty) ∧
    (options.memoize = true → ∀ schema ty, (schema, ty) ∈ schemas.zip (new.deriveAll schemas).1 →
      (Schema.classify schema).isComposite = true →
      (deriver.derive schema).1 = ty ∧
      (deriver.derive schema).2.memo.hits = deriver.memo.hits + 1 ∧
      (deriver.derive schema).2.memo.cache = deriver.memo.cache) ∧
    (options.memoize = false → deriver.memo.hits = 0 ∧ deriver.memo.cache = []) := by
  intro new deriver
  have hnew : new.Sound := sound_new options
  refine ⟨deriveAll_writtenOnce hnew schemas, fun more key ty hfound => ?_,
    fun hon schema ty hderived hcomposite => ?_, fun hoff => ?_⟩
  · exact (deriveAll_writtenOnce (hnew.deriveAll schemas) more).lookup hfound
  · have hkeeps : new.options.Keeps schema 0 := Options.keeps_zero hon hcomposite
    have hfound := lookup_deriveAll hnew hderived hkeeps
    rw [← options_deriveAll new schemas] at hkeeps hfound
    obtain ⟨hty, hcache, hhits⟩ :=
      (deriver.options.resolve_effect schema 0 deriver.memo).of_lookup hkeeps hfound
    exact ⟨hty, hhits, hcache⟩
  · obtain ⟨hcache, hhits⟩ := deriveAll_upToLog hnew hoff schemas
    exact ⟨hhits, hcache⟩

/-- A record in which one list type occurs twice, given again with reuse and
    without. The second of the lists counts as the first reuse, and the whole
    record as the next. -/
theorem deriveAll_writes_once_record :
    let list := Json.obj [("type", .str "array"), ("items", .obj [("type", .str "string")])]
    let record := Json.obj [("type", .str "object"),
      ("properties", .obj [("tags", list), ("notes", list)])]
    let new : Deriver := { options := ⟨some 3, true⟩ }
    let deriver := (new.deriveAll [record, list]).2
    let again := deriver.derive record
    let plain := (({ options := ⟨none, false⟩ } : Deriver).deriveAll [record, list, record]).2
    deriver.memo.hits = 1 ∧ again.1 = (new.derive record).1 ∧ again.2.memo.hits = 2 ∧
      again.2.memo.cache = deriver.memo.cache ∧ plain.memo.hits = 0 ∧ plain.memo.cache = [] := by
  intro list record new deriver again plain
  -- The second list in the record is found. The list alone is not: it may be followed deeper.
  have hhits : deriver.memo.hits = 1 := by decide +kernel
  obtain ⟨_, _, hagain, _⟩ := deriveAll_writes_once ⟨some 3, true⟩ [record, list]
  obtain ⟨hty, hmore, hcache⟩ := hagain rfl record _ List.mem_cons_self rfl
  obtain ⟨_, _, _, hplain⟩ := deriveAll_writes_once ⟨none, false⟩ [record, list, record]
  exact ⟨hhits, hty, hmore.trans (congrArg (· + 1) hhits), hcache, hplain rfl⟩

end Deriver

end SchemaTypes
