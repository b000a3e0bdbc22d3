import SchemaTypes.Proofs.Command.Run
import SchemaTypes.Proofs.Json.RoundTrip

namespace SchemaTypes

namespace Json

/-- A value that is printed and read again without loss. -/
structure Lossless (value : Json) : Prop where
  wellFormed : value.WellFormed
  floats : value.FloatsReadBack
  nesting : value.nesting ≤ maxNesting

/-- Whatever is selected inside a value that loses nothing loses nothing either.
    With the lemma on entries this carries the property along a pointer. -/
theorem Lossless.item {items : List Json} (h : (Json.arr items).Lossless) :
    ∀ x ∈ items, x.Lossless := by
  intro x hx
  exact ⟨⟨h.wellFormed.names.item hx, fun n hn => h.wellFormed.numbers n (.item hx hn)⟩,
    fun y hy => h.floats y (.item hx hy), (nesting_lt_of_item hx).le.trans h.nesting⟩

theorem Lossless.entry {entries : List (String × Json)} (h : (Json.obj entries).Lossless) :
    ∀ entry ∈ entries, entry.2.Lossless := by
  intro entry hentry
  exact ⟨⟨h.wellFormed.names.entry hentry, fun n hn => h.wellFormed.numbers n (.entry hentry hn)⟩,
    fun y hy => h.floats y (.entry hentry hy), (nesting_lt_of_entry hentry).le.trans h.nesting⟩

/-- Whatever document a text holds, its doubles are read back from their texts. -/
def FloatsReadBackIn (text : String) : Prop := ∀ value, parse text = .ok value → value.FloatsReadBack

/-- A document that was read needs only its doubles to be looked at: the reader
    has seen to the names, the range of integers and the depth. -/
theorem lossless_of_parse {text : String} (htext : FloatsReadBackIn text) {value : Json}
    (h : parse text = .ok value) : value.Lossless :=
  ⟨(wellFormed_of_parse h).1, htext value h, (wellFormed_of_parse h).2⟩

theorem floatsReadBackIn_empty : FloatsReadBackIn "" := by
  intro value h
  cases h

end Json

namespace Query

/-- The identity filter gives its input, and gives it once. -/
def GivesInput (jq : Interpreter) : Prop := ∀ value, jq "." value = .ok [.ok value]

/-- The interpreter of this library meets the assumption, so that what is proved
    under it is not empty. -/
theorem givesInput_interpret : GivesInput interpret := fun _ => rfl

/-- What the identity filter gives is the input, printed and read again. Nothing
    is assumed of the interpreter but what it gives for this one filter. -/
theorem runWith_identity {jq : Interpreter} (hjq : GivesInput jq) {value : Json}
    (h : value.Lossless) : runWith jq "." value = .ok [value] := by
  have hreread : reread value = .ok value := by
    rw [reread, Json.parse_compact h.wellFormed h.floats h.nesting]
  have hrun : runWith jq "." value = documents [.ok value] := by
    rw [runWith, hjq value]
    rfl
  rw [hrun, documents, hreread]
  rfl

end Query

/-- The records of a log that are shown without asking for details. -/
def infos (log : Array LogRecord) : List LogRecord := log.toList.filter (·.level = .info)

theorem infos_append (log records : Array LogRecord) :
    infos (log ++ records) = infos log ++ infos records := by
  simp [infos]

namespace Workspace

/-- The documents that a command can read hold no doubles that are lost when they
    are printed. -/
structure FloatsReadBack (space : Workspace) : Prop where
  input : ∀ text, space.input.text = .ok text → Json.FloatsReadBackIn text
  files : ∀ path text, space.files.readText path = .ok text → Json.FloatsReadBackIn text

/-- Two workspaces differ in details of their logs only. -/
structure Alike (space space' : Workspace) : Prop where
  files : space.files = space'.files
  input : space.input = space'.input
  output : space.output = space'.output
  errors : space.errors = space'.errors
  infos : infos space.log = infos space'.log

/-- Two workspaces differ in details of their logs only, and no double is lost in
    either. Until something is written this stays so. -/
structure AlikeSources (space space' : Workspace) : Prop extends Alike space space' where
  floats : space.FloatsReadBack

variable {space space' : Workspace}

/-- Records of any kind may be added to both logs, as long as those that are shown
    without asking are the same. -/
theorem Alike.append (h : space.Alike space') {records records' : Array LogRecord}
    (hrecords : SchemaTypes.infos records = SchemaTypes.infos records') :
    Alike { space with log := space.log ++ records } { space' with log := space'.log ++ records' } := by
  refine ⟨h.files, h.input, h.output, h.errors, ?_⟩
  rw [infos_append, infos_append, h.infos, hrecords]

theorem AlikeSources.append (h : space.AlikeSources space') {records records' : Array LogRecord}
    (hrecords : SchemaTypes.infos records = SchemaTypes.infos records') :
    AlikeSources { space with log := space.log ++ records }
      { space' with log := space'.log ++ records' } :=
  ⟨h.toAlike.append hrecords, h.floats.input, h.floats.files⟩

/-- At most the details of a log are told apart by asking for more. Up to the
    first level of verbosity nothing but the shown records is printed. -/
theorem Alike.shownLog (h : space.Alike space') {verbosity : Nat} (hverbosity : verbosity ≤ 1) :
    space.shownLog verbosity = space'.shownLog verbosity := by
  have hshown (log : Array LogRecord) :
      log.toList.filter (·.level.verbosity ≤ verbosity) =
        (SchemaTypes.infos log).filter (·.level.verbosity ≤ verbosity) := by
    rw [SchemaTypes.infos, List.filter_filter]
    refine List.filter_congr fun record _ => ?_
    cases record.level with
    | info => simp
    | debug | trace =>
      rw [Level.verbosity, decide_eq_false (by omega)]
      rfl
  rw [Workspace.shownLog, Workspace.shownLog, hshown space.log, hshown space'.log, h.infos]

end Workspace

namespace Work

open Workspace (Alike AlikeSources)

/-- Notes at the level that is shown must be the same on both sides. Details may
    differ in their texts, since they mention where a schema was found. -/
theorem agree_note {level : Level} {component : Component} {message message' : String}
    (h : level = .info → message = message') :
    Agree AlikeSources (fun _ _ => True)
      (note level component message) (note level component message') := by
  intro space space' halike
  rw [run_note, run_note]
  refine ⟨halike.append ?_, .ok trivial⟩
  by_cases hlevel : level = .info
  · rw [h hlevel]
  · simp [infos, hlevel]

/-- One of two pieces of work may note a detail more than the other. -/
theorem agree_of_detail {α β : Type} {related : α → β → Prop} {x : Work α} {y : Work β}
    {level : Level} (hlevel : level ≠ .info) {component : Component} {message : String}
    (h : Agree AlikeSources related x y) :
    Agree AlikeSources related x (do note level component message; y) := by
  intro space space' halike
  rw [run_bind_ok (run_note level component message space')]
  refine h ⟨⟨halike.files, halike.input, halike.output, halike.errors, ?_⟩, halike.floats⟩
  rw [infos_append, halike.infos]
  simp [infos, hlevel]

/-- The same file is read on both sides, and what was assumed of all files is
    known of its text. -/
theorem agree_readFile (path : String) :
    Agree AlikeSources (SameWith Json.FloatsReadBackIn) (readFile path) (readFile path) := by
  refine Agree.bind .get fun space space' halike => ?_
  rw [← halike.files]
  exact .orFail_with _ (halike.floats.files path)

/-- What is left of standard input is the empty text, which holds no document.
    Both sides have read the same text or failed in the same way. -/
theorem agree_takeInput :
    Agree AlikeSources (SameWith fun result => ∀ text, result = .ok text → Json.FloatsReadBackIn text)
      takeInput takeInput := by
  intro space space' halike
  refine ⟨⟨⟨halike.files, rfl, halike.output, halike.errors, halike.infos⟩, ?_, halike.floats.files⟩,
    .ok ⟨congrArg StandardInput.text halike.input, halike.floats.input⟩⟩
  intro text htext
  obtain rfl := Except.ok.inj ((decodeText_toUTF8 "").symm.trans htext)
  exact Json.floatsReadBackIn_empty

/-- One step on the files is the same for workspaces with the same files, also
    where it fails. -/
theorem agree_change (path : String) (step : FileTree → Except FileError FileTree) :
    Agree Alike Eq (change path step) (change path step) := by
  refine Agree.bind .get fun space space' halike => ?_
  rw [← halike.files]
  refine Agree.bind (.orFail _ fun _ _ => rfl) ?_
  rintro files _ rfl
  exact fun i j h => ⟨⟨rfl, h.input, h.output, h.errors, h.infos⟩, .ok rfl⟩

/-- Delivery does the same in workspaces that are alike. What was assumed of the
    documents is not needed here, and would not outlast the writing of a file. -/
theorem agree_deliver (out : Option String) (text : String) :
    Agree Alike Eq (deliver out text) (deliver out text) := by
  cases out with
  | none =>
    exact fun i j h => ⟨⟨h.files, h.input, congrArg (· ++ (text ++ "\n")) h.output, h.errors, h.infos⟩,
      .ok rfl⟩
  | some path =>
    refine (agree_change path _).bind fun _ _ _ => (agree_change path _).bind fun _ _ _ => ?_
    intro i j h
    rw [run_note, run_note]
    exact ⟨h.append rfl, .ok rfl⟩

end Work

open Work Workspace

/-- Two schemas are the same, wherever they were found. -/
def LoadedSchema.SameSchema (loaded loaded' : LoadedSchema) : Prop := loaded.schema = loaded'.schema

theorem DeriveSettings.agree_readOptions (path : String) :
    Agree AlikeSources Eq (readOptions path) (readOptions path) := by
  refine (agree_readFile path).bind ?_
  rintro text _ ⟨rfl, -⟩
  refine Agree.bind (.orFail _ fun _ _ => rfl) ?_
  rintro options _ rfl
  exact (agree_note fun _ => rfl).bind fun _ _ _ => .pure rfl

/-- The options do not depend on the filter. -/
theorem DeriveSettings.agree_options (settings : DeriveSettings) :
    Agree AlikeSources Eq settings.options settings.options := by
  unfold options
  cases settings.config with
  | none => exact .pure rfl
  | some path =>
    refine (agree_readOptions path).bind ?_
    rintro options _ rfl
    exact .pure rfl

namespace InputSettings

/-- The same settings with the identity filter. -/
def filtered (settings : InputSettings) : InputSettings := { settings with query := some "." }

theorem agree_readSource (path : String) :
    Agree AlikeSources (SameWith Json.FloatsReadBackIn) (readSource path) (readSource path) := by
  unfold readSource
  split
  · refine agree_takeInput.bind ?_
    rintro result _ ⟨rfl, hresult⟩
    exact .orFail_with _ hresult
  · exact agree_readFile path

/-- The pointer is followed before the filter is run, and what it selects loses
    nothing if the document does not. -/
theorem agree_select (settings : InputSettings) (origin : String) {document : Json}
    (hdocument : document.Lossless) :
    Agree AlikeSources (SameWith Json.Lossless)
      (settings.select origin document) (settings.filtered.select origin document) := by
  have hsame : settings.filtered.select origin document = settings.select origin document := rfl
  rw [hsame]
  unfold select
  split
  · exact .pure ⟨rfl, hdocument⟩
  next pointer _ =>
    split
    next part hpart =>
      exact .pure ⟨rfl, Json.of_pointer? (fun _ h => h.item) (fun _ h => h.entry) hpart hdocument⟩
    next => exact .throw _

section Filtered

variable {settings : InputSettings} (hquery : settings.query = none) {jq : Query.Interpreter}
  (hjq : Query.GivesInput jq)

include hquery hjq

/-- The only stage at which the two runs differ: one takes the document as it is,
    the other prints it, reads it again and notes the one output that it got. -/
theorem agree_schemasIn (origin : String) {document : Json} (hdocument : document.Lossless) :
    Agree AlikeSources (List.Forall₂ LoadedSchema.SameSchema)
      (settings.schemasIn jq origin document) (settings.filtered.schemasIn jq origin document) := by
  have hfilter : settings.filtered.schemasIn jq origin document = (do
      note .debug .query s!"jq `.` produced {1} document(s)"
      return [⟨s!"{origin}#{0}", document⟩]) := by
    unfold schemasIn
    simp only [filtered, Query.runWith_identity hjq hdocument]
    rfl
  have hplain : settings.schemasIn jq origin document = return [⟨origin, document⟩] := by
    unfold schemasIn
    rw [hquery]
  rw [hplain, hfilter]
  refine agree_of_detail ?_ (.pure ?_)
  · exact nofun
  · exact .cons rfl .nil

/-- Reading, selecting and filtering one document, in this order. What is known of
    the text passes to the document and from this to the part that is selected. -/
theorem agree_loadPath (path : String) :
    Agree AlikeSources (List.Forall₂ LoadedSchema.SameSchema)
      (settings.loadPath jq path) (settings.filtered.loadPath jq path) := by
  refine (agree_readSource path).bind ?_
  rintro text _ ⟨rfl, htext⟩
  refine Agree.bind (.orFail_with _ fun _ hparse => Json.lossless_of_parse htext hparse) ?_
  rintro document _ ⟨rfl, hdocument⟩
  refine (agree_select settings path hdocument).bind ?_
  rintro part _ ⟨rfl, hpart⟩
  exact agree_schemasIn hquery hjq path hpart

/-- With the identity filter the same schemas are loaded as without a filter. Only their
    origins, which are numbered, and details of the log tell the two apart. -/
theorem agree_load :
    Agree AlikeSources (List.Forall₂ LoadedSchema.SameSchema)
      (settings.load jq) (settings.filtered.load jq) := by
  have hpaths : Agree AlikeSources (List.Forall₂ Eq)
      (settings.paths.mapM fun text => do orFail id (pathsOf (← get).files text))
      (settings.filtered.paths.mapM fun text => do orFail id (pathsOf (← get).files text)) := by
    refine .mapM_same settings.paths fun text => Agree.bind .get fun space space' halike => ?_
    rw [← halike.files]
    exact .orFail _ fun _ _ => rfl
  refine hpaths.bind fun paths paths' hsame => ?_
  rw [List.forall₂_eq_eq_eq] at hsame
  subst hsame
  refine (Agree.mapM_same paths.flatten (agree_loadPath hquery hjq)).bind
    fun schemas schemas' hsame => ?_
  have hflatten := List.rel_flatten hsame
  refine Agree.bind (agree_note fun _ => ?_) fun _ _ _ => .pure hflatten
  rw [hflatten.length_eq]

end Filtered

end InputSettings

/-- Equal schemas have equal types and the same log of their derivation. Where
    they were found shows up in a detail only. -/
theorem LoadedSchema.agree_derive (options : Options) {loaded loaded' : LoadedSchema}
    (h : loaded.SameSchema loaded') :
    Agree AlikeSources Eq (loaded.derive options) (loaded'.derive options) := by
  obtain ⟨origin, schema⟩ := loaded
  obtain ⟨origin', _⟩ := loaded'
  cases h
  unfold derive
  have hlog : Agree AlikeSources Eq
      (modify fun space => { space with
        log := space.log ++ (({ options } : Deriver).derive schema).2.memo.log } : Work Unit)
      (modify fun space => { space with
        log := space.log ++ (({ options } : Deriver).derive schema).2.memo.log } : Work Unit) :=
    fun i j halike => ⟨halike.append rfl, .ok rfl⟩
  refine hlog.bind fun _ _ _ => ?_
  refine Agree.bind (agree_note ?_) fun _ _ _ => .pure rfl
  exact nofun

/-- There is no file in a tree that is empty, so that every assumption on the
    texts of its files holds. -/
theorem FileTree.readText_empty (path text : String) : FileTree.empty.readText path ≠ .ok text := by
  intro htext
  obtain ⟨place, -, hread⟩ := bind_eq_ok_iff.mp htext
  have hnoFile : ∀ content, FileTree.empty.get? place ≠ some (.file content) := by
    intro content hfile
    unfold FileTree.get? at hfile
    split at hfile
    · cases hfile
    · obtain ⟨front, back, hnodes, -⟩ := List.lookup_eq_some_iff.mp hfile
      simp [FileTree.empty, List.singleton_eq_append_iff] at hnodes
  split at hread
  · cases hread
  · cases hread
  next content hfile => exact hnoFile content hfile

namespace Command

/-- The command with the identity filter. -/
def filtered (command : Command) : Command := { command with input := command.input.filtered }

section Filtered

variable {command : Command} {typeName : String} (htarget : command.target = .typeScript typeName)
  (hquery : command.input.query = none) {jq : Query.Interpreter} (hjq : Query.GivesInput jq)

include htarget hquery hjq

/-- The text for declarations mentions no origins, so that it is the same with
    numbered ones. For the list of types as a document this would be wrong. -/
theorem agree_compose :
    Agree AlikeSources Eq (command.compose jq) (command.filtered.compose jq) := by
  refine command.derivation.agree_options.bind ?_
  rintro options _ rfl
  refine (InputSettings.agree_load hquery hjq).bind fun schemas schemas' hschemas => ?_
  have htypes : Agree AlikeSources (List.Forall₂ fun type type' => type.2 = type'.2)
      (schemas.mapM fun loaded => return (loaded.origin, ← loaded.derive options))
      (schemas'.mapM fun loaded => return (loaded.origin, ← loaded.derive options)) := by
    refine .mapM hschemas fun loaded loaded' h => (LoadedSchema.agree_derive options h).bind ?_
    rintro ty _ rfl
    exact .pure rfl
  refine htypes.bind fun types types' hsame => .pure ?_
  have hmap : types.map (·.2) = types'.map (·.2) := by
    rw [← List.forall₂_eq_eq_eq, List.forall₂_map_left_iff, List.forall₂_map_right_iff]
    exact hsame
  have htarget' : command.filtered.target = .typeScript typeName := htarget
  rw [htarget, htarget', Target.text, Target.text, hmap]

/-- A whole run comes to the same end with the identity filter as without. The two
    are compared up to the text first, since what is known of the documents is
    lost once something is written. -/
theorem alike_run {space : Workspace} (hspace : space.FloatsReadBack) (hrun : command.noOp = false) :
    (command.run space jq).2.Alike (command.filtered.run space jq).2 ∧
      SameEnd Eq (command.run space jq).1 (command.filtered.run space jq).1 := by
  have hrun' : command.filtered.noOp = false := hrun
  have hstart : space.AlikeSources space := ⟨⟨rfl, rfl, rfl, rfl, rfl⟩, hspace⟩
  obtain ⟨hspaces, hend⟩ := agree_compose htarget hquery hjq hstart
  obtain ⟨result, middle, hplain⟩ : ∃ result middle,
      (command.compose jq).run space = (result, middle) := ⟨_, _, rfl⟩
  obtain ⟨result', middle', hfiltered⟩ : ∃ result middle,
      (command.filtered.compose jq).run space = (result, middle) := ⟨_, _, rfl⟩
  rw [hplain, hfiltered] at hspaces hend
  rw [run_eq_bind hrun, run_eq_bind hrun']
  cases hend with
  | error failure =>
    rw [run_bind_error hplain, run_bind_error hfiltered]
    exact ⟨hspaces.toAlike, .error failure⟩
  | ok htext =>
    subst htext
    rw [run_bind_ok hplain, run_bind_ok hfiltered]
    exact agree_deliver command.out _ hspaces.toAlike

end Filtered

/-- The identity filter loses nothing, whatever interpreter runs it, if that gives
    for it the input and gives it once. A value is read back from its text and so
    passes the filter unchanged, if it is not nested too deep, as no document that
    is read is, and if its doubles are read back from their texts. A command that
    prints declarations then does the same with the filter as without, but for
    details in its log. -/
theorem identity_filter_loses_nothing :
    (∀ value : Json, value.WellFormed → value.FloatsReadBack → value.nesting ≤ 127 →
      Json.parse value.compact = .ok value ∧ Query.run "." value = .ok [value] ∧
      ∀ jq, Query.GivesInput jq → Query.runWith jq "." value = .ok [value]) ∧
    (∀ text value, Json.parse text = .ok value → value.WellFormed ∧ value.nesting ≤ 127) ∧
    Query.GivesInput Query.interpret ∧
    ∀ (jq : Query.Interpreter), Query.GivesInput jq →
      ∀ (command : Command) (typeName : String) (space : Workspace),
      command.target = .typeScript typeName → command.input.query = none → space.FloatsReadBack →
      (command.filtered.run space jq).1 = (command.run space jq).1 ∧
      (command.filtered.run space jq).2.output = (command.run space jq).2.output ∧
      (command.filtered.run space jq).2.files = (command.run space jq).2.files ∧
      (command.filtered.run space jq).2.input = (command.run space jq).2.input ∧
      (∀ verbosity ≤ 1, (command.filtered.run space jq).2.shownLog verbosity =
        (command.run space jq).2.shownLog verbosity) ∧
      (command.noOp = false →
        (command.filtered.run space jq).2.errors = (command.run space jq).2.errors) := by
  refine ⟨fun value hvalue hfloats hnesting => ?_, fun text value h => Json.wellFormed_of_parse h,
    Query.givesInput_interpret, fun jq hjq command typeName space htarget hquery hspace => ?_⟩
  · have hlossless : value.Lossless := ⟨hvalue, hfloats, hnesting⟩
    exact ⟨Json.parse_compact hvalue hfloats hnesting,
      Query.runWith_identity Query.givesInput_interpret hlossless,
      fun jq hjq => Query.runWith_identity hjq hlossless⟩
  · cases hrun : command.noOp with
    | true =>
      have hrun' : command.filtered.noOp = true := hrun
      rw [run_of_noOp hrun, run_of_noOp hrun']
      exact ⟨rfl, rfl, rfl, rfl, fun _ _ => rfl, nofun⟩
    | false =>
      obtain ⟨halike, hend⟩ := alike_run htarget hquery hjq hspace hrun
      exact ⟨hend.eq.symm, halike.output.symm, halike.files.symm, halike.input.symm,
        fun _ hverbosity => (halike.shownLog hverbosity).symm, fun _ => halike.errors.symm⟩

/-- A document with a double, an integer and an escaped character on standard input. -/
theorem identity_filter_loses_nothing_numbers :
    let size : Double := ⟨false, 3 <<< 51, -52, by decide, by decide, by decide, .inr (by decide)⟩
    let value := Json.obj [("const", .num (.float size)), ("title", .str "\n"), ("x", .num (.int 0))]
    let command : Command := { target := .typeScript "Root", input := { paths := ["-"] } }
    let space : Workspace := { files := .empty, input := value.compact }
    Json.parse value.compact = .ok value ∧ Query.run "." value = .ok [value] ∧
      (command.filtered.run space).2.output = "export type Root = 1.5;\n\n" := by
  intro size value command space
  have hvalue : value.WellFormed := by
    refine ⟨by simp [value, Entries.names], fun n hn => ?_⟩
    obtain rfl | rfl : n = .float size ∨ n = .int 0 := by simpa [value] using hn
    · trivial
    · constructor <;> decide
  have hfloats : value.FloatsReadBack := by
    intro x hx
    obtain rfl : x = size := by simpa [value] using hx
    decide +kernel
  obtain ⟨hfilter, -, hinput, hcommand⟩ := identity_filter_loses_nothing
  obtain ⟨hparse, hrun, -⟩ := hfilter value hvalue hfloats (by decide)
  have hspace : space.FloatsReadBack := by
    refine ⟨fun text htext other hother => ?_, fun path text htext => ?_⟩
    · obtain rfl := Except.ok.inj ((decodeText_toUTF8 value.compact).symm.trans htext)
      obtain rfl := Except.ok.inj (hparse.symm.trans hother)
      exact hfloats
    · exact absurd htext (FileTree.readText_empty path text)
  refine ⟨hparse, hrun, (hcommand _ hinput command "Root" space rfl rfl hspace).2.1.trans ?_⟩
  decide +kernel

end Command

end SchemaTypes
