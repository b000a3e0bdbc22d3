import SchemaTypes.Command.Run
import SchemaTypes.Proofs.Command.Work
import SchemaTypes.Proofs.Files.Tree

namespace SchemaTypes

open Work (ReadsOnly)

/-- The file of options is read and told of in the log. A text that holds no
    options is a failure and no more. -/
theorem DeriveSettings.readsOnly_readOptions (path : String) : ReadsOnly (readOptions path) := by
  refine (ReadsOnly.readFile path).bind fun text => ?_
  refine ReadsOnly.bind (.orFail _ _) fun options => ?_
  exact ReadsOnly.bind (.note _ _ _) fun _ => .pure options

theorem DeriveSettings.readsOnly_options (settings : DeriveSettings) :
    ReadsOnly settings.options := by
  unfold options
  cases settings.config with
  | none => exact .pure _
  | some path => exact (readsOnly_readOptions path).bind fun _ => .pure _

namespace InputSettings

/-- Standard input is used up by reading it, which is no trace that a failing run
    may not leave. -/
theorem readsOnly_readSource (path : String) : ReadsOnly (readSource path) := by
  unfold readSource
  split
  · exact ReadsOnly.takeInput.bind fun _ => .orFail _ _
  · exact .readFile path

theorem readsOnly_select (settings : InputSettings) (origin : String) (document : Json) :
    ReadsOnly (settings.select origin document) := by
  unfold select
  split
  · exact .pure document
  · split
    next part _ => exact .pure part
    next => exact .throw _

variable (settings : InputSettings) (jq : Query.Interpreter)

/-- Whatever the interpreter answers, its answer is only looked at. This is where
    nothing has to be known of the filter. -/
theorem readsOnly_schemasIn (origin : String) (document : Json) :
    ReadsOnly (settings.schemasIn jq origin document) := by
  unfold schemasIn
  split
  · exact .pure _
  · refine ReadsOnly.bind (.orFail _ _) fun outputs => ?_
    exact ReadsOnly.bind (.note _ _ _) fun _ => .pure _

theorem readsOnly_loadPath (path : String) : ReadsOnly (settings.loadPath jq path) := by
  refine (readsOnly_readSource path).bind fun text => ?_
  refine ReadsOnly.bind (.orFail _ _) fun document => ?_
  exact (settings.readsOnly_select path document).bind fun part =>
    settings.readsOnly_schemasIn jq path part

/-- However many patterns have been expanded and however many documents have been read,
    filtered and noted before one of them fails, nothing has been written or printed. -/
theorem readsOnly_load : ReadsOnly (settings.load jq) := by
  refine ReadsOnly.bind (.mapM (fun text => ?_) _) fun paths => ?_
  · exact ReadsOnly.get.bind fun _ => .orFail _ _
  · refine ReadsOnly.bind (.mapM (settings.readsOnly_loadPath jq) _) fun schemas => ?_
    exact ReadsOnly.bind (.note _ _ _) fun _ => .pure _

end InputSettings

/-- Deriving a type always succeeds and adds to the log alone. -/
theorem LoadedSchema.readsOnly_derive (options : Options) (loaded : LoadedSchema) :
    ReadsOnly (loaded.derive options) := fun _ => ⟨rfl, rfl, rfl⟩

/-- All of a command up to its text writes and prints nothing. The stages are
    those of `Command.compose`, each with its own lemma. -/
theorem Command.readsOnly_compose (command : Command) (jq : Query.Interpreter) :
    ReadsOnly (command.compose jq) := by
  refine command.derivation.readsOnly_options.bind fun options => ?_
  refine (command.input.readsOnly_load jq).bind fun schemas => ?_
  refine ReadsOnly.bind (.mapM (fun loaded => ?_) _) fun types => .pure _
  exact (loaded.readsOnly_derive options).bind fun ty => .pure (loaded.origin, ty)

/-- Whether a failure is one of writing, and not one that comes up before anything
    is written. -/
def Failure.isUnwritable : Failure → Bool
  | .unwritable _ _ => true
  | _ => false

namespace Work

variable {space space' : Workspace} {path text : String}

/-- The files are seen once, changed by the step and put back, in this order. -/
theorem run_change (path : String) (step : FileTree → Except FileError FileTree)
    (space : Workspace) :
    (change path step).run space =
      (orFail (.unwritable path) (step space.files) >>= fun files =>
        modify fun space => { space with files } : Work Unit).run space := rfl

theorem run_change_ok {step : FileTree → Except FileError FileTree} {files : FileTree}
    (h : step space.files = .ok files) :
    (change path step).run space = (.ok (), { space with files }) := by
  rw [run_change, h]
  rfl

/-- A refused step leaves the files as they were. -/
theorem run_change_error {step : FileTree → Except FileError FileTree} {e : FileError}
    (h : step space.files = .error e) :
    (change path step).run space = (.error (.unwritable path e), space) := by
  rw [run_change, h]
  rfl

/-- All that writing a file can come to: it fails as a failure to write, or it
    makes the directory of the file, then the file, and notes it. Other proofs
    about writing go through these two cases. -/
theorem run_write_cases {result : Except Failure Unit}
    (h : (write path text).run space = (result, space')) :
    (∃ e, result = .error (.unwritable path e)) ∨
    (result = .ok () ∧ ∃ made written, space.files.makeParent path = .ok made ∧
      made.writeText path text = .ok written ∧
      space' = { space with
        files := written
        log := space.log ++ #[⟨.info, .commandLine, s!"wrote {path}"⟩] }) := by
  unfold write at h
  cases hmade : space.files.makeParent path with
  | error e =>
    rw [run_bind_error (run_change_error hmade)] at h
    exact .inl ⟨e, (congrArg Prod.fst h).symm⟩
  | ok made =>
    rw [run_bind_ok (run_change_ok hmade)] at h
    cases hwritten : made.writeText path text with
    | error e =>
      rw [run_bind_error (run_change_error hwritten)] at h
      exact .inl ⟨e, (congrArg Prod.fst h).symm⟩
    | ok written =>
      rw [run_bind_ok (run_change_ok hwritten), run_note] at h
      cases h
      exact .inr ⟨rfl, made, written, rfl, hwritten, rfl⟩

/-- Only writing fails when a text is put where it belongs. A failure of any other
    kind has come up before. -/
theorem isUnwritable_of_deliver {out : Option String} {failure : Failure}
    (h : (deliver out text).run space = (.error failure, space')) :
    failure.isUnwritable = true := by
  cases out with
  | none => cases h
  | some path =>
    obtain ⟨e, he⟩ | ⟨hok, -⟩ := run_write_cases h
    · cases he
      rfl
    · cases hok

/-- Writing a file changes nothing on standard output. The file is found under its path with
    the text in it; apart from it there are at most more directories than before. -/
theorem files_of_write (h : (write path text).run space = (.ok (), space')) :
    space'.output = space.output ∧ ∃ place, space'.files.find path = .ok place ∧
      space'.files.get? place = some (.file text.toUTF8) ∧ ∀ other, other ≠ place →
        space'.files.get? other = space.files.get? other ∨
        space.files.get? other = none ∧ space'.files.get? other = some .directory := by
  obtain ⟨e, he⟩ | ⟨-, made, written, hmade, hwritten, rfl⟩ := run_write_cases h
  · cases he
  · obtain ⟨place, hfind, hfile, hsame⟩ := FileTree.find_of_writeText hwritten
    refine ⟨rfl, place, hfind, hfile, fun other hne => ?_⟩
    rw [hsame other hne]
    exact (FileTree.extends_makeParent hmade).get? other

end Work

namespace Command

open Work

variable {command : Command} {jq : Query.Interpreter} {space : Workspace}

/-- A run that only shows how the command was understood succeeds and writes to
    the error output alone. -/
theorem run_of_noOp (h : command.noOp = true) :
    command.run space jq = (.ok (), space.printError (command.outline.text ++ "\n")) := by
  rw [run, perform, if_pos h]
  rfl

/-- A run is the making of a text and then its delivery, which is not reached if the first
    fails. With the two lemmas on binds this is a run as a match on the text. -/
theorem run_eq_bind (h : command.noOp = false) :
    command.run space jq = (command.compose jq >>= deliver command.out).run space := by
  rw [run, perform, h]
  rfl

/-- A run writes all or nothing, whatever the files and standard input are,
    whichever accesses the system refuses and whatever the interpreter makes of
    the filter. If the run fails, other than at writing itself, then nothing has
    been printed and no file or directory has been made or changed. If it succeeds
    and is to write a file, then nothing has been printed either, the file holds
    what would have been printed without the newline at the end, and no other file
    has been made or changed. -/
theorem run_writes_all_or_nothing (command : Command) (jq : Query.Interpreter) (space : Workspace) :
    (∀ failure, (command.run space jq).1 = .error failure → failure.isUnwritable = false →
      (command.run space jq).2.output = space.output ∧
      (command.run space jq).2.files = space.files) ∧
    (∀ path, command.out = some path → command.noOp = false → (command.run space jq).1 = .ok () →
      (command.run space jq).2.output = space.output ∧
      ∃ text place, ({ command with out := none }.run space jq).1 = .ok () ∧
        ({ command with out := none }.run space jq).2.output = space.output ++ (text ++ "\n") ∧
        (command.run space jq).2.files.find path = .ok place ∧
        (command.run space jq).2.files.get? place = some (.file text.toUTF8) ∧
        ∀ other, other ≠ place →
          (command.run space jq).2.files.get? other = space.files.get? other ∨
          space.files.get? other = none ∧
            (command.run space jq).2.files.get? other = some .directory) := by
  obtain ⟨result, middle, hcompose⟩ : ∃ result middle,
      (command.compose jq).run space = (result, middle) := ⟨_, _, rfl⟩
  have hmiddle : space.Untouched middle := by
    have := command.readsOnly_compose jq space
    rwa [hcompose] at this
  constructor
  · intro failure hfailure hwritable
    cases hrun : command.noOp with
    | true =>
      rw [run_of_noOp hrun] at hfailure
      cases hfailure
    | false =>
      rw [run_eq_bind hrun] at hfailure ⊢
      cases result with
      | error failure' =>
        rw [run_bind_error hcompose]
        exact ⟨hmiddle.output, hmiddle.files⟩
      | ok text =>
        rw [run_bind_ok hcompose] at hfailure
        rw [isUnwritable_of_deliver (Prod.ext hfailure rfl)] at hwritable
        cases hwritable
  · intro path hout hrun hok
    have hprint : { command with out := none }.run space jq =
        (command.compose jq >>= deliver none).run space := run_eq_bind hrun
    rw [run_eq_bind hrun, hout] at hok ⊢
    rw [hprint]
    cases result with
    | error failure =>
      rw [run_bind_error hcompose] at hok
      cases hok
    | ok text =>
      rw [run_bind_ok hcompose] at hok ⊢
      rw [run_bind_ok hcompose]
      obtain ⟨houtput, place, hfind, hfile, hothers⟩ := files_of_write (Prod.ext hok rfl)
      rw [hmiddle.files] at hothers
      refine ⟨houtput.trans hmiddle.output, text, place, rfl, ?_, hfind, hfile, hothers⟩
      rw [← hmiddle.output]
      rfl

/-- Four runs that fail, at a missing file and at a directory that may not be
    listed after a document has been read, at bytes that are no text and at an
    input that breaks off, and one run that writes its file. -/
theorem run_writes_all_or_nothing_failing_inputs :
    let files := (FileTree.empty.add ["work", "in"] .directory).refuse .listDirectory ["work", "in"]
      (.other "Permission denied (os error 13)")
    let command (paths : List String) : Command :=
      { target := .typeScript "Root", input := { paths }, out := some "out/types.ts" }
    let ended (paths : List String) (input : StandardInput) := (command paths).run { files, input }
    let schema : StandardInput := "\x7b\"type\": \"string\"\x7d"
    (∀ failing ∈ [(["-", "missing.json"], schema), (["-", "in/*.json"], schema),
        (["-"], .bytes ⟨#[255]⟩), (["-"], .broken (.other "Input/output error (os error 5)"))],
      (ended failing.1 failing.2).2.output = "" ∧ (ended failing.1 failing.2).2.files = files) ∧
    (ended ["-"] schema).2.output = "" ∧
    ∃ place, (ended ["-"] schema).2.files.find "out/types.ts" = .ok place ∧
      (ended ["-"] schema).2.files.get? place =
        some (.file "export type Root = string;\n".toUTF8) := by
  intro files command ended schema
  have hnothing (paths : List String) (input : StandardInput)
      (h : (ended paths input).1.mapError Failure.isUnwritable = .error false) :
      (ended paths input).2.output = "" ∧ (ended paths input).2.files = files := by
    cases hfailed : (ended paths input).1 with
    | ok _ =>
      rw [hfailed] at h
      cases h
    | error failure =>
      rw [hfailed] at h
      exact (run_writes_all_or_nothing (command paths) Query.interpret { files, input }).1 failure
        hfailed (Except.error.inj h)
  have hwritten : (ended ["-"] schema).1 = .ok () := by
    have hdone : (ended ["-"] schema).1.toBool = true := by decide +kernel
    cases hresult : (ended ["-"] schema).1 with
    | ok _ => rfl
    | error _ =>
      rw [hresult] at hdone
      cases hdone
  have hprints : ({ command ["-"] with out := none }.run { files, input := schema }).2.output =
      "" ++ ("export type Root = string;\n" ++ "\n") := by decide +kernel
  obtain ⟨houtput, text, place, _, hprinted, hfind, hfile, _⟩ :=
    (run_writes_all_or_nothing (command ["-"]) Query.interpret { files, input := schema }).2 _ rfl
      rfl hwritten
  have htext : text = "export type Root = string;\n" := by
    have hchars := congrArg String.toList (hprints.symm.trans hprinted)
    simp only [String.toList_append] at hchars
    exact String.toList_inj.mp (List.append_cancel_right (List.append_cancel_left hchars)).symm
  refine ⟨?_, houtput, place, hfind, htext ▸ hfile⟩
  rw [List.forall_mem_cons, List.forall_mem_cons, List.forall_mem_cons, List.forall_mem_singleton]
  exact ⟨hnothing _ _ (by decide +kernel), hnothing _ _ (by decide +kernel),
    hnothing _ _ (by decide +kernel), hnothing _ _ (by decide +kernel)⟩

end Command

end SchemaTypes
