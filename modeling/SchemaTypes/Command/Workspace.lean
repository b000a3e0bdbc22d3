import SchemaTypes.Command.Failure
import SchemaTypes.Log

namespace SchemaTypes

/-- Standard input, which is only ever read as a whole: all its bytes, or why it
    cannot be read to its end. -/
inductive StandardInput where
  | bytes (content : ByteArray)
  | broken (cause : FileError)

namespace StandardInput

instance : Coe String StandardInput := ⟨fun text => .bytes text.toUTF8⟩

/-- The text of standard input. -/
def text : StandardInput → Except FileError String
  | .bytes content => decodeText content
  | .broken cause => .error cause

end StandardInput

/-- What a command works with and leaves behind. -/
structure Workspace where
  files : FileTree
  input : StandardInput := ""
  output : String := ""
  errors : String := ""
  log : Array LogRecord := #[]

/-- The log lines that are shown at a verbosity. -/
def Workspace.shownLog (space : Workspace) (verbosity : Nat) : String :=
  String.join ((space.log.toList.filter (·.level.verbosity ≤ verbosity)).map LogRecord.line)

def Workspace.print (space : Workspace) (text : String) : Workspace :=
  { space with output := space.output ++ text }

def Workspace.printError (space : Workspace) (text : String) : Workspace :=
  { space with errors := space.errors ++ text }

/-- Work in a workspace, which may fail. What was done before a failure stays done. -/
abbrev Work := ExceptT Failure (StateM Workspace)

namespace Work

def note (level : Level) (component : Component) (message : String) : Work Unit :=
  modify fun space => { space with log := space.log.push ⟨level, component, message⟩ }

def orFail {ε α : Type} (failure : ε → Failure) : Except ε α → Work α
  | .ok value => pure value
  | .error e => throw (failure e)

/-- The text of a file. -/
def readFile (path : String) : Work String := do
  orFail (.unreadable path) ((← get).files.readText path)

/-- Takes all of standard input. A second time there is nothing left. -/
def takeInput : Work (Except FileError String) :=
  modifyGet fun space => (space.input.text, { space with input := "" })

/-- Changes the files in one step on the way to writing the file at a path. -/
def change (path : String) (step : FileTree → Except FileError FileTree) : Work Unit := do
  let files ← orFail (.unwritable path) (step (← get).files)
  modify fun space => { space with files }

/-- Writes a file, making the directories above it that are missing. Those stay if
    the file cannot be written. -/
def write (path text : String) : Work Unit := do
  change path (·.makeParent path)
  change path (·.writeText path text)
  note .info .commandLine s!"wrote {path}"

/-- Puts the text of a command where it belongs. Only on standard output it is
    ended by one more newline. -/
def deliver (out : Option String) (text : String) : Work Unit :=
  match out with
  | none => modify (·.print (text ++ "\n"))
  | some path => write path text

end Work

end SchemaTypes
