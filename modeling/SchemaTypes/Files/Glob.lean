import SchemaTypes.Files.Pattern
import SchemaTypes.Files.Tree

namespace SchemaTypes

/-- Why a pattern gives no paths. -/
inductive GlobError where
  | malformed (cause : PatternError)
  /-- A directory on the way cannot be listed. -/
  | unlisted (path : String) (cause : FileError)
deriving DecidableEq

def GlobError.message : GlobError → String
  | .malformed cause => cause.message
  | .unlisted path cause => s!"attempting to read `{path}` resulted in an error: {cause.message}"

/-- The pattern for one name of a path. -/
structure NamePattern where
  text : String
  parts : List PatternPart

namespace NamePattern

def isDeep (pattern : NamePattern) : Bool := pattern.parts.contains .anyDirectories

def isLiteral (pattern : NamePattern) : Bool := PatternPart.isLiteral pattern.parts

def fits (pattern : NamePattern) (name : String) : Bool :=
  PatternPart.fits pattern.parts name.toList

/-- The directories themselves and the ones above them fit only a pattern that
    starts with a point. -/
def specialNames (pattern : NamePattern) : List String :=
  match pattern.parts with
  | .char '.' :: _ => ["..", "."].filter pattern.fits
  | _ => []

/-- Two deep patterns in a row say no more than one. -/
def collapse : List NamePattern → List NamePattern
  | a :: b :: rest =>
    if a.isDeep && b.isDeep then collapse (b :: rest) else a :: collapse (b :: rest)
  | patterns => patterns

end NamePattern

namespace FileTree

/-- A name below a path. -/
def joinPath (path name : String) : String :=
  if path = "" ∨ path.toList.getLast? = some '/' then path ++ name else path ++ "/" ++ name

def isHere (path : String) : Bool := (Route.ofText path).same ⟨false, ["."]⟩

/-- A name below a path, without the path if that is the working directory. -/
def below (path name : String) : String := if isHere path then name else joinPath path name

/-- A path that fits, or a directory that cannot be listed and stands for all that
    is in it. -/
abbrev Found := Except GlobError String

/-- The names in the directory at a path, each with its own path. -/
def children (tree : FileTree) (path : String) : Except GlobError (List (String × String)) :=
  match tree.find path with
  | .ok place =>
    if tree.isDirectoryAt place then
      match tree.permit .listDirectory place with
      | .error cause => .error (.unlisted path cause)
      | .ok () => .ok ((tree.list place).map fun name => (name, below path name))
    else .ok []
  | .error _ => .ok []

/-- What `visit` finds for each name in the directory at a path, behind what was
    found `before` it. -/
def inEach (tree : FileTree) (path : String) (before : List Found)
    (visit : String → String → List Found) : List Found :=
  match tree.children path with
  | .error e => [.error e]
  | .ok children => before ++ children.flatMap fun (name, child) => visit name child

/-- Everything below a path, a directory being followed by what is in it. What is
    kept of each name and path is for `visit` to say. Directories are nested at
    most `depth` deep. -/
def descend (tree : FileTree) (visit : String → String → List Found) :
    (depth : Nat) → String → List Found
  | 0, _ => []
  | depth + 1, path =>
    tree.inEach path [] fun name child =>
      visit name child ++ (if tree.isDirectory child then descend tree visit depth child else [])

/-- A path that fits a whole pattern. -/
def keep (tree : FileTree) (onlyDirectories : Bool) (path : String) : List Found :=
  if onlyDirectories && !tree.isDirectory path then [] else [.ok path]

/-- A literal name leads somewhere if there is such a file, or if it is a point or
    two in a directory. -/
def isReached (tree : FileTree) (path name next : String) : Bool :=
  if name = "." ∨ name = ".." then tree.isDirectory path else tree.has next

/-- The paths below `path` that fit the patterns, name by name. A name without
    wildcards is looked up and its directory need not be listed. -/
def expand (tree : FileTree) (onlyDirectories : Bool) : List NamePattern → String → List Found
  | [], _ => []
  | [pattern], path =>
    if pattern.isLiteral then
      let next := below path pattern.text
      if tree.isReached path pattern.text next then tree.keep onlyDirectories next else []
    else if !tree.isDirectory path then []
    else if pattern.isDeep then
      tree.descend (fun _ child => if tree.isDirectory child then [.ok child] else [])
        (tree.nodes.length + 1) path
    else
      tree.inEach path
        (pattern.specialNames.flatMap fun name => tree.keep onlyDirectories (joinPath path name))
        fun name child => if pattern.fits name then tree.keep onlyDirectories child else []
  | pattern :: second :: rest, path =>
    if pattern.isLiteral then
      let next := below path pattern.text
      if tree.isReached path pattern.text next then
        expand tree onlyDirectories (second :: rest) next else []
    else if !tree.isDirectory path then []
    else if pattern.isDeep then
      tree.descend (fun name child =>
        if second.fits name then
          match rest with
          | [] => tree.keep onlyDirectories child
          | third :: rest => expand tree onlyDirectories (third :: rest) child
        else []) (tree.nodes.length + 1) path
    else
      tree.inEach path
        (pattern.specialNames.flatMap fun name =>
          expand tree onlyDirectories (second :: rest) (joinPath path name))
        fun name child =>
          if pattern.fits name then expand tree onlyDirectories (second :: rest) child else []

/-- Whether a pattern ends with a slash and so fits directories only. -/
def onlyDirectories (pattern : Route) : Bool := pattern.pieces.getLast? = some ""

/-- The pieces of a pattern between slashes, without the empty one behind a last slash. -/
def patternPieces (pattern : Route) : List String :=
  if onlyDirectories pattern then pattern.pieces.dropLast else pattern.pieces

/-- The patterns for the names of a path. -/
def namePatterns (pattern : String) : Except PatternError (List NamePattern) := do
  let _ ← PatternPart.ofText pattern
  let names ← (patternPieces (.ofText pattern)).mapM fun text => do
    return NamePattern.mk text (← PatternPart.ofText text)
  return NamePattern.collapse names

/-- The paths that fit a pattern, in the order of their names. The first directory
    that cannot be listed is the failure of the whole. -/
def glob (tree : FileTree) (pattern : String) : Except GlobError (List String) :=
  match namePatterns pattern with
  | .error e => .error (.malformed e)
  | .ok names =>
    let route := Route.ofText pattern
    let start := if route.absolute then "/" else "."
    (tree.expand (onlyDirectories route) names start).mapM id

end FileTree

end SchemaTypes
