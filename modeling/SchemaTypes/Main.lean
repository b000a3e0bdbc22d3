import SchemaTypes.Command.Invocation

namespace SchemaTypes

/-- What a system answers when it refuses something. -/
def refusalOf : IO.Error → FileError
  | .permissionDenied .. => .other "Permission denied (os error 13)"
  | e => .other e.toString

/-- Adds what is at a path to a tree, and for directories what is in them, to the
    given depth. What cannot be listed or read is refused by the tree as well. -/
def addFound (depth : Nat) (place : Place) (tree : FileTree) : IO FileTree := do
  let path := (← IO.currentDir) / ("/" ++ "/".intercalate place)
  if ← path.isDir then
    let tree := tree.add place .directory
    match depth with
    | 0 => return tree
    | depth + 1 =>
      match ← path.readDir.toBaseIO with
      | .ok entries =>
        entries.foldlM (fun tree entry => addFound depth (place ++ [entry.fileName]) tree) tree
      | .error e => return tree.refuse .listDirectory place (refusalOf e)
  else if ← path.pathExists then
    match ← (IO.FS.readBinFile path).toBaseIO with
    | .ok content => return tree.add place (.file content)
    | .error e => return (tree.add place (.file .empty)).refuse .readFile place (refusalOf e)
  else
    return tree

/-- How many names of a pattern have to be listed. Deep patterns are followed into
    directories that are nested this deep. -/
def patternDepth (pieces : List String) : Nat :=
  if pieces.contains "**" then 64 else pieces.length

/-- Adds all that a path or pattern may lead to. Pieces without wildcards are
    followed and not listed. -/
def addReached (tree : FileTree) (text : String) : IO FileTree := do
  let route := Route.ofText text
  let start := if route.absolute then [] else tree.here
  let (place, rest) := follow start route.pieces
  let tree ← place.length.foldM (fun i _ tree => addFound 0 (place.take i) tree) tree
  addFound (patternDepth rest) place tree
where
  follow (place : Place) : List String → Place × List String
    | [] => (place, [])
    | piece :: rest =>
      if piece = "" ∨ piece = "." then follow place rest
      else if piece = ".." then follow place.dropLast rest
      else if InputSettings.isPattern piece then (place, piece :: rest)
      else follow (place ++ [piece]) rest

/-- The files that a command may look at. -/
def filesFor (command : Command) : IO FileTree := do
  let here := (Route.ofText (← IO.currentDir).toString).names
  let paths := command.input.paths ++ command.derivation.config.toList ++ command.out.toList
  paths.foldlM addReached (({ here, nodes := [] } : FileTree).add here .directory)

/-- Carries out changes in the files up to the first that the system refuses, and
    adds the refusal to a tree. -/
def saveChanges (tree : FileTree) : List (Place × Node) → IO FileTree
  | [] => return tree
  | (place, node) :: changes => do
    let path := "/" ++ "/".intercalate place
    let (access, saving) := match node with
      | .directory => (Access.makeDirectory, IO.FS.createDirAll path)
      | .file content => (Access.writeFile, IO.FS.writeBinFile path content)
    match ← saving.toBaseIO with
    | .ok () => saveChanges tree changes
    | .error e => return tree.refuse access place (refusalOf e)

/-- All of standard input, if the command asks for it. -/
def inputFor (command : Command) : IO StandardInput := do
  if command.input.paths.any InputSettings.isStandardInput then
    match ← (← IO.getStdin).readBinToEnd.toBaseIO with
    | .ok content => return .bytes content
    | .error e => return .broken (refusalOf e)
  else return ""

end SchemaTypes

open SchemaTypes

/-- Runs the program on the files of the system. Whether these can be changed is
    known only once it is tried, so a run whose changes are refused is made again
    in a workspace that refuses them. -/
def main (words : List String) : IO UInt32 := do
  let space ← match Command.parse words with
    | .ok command => do
      if command.noOp then pure { files := .empty }
      else pure { files := ← filesFor command, input := ← inputFor command }
    | .error _ => pure { files := .empty }
  let changes := ((Invocation.ofWords words space).space.files.changesSince space.files).reverse
  let files ← saveChanges space.files changes
  let ended := Invocation.ofWords words { space with files }
  (← IO.getStdout).putStr ended.space.output
  (← IO.getStderr).putStr ended.space.errors
  return ended.code.toUInt32
