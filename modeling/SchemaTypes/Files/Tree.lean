namespace SchemaTypes

/-- Why a file cannot be read or written. -/
inductive FileError where
  | notFound
  | alreadyExists
  | notDirectory
  | isDirectory
  | nameTooLong
  | nulInName
  | notText
  /-- Whatever else a system may answer, with its message. -/
  | other (message : String)
deriving DecidableEq

def FileError.message : FileError → String
  | .notFound => "No such file or directory (os error 2)"
  | .alreadyExists => "File exists (os error 17)"
  | .notDirectory => "Not a directory (os error 20)"
  | .isDirectory => "Is a directory (os error 21)"
  | .nameTooLong => "File name too long (os error 36)"
  | .nulInName => "file name contained an unexpected NUL byte"
  | .notText => "stream did not contain valid UTF-8"
  | .other message => message

/-- The text that bytes stand for. -/
def decodeText (content : ByteArray) : Except FileError String :=
  match String.fromUTF8? content with
  | some text => .ok text
  | none => .error .notText

/-- The names that lead from the root to a file or directory. -/
abbrev Place := List String

inductive Node where
  | directory
  | file (content : ByteArray)

/-- What is asked of a system at a place. -/
inductive Access where
  | listDirectory
  | makeDirectory
  | readFile
  | writeFile
deriving DecidableEq

/-- The files and directories below the root, each under its place, and the place
    from which relative paths start. -/
structure FileTree where
  here : Place
  nodes : List (Place × Node)
  /-- What the system refuses although the tree has room for it, such as reading a
      file without permission. -/
  refusals : List ((Access × Place) × FileError) := []

/-- A path as it is given: whether it starts at the root, and the text between its
    slashes. -/
structure Route where
  absolute : Bool
  pieces : List String

namespace Route

/-- The route of a path. Empty pieces are kept, since a path that ends with a
    slash must lead to a directory. -/
def ofText (path : String) : Route :=
  match (path.toList.splitOn '/').map String.ofList with
  | "" :: piece :: pieces => ⟨true, piece :: pieces⟩
  | pieces => ⟨false, pieces⟩

/-- The pieces that name something: empty ones and single points are dropped,
    except for a point in front of a relative path. -/
def names (route : Route) : List String :=
  match route.absolute, route.pieces with
  | false, "." :: pieces => "." :: pieces.filter isName
  | _, pieces => pieces.filter isName
where
  isName (piece : String) : Bool := piece != "" && piece != "."

/-- Whether two paths are the same but for slashes and points that change nothing. -/
def same (a b : Route) : Bool := a.absolute == b.absolute && a.names == b.names

/-- The path without its last name, if it has one. -/
def parent? (route : Route) : Option Route :=
  match route.names with
  | [] => none
  | names => some ⟨route.absolute, names.dropLast⟩

end Route

namespace FileTree

/-- A tree that holds nothing but the way to an empty working directory. -/
def empty : FileTree := { here := ["work"], nodes := [(["work"], .directory)] }

def get? (tree : FileTree) (place : Place) : Option Node :=
  if place = [] then some .directory else tree.nodes.lookup place

/-- The tree of a system that refuses one access more. -/
def refuse (tree : FileTree) (access : Access) (place : Place) (cause : FileError) : FileTree :=
  { tree with refusals := ((access, place), cause) :: tree.refusals }

/-- Asks for access to a place. -/
def permit (tree : FileTree) (access : Access) (place : Place) : Except FileError Unit :=
  match tree.refusals.lookup (access, place) with
  | some cause => .error cause
  | none => .ok ()

/-- Puts a node at a place, whatever was there. -/
def put (tree : FileTree) (place : Place) (node : Node) : FileTree :=
  { tree with nodes := (place, node) :: tree.nodes.filter fun entry => entry.1 != place }

/-- The names in a directory in the order of their code points. -/
def list (tree : FileTree) (place : Place) : List String :=
  let names := tree.nodes.filterMap fun entry =>
    match entry.1.getLast? with
    | some name => if entry.1.dropLast = place then some name else none
    | none => none
  names.mergeSort fun a b => !decide (b < a)

def isDirectoryAt (tree : FileTree) (place : Place) : Bool :=
  match tree.get? place with
  | some .directory => true
  | _ => false

/-- The greatest number of bytes in a name. -/
def maxNameSize : Nat := 255

/-- Follows pieces of a path from a place. Whatever has more pieces behind it must
    be a directory. -/
def walk (tree : FileTree) (place : Place) : List String → Except FileError Place
  | [] => .ok place
  | piece :: rest =>
    if !tree.isDirectoryAt place then .error .notDirectory
    else if piece = "" ∨ piece = "." then walk tree place rest
    else if piece = ".." then walk tree place.dropLast rest
    else if piece.utf8ByteSize > maxNameSize then .error .nameTooLong
    else
      match tree.get? (place ++ [piece]) with
      | none => .error .notFound
      | some _ => walk tree (place ++ [piece]) rest

/-- The place to which a route leads. -/
def resolve (tree : FileTree) (route : Route) : Except FileError Place :=
  if route.pieces.any (·.toList.contains '\x00') then .error .nulInName
  else walk tree (if route.absolute then [] else tree.here) route.pieces

/-- The place of a path. The empty path leads nowhere. -/
def find (tree : FileTree) (path : String) : Except FileError Place :=
  if path = "" then .error .notFound else tree.resolve (.ofText path)

def has (tree : FileTree) (path : String) : Bool := (tree.find path).toBool

def isDirectory (tree : FileTree) (path : String) : Bool :=
  match tree.find path with
  | .ok place => tree.isDirectoryAt place
  | .error _ => false

/-- Reads a file, which must be text. -/
def readText (tree : FileTree) (path : String) : Except FileError String := do
  let place ← tree.find path
  match tree.get? place with
  | none => .error .notFound
  | some .directory => .error .isDirectory
  | some (.file content) =>
    tree.permit .readFile place
    decodeText content

/-- Makes one directory. -/
def makeDirectory (tree : FileTree) (route : Route) : Except FileError FileTree :=
  match tree.resolve route, route.pieces.getLast? with
  | .ok _, _ => .error .alreadyExists
  | .error .notFound, some name => do
    let place ← tree.resolve { route with pieces := route.pieces.dropLast }
    if tree.isDirectoryAt place then
      tree.permit .makeDirectory (place ++ [name])
      .ok (tree.put (place ++ [name]) .directory)
    else .error .notDirectory
  | .error e, _ => .error e

/-- The tree in which a directory is made, or is there already. -/
def orDirectory (tree : FileTree) (route : Route) :
    Except FileError FileTree → Except FileError FileTree
  | .ok made => .ok made
  | .error e =>
    match tree.resolve route with
    | .ok place => if tree.isDirectoryAt place then .ok tree else .error e
    | .error _ => .error e

/-- Makes a directory and those above it that are missing. The pieces are given
    from the last to the first. -/
def makeDirectories (tree : FileTree) (absolute : Bool) : List String → Except FileError FileTree
  | [] => .ok tree
  | piece :: above =>
    let route : Route := ⟨absolute, (piece :: above).reverse⟩
    match tree.makeDirectory route with
    | .error .notFound => do
      let tree ← makeDirectories tree absolute above
      tree.orDirectory route (tree.makeDirectory route)
    | result => tree.orDirectory route result

/-- Makes the directory in which a path lies. -/
def makeParent (tree : FileTree) (path : String) : Except FileError FileTree :=
  match (Route.ofText path).parent? with
  | none => .ok tree
  | some parent => makeDirectories tree parent.absolute parent.pieces.reverse

/-- Writes a file into an existing directory, in place of any file of that name. -/
def writeText (tree : FileTree) (path text : String) : Except FileError FileTree :=
  let route := Route.ofText path
  match route.pieces.reverse.dropWhile (· = "") with
  | [] => .error (if route.absolute then .isDirectory else .notFound)
  | name :: above => do
    let parent ← tree.resolve { route with pieces := above.reverse }
    if !tree.isDirectoryAt parent then .error .notDirectory
    else if name = "." ∨ name = ".." ∨ route.pieces.getLast? = some "" then .error .isDirectory
    else if tree.isDirectoryAt (parent ++ [name]) then .error .isDirectory
    else if name.utf8ByteSize > maxNameSize then .error .nameTooLong
    else if name.toList.contains '\x00' then .error .nulInName
    else
      tree.permit .writeFile (parent ++ [name])
      .ok (tree.put (parent ++ [name]) (.file text.toUTF8))

/-- The beginnings of a place, from the root to the place itself. -/
def inits : Place → List Place
  | [] => [[]]
  | name :: rest => [] :: (inits rest).map (name :: ·)

/-- Adds a node and the directories above it that are missing. -/
def add (tree : FileTree) (place : Place) (node : Node) : FileTree :=
  let above := (inits place).dropLast.filter fun place => (tree.get? place).isNone
  (above.foldl (fun tree place => tree.put place .directory) tree).put place node

/-- The nodes that are not in an older tree as they are in this one. -/
def changesSince (tree old : FileTree) : List (Place × Node) :=
  tree.nodes.filter fun (place, node) =>
    match node, old.get? place with
    | .directory, some .directory => false
    | .file content, some (.file before) => content != before
    | _, _ => true

end FileTree

end SchemaTypes
