/-
# A tree of files in memory

Files and directories by the names on the way to them. Paths are walked name by
name, so that a path through something that is no directory is refused even if
it leads back out again. A name with too many bytes is refused where it is come
to, a path with too many of them before it is walked. What lies outside of the
tree is not known: going up from its top leads to directories that seem empty,
and so does an absolute path.
-/

import ChronoSat.Files

namespace ChronoSat

/-- Files and directories by the names that lead to them. -/
structure FileTree where
  /-- The files with their bytes. -/
  files : List (List String × List UInt8)
  /-- The directories below the top. -/
  directories : List (List String)

namespace FileTree

/-- What is found at a place. -/
inductive Kind where
  | file
  | directory
  | missing
deriving DecidableEq, Repr

/-- Whether a name has more bytes than a name can have. -/
def isLongName (name : String) : Bool := 255 < name.utf8ByteSize

/-- Whether a path has more bytes than a path can have. -/
def isLongPath (path : String) : Bool := 4095 < path.utf8ByteSize

/-- The name of the directory above. -/
def up : String := ".."

/-- The names that lead to the top of absolute paths. -/
def absolute : List String := ["/"]

/-- Whether a place is in the tree, and not above or beside it. -/
def isInside (place : List String) : Bool :=
  place.head?.all fun name => name != up && name != "/"

/-- What a tree has at a place. -/
def kindAt (tree : FileTree) (place : List String) : Kind :=
  if place.all (· == up) || place == absolute || tree.directories.contains place then .directory
  else if (tree.files.lookup place).isSome then .file
  else .missing

/-- Whether a path has to lead to a directory because it ends with a slash. -/
def endsWithSlash (path : String) : Bool :=
  path.toList.getLast? == some '/'

/-- The names of a path, with a point behind a slash at the end, which like every
point stands for the directory in front of it. -/
def names (path : String) : List String :=
  Path.parts path ++ (if endsWithSlash path then ["."] else [])

/-- Where a path starts. -/
def origin (path : String) : List String :=
  if Path.isAbsolute path then absolute else []

/-- The place above a directory. -/
def above (place : List String) : List String :=
  if place.all (· == up) then place ++ [up]
  else if place == absolute then absolute
  else place.dropLast

/-- The place that names lead to from a directory. -/
def resolveFrom (tree : FileTree) (here : List String) :
    List String → Except FileProblem (List String)
  | [] => .ok here
  | name :: rest =>
    if name = "." then resolveFrom tree here rest
    else if name = up then resolveFrom tree (above here) rest
    else if isLongName name then .error .nameTooLong
    else
      let next := here ++ [name]
      match tree.kindAt next with
      | .missing => .error .notFound
      | .directory => resolveFrom tree next rest
      | .file => if rest.isEmpty then .ok next else .error .notADirectory

/-- The place that a path leads to. The empty path leads nowhere. -/
def resolve (tree : FileTree) (path : String) : Except FileProblem (List String) :=
  if path.isEmpty then .error .notFound
  else if isLongPath path then .error .nameTooLong
  else tree.resolveFrom (origin path) (names path)

/-- The bytes of the file at a path. -/
def read (tree : FileTree) (path : String) : Except FileProblem (List UInt8) := do
  let place ← tree.resolve path
  match tree.files.lookup place with
  | some bytes => return bytes
  | none => throw .isADirectory

/-- Whether there is a directory at a path. -/
def isDirectory (tree : FileTree) (path : String) : Bool :=
  match tree.resolve path with
  | .error _ => false
  | .ok place => tree.kindAt place = .directory

/-- The names that lead from one place to another below it. -/
def below? (root place : List String) : Option (List String) :=
  if root.isPrefixOf place && root.length < place.length && (isInside root == isInside place)
  then some (place.drop root.length)
  else none

/-- The paths of all files below a directory. One that is too long leads nowhere
and is left out. -/
def filesUnder (tree : FileTree) (path : String) : List String :=
  match tree.resolve path with
  | .error _ => []
  | .ok root =>
    let places := tree.files.filterMap fun file => below? root file.1
    let sorted := places.mergeSort fun left right => !decide (right < left)
    (sorted.map fun place => place.foldl Path.join path).filter fun inner => !isLongPath inner

/-- The directory that holds the last of some names, which is reached through the
ones before it. -/
def holderOf (tree : FileTree) (here all : List String) : Except FileProblem (List String) :=
  tree.resolveFrom here (all.dropLast ++ ["."])

/-- Whether a name stands for a directory that is there whenever the name can be
used: a point, or the name of the directory above. -/
def isRelative (name : String) : Bool :=
  name == "." || name == up

/-- Makes a directory in the one that the path leads to before its last name. A
slash at the end does not matter here: a directory is wanted anyhow. A path with
no names is the top of all files, which is there. -/
def makeDirectory (tree : FileTree) (path : String) : Except FileProblem FileTree := do
  if path.isEmpty then throw .notFound
  if isLongPath path then throw .nameTooLong
  let all := Path.parts path
  let holder ← tree.holderOf (origin path) all
  let place := holder ++ all.getLast?.toList
  if all.getLast?.all isRelative then throw .alreadyExists
  else if all.getLast?.any isLongName then throw .nameTooLong
  else
    match tree.kindAt place with
    | .missing => return { tree with directories := place :: tree.directories }
    | _ => throw .alreadyExists

/-- Puts a file at a path in place of the one that may be there. -/
def write (tree : FileTree) (path : String) (bytes : List UInt8) :
    Except FileProblem FileTree := do
  if isLongPath path then throw .nameTooLong
  let all := names path
  let holder ← tree.holderOf (origin path) all
  let place := holder ++ all.getLast?.toList
  if all.getLast?.any isLongName then throw .nameTooLong
  else if tree.kindAt place = .directory then throw .isADirectory
  else
    let others := tree.files.filter fun file => file.1 != place
    return { tree with files := (place, bytes) :: others }

/-- Does something to a tree that may fail, which leaves the tree as it was. -/
def change (action : FileTree → Except FileProblem FileTree) :
    StateM FileTree (Except FileProblem Unit) := fun tree =>
  match action tree with
  | .ok changed => (.ok (), changed)
  | .error problem => (.error problem, tree)

/-- The actions on files, done on a tree. -/
def actions : Files (StateM FileTree) where
  read path := fun tree => (tree.read path, tree)
  isDirectory path := fun tree => (tree.isDirectory path, tree)
  filesUnder path := fun tree => (tree.filesUnder path, tree)
  makeDirectory path := change (·.makeDirectory path)
  write path text := change (·.write path text.toUTF8.toList)

/-- No files. -/
def empty : FileTree := ⟨[], []⟩

/-- Puts a file at a path after making the directories on the way to it. If that
cannot be done, the file is left out. -/
def withFile (tree : FileTree) (file : String × List UInt8) : FileTree :=
  let ready := (Path.above file.1).head?.elim tree fun directory =>
    Id.run ((actions.makeDirectories directory).run tree) |>.2
  match ready.write file.1 file.2 with
  | .ok changed => changed
  | .error _ => ready

/-- The tree of the given files, put there one after the other. Of two for the same
place the later one stays. -/
def ofFiles (given : List (String × List UInt8)) : FileTree :=
  given.foldl withFile empty

end FileTree

end ChronoSat
