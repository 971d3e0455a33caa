/-
# Files

What the program does with files is kept in one record of actions, so that it
can be run on the files of a machine and on a tree of files held in memory
alike. A problem with a file is a value of its own, worded as the operating
system words it.

Making a directory along with those on the way to it is not one of the actions
but made up of them. The whole path is tried first, and what is above it only
when something on the way is missing. So a way that starts with a missing
directory and then leads through a file is refused at the file, and for being
there, while one that only leads through a file is refused as a whole.
-/

import ChronoSat.Text.Blank

namespace ChronoSat

/-- Why something cannot be done with a file. -/
inductive FileProblem where
  | notFound
  /-- There is a file where a directory should be made. -/
  | alreadyExists
  /-- A file is used as a directory. -/
  | notADirectory
  /-- A directory is used as a file. -/
  | isADirectory
  /-- A path, or a name on it, has too many bytes. -/
  | nameTooLong
  /-- Anything else, in the words of the operating system. -/
  | other (message : String)
deriving DecidableEq, Repr

/-- The wording of a problem with a file. -/
def FileProblem.message : FileProblem → String
  | notFound => "No such file or directory (os error 2)"
  | alreadyExists => "File exists (os error 17)"
  | notADirectory => "Not a directory (os error 20)"
  | isADirectory => "Is a directory (os error 21)"
  | nameTooLong => "File name too long (os error 36)"
  | other message => message

/-- What can be done with files, each given by its path. -/
structure Files (m : Type → Type) where
  read : String → m (Except FileProblem (List UInt8))
  isDirectory : String → m Bool
  /-- The paths of all files in a directory and the directories in it. Those of a
  directory come together, and whatever is in one directory comes in the order of
  its name. -/
  filesUnder : String → m (List String)
  /-- Makes a directory in one that is there. -/
  makeDirectory : String → m (Except FileProblem Unit)
  /-- Writes a file, which may be there already. -/
  write : String → String → m (Except FileProblem Unit)

namespace Path

/-- The path of something in a directory. -/
def join (directory name : String) : String :=
  if directory.toList.getLast? = some '/' then directory ++ name else directory ++ "/" ++ name

/-- The parts of a path whose current part has already collected the given
characters, last character first. -/
def partsFrom (collected : List Char) : List Char → List String
  | [] => Text.finishWord collected
  | character :: rest =>
    if character = '/' then Text.finishWord collected ++ partsFrom [] rest
    else partsFrom (character :: collected) rest

/-- The parts of a path between its slashes. -/
def parts (path : String) : List String :=
  partsFrom [] path.toList

/-- Whether a path starts at the top of all files. -/
def isAbsolute (path : String) : Bool :=
  path.toList.head? == some '/'

/-- The paths to the directories on the way to a path, the one just above it first.
A point is no part of its own here: it stands for the directory in front of it. -/
def above (path : String) : List String :=
  let names := (parts path).filter (· != ".")
  let start := if isAbsolute path then "/" else ""
  ((List.range' 1 (names.length - 1)).map fun count =>
    start ++ "/".intercalate (names.take count)).reverse

/-- The characters behind the last slash. -/
def fileName (path : String) : List Char :=
  (path.toList.reverse.takeWhile (· != '/')).reverse

/-- Whether a file's name has the given extension. A name that is nothing but a
point and an extension has none. -/
def hasExtension (extension path : String) : Bool :=
  let ending := '.' :: extension.toList
  let name := fileName path
  ending.isSuffixOf name && ending.length < name.length

end Path

namespace Files

variable {m : Type → Type} [Monad m]

/-- Sees to it that there is a directory at a path by making it if need be. -/
def ensureDirectory (files : Files m) (path : String) : m (Except FileProblem Unit) := do
  match ← files.makeDirectory path with
  | .ok () => return .ok ()
  | .error problem =>
    if ← files.isDirectory path then return .ok () else return .error problem

/-- Sees to it that there is a directory at the first of some paths. If something
on the way to it is missing, the same is done for the other paths before it is
tried again. -/
def ensureFirst (files : Files m) : List String → m (Except FileProblem Unit)
  | [] => return .ok ()
  | path :: above => do
    match ← files.ensureDirectory path with
    | .error .notFound =>
      match ← files.ensureFirst above with
      | .ok () => files.ensureDirectory path
      | .error problem => return .error problem
    | ended => return ended

/-- Makes a directory and the directories on the way to it, as far as they are not
there. -/
def makeDirectories (files : Files m) (path : String) : m (Except FileProblem Unit) :=
  files.ensureFirst (path :: Path.above path)

end Files

end ChronoSat
