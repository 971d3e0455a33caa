/-
# The form of arguments

Each request has a table of options. An option has a long name, perhaps a letter
as its short name, and a kind of value unless it is a flag. The tables say which
arguments are well formed; what they mean is said where requests are built from
them.
-/

import ChronoSat.CommandLine.Options
import ChronoSat.Double.Reader

namespace ChronoSat.CommandLine

/-- The kinds of values an argument can have. -/
inductive ValueKind where
  /-- The word `true` or the word `false`. -/
  | boolean
  /-- An unsigned numeral. -/
  | count
  | number
  | text
  /-- Any text but the empty one. -/
  | path
  | selection
  | terminator
  | shell
deriving DecidableEq, Repr

/-- Reads one of the words for a truth value. -/
def readBoolean (text : String) : Option Bool :=
  if text = "true" then some true else if text = "false" then some false else none

/-- Whether a text is a value of the kind. -/
def ValueKind.accepts : ValueKind → String → Bool
  | .boolean, value => (readBoolean value).isSome
  | .count, value => (Text.readUnsigned value).isSome
  | .number, value => (Double.read value).isSome
  | .text, _ => true
  | .path, value => !value.isEmpty
  | .selection, value => (Selection.ofName? value).isSome
  | .terminator, value => (Dimacs.Terminator.ofName? value).isSome
  | .shell, value => (Shell.ofName? value).isSome

/-- An option. -/
structure OptionSpec where
  /-- The name behind two hyphens. -/
  long : String
  /-- The letter behind one hyphen. -/
  short : Option Char
  /-- The kind of the value; a flag has none. -/
  value : Option ValueKind
deriving DecidableEq, Repr

/-- What may be said with a request. -/
structure CommandSpec where
  options : List OptionSpec
  /-- The kind of the one argument that is not an option, if there is one. -/
  positional : Option ValueKind
  /-- The long names of the options that have to be given. -/
  required : List String
  /-- Whether the argument that is not an option has to be given. -/
  positionalRequired : Bool
  /-- Whether the version can be asked for. -/
  hasVersion : Bool
deriving DecidableEq, Repr

namespace CommandSpec

/-- The option of a long name. -/
def findLong? (spec : CommandSpec) (name : String) : Option OptionSpec :=
  spec.options.find? fun option => option.long == name

/-- The option of a letter. -/
def findShort? (spec : CommandSpec) (letter : Char) : Option OptionSpec :=
  spec.options.find? fun option => option.short == some letter

end CommandSpec

namespace Grammar

/-- The options that go along with most requests. -/
def common : List OptionSpec :=
  [⟨"debug", some 'd', none⟩, ⟨"verify", some 'v', some .boolean⟩,
   ⟨"stats", some 's', some .boolean⟩, ⟨"print-solution", some 'p', none⟩,
   ⟨"selector", none, some .selection⟩, ⟨"timeout", some 't', some .number⟩,
   ⟨"seed", none, some .count⟩]

/-- What may be said without a request. -/
def topLevel : CommandSpec := ⟨common, some .path, [], false, true⟩

/-- Solving a clause file. -/
def file : CommandSpec := ⟨⟨"path", none, some .path⟩ :: common, none, ["path"], false, false⟩

/-- Solving a formula given as text. -/
def text : CommandSpec :=
  ⟨⟨"input", some 'i', some .text⟩ :: ⟨"dimacs", none, none⟩ :: common, none, ["input"],
    false, false⟩

/-- Solving the clause files of a directory. -/
def dir : CommandSpec := file

/-- Drawing formulas. -/
def generate : CommandSpec where
  options :=
    [⟨"n", some 'n', some .count⟩, ⟨"l", some 'l', some .count⟩, ⟨"k", some 'k', some .count⟩,
     ⟨"count", none, some .count⟩, ⟨"out", none, some .path⟩,
     ⟨"terminator", none, some .terminator⟩, ⟨"seed", none, some .count⟩]
  positional := none
  required := ["n", "l", "out"]
  positionalRequired := false
  hasVersion := false

/-- Sweeping over ratios. -/
def sweep : CommandSpec where
  options :=
    [⟨"n", some 'n', some .count⟩, ⟨"k", some 'k', some .count⟩,
     ⟨"min-ratio", none, some .number⟩, ⟨"max-ratio", none, some .number⟩,
     ⟨"ratio-step", none, some .number⟩, ⟨"instances", none, some .count⟩] ++ common
  positional := none
  required := []
  positionalRequired := false
  hasVersion := false

/-- Writing a completion script. -/
def completions : CommandSpec := ⟨[], some .shell, [], true, false⟩

/-- The requests by name. -/
def commands : List (String × CommandSpec) :=
  [("file", file), ("text", text), ("dir", dir), ("generate", generate), ("sweep", sweep),
   ("completions", completions)]

/-- The name of the request for help. -/
def helpCommand : String := "help"

end Grammar

end ChronoSat.CommandLine
