/-
# Reading arguments

Arguments are read from left to right, and the first that calls for help, for
the version, or that is not well formed decides. An option's value is behind an
equals sign, in the next argument, or, behind the letter of an option, in the
same argument. An argument that begins with a hyphen is never the value of the
option in front of it, except a hyphen alone. Letters of flags may share a
hyphen. Two hyphens end the options. No option is given twice.

The name of a request counts as one only in front of everything else.
-/

import ChronoSat.CommandLine.Grammar

namespace ChronoSat.CommandLine

/-- Why arguments are no request to act on. -/
inductive Dismissal where
  | help
  | version
  | usage
deriving DecidableEq, Repr

/-- What was read: the values of options by long name, and the other argument. -/
structure Settings where
  /-- Values by long name, in the order they were given. -/
  values : List (String × String)
  positional : Option String
deriving DecidableEq, Repr

namespace Settings

/-- Nothing read. -/
def empty : Settings := ⟨[], none⟩

/-- The value of an option. -/
def value? (settings : Settings) (name : String) : Option String :=
  settings.values.lookup name

/-- Takes in an option's value, which must not be given already. -/
def give (settings : Settings) (name value : String) : Except Dismissal Settings :=
  if (settings.value? name).isSome then .error .usage
  else .ok { settings with values := settings.values ++ [(name, value)] }

/-- Takes in the value of an option that has a kind of value. -/
def giveValue (settings : Settings) (name : String) (kind : ValueKind) (value : String) :
    Except Dismissal Settings :=
  if kind.accepts value then settings.give name value else .error .usage

/-- Takes in a flag. -/
def giveFlag (settings : Settings) (name : String) : Except Dismissal Settings :=
  settings.give name "true"

/-- Takes in an argument that is not an option. -/
def givePositional (settings : Settings) (spec : CommandSpec) (argument : String) :
    Except Dismissal Settings :=
  match spec.positional, settings.positional with
  | some kind, none =>
    if kind.accepts argument then .ok { settings with positional := some argument }
    else .error .usage
  | _, _ => .error .usage

end Settings

/-- What was read, and the option whose value is still to come. -/
abbrev Pending := Settings × Option (String × ValueKind)

/-- The text in front of the first equals sign, and the text behind it. -/
def splitAtEquals (text : List Char) : String × Option String :=
  (String.ofList (text.takeWhile (· != '=')),
    match text.dropWhile (· != '=') with
    | [] => none
    | _ :: value => some (String.ofList value))

/-- Reads an argument that begins with two hyphens, given by what follows them. -/
def readLong (spec : CommandSpec) (settings : Settings) (text : List Char) :
    Except Dismissal Pending :=
  let (name, attached) := splitAtEquals text
  if name = "help" then .error (if attached.isSome then .usage else .help)
  else if name = "version" && spec.hasVersion then
    .error (if attached.isSome then .usage else .version)
  else
    match spec.findLong? name with
    | none => .error .usage
    | some option =>
      match option.value, attached with
      | none, none => do return (← settings.giveFlag name, none)
      | none, some _ => .error .usage
      | some kind, some value => do return (← settings.giveValue name kind value, none)
      | some kind, none => .ok (settings, some (name, kind))

/-- The value that stands behind an option's letter. -/
def attachedValue : List Char → String
  | '=' :: value => String.ofList value
  | value => String.ofList value

/-- Reads the letters behind one hyphen. -/
def readLetters (spec : CommandSpec) (settings : Settings) : List Char → Except Dismissal Pending
  | [] => .ok (settings, none)
  | letter :: rest =>
    if letter = 'h' then .error .help
    else if letter = 'V' && spec.hasVersion then .error .version
    else
      match spec.findShort? letter with
      | none => .error .usage
      | some option =>
        match option.value with
        | none => do
          let settings ← settings.giveFlag option.long
          readLetters spec settings rest
        | some kind =>
          if rest.isEmpty then .ok (settings, some (option.long, kind))
          else do return (← settings.giveValue option.long kind (attachedValue rest), none)

/-- Reads arguments of which none is an option. -/
def readPositionals (spec : CommandSpec) (settings : Settings) :
    List String → Except Dismissal Settings
  | [] => .ok settings
  | argument :: rest => do
    let settings ← settings.givePositional spec argument
    readPositionals spec settings rest

/-- Whether an argument can be the value of the option in front of it. -/
def isSeparateValue (argument : String) : Bool :=
  argument.toList.head? != some '-' || argument == "-"

/-- Reads the arguments of a request. -/
def readSettings (spec : CommandSpec) (settings : Settings) :
    List String → Except Dismissal Settings
  | [] => .ok settings
  | argument :: rest =>
    if argument = "--" then readPositionals spec settings rest
    else if isSeparateValue argument then do
      let settings ← settings.givePositional spec argument
      readSettings spec settings rest
    else do
      let (settings, awaited) ← match argument.toList with
        | '-' :: '-' :: text => readLong spec settings text
        | _ :: letters => readLetters spec settings letters
        | [] => .error .usage
      match awaited, rest with
      | none, rest => readSettings spec settings rest
      | some (name, kind), value :: rest =>
        if isSeparateValue value then do
          let settings ← settings.giveValue name kind value
          readSettings spec settings rest
        else .error .usage
      | some _, [] => .error .usage

/-- Reads the arguments of a request and makes sure that nothing is missing. -/
def readRequest (spec : CommandSpec) (arguments : List String) : Except Dismissal Settings := do
  let settings ← readSettings spec .empty arguments
  if spec.required.all fun name => (settings.value? name).isSome then
    if spec.positionalRequired && settings.positional.isNone then .error .usage
    else .ok settings
  else .error .usage

namespace Settings

/-- Whether a flag was given. -/
def flag (settings : Settings) (name : String) : Bool :=
  (settings.value? name).isSome

/-- The value of an option, read by the given reader. -/
def read? {α : Type} (settings : Settings) (reader : String → Option α) (name : String) :
    Option α :=
  (settings.value? name).bind reader

/-- The count given for an option. -/
def count (settings : Settings) (name : String) (unsaid : Nat) : Nat :=
  (settings.read? Text.readUnsigned name).getD unsaid

/-- The number given for an option. -/
def number (settings : Settings) (name : String) (unsaid : Double) : Double :=
  (settings.read? Double.read name).getD unsaid

/-- The text given for an option. -/
def text (settings : Settings) (name : String) : String :=
  (settings.value? name).getD ""

/-- The seed that was given. -/
def seed (settings : Settings) : Option UInt64 :=
  (settings.read? Text.readUnsigned "seed").map UInt64.ofNat

/-- The options that go along with most requests. -/
def common (settings : Settings) : CommonOptions where
  debug := settings.flag "debug"
  verify := (settings.read? readBoolean "verify").getD CommonOptions.default.verify
  stats := (settings.read? readBoolean "stats").getD CommonOptions.default.stats
  printSolution := settings.flag "print-solution"
  selector := (settings.read? Selection.ofName? "selector").getD CommonOptions.default.selector
  timeout := settings.read? Double.read "timeout"
  seed := settings.seed

/-- What formulas to draw. -/
def generateOptions (settings : Settings) : GenerateOptions where
  numVars := settings.count "n" 0
  clauses := settings.count "l" 0
  width := settings.count "k" 3
  count := settings.count "count" 1
  out := settings.text "out"
  terminator := (settings.read? Dimacs.Terminator.ofName? "terminator").getD .zero
  seed := settings.seed

/-- What ratios to sweep over. -/
def sweepOptions (settings : Settings) : SweepOptions where
  numVars := settings.count "n" 20
  width := settings.count "k" 3
  minRatio := settings.number "min-ratio" (Double.ofNat 1)
  maxRatio := settings.number "max-ratio" (Double.ofNat 8)
  ratioStep := settings.number "ratio-step" (Double.nearest false 1 2)
  instances := settings.count "instances" 100

/-- The request of the given name. -/
def command (settings : Settings) (name : String) : Except Dismissal Command :=
  match name with
  | "file" => .ok (.file (settings.text "path") settings.common)
  | "text" => .ok (.text (settings.text "input") (settings.flag "dimacs") settings.common)
  | "dir" => .ok (.dir (settings.text "path") settings.common)
  | "generate" => .ok (.generate settings.generateOptions)
  | "sweep" => .ok (.sweep settings.sweepOptions settings.common)
  | "completions" =>
    match settings.positional.bind Shell.ofName? with
    | some shell => .ok (.completions shell)
    | none => .error .usage
  | _ => .error .usage

end Settings

/-- Reads what follows the request for help: nothing, or the name of one request. -/
def readHelp : List String → Dismissal
  | [] => .help
  | [name] =>
    if name = Grammar.helpCommand || (Grammar.commands.lookup name).isSome then .help else .usage
  | _ => .usage

/-- Reads all arguments. -/
def readArguments (arguments : List String) : Except Dismissal Invocation :=
  let alone : Except Dismissal Invocation := do
    let settings ← readRequest Grammar.topLevel arguments
    return ⟨settings.positional, none, settings.common⟩
  match arguments with
  | [] => alone
  | name :: rest =>
    if name = Grammar.helpCommand then .error (readHelp rest)
    else
      match Grammar.commands.lookup name with
      | none => alone
      | some spec => do
        let settings ← readRequest spec rest
        return ⟨none, some (← settings.command name), .default⟩

end ChronoSat.CommandLine
