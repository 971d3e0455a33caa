/-
# The program

The outermost layer: the files and the clocks of the machine it runs on, and
printing. Everything it prints is decided elsewhere.

A search is a function of a clock, so that running one under a budget of time
takes some care: it is run by a clock that stands still for so many looks and then shows
the end of the budget, and again with twice as many looks as long as that was too early.
-/

import ChronoSat.CommandLine.Help
import ChronoSat.CommandLine.Run

namespace ChronoSat.Program

/-- Whether a report says that the time was up. -/
def ranOut (report : Report) : Bool :=
  match report.answer with
  | .error (.error error) => error.isTimeout
  | _ => false

/-- A time that clocks can show: the given one, or else the last. -/
def shown (time : Nat) : Nat := min time (Clock.limit - 1)

/-- The clock that stands still for so many looks and then shows the end of a budget. -/
def clockOf (started budget looks : Nat) : Clock :=
  .jumping (shown started) (shown (started + budget)) looks
    (by simp only [shown]; omega)
    (by have : 0 < Clock.limit := by decide
        simp only [shown]; omega)

/-- Runs a search until it ends or its budget is over, with more and more looks at the clock. -/
partial def runUntil {α : Type} (started budget looks : Nat) (search : Clock → Report × α) :
    IO (Report × α) := do
  let result := search (clockOf started budget looks)
  if ranOut result.1 then
    if started + budget ≤ (← IO.monoNanosNow) then return result
    else runUntil started budget (2 * looks) search
  else return result

/-- How many looks at the clock a first run takes. -/
def firstLooks : Nat := 1000

/-- Runs a search by the clock. Without a budget nobody looks at it. -/
def runTimed {α : Type} (budget : Option Duration) (search : Clock → Report × α) :
    IO (Report × α) := do
  let budget := (budget.getD .zero).nanoseconds
  runUntil (← IO.monoNanosNow) budget (if budget = 0 then 0 else firstLooks) search

/-- How many bytes a page of memory has. -/
def pageSize : Nat := 4096

/-- The memory in use, where the operating system tells. -/
def memoryInUse : IO (Option Memory) := do
  try
    let pages := (Text.words (← IO.FS.readFile "/proc/self/statm")).filterMap Text.readUnsigned
    match pages with
    | [_, resident, _, _, _, allocated, _] =>
      return some ⟨allocated * pageSize, resident * pageSize⟩
    | _ => return none
  catch _ => return none

/-- A generator that nobody can foresee. -/
def freshGenerator : IO Generator := do
  let bytes ← IO.getRandomBytes 8
  return ⟨bytes.toList.foldl (fun seed byte => 256 * seed + byte.toUInt64) 0⟩

/-- The instruments of the machine. -/
def instruments : Instruments IO Generator where
  now := do return some (← IO.monoNanosNow)
  memory := memoryInUse
  freshSource := freshGenerator
  timed := runTimed

/-- The number that the operating system gives to a path through a file. -/
def notADirectoryCode : UInt32 := 20

/-- The number that the operating system gives to a name with too many bytes. -/
def nameTooLongCode : UInt32 := 36

/-- The problem with a file that an error stands for. -/
def fileProblem : IO.Error → FileProblem
  | .noFileOrDirectory _ _ _ => .notFound
  | .alreadyExists _ _ _ => .alreadyExists
  | .inappropriateType _ code _ =>
    if code = notADirectoryCode then .notADirectory else .isADirectory
  | .invalidArgument filename code details =>
    if code = nameTooLongCode then .nameTooLong
    else .other (toString (IO.Error.invalidArgument filename code details))
  | error => .other (toString error)

/-- Does something with files and gives the problem there was as a value. -/
def attempting {α : Type} (action : IO α) : IO (Except FileProblem α) := do
  try return .ok (← action) catch error => return .error (fileProblem error)

/-- Whether there is a directory at a path. -/
def isDirectory (path : String) : IO Bool := do
  try (← IO.FS.realPath path).isDir catch _ => return false

/-- The paths of all files in a directory and the directories in it. -/
partial def filesUnder (path : String) : IO (List String) := do
  try
    let entries ← (← IO.FS.realPath path).readDir
    let names := (entries.toList.map fun entry => entry.fileName).mergeSort
    let paths ← names.mapM fun name => do
      let inner := Path.join path name
      if ← isDirectory inner then filesUnder inner else return [inner]
    return paths.flatten
  catch _ => return []

/-- The files of the machine. -/
def files : Files IO where
  read path := attempting do return (← IO.FS.readBinFile path).toList
  isDirectory := isDirectory
  filesUnder := filesUnder
  makeDirectory path := attempting (IO.FS.createDir path)
  write path text := attempting (IO.FS.writeFile path text)

/-- The exit status when the arguments are not well formed. -/
def usageStatus : UInt32 := 2

/-- Prints what running the program leads to and gives the exit status. -/
def conclude : CommandLine.Outcome → IO UInt32
  | .dismissed .help => do
    CommandLine.helpLines.forM fun line => IO.println line
    return 0
  | .dismissed .version => do
    IO.println CommandLine.versionLine
    return 0
  | .dismissed .usage => do
    IO.eprintln ("error: see '" ++ CommandLine.programName ++ " --help'")
    return usageStatus
  | .completions shell => do
    IO.println (CommandLine.completionScript shell)
    return 0
  | .finished exit => do
    exit.output.forM fun line => IO.println line
    exit.errors.forM fun line => IO.eprintln line
    return UInt32.ofNat exit.status

end ChronoSat.Program

/-- Runs the program on its arguments. -/
def main (arguments : List String) : IO UInt32 := do
  let outcome ← ChronoSat.CommandLine.run ChronoSat.Program.instruments ChronoSat.Program.files
    arguments
  ChronoSat.Program.conclude outcome
