/-
# Texts about the program

How the program is used, and scripts that let a shell complete its requests.
-/

import ChronoSat.CommandLine.Grammar

namespace ChronoSat.CommandLine

/-- The name the program is called by. -/
def programName : String := "sat-dpll"

/-- How an option is written. -/
def OptionSpec.usage (option : OptionSpec) : String :=
  let letter := match option.short with
    | none => "    "
    | some letter => "-" ++ String.ofList [letter] ++ ", "
  "  " ++ letter ++ "--" ++ option.long ++ (if option.value.isSome then " <VALUE>" else "")

/-- How a request is written. -/
def commandUsage (name : String) (spec : CommandSpec) : List String :=
  ("  " ++ name) :: spec.options.map fun option => "  " ++ option.usage

/-- How the program is used. -/
def helpLines : List String :=
  ["A chronological DPLL SAT solver", "",
   "Usage: " ++ programName ++ " [OPTIONS] [PATH]",
   "       " ++ programName ++ " <COMMAND>", "", "Commands:"] ++
    Grammar.commands.flatMap (fun command => commandUsage command.1 command.2) ++
    ["  " ++ Grammar.helpCommand, "", "Options:"] ++ Grammar.common.map OptionSpec.usage ++
    ["  -h, --help", "  -V, --version"]

/-- The names of all requests, with a space between neighbours. -/
def commandWords : String :=
  " ".intercalate (Grammar.commands.map Prod.fst ++ [Grammar.helpCommand])

/-- A script that makes a shell complete the names of the requests. -/
def completionScript : Shell → String
  | .bash => "complete -W '" ++ commandWords ++ "' " ++ programName
  | .zsh => "#compdef " ++ programName ++ "\ncompadd " ++ commandWords
  | .fish => "complete -c " ++ programName ++ " -f -a '" ++ commandWords ++ "'"
  | .elvish =>
    "set edit:completion:arg-completer[" ++ programName ++ "] = \x7b|@words| put " ++
      commandWords ++ " \x7d"
  | .powershell =>
    "Register-ArgumentCompleter -Native -CommandName '" ++ programName ++
      "' -ScriptBlock \x7b '" ++ commandWords ++ "' -split ' ' \x7d"

end ChronoSat.CommandLine
