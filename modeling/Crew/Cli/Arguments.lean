import Crew.Cli.Options

/-!
# Arguments of the program

The program runs a submission or checks one. The file of the configuration may be given before the
command or behind it; behind it counts.
-/

namespace Crew.Cli

structure RunArguments where
  tasks : String
  workers : String
  maxConcurrency : Option Nat := none
  voteBy : Option String := none
  pretty : Bool := false
  progress : Bool := false
  deriving DecidableEq, Repr

inductive Command where
  | run (args : RunArguments)
  | validate (tasks : String)
  deriving DecidableEq, Repr

structure Arguments where
  config : Option String
  command : Command
  deriving DecidableEq, Repr

def configOption : OptionSpec := ⟨"config", .path, none⟩

def helpOption : OptionSpec := ⟨"help", .help, some 'h'⟩

def rootSpec : CommandSpec where
  options := [configOption, helpOption, ⟨"version", .version, some 'V'⟩]
  commands := ["run", "validate", "help"]

def runSpec : CommandSpec where
  options := [⟨"tasks", .path, none⟩, ⟨"workers", .path, none⟩,
    ⟨"max-concurrency", .natural, none⟩, ⟨"vote-by", .text, none⟩, ⟨"pretty", .flag, none⟩,
    ⟨"progress", .flag, none⟩, configOption, helpOption]
  required := ["tasks", "workers"]

def validateSpec : CommandSpec where
  options := [⟨"tasks", .path, none⟩, configOption, helpOption]
  required := ["tasks"]

/-- Help may name the command that it is wanted for. -/
def helpFor : List String → UsageError
  | [] => .help
  | [name] => if name ∈ rootSpec.commands then .help else .unknownCommand
  | _ => .unknownCommand

def readRun (args : List String) : Except UsageError (Scan × Command) := do
  let s ← runSpec.read args
  return (s, .run
    { tasks := (s.value? "tasks").getD "", workers := (s.value? "workers").getD "",
      maxConcurrency := (s.value? "max-concurrency").bind readNatural,
      voteBy := s.value? "vote-by", pretty := s.hasFlag "pretty",
      progress := s.hasFlag "progress" })

def readValidate (args : List String) : Except UsageError (Scan × Command) := do
  let s ← validateSpec.read args
  return (s, .validate ((s.value? "tasks").getD ""))

def Arguments.ofList (args : List String) : Except UsageError Arguments := do
  let (root, command) ← rootSpec.scan {} args
  match command with
  | none =>
    let root ← root.resolve
    if root.given.isEmpty then .error .nothingAsked else .error .missingCommand
  | some (name, rest) =>
    let (s, command) ← match name with
      | "run" => readRun rest
      | "validate" => readValidate rest
      | _ => .error (helpFor rest)
    let root ← root.resolve
    return { config := s.value? "config" <|> root.value? "config", command }

end Crew.Cli
