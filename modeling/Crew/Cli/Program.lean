import Crew.Cli.Arguments
import Crew.Form.Report
import Crew.Rehearsal.Basic
import Crew.Submission

/-!
# The program

What a command line does: it loads the configuration and carries out its command. Workers of a run
are echoes. The program prints a text and ends with a code that tells how it went.
-/

namespace Crew.Cli

inductive DocumentError where
  | unreadable (e : FileError)
  | refused (e : SubmissionError)
  deriving DecidableEq, Repr

def DocumentError.message : DocumentError → String
  | .unreadable e => "input io error: " ++ e.message
  | .refused (.json (.data mismatch)) => "malformed document: " ++ mismatch.message
  | .refused (.json (.text .ended)) => "malformed document: the text ends too early"
  | .refused (.json (.text .malformed)) => "malformed document: the text is no JSON"
  | .refused (.flaw flaw) => flaw.message
  | .refused (.graph e) => e.message

inductive ProgramError where
  | config (reason : String)
  | logging (reason : String)
  | document (e : DocumentError)
  | fatal (e : FatalError)
  | io (reason : String)
  | other (reason : String)
  deriving DecidableEq, Repr

namespace ProgramError

def message : ProgramError → String
  | .config reason => "config error: " ++ reason
  | .logging reason => "logging setup failed: " ++ reason
  | .document e => e.message
  | .fatal e => "swarm run aborted: " ++ e.message
  | .io reason => "io error: " ++ reason
  | .other reason => reason

def exitCode : ProgramError → Nat
  | .config _ => 11
  | .document (.unreadable _) => 20
  | .document (.refused _) => 12
  | .fatal _ => 30
  | .io _ | .logging _ => 20
  | .other _ => 50

end ProgramError

structure Finished where
  stdout : String
  exitCode : Nat
  deriving DecidableEq, Repr

/-- A run that did not bring every task to success is a failure, a cancelled one in its own way. -/
def reportCode (r : Report) : Nat :=
  if r.cancelled then 130 else if r.allSucceeded then 0 else 1

def stagesToJson (g : TaskGraph) : Json :=
  .sorted [("tasks", .nat g.size), ("capabilities", .array (g.capabilities.map .string)),
    ("critical_path_len", .nat g.layers.length),
    ("layers", .array (g.layers.map fun layer => .array (layer.map .string)))]

section

variable {m : Type → Type} [Monad m]

def readDocument {α : Type} (files : FileSystem m) (path : String)
    (parse : String → Except SubmissionError α) : m (Except ProgramError α) := do
  match ← files.read path with
  | .error e => return .error (.document (.unreadable e))
  | .ok text => return (parse text).mapError fun e => .document (.refused e)

/-- Run a submission with echoes for workers. -/
def perform (config : Config) (args : RunArguments) (runId : String) (graph : TaskGraph)
    (specs : List WorkerSpec) : Except ProgramError Finished := do
  let coordinator ← (Coordinator.ofConfig config args.voteBy).mapError fun e => .config e.message
  let rules := BreakerRules.ofLimits config.circuit.failureThreshold config.circuit.cooldown
  let (registry, cast) := specs.foldl (fun (registry, cast) spec =>
    Registry.engage registry cast spec .echo) (({ rules } : Registry), ([] : Cast))
  let recording ← (coordinator.rehearse runId graph registry cast []).mapError .fatal
  let json := recording.report.toJson
  return { stdout := (if args.pretty then json.pretty else json.compact) ++ "\n"
           exitCode := reportCode recording.report }

/-- The configuration of a run; an explicit cap overrules it. -/
def runConfig (config : Config) (args : RunArguments) : Except ProgramError Config := do
  let config := match args.maxConcurrency with
    | some n => { config with execution := { config.execution with maxConcurrency := some n } }
    | none => config
  config.check.mapError fun e => .config e.message
  return config

def run (files : FileSystem m) (config : Config) (args : RunArguments) (runId : String) :
    m (Except ProgramError Finished) := do
  match runConfig config args with
  | .error e => return .error e
  | .ok config =>
    match ← readDocument files args.tasks Submission.parseGraph with
    | .error e => return .error e
    | .ok graph =>
      match ← readDocument files args.workers Submission.parseWorkers with
      | .error e => return .error e
      | .ok specs => return perform config args runId graph specs

def validate (files : FileSystem m) (tasks : String) : m (Except ProgramError Finished) := do
  match ← readDocument files tasks Submission.parseGraph with
  | .error e => return .error e
  | .ok graph => return .ok { stdout := (stagesToJson graph).pretty ++ "\n", exitCode := 0 }

def execute (files : FileSystem m) (env : Environment) (args : Arguments) (runId : String) :
    m (Except ProgramError Finished) := do
  match ← Config.load files env args.config with
  | .error e => return .error (.config e.message)
  | .ok config =>
    match args.command with
    | .run runArgs => run files config runArgs runId
    | .validate tasks => validate files tasks

end

end Crew.Cli
