import Crew.Config.Load

/-!
# Options of a command line

A command takes long options, some with a value, and may lead to further commands. A value stands
behind its option or is attached to it by an equals sign. What an option holds is looked at when
the next option begins or the line ends; an argument that nobody knows is refused before that.
-/

namespace Crew.Cli

/-- Why a command line is refused, or not carried out because it asks for help. -/
inductive UsageError where
  | missingRequired
  | missingCommand
  | unknownArgument
  | unknownCommand
  | badValue
  | noValue
  | surplusValue
  | repeated
  | help
  | version
  | nothingAsked
  deriving DecidableEq, Repr

/-- To be told what one asked for is no failure. -/
def UsageError.exitCode : UsageError → Nat
  | .help | .version => 0
  | _ => 2

inductive OptionKind where
  | flag
  | path
  | text
  | natural
  | help
  | version
  deriving DecidableEq, Repr

structure OptionSpec where
  name : String
  kind : OptionKind
  short : Option Char := none
  deriving DecidableEq, Repr

namespace OptionSpec

def takesValue (o : OptionSpec) : Bool :=
  match o.kind with
  | .path | .text | .natural => true
  | .flag | .help | .version => false

/-- A path is not empty, and a number is one. -/
def check (o : OptionSpec) (value : String) : Except UsageError Unit :=
  match o.kind with
  | .path => if value = "" then .error .noValue else .ok ()
  | .natural => if (readNatural value).isSome then .ok () else .error .badValue
  | .flag | .text | .help | .version => .ok ()

end OptionSpec

structure CommandSpec where
  options : List OptionSpec
  commands : List String := []
  required : List String := []
  deriving DecidableEq, Repr

/-- The options read so far, with their values, and the one whose value was not looked at yet. -/
structure Scan where
  given : List (String × String) := []
  pending : Option (OptionSpec × Option String) := none
  deriving DecidableEq, Repr

namespace Scan

def value? (s : Scan) (name : String) : Option String := s.given.lookup name

def hasFlag (s : Scan) (name : String) : Bool := (s.value? name).isSome

/-- Keep an option; each may be given once. -/
def store (s : Scan) (o : OptionSpec) (value : Option String) : Except UsageError Scan := do
  let value ← match value with
    | some value => .ok value
    | none => if o.takesValue then .error .noValue else .ok ""
  if (s.value? o.name).isSome then .error .repeated
  else
    o.check value
    return { s with given := s.given ++ [(o.name, value)] }

def resolve (s : Scan) : Except UsageError Scan :=
  match s.pending with
  | none => .ok s
  | some (o, value) => ({ s with pending := none } : Scan).store o value

def isWaiting (s : Scan) : Bool :=
  match s.pending with
  | some (_, none) => true
  | _ => false

def begin (s : Scan) (o : OptionSpec) (attached : Option String) : Except UsageError Scan := do
  if o.takesValue then
    let s ← s.resolve
    match attached with
    | some value => s.store o (some value)
    | none => return { s with pending := some (o, none) }
  else if attached.isSome then .error .surplusValue
  else
    let s ← s.resolve
    match o.kind with
    | .help => .error .help
    | .version => .error .version
    | _ => s.store o none

end Scan

inductive Shape where
  | separator
  | long (name : String) (attached : Option String)
  | short (first : Char)
  | plain
  deriving DecidableEq, Repr

namespace Shape

def ofLong (cs : List Char) : Shape :=
  let name := String.ofList (cs.takeWhile (· ≠ '='))
  match cs.dropWhile (· ≠ '=') with
  | [] => .long name none
  | _ :: value => .long name (some (String.ofList value))

def ofArgument (arg : String) : Shape :=
  match arg.toList with
  | ['-', '-'] => .separator
  | '-' :: '-' :: rest => ofLong rest
  | '-' :: c :: _ => .short c
  | _ => .plain

end Shape

namespace CommandSpec

/-- A command with further ones takes every other word for one of these. -/
def refuse (spec : CommandSpec) : UsageError :=
  if spec.commands.isEmpty then .unknownArgument else .unknownCommand

/-- What stands behind a separator is no option, and no command takes anything else. -/
def afterSeparator (spec : CommandSpec) (s : Scan) : List String → Except UsageError Scan
  | [] => .ok s
  | arg :: _ => if arg ∈ spec.commands then .error .unknownArgument else .error spec.refuse

/-- Read arguments up to a command that this one leads to; also that command and what follows. -/
def scan (spec : CommandSpec) (s : Scan) :
    List String → Except UsageError (Scan × Option (String × List String))
  | [] => .ok (s, none)
  | arg :: rest =>
    if !s.isWaiting && arg ∈ spec.commands then .ok (s, some (arg, rest))
    else
      match Shape.ofArgument arg with
      | .separator => do return (← spec.afterSeparator s rest, none)
      | .long name attached =>
        match spec.options.find? (·.name = name) with
        | none => .error .unknownArgument
        | some o => do spec.scan (← s.begin o attached) rest
      | .short c =>
        match spec.options.find? (·.short = some c) with
        | none => .error .unknownArgument
        | some o => do spec.scan (← s.begin o none) rest
      | .plain =>
        match s.pending with
        | some (o, none) => spec.scan { s with pending := some (o, some arg) } rest
        | _ => .error spec.refuse

def read (spec : CommandSpec) (args : List String) : Except UsageError Scan := do
  let (s, _) ← spec.scan {} args
  let s ← s.resolve
  if spec.required.all s.hasFlag then return s else .error .missingRequired

end CommandSpec

end Crew.Cli
