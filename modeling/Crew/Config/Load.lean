import Crew.Files
import Crew.Form.Config
import Crew.Text.Blank
import Crew.Toml.Document

/-!
# Loading a configuration

A configuration comes from the file that is asked for, or else from the user's own file, or else
from the one in the working directory; without any it is the default. The environment comes last
and overrules the file. Only a configuration that passes its check is used.
-/

namespace Crew

structure Environment where
  home : Option String := none
  userProfile : Option String := none
  logLevel : Option String := none
  maxConcurrency : Option String := none
  deriving DecidableEq, Repr

inductive LoadError where
  | noHome
  | unreadable (path : String) (e : FileError)
  | malformed (path : String)
  | invalid (e : ConfigError)
  deriving DecidableEq, Repr

def LoadError.message : LoadError → String
  | .noHome => "Cannot determine home directory"
  | .unreadable path e => "read " ++ path ++ ": " ++ e.message
  | .malformed path => "parse " ++ path
  | .invalid e => e.message

def joinPath (directory name : String) : String :=
  if directory = "" ∨ directory.endsWith "/" then directory ++ name else directory ++ "/" ++ name

namespace Environment

def dataDirectory (env : Environment) : Except LoadError String :=
  match env.home <|> env.userProfile with
  | some home => .ok (joinPath home ".swarm")
  | none => .error .noHome

end Environment

/-- A numeral of a word of 64 bits; it may have a plus sign. -/
def readNatural (s : String) : Option Nat :=
  let digits := match s.toList with
    | '+' :: rest => rest
    | cs => cs
  if digits.isEmpty || !digits.all Char.isDigit then none
  else
    let n := digits.foldl (fun n d => n * 10 + (d.toNat - 48)) 0
    if n < UInt64.size then some n else none

namespace Config

def ofToml (text : String) : Option Config := do
  let outline ← Toml.outline? text
  (decoder { origin := .table } outline).toOption

/-- What the environment says overrules the file; blanks and bad numbers say nothing. -/
def override (c : Config) (env : Environment) : Config :=
  let c := match env.logLevel with
    | some level =>
      if Text.isBlankText level then c else { c with logging := { c.logging with level } }
    | none => c
  match (env.maxConcurrency.bind fun s => readNatural (Text.trim s)).filter (0 < ·) with
  | some n => { c with execution := { c.execution with maxConcurrency := some n } }
  | none => c

/-- Log files that have no directory go to the user's files. -/
def placeLogs (c : Config) (dataDirectory : String) : Config :=
  let given := (c.logging.directory.map fun d => !Text.isBlankText d).getD false
  if c.logging.file && !given then
    { c with logging := { c.logging with directory := some (joinPath dataDirectory "logs") } }
  else c

def settle (c : Config) (env : Environment) : Except LoadError Config := do
  let c := c.override env
  c.check.mapError .invalid
  return c

section

variable {m : Type → Type} [Monad m]

def readFile (files : FileSystem m) (path : String) : m (Except LoadError Config) := do
  match ← files.read path with
  | .error e => return .error (.unreadable path e)
  | .ok text =>
    match ofToml text with
    | some c => return .ok c
    | none => return .error (.malformed path)

def loadFrom (files : FileSystem m) (env : Environment) (path : String) :
    m (Except LoadError Config) := do
  let c ← readFile files path
  return c.bind (·.settle env)

/-- The first file there is of those that are looked for, or the default. -/
def readFirst (files : FileSystem m) : List String → m (Except LoadError Config)
  | [] => return .ok {}
  | path :: rest => do
    if ← files.holds path then readFile files path else readFirst files rest

def loadDefault (files : FileSystem m) (env : Environment) : m (Except LoadError Config) := do
  match env.dataDirectory with
  | .error e => return .error e
  | .ok directory =>
    let c ← readFirst files [joinPath directory "config.toml", "swarm.toml"]
    return c.bind fun c => (c.placeLogs directory).settle env

def load (files : FileSystem m) (env : Environment) (path : Option String) :
    m (Except LoadError Config) :=
  match path with
  | some path => loadFrom files env path
  | none => loadDefault files env

end

end Config

end Crew
