import Crew.Cli.Program

/-!
# The executable

Files and environment are those of the process. Everything else is decided by `Cli.execute`.
-/

namespace Crew

def FileError.ofIO : IO.Error → FileError
  | .noFileOrDirectory .. => .notFound
  | .inappropriateType _ code _ => if code = 21 then .isDirectory else .notDirectory
  | e => .other e.toString

/-- The files of the process. What cannot be read but is there is held too. -/
def processFiles : FileSystem IO where
  read path := do
    try
      return .ok (← IO.FS.readFile path)
    catch e =>
      return .error (FileError.ofIO e)
  holds path := do
    try
      let _ ← IO.FS.readFile path
      return true
    catch e =>
      let e := FileError.ofIO e
      return e ≠ .notFound && e ≠ .notDirectory

def processEnvironment : IO Environment := do
  return { home := ← IO.getEnv "HOME", userProfile := ← IO.getEnv "USERPROFILE"
           logLevel := ← IO.getEnv "SWARM_LOG_LEVEL"
           maxConcurrency := ← IO.getEnv "SWARM_MAX_CONCURRENCY" }

def usage : String :=
  "usage: swarm [--config FILE] run --tasks FILE --workers FILE [--max-concurrency N]\n" ++
  "             [--vote-by POINTER] [--pretty] [--progress]\n" ++
  "       swarm [--config FILE] validate --tasks FILE\n"

end Crew

open Crew Cli in
def main (args : List String) : IO UInt32 := do
  match Arguments.ofList args with
  | .error .version =>
    IO.println "swarm 0.3.0"
    return 0
  | .error e =>
    if e.exitCode = 0 then IO.print usage else IO.eprint usage
    return e.exitCode.toUInt32
  | .ok args =>
    let runId := toString (← IO.rand 0 (UInt64.size - 1))
    match ← execute processFiles (← processEnvironment) args runId with
    | .error e =>
      IO.eprintln e.message
      return e.exitCode.toUInt32
    | .ok finished =>
      IO.print finished.stdout
      return finished.exitCode.toUInt32
