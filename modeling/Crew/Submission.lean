import Crew.Form.Task
import Crew.Form.Worker
import Crew.Graph.Build

/-!
# Submissions

Tasks and workers are submitted as JSON documents: an array of descriptions, or an object that
holds the array under a fixed key. A text that is neither is refused for what keeps it from being
an array of descriptions.
-/

namespace Crew

open Json

inductive FormFlaw where
  | noTime (taskId : String)
  | noWorker (taskId : String)
  | unnamedWorker
  | badTrust (workerId : String)
  deriving DecidableEq, Repr

def FormFlaw.reason : FormFlaw → String
  | .noTime id => "task '" ++ id ++ "': timeout_ms must be > 0"
  | .noWorker id => "task '" ++ id ++ "': redundancy must be >= 1"
  | .unnamedWorker => "worker with empty worker_id"
  | .badTrust id => "worker '" ++ id ++ "': trust_weight must be a finite number >= 0"

def FormFlaw.refusal (reason : String) : String := "invalid document: " ++ reason

def FormFlaw.message (flaw : FormFlaw) : String := refusal flaw.reason

inductive SubmissionError where
  | json (fault : Fault)
  | flaw (flaw : FormFlaw)
  | graph (e : GraphError)
  deriving DecidableEq, Repr

def TaskForm.toTask (f : TaskForm) : Except FormFlaw Task :=
  if f.timeout = 0 then .error (.noTime f.id)
  else if f.redundancy = some 0 then .error (.noWorker f.id)
  else .ok { id := f.id, capability := f.capability, payload := f.payload,
             dependencies := f.dependencies, priority := f.priority, maxRetries := f.maxRetries,
             timeout := f.timeout, redundancy := f.redundancy }

def WorkerSpec.check (spec : WorkerSpec) : Except FormFlaw Unit :=
  if Text.isBlankText spec.workerId then .error .unnamedWorker
  else if !spec.trustWeight.isFinite || spec.trustWeight < 0.0 then
    .error (.badTrust spec.workerId)
  else .ok ()

namespace Submission

def onlyMember (key : String) (members : List (Option String × Outline)) : Option Outline :=
  match members.filter (·.1 = some key) with
  | [(_, value)] => some value
  | _ => none

/-- The array under `key` in a text that is an object. -/
def wrapped {α : Type} (key : String) (d : Decoder α) (text : String) : Option (List α) :=
  match Outline.ofText text with
  | (.object members stop, false) => do
    let ctx : Context := {}
    let _ ← ((Outline.object members stop).buffer ctx).toOption
    let value ← onlyMember key members
    (ctx.enter.bind fun inner => d.list inner value).toOption
  | _ => none

/-- The descriptions in a document. An object is taken into memory before its array is looked for.
An array is read from the text at once: what a decoder accepts of it in memory it accepts of the
text, and what is refused there is read from the text again (`forms_eq_bare_or_wrapped`). -/
def forms {α : Type} (key : String) (d : Decoder α) (text : String) : Except Fault (List α) :=
  match wrapped key d text with
  | some forms => .ok forms
  | none => d.list.decodeText text

def parseTasks (text : String) : Except SubmissionError (List Task) := do
  let forms ← (forms "tasks" TaskForm.decoder text).mapError .json
  (forms.mapM TaskForm.toTask).mapError .flaw

def parseGraph (text : String) : Except SubmissionError TaskGraph := do
  (TaskGraph.build (← parseTasks text)).mapError .graph

def parseWorkers (text : String) : Except SubmissionError (List WorkerSpec) := do
  let specs ← (forms "workers" WorkerSpec.decoder text).mapError .json
  (specs.forM WorkerSpec.check).mapError .flaw
  return specs

end Submission

end Crew
