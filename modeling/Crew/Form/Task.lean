import Crew.Json.Record
import Crew.Task

/-!
# The written form of tasks

A task as a submission describes it. What a description leaves out is filled in, and a description
is a task only if its limits make sense.
-/

namespace Crew

open Json

namespace Priority

def toJson (p : Priority) : Json := .string p.name

def names : List (String × Priority) := all.map fun p => (p.name, p)

def decoder : Decoder Priority := Decoder.variant names

end Priority

structure TaskForm where
  id : String
  capability : String
  payload : Json := .null
  dependencies : List String := []
  priority : Priority := .medium
  timeout : Nat := 30000
  maxRetries : Nat := 0
  redundancy : Option Nat := none
  deriving DecidableEq, Repr

namespace TaskForm

def toJson (f : TaskForm) : Json :=
  .object [("id", .string f.id), ("capability", .string f.capability), ("payload", f.payload),
    ("depends_on", .array (f.dependencies.map .string)), ("priority", f.priority.toJson),
    ("timeout_ms", .nat f.timeout), ("max_retries", .nat f.maxRetries),
    ("redundancy", Json.ofOption .nat f.redundancy)]

def shape : RecordShape where
  title := "struct TaskDocument"
  fields := ["id", "capability", "payload", "depends_on", "priority", "timeout_ms", "max_retries",
    "redundancy"]
  aliases := [("dependencies", "depends_on")]

def read (m : Members) : Positioned TaskForm :=
  TaskForm.mk <$> m.required "id" .string <*> m.required "capability" .string <*>
    m.optional "payload" .json .null <*> m.optional "depends_on" Decoder.string.list [] <*>
    m.optional "priority" Priority.decoder .medium <*> m.optional "timeout_ms" .u64 30000 <*>
    m.optional "max_retries" .u32 0 <*> m.optional "redundancy" Decoder.u32.option none

def decoder : Decoder TaskForm := shape.decoder read

end TaskForm

end Crew
