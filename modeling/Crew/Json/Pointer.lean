import Crew.Json.Printer
import Crew.Text.Quoted

/-!
# Pointers into JSON values

A pointer is empty, and means the whole value, or a sequence of steps that each begin with a
slash: a key of an object, or an index of an array without sign and leading zeros. In a step `~1`
stands for a slash and `~0` for a tilde.
-/

namespace Crew

structure JsonPointer where
  text : String
  deriving DecidableEq, Repr

/-- A text that is neither empty nor begins with a slash. -/
structure PointerError where
  text : String
  deriving DecidableEq, Repr

def PointerError.message (e : PointerError) : String :=
  "json pointer must be empty or start with '/': " ++ Text.quoted e.text

namespace JsonPointer

def ofString (s : String) : Except PointerError JsonPointer :=
  match s.toList with
  | [] | '/' :: _ => .ok ⟨s⟩
  | _ => .error ⟨s⟩

def replaceMark (mark replacement : Char) : List Char → List Char
  | [] => []
  | [c] => [c]
  | c :: d :: rest =>
    if c = '~' ∧ d = mark then replacement :: replaceMark mark replacement rest
    else c :: replaceMark mark replacement (d :: rest)

def unescape (step : List Char) : List Char := replaceMark '0' '~' (replaceMark '1' '/' step)

def splitSlashes : List Char → List (List Char)
  | [] => [[]]
  | c :: rest =>
    match splitSlashes rest with
    | [] => [[c]]
    | part :: parts => if c = '/' then [] :: part :: parts else (c :: part) :: parts

def steps (p : JsonPointer) : List String :=
  match p.text.toList with
  | [] => []
  | _ :: rest => (splitSlashes rest).map fun step => String.ofList (unescape step)

def index? (step : String) : Option Nat :=
  let cs := step.toList
  if cs.isEmpty || !cs.all Char.isDigit || (cs.head? = some '0' && 1 < cs.length) then none
  else
    let n := cs.foldl (fun n c => n * 10 + (c.toNat - 48)) 0
    if n < UInt64.size then some n else none

def follow : List String → Json → Option Json
  | [], value => some value
  | step :: rest, .object members =>
    ((Json.object members).get? step).bind (follow rest)
  | step :: rest, .array items => ((index? step).bind (items[·]?)).bind (follow rest)
  | _ :: _, _ => none

def find? (p : JsonPointer) (value : Json) : Option Json := follow p.steps value

end JsonPointer

end Crew
