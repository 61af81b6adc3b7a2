import Crew.Json.Decoder

/-!
# Records

A record is written as an object of its fields, or as an array of them in the order of their
declaration. Fields that nobody declared are passed over. Each field has a position in the text;
of several failures the one at the first position is reported, and a missing field is noticed only
at the record's end, the first one in the order of declaration.
-/

namespace Crew.Json

def Positioned (α : Type) := Except (Nat × Fault) α

namespace Positioned

variable {α β : Type}

def pure (a : α) : Positioned α := Except.ok a

/-- Both parts are read; of two failures the earlier one counts. -/
def seq (f : Positioned (α → β)) (x : Positioned α) : Positioned β :=
  match f, x with
  | .ok f, .ok a => .ok (f a)
  | .error e, .ok _ => .error e
  | .ok _, .error e => .error e
  | .error (p, e), .error (q, e') => .error (if q < p then (q, e') else (p, e))

def map (f : α → β) (x : Positioned α) : Positioned β := seq (pure f) x

instance : Functor Positioned where
  map := map

instance : Seq Positioned where
  seq f x := seq f (x ())

end Positioned

/-- `title` names the record in messages. An alias stands for the field it is paired with. -/
structure RecordShape where
  title : String
  fields : List String
  aliases : List (String × String) := []
  deriving Repr, DecidableEq

namespace RecordShape

def field? (shape : RecordShape) (key : String) : Option String :=
  let name := (shape.aliases.lookup key).getD key
  if name ∈ shape.fields then some name else none

def describe (shape : RecordShape) : String :=
  let n := shape.fields.length
  shape.title ++ " with " ++ toString n ++ (if n = 1 then " element" else " elements")

end RecordShape

/-- The fields that a text holds, with their positions, and the first failure that does not belong
to a field. `keyed` tells objects from arrays. -/
structure Members where
  shape : RecordShape
  keyed : Bool
  context : Context
  entries : List (String × Nat × Outline)
  fault : Option (Nat × Fault)

namespace Members

def scan (shape : RecordShape) (stop : Option Break) (position : Nat)
    (seen : List (String × Nat × Outline)) :
    List (Option String × Outline) → List (String × Nat × Outline) × Option (Nat × Fault)
  | [] => (seen, stop.map fun b => (position, .text b.read))
  | (none, _) :: _ => (seen, some (position, .text .malformed))
  | (some key, value) :: rest =>
    match shape.field? key with
    | some name =>
      if (seen.lookup name).isSome then (seen, some (position, .data (.duplicateField name)))
      else scan shape stop (position + 1) (seen ++ [(name, position, value)]) rest
    | none =>
      match value.skip with
      | .error fault => (seen, some (position, fault))
      | .ok () => scan shape stop (position + 1) seen rest

def ofObject (shape : RecordShape) (context : Context)
    (members : List (Option String × Outline)) (stop : Option Break) : Members :=
  let (entries, fault) := scan shape stop 0 [] members
  { shape, keyed := true, context, entries, fault }

def excess (origin : Origin) (expected given : Nat) : Option Fault :=
  match origin with
  | .text => some (.text .malformed)
  | .buffer => some (.data (.invalidLength given
      (if expected = 1 then "1 element in sequence"
       else toString expected ++ " elements in sequence")))
  | .table => none

def ofArray (shape : RecordShape) (context : Context) (items : List Outline)
    (stop : Option Break) : Members :=
  let n := shape.fields.length
  let entries := (shape.fields.zip items).mapIdx fun i (name, item) => (name, i, item)
  let fault :=
    if n < items.length then (excess context.origin n items.length).map fun f => (n, f)
    else stop.map fun b => (items.length, Fault.text b.read)
  { shape, keyed := false, context, entries, fault }

/-- The position of a missing field: behind everything that the text holds. -/
def missingAt (m : Members) (name : String) : Nat :=
  let last := (m.entries.map fun e => e.2.1 + 1).foldl max 0
  let known := max last (m.fault.elim 0 fun f => f.1 + 1)
  known + m.shape.fields.idxOf name

def missingFault (m : Members) (name : String) : Fault :=
  if m.keyed then .data (.missingField name)
  else .data (.invalidLength (m.shape.fields.idxOf name) m.shape.describe)

variable {α : Type}

/-- The field, or what `absent` says when the text does not hold it. -/
def field (m : Members) (name : String) (d : Decoder α) (absent : Positioned α) : Positioned α :=
  match m.entries.lookup name with
  | some (position, value) =>
    match d m.context value with
    | .ok a => .ok a
    | .error fault => .error (position, fault)
  | none => absent

def required (m : Members) (name : String) (d : Decoder α) : Positioned α :=
  m.field name d (.error (m.missingAt name, m.missingFault name))

def optional (m : Members) (name : String) (d : Decoder α) (default : α) : Positioned α :=
  m.field name d (.ok default)

/-- A field that an object may leave out, and an array may not. -/
def nullable (m : Members) (name : String) (d : Decoder α) : Positioned (Option α) :=
  m.field name d.option
    (if m.keyed then .ok none else .error (m.missingAt name, m.missingFault name))

/-- The record, unless the text fails before its first bad field. -/
def finish (m : Members) (record : Positioned α) : Except Fault α :=
  match record, m.fault with
  | .ok a, none => .ok a
  | .ok _, some (_, fault) => .error fault
  | .error (_, e), none => .error e
  | .error (p, e), some (q, fault) => .error (if q < p then fault else e)

end Members

namespace RecordShape

def decoder {α : Type} (shape : RecordShape) (read : Members → Positioned α) : Decoder α
  | ctx, .object members stop => do
    let inner ← ctx.enter
    let m := Members.ofObject shape inner members stop
    m.finish (read m)
  | ctx, .array items stop => do
    let inner ← ctx.enter
    let m := Members.ofArray shape inner items stop
    m.finish (read m)
  | _, other => .error (other.mismatch shape.title)

end RecordShape

end Crew.Json
