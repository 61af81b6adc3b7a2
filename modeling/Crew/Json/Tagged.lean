import Crew.Json.Record

/-!
# Tagged values

A value with alternatives names its alternative in a tag. Either the tag stands beside a member
that holds the content, or among the fields of the alternative itself. A tag need not come first:
what comes before it is taken into memory and read once the alternative is known.
-/

namespace Crew.Json

/-- An alternative whose content is a member of its own; `bare` is its value without content. -/
structure Alternative (α : Type) where
  content : Decoder α
  bare : Option α := none

structure TagShape where
  title : String
  tag : String
  content : String
  deriving Repr, DecidableEq

namespace Outline

/-- The next member that has one of the given keys; others are passed over. -/
def nextMember (keys : List String) (stop : Option Break) :
    List (Option String × Outline) →
      Except Fault (Option (String × Outline × List (Option String × Outline)))
  | [] => do stopFault stop; return none
  | (none, _) :: _ => .error (.text .malformed)
  | (some key, value) :: rest =>
    if key ∈ keys then .ok (some (key, value, rest))
    else do value.skip; nextMember keys stop rest

def noFurther (keys : List String) (stop : Option Break) (members : List (Option String × Outline)) :
    Except Fault Unit := do
  match ← nextMember keys stop members with
  | none => return ()
  | some (key, _) => .error (.data (.duplicateField key))

def bufferAll (ctx : Context) : List Outline → Except Fault Unit
  | [] => .ok ()
  | x :: xs => do let _ ← x.buffer ctx; bufferAll ctx xs

end Outline

namespace Decoder

variable {α : Type}

def noContent (title : String) (a : α) : Decoder α
  | _, .null => .ok a
  | _, other => .error (other.mismatch title)

/-- The value of an object with the members tag and content, or of an array of both. -/
def adjacent (shape : TagShape) (variants : List (String × Alternative α)) : Decoder α
  | ctx, .object members stop => do
    let keys := [shape.tag, shape.content]
    let inner ← ctx.enter
    match ← Outline.nextMember keys stop members with
    | none => .error (.data (.missingField shape.tag))
    | some (first, value, rest) =>
      if first = shape.tag then
        let alternative ← variant variants inner value
        match ← Outline.nextMember keys stop rest with
        | none =>
          match alternative.bare with
          | some a => return a
          | none => .error (.data (.missingField shape.content))
        | some (second, content, rest) =>
          if second = shape.tag then .error (.data (.duplicateField shape.tag))
          else
            let a ← alternative.content inner content
            Outline.noFurther keys stop rest
            return a
      else
        let content ← value.buffer inner
        match ← Outline.nextMember keys stop rest with
        | none => .error (.data (.missingField shape.tag))
        | some (second, tag, rest) =>
          if second = shape.content then .error (.data (.duplicateField shape.content))
          else
            let alternative ← variant variants inner tag
            let a ← alternative.content { inner with origin := .buffer } content
            Outline.noFurther keys stop rest
            return a
  | ctx, .array items stop => do
    let inner ← ctx.enter
    match items with
    | [] => do
      Outline.stopFault stop
      .error (.data (.invalidLength 0 shape.title))
    | [tag] => do
      let _ ← variant variants inner tag
      Outline.stopFault stop
      .error (.data (.invalidLength 1 shape.title))
    | tag :: content :: rest => do
      let alternative ← variant variants inner tag
      let a ← alternative.content inner content
      if rest.isEmpty then
        Outline.stopFault stop
        return a
      else
        match Members.excess inner.origin 2 items.length with
        | some fault => .error fault
        | none => return a
  | _, other => .error (other.mismatch shape.title)

def identifier (variants : List (String × α)) : Decoder α
  | _, .string (some name) => named variants name
  | _, other => .error (other.mismatch "variant identifier")

/-- The alternative that the tag names, if it has come, and the members beside the tag. -/
def splitTag (tag : String) (variants : List (String × α)) (ctx : Context) (found : Option α) :
    List (Option String × Outline) →
      Except Fault (Option α × List (Option String × Outline))
  | [] => .ok (found, [])
  | (none, _) :: _ => .error (.text .malformed)
  | (some key, value) :: rest =>
    if key = tag then
      if found.isSome then .error (.data (.duplicateField tag))
      else do splitTag tag variants ctx (some (← identifier variants ctx value)) rest
    else do
      let value ← value.buffer ctx
      let (found, others) ← splitTag tag variants ctx found rest
      return (found, (some key, value) :: others)

/-- The value of an object that has the tag among its members, or of an array that begins with
it. -/
def tagged (title tag : String) (variants : List (String × Decoder α)) : Decoder α
  | ctx, .object members stop => do
    let inner ← ctx.enter
    let (found, others) ← splitTag tag variants inner none members
    Outline.stopFault stop
    match found with
    | none => .error (.data (.missingField tag))
    | some fields => fields { ctx with origin := .buffer } (.object others none)
  | ctx, .array items stop => do
    let inner ← ctx.enter
    match items with
    | [] => do
      Outline.stopFault stop
      .error (.data (.missingField tag))
    | first :: rest => do
      let fields ← identifier variants inner first
      Outline.bufferAll inner rest
      Outline.stopFault stop
      fields { ctx with origin := .buffer } (.array rest none)
  | _, other => .error (other.mismatch title)

def noFields (a : α) : Decoder α
  | _, .array (x :: xs) _ =>
    .error (.data (.invalidLength (x :: xs).length "0 elements in sequence"))
  | _, _ => .ok a

end Decoder

end Crew.Json
