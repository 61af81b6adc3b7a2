import Crew.Json.Outline

/-!
# Decoders

A decoder reads one kind of value from an outline. It reports the first failure in the order of
the text, so that a text which is broken after a mismatch is refused for the mismatch.
-/

namespace Crew.Json

/-- Where an outline comes from. Some readers first take a whole text into memory; a table is a
value that never was a JSON text. -/
inductive Origin where
  | text
  | buffer
  | table
  deriving DecidableEq, Repr

/-- `depth` is how many containers may still be entered. -/
structure Context where
  origin : Origin := .text
  depth : Nat := 127
  deriving DecidableEq, Repr

def Context.enter (ctx : Context) : Except Fault Context :=
  match ctx.depth with
  | 0 => .error (.text .malformed)
  | depth + 1 => .ok { ctx with depth }

abbrev Decoder (α : Type) := Context → Outline → Except Fault α

namespace Outline

def stopFault : Option Break → Except Fault Unit
  | none => .ok ()
  | some b => .error (.text b.read)

mutual
def skip : Outline → Except Fault Unit
  | .broken b => .error (.text b.skip)
  | .array items stop => do
    skipItems items
    match stop with
    | none => return ()
    | some b => .error (.text b.skip)
  | .object members stop => do
    skipMembers members
    match stop with
    | none => return ()
    | some b => .error (.text b.skip)
  | _ => .ok ()
def skipItems : List Outline → Except Fault Unit
  | [] => .ok ()
  | x :: xs => do skip x; skipItems xs
def skipMembers : List (Option String × Outline) → Except Fault Unit
  | [] => .ok ()
  | (_, x) :: xs => do skip x; skipMembers xs
end

mutual
/-- The value itself, whatever it is. Repeated keys of an object keep their last value. -/
def toJson (ctx : Context) : Outline → Except Fault Json
  | .null => .ok .null
  | .bool b => .ok (.bool b)
  | .number (some n) => .ok (.number n)
  | .number none => .error (.text .malformed)
  | .string (some s) => .ok (.string s)
  | .string none => .error (.text .malformed)
  | .array items stop => do
    let inner ← ctx.enter
    let values ← toJsonItems inner items
    stopFault stop
    return .array values
  | .object members stop => do
    let inner ← ctx.enter
    let values ← toJsonMembers inner members
    stopFault stop
    return .sorted values
  | .broken b => .error (.text b.read)
def toJsonItems (ctx : Context) : List Outline → Except Fault (List Json)
  | [] => .ok []
  | x :: xs => do return (← toJson ctx x) :: (← toJsonItems ctx xs)
def toJsonMembers (ctx : Context) : List (Option String × Outline) →
    Except Fault (List (String × Json))
  | [] => .ok []
  | (none, _) :: _ => .error (.text .malformed)
  | (some k, x) :: xs => do return (k, ← toJson ctx x) :: (← toJsonMembers ctx xs)
end

mutual
def ofJson : Json → Outline
  | .null => .null
  | .bool b => .bool b
  | .number n => .number (some n)
  | .string s => .string (some s)
  | .array items => .array (ofJsonItems items) none
  | .object members => .object (ofJsonMembers members) none
def ofJsonItems : List Json → List Outline
  | [] => []
  | x :: xs => ofJson x :: ofJsonItems xs
def ofJsonMembers : List (String × Json) → List (Option String × Outline)
  | [] => []
  | (k, x) :: xs => (some k, ofJson x) :: ofJsonMembers xs
end

/-- Take a whole value into memory. Only a sound one can be. -/
def buffer (ctx : Context) (outline : Outline) : Except Fault Outline := do
  let _ ← outline.toJson ctx
  return outline

/-- The fault of meeting this where `expected` was asked for. Containers are not entered. -/
def mismatch (expected : String) : Outline → Fault
  | .null => .data (.invalidType .null expected)
  | .bool b => .data (.invalidType (.bool b) expected)
  | .number (some n) => .data (.invalidType (.number n) expected)
  | .string (some s) => .data (.invalidType (.string s) expected)
  | .number none | .string none => .text .malformed
  | .array .. => .data (.invalidType .sequence expected)
  | .object .. => .data (.invalidType .map expected)
  | .broken b => .text b.read

end Outline

namespace Decoder

def json : Decoder Json := fun ctx outline => outline.toJson ctx

def string : Decoder String
  | _, .string (some s) => .ok s
  | _, other => .error (other.mismatch "a string")

def bool : Decoder Bool
  | _, .bool b => .ok b
  | _, other => .error (other.mismatch "a boolean")

def unit : Decoder Unit
  | _, .null => .ok ()
  | { origin := .buffer, .. }, .object [] none => .ok ()
  | _, other => .error (other.mismatch "unit")

/-- A natural number below `2 ^ bits`. -/
def natural (bits : Nat) (expected : String) : Decoder Nat
  | _, .number (some (.int n)) =>
    if 0 ≤ n ∧ n < Nat.pow 2 bits then .ok n.toNat
    else .error (.data (.invalidValue (.number (.int n)) expected))
  | _, other => .error (other.mismatch expected)

def u32 : Decoder Nat := natural 32 "u32"

def u64 : Decoder Nat := natural 64 "u64"

def usize : Decoder Nat := natural 64 "usize"

/-- Integers are read as doubles too. -/
def f64 : Decoder Float
  | _, .number (some n) => .ok n.toFloat
  | _, other => .error (other.mismatch "f64")

/-- `null` stands for nothing. -/
def option {α : Type} (d : Decoder α) : Decoder (Option α)
  | _, .null => .ok none
  | ctx, other => (d ctx other).map some

def items {α : Type} (d : Decoder α) (ctx : Context) : List Outline → Except Fault (List α)
  | [] => .ok []
  | x :: xs => do return (← d ctx x) :: (← items d ctx xs)

def list {α : Type} (d : Decoder α) : Decoder (List α)
  | ctx, .array xs stop => do
    let inner ← ctx.enter
    let values ← items d inner xs
    Outline.stopFault stop
    return values
  | _, other => .error (other.mismatch "a sequence")

def rows {κ α : Type} (key : String → Except Fault κ) (d : Decoder α) (ctx : Context) :
    List (Option String × Outline) → Except Fault (List (κ × α))
  | [] => .ok []
  | (none, _) :: _ => .error (.text .malformed)
  | (some k, x) :: xs => do return (← key k, ← d ctx x) :: (← rows key d ctx xs)

/-- An object whose keys are read too. -/
def map {κ α : Type} (key : String → Except Fault κ) (d : Decoder α) : Decoder (List (κ × α))
  | ctx, .object members stop => do
    let inner ← ctx.enter
    let values ← rows key d inner members
    Outline.stopFault stop
    return values
  | _, other => .error (other.mismatch "a map")

def named {α : Type} (variants : List (String × α)) (name : String) : Except Fault α :=
  match variants.lookup name with
  | some value => .ok value
  | none => .error (.data (.unknownVariant name (variants.map (·.1))))

/-- A named value is a string, or an object whose only member has that name and is `null`. In
memory every other value is a mismatch; in a text it is as if the text were no JSON. -/
def variant {α : Type} (variants : List (String × α)) : Decoder α
  | _, .string (some name) => named variants name
  | ctx, .object members stop => do
    let inner ← ctx.enter
    match ctx.origin, members with
    | .buffer, [(some name, content)] => do
      let value ← named variants name
      unit inner content
      return value
    | .buffer, _ => .error (.data (.invalidValue .map "map with a single key"))
    | _, [] => do Outline.stopFault stop; .error (.text .malformed)
    | _, (none, _) :: _ => .error (.text .malformed)
    | _, (some name, content) :: rest => do
      let value ← named variants name
      unit inner content
      if rest.isEmpty then
        Outline.stopFault stop
        return value
      else .error (.text .malformed)
  | ctx, other =>
    match ctx.origin, other with
    | .buffer, _ => .error (other.mismatch "string or map")
    | _, .broken b => .error (.text b.read)
    | _, _ => .error (.text .malformed)

/-- Decode a text. Whatever follows the value is refused after the value itself was accepted. -/
def decodeText {α : Type} (d : Decoder α) (s : String) : Except Fault α := do
  let (outline, trailing) := Outline.ofText s
  let value ← d {} outline
  if trailing then .error (.text .malformed) else return value

def decodeJson {α : Type} (d : Decoder α) (value : Json) : Except Fault α :=
  d { origin := .buffer } (.ofJson value)

end Decoder

end Crew.Json
