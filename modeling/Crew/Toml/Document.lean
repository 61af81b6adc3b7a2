import Crew.Toml.Node
import Crew.Toml.Scalar

/-!
# TOML documents

A document is read as the outline that a JSON text with the same tables, arrays and scalars has. A
moment becomes an object without members, which no setting takes for a value of its own.
-/

namespace Crew.Toml

open Json (Outline)

def moment : Outline := .object [] none

def readScalar (cs : List Char) : Option (Outline × List Char) :=
  match cs with
  | 't' :: 'r' :: 'u' :: 'e' :: rest => some (.bool true, rest)
  | 'f' :: 'a' :: 'l' :: 's' :: 'e' :: rest => some (.bool false, rest)
  | _ =>
    match readMoment cs with
    | some rest => some (moment, rest)
    | none => (readNumber cs).map fun (n, rest) => (.number (some n), rest)

mutual
/-- A value; arrays and inline tables may still be nested so deep. -/
def readValue : Nat → (depth : Nat) → List Char → Option (Outline × List Char)
  | 0, _, _ => none
  | _ + 1, _, [] => none
  | fuel + 1, depth, c :: rest =>
    if c = '"' ∨ c = '\'' then
      (readString (c :: rest)).map fun (s, rest) => (.string (some s), rest)
    else if c = '[' then
      match depth with
      | 0 => none
      | depth + 1 => (readItems fuel depth rest).map fun (xs, rest) => (.array xs none, rest)
    else if c = '\x7b' then
      match depth with
      | 0 => none
      | depth + 1 => do
        let (rows, rest) ← readRows fuel depth true rest
        let table ← Node.assignAll rows .opened
        return (table.outline, rest)
    else readScalar (c :: rest)
/-- The items of an array up to its end; they may stand on several lines. -/
def readItems : Nat → (depth : Nat) → List Char → Option (List Outline × List Char)
  | 0, _, _ => none
  | fuel + 1, depth, cs =>
    match skipLines (cs.length + 1) cs with
    | ']' :: rest => some ([], rest)
    | cs => do
      let (x, rest) ← readValue fuel depth cs
      match skipLines (rest.length + 1) rest with
      | ']' :: rest => return ([x], rest)
      | ',' :: rest =>
        let (xs, rest) ← readItems fuel depth rest
        return (x :: xs, rest)
      | _ => none
/-- The rows of an inline table up to its end, all on one line. Only the first one may be missing. -/
def readRows : Nat → (depth : Nat) → (first : Bool) → List Char →
    Option (List (List String × Outline) × List Char)
  | 0, _, _, _ => none
  | fuel + 1, depth, first, cs =>
    match skipSpaces cs, first with
    | '\x7d' :: rest, true => some ([], rest)
    | cs, _ => do
      let (key, rest) ← readKey cs
      let (x, rest) ← readValue fuel depth (skipSpaces (← expect '=' rest))
      match skipSpaces rest with
      | '\x7d' :: rest => return ([(key, x)], rest)
      | ',' :: rest =>
        let (rows, rest) ← readRows fuel depth false rest
        return ((key, x) :: rows, rest)
      | _ => none
end

inductive Header where
  | table (path : List String)
  | item (path : List String)
  deriving DecidableEq, Repr

inductive Statement where
  | header (h : Header)
  | assign (path : List String) (value : Outline)

def readHeader (cs : List Char) : Option (Header × List Char) :=
  match cs with
  | '[' :: rest => do
    let (path, rest) ← readKey rest
    return (.item path, ← expect ']' (← expect ']' rest))
  | _ => do
    let (path, rest) ← readKey cs
    return (.table path, ← expect ']' rest)

def readStatements : Nat → List Char → Option (List Statement)
  | 0, _ => none
  | fuel + 1, cs =>
    match skipLines (cs.length + 1) cs with
    | [] => some []
    | '#' :: rest => if (rest.dropWhile isPlain).isEmpty then some [] else none
    | '[' :: rest => do
      let (h, rest) ← readHeader rest
      return .header h :: (← readStatements fuel (← endLine? rest))
    | cs => do
      let (path, rest) ← readKey cs
      let rest := skipSpaces (← expect '=' rest)
      let (x, rest) ← readValue (2 * rest.length + 2) (depthLimit - 1) rest
      return .assign path x :: (← readStatements fuel (← endLine? rest))

def takeAssignments : List Statement → List (List String × Outline) × List Statement
  | .assign path x :: rest =>
    let (rows, rest) := takeAssignments rest
    ((path, x) :: rows, rest)
  | rest => ([], rest)

def fill : Nat → List Statement → Node → Option Node
  | 0, _, _ => none
  | fuel + 1, statements, root =>
    match statements with
    | [] => some root
    | .assign .. :: _ => do
      let (rows, rest) := takeAssignments statements
      fill fuel rest (← Node.assignAll rows root)
    | .header h :: rest => do
      let (rows, rest) := takeAssignments rest
      let root ← match h with
        | .table path => do
          Node.descend false (Node.openTable (← path.getLast?) rows) path.dropLast root
        | .item path => do
          Node.descend false (Node.openItem (← path.getLast?) rows) path.dropLast root
      fill fuel rest root

def dropMark : List Char → List Char
  | '\uFEFF' :: rest => rest
  | cs => cs

def outline? (text : String) : Option Outline := do
  let cs := dropMark text.toList
  let statements ← readStatements (cs.length + 1) cs
  let root ← fill (statements.length + 1) statements .opened
  return root.outline

end Crew.Toml
