import Crew.Json.Outline

/-!
# Tables of TOML documents

The tables of a document are opened by headers and filled by keys. A header may open a table only
once, and only if it was not filled by dotted keys; dotted keys may fill only the tables that they
have made themselves.
-/

namespace Crew.Toml

open Json (Outline)

/-- A table is `implicit` as long as no header has opened it, and `dotted` if it was made by a
dotted key. -/
inductive Node where
  | leaf (value : Outline)
  | tables (items : List Node)
  | table (implicit dotted : Bool) (rows : List (String × Node))
  deriving Inhabited

namespace Node

def setRow (key : String) (value : Node) : List (String × Node) → List (String × Node)
  | [] => [(key, value)]
  | (k, v) :: rest => if k = key then (key, value) :: rest else (k, v) :: setRow key value rest

def onLast (f : Node → Option Node) : List Node → Option (List Node)
  | [] => none
  | [x] => (f x).map fun y => [y]
  | x :: y :: rest => (onLast f (y :: rest)).map (x :: ·)

/-- Change the table at the end of a path, and make the tables on the way that are not there yet.
Dotted keys do not lead through tables with a header; of an array of tables the last one counts. -/
def descend (dotted : Bool) (f : Node → Option Node) : List String → Node → Option Node
  | [], node => f node
  | key :: path, .table implicit ownDotted rows => do
    let child ← match rows.lookup key with
      | none => descend dotted f path (.table true dotted [])
      | some (.leaf _) => none
      | some (.tables items) => (onLast (descend dotted f path) items).map .tables
      | some (.table childImplicit childDotted childRows) =>
        if dotted && !childImplicit then none
        else descend dotted f path (.table childImplicit childDotted childRows)
    return .table implicit ownDotted (setRow key child rows)
  | _ :: _, _ => none

def addRow (dotted : Bool) (key : String) (value : Node) : Node → Option Node
  | .table implicit ownDotted rows =>
    if ownDotted ≠ dotted ∨ (rows.lookup key).isSome then none
    else some (.table implicit ownDotted (rows ++ [(key, value)]))
  | _ => none

def assign (path : List String) (value : Outline) (table : Node) : Option Node :=
  match path.getLast? with
  | none => none
  | some key => descend true (addRow (path.length ≠ 1) key (.leaf value)) path.dropLast table

def assignAll (rows : List (List String × Outline)) (table : Node) : Option Node :=
  rows.foldlM (fun table row => assign row.1 row.2 table) table

def opened : Node := .table false false []

def openTable (key : String) (rows : List (List String × Outline)) : Node → Option Node
  | .table implicit dotted siblings => do
    let start ← match siblings.lookup key with
      | none => some opened
      | some (.table true false own) => some (.table false false own)
      | some _ => none
    return .table implicit dotted (setRow key (← assignAll rows start) siblings)
  | _ => none

def openItem (key : String) (rows : List (List String × Outline)) : Node → Option Node
  | .table implicit dotted siblings => do
    let items ← match siblings.lookup key with
      | none => some []
      | some (.tables items) => some items
      | some _ => none
    let item ← assignAll rows opened
    return .table implicit dotted (setRow key (.tables (items ++ [item])) siblings)
  | _ => none

mutual
def outline : Node → Outline
  | .leaf value => value
  | .tables items => .array (outlines items) none
  | .table _ _ rows => .object (outlineRows rows) none
def outlines : List Node → List Outline
  | [] => []
  | x :: xs => outline x :: outlines xs
def outlineRows : List (String × Node) → List (Option String × Outline)
  | [] => []
  | (k, x) :: xs => (some k, outline x) :: outlineRows xs
end

end Node

end Crew.Toml
