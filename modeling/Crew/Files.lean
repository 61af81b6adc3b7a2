/-!
# Files

What the program wants of a file system: the text of a file, and whether there is something at a
path. A `FileTree` is a file system in memory; its directories are those that its files lie in.
-/

namespace Crew

inductive FileError where
  | notFound
  | notDirectory
  | isDirectory
  | other (description : String)
  deriving DecidableEq, Repr

def FileError.message : FileError → String
  | .notFound => "No such file or directory (os error 2)"
  | .notDirectory => "Not a directory (os error 20)"
  | .isDirectory => "Is a directory (os error 21)"
  | .other description => description

structure FileSystem (m : Type → Type) where
  read : String → m (Except FileError String)
  holds : String → m Bool

structure FileTree where
  files : List (String × String)
  deriving DecidableEq, Repr

namespace FileTree

def splitPath (path : String) : List String := path.splitOn "/"

def names (path : String) : List String := (splitPath path).filter fun name => name ≠ "" && name ≠ "."

inductive Entry where
  | file (text : String)
  | directory
  deriving DecidableEq, Repr

def entry? (t : FileTree) (place : List String) : Option Entry :=
  match t.files.find? fun f => names f.1 = place with
  | some (_, text) => some (.file text)
  | none =>
    if place.isEmpty || t.files.any fun f => place.isPrefixOf (names f.1) then some .directory
    else none

/-- Go on from a directory. An empty name, as behind a last slash, stays there. -/
def walk (t : FileTree) (here : List String) : List String → Except FileError Entry
  | [] => match t.entry? here with
    | some e => .ok e
    | none => .error .notFound
  | name :: rest =>
    match t.entry? here with
    | none => .error .notFound
    | some (.file _) => .error .notDirectory
    | some .directory =>
      if name = "" ∨ name = "." then walk t here rest
      else if name = ".." then
        if here.isEmpty then .error .notFound else walk t here.dropLast rest
      else walk t (here ++ [name]) rest

/-- What a path leads to. Paths start at the directory of the tree. -/
def find (t : FileTree) (path : String) : Except FileError Entry :=
  match splitPath path with
  | [""] => .error .notFound
  | "" :: rest => if rest.all (· = "") then .ok .directory else .error .notFound
  | names => t.walk [] names

def read (t : FileTree) (path : String) : Except FileError String :=
  match t.find path with
  | .ok (.file text) => .ok text
  | .ok .directory => .error .isDirectory
  | .error e => .error e

def system (t : FileTree) : FileSystem Id where
  read path := t.read path
  holds path := (t.find path).isOk

end FileTree

end Crew
