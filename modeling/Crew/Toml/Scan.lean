import Crew.Json.Outline

/-!
# Words of TOML

Blanks, comments, strings and keys. A reader takes what it reads from the front of a text; it fails
without saying why, since a bad text is refused as a whole.
-/

namespace Crew.Toml

abbrev Reader (α : Type) := List Char → Option (α × List Char)

def isSpace (c : Char) : Bool := c = ' ' || c = '\t'

def skipSpaces (cs : List Char) : List Char := cs.dropWhile isSpace

/-- The characters that stand for themselves: no control characters but the tab. -/
def isPlain (c : Char) : Bool :=
  c = '\t' || (0x20 ≤ c.toNat && c.toNat ≤ 0x7E) || 0x80 ≤ c.toNat

def newline? : List Char → Option (List Char)
  | '\n' :: rest => some rest
  | '\r' :: '\n' :: rest => some rest
  | _ => none

def skipComment : List Char → List Char
  | '#' :: rest => rest.dropWhile isPlain
  | cs => cs

def endLine? (cs : List Char) : Option (List Char) :=
  match skipComment (skipSpaces cs) with
  | [] => some []
  | rest => newline? rest

def skipLines : Nat → List Char → List Char
  | 0, cs => cs
  | fuel + 1, cs =>
    let cs := skipSpaces cs
    match newline? (skipComment cs) with
    | some rest => skipLines fuel rest
    | none => cs

/-! ## Strings -/

/-- The character of a code point; surrogates have none. -/
def char? (n : Nat) : Option Char := if n.isValidChar then some (Char.ofNat n) else none

def readCodePoint (width : Nat) : Reader Char := fun cs => do
  let digits ← (cs.take width).mapM Json.Outline.hexValue?
  if digits.length < width then none
  else
    let c ← char? (digits.foldl (fun n d => n * 16 + d) 0)
    return (c, cs.drop width)

def readEscape : Reader Char := fun cs =>
  match cs with
  | [] => none
  | c :: rest =>
    if c = 'u' then readCodePoint 4 rest
    else if c = 'U' then readCodePoint 8 rest
    else if c = '/' then none
    else (Json.Outline.escaped? c).map fun e => (e, rest)

/-- A string on one line up to its closing quote; `done` holds what was read, the last first. -/
def readBasic : Nat → List Char → Reader String
  | 0, _, _ => none
  | fuel + 1, done, cs =>
    match cs with
    | [] => none
    | c :: rest =>
      if c = '"' then some (String.ofList done.reverse, rest)
      else if c = '\\' then do
        let (e, rest) ← readEscape rest
        readBasic fuel (e :: done) rest
      else if isPlain c then readBasic fuel (c :: done) rest
      else none

def readLiteral : List Char → Reader String
  | _, [] => none
  | done, c :: rest =>
    if c = '\'' then some (String.ofList done.reverse, rest)
    else if isPlain c then readLiteral (c :: done) rest
    else none

def skipBlankLines : Nat → List Char → List Char
  | 0, cs => cs
  | fuel + 1, cs =>
    let cs := skipSpaces cs
    match newline? cs with
    | some rest => skipBlankLines fuel rest
    | none => cs

/-- A backslash at the end of a line hides it and the blanks and lines that follow. -/
def hideLines? (cs : List Char) : Option (List Char) :=
  (newline? (skipSpaces cs)).map fun rest => skipBlankLines (rest.length + 1) rest

/-- A string on several lines. Up to two quotes stand for themselves, also before the closing
ones; every end of a line is a single line feed. -/
def readBlock (quote : Char) (escapes : Bool) : Nat → List Char → Reader String
  | 0, _, _ => none
  | fuel + 1, done, cs =>
    match cs with
    | [] => none
    | c :: rest =>
      if c = quote then
        let count := (cs.takeWhile (· = quote)).length
        if 3 ≤ count then
          let kept := min (count - 3) 2
          some (String.ofList (List.replicate kept quote ++ done).reverse, cs.drop (kept + 3))
        else readBlock quote escapes fuel (quote :: done) rest
      else if c = '\\' ∧ escapes then
        match hideLines? rest with
        | some rest => readBlock quote escapes fuel done rest
        | none => do
          let (e, rest) ← readEscape rest
          readBlock quote escapes fuel (e :: done) rest
      else
        match newline? cs with
        | some rest => readBlock quote escapes fuel ('\n' :: done) rest
        | none => if isPlain c then readBlock quote escapes fuel (c :: done) rest else none

/-- A block begins on the line after its opening quotes, if these end theirs. -/
def dropFirstNewline (cs : List Char) : List Char := (newline? cs).getD cs

def readString : Reader String
  | '"' :: '"' :: '"' :: rest => readBlock '"' true (rest.length + 1) [] (dropFirstNewline rest)
  | '"' :: rest => readBasic (rest.length + 1) [] rest
  | '\'' :: '\'' :: '\'' :: rest =>
    readBlock '\'' false (rest.length + 1) [] (dropFirstNewline rest)
  | '\'' :: rest => readLiteral [] rest
  | _ => none

/-! ## Keys -/

def isBare (c : Char) : Bool := c.isAlphanum || c = '_' || c = '-'

def readKeyPart : Reader String
  | [] => none
  | c :: rest =>
    if c = '"' then readBasic (rest.length + 1) [] rest
    else if c = '\'' then readLiteral [] rest
    else
      let name := (c :: rest).takeWhile isBare
      if name.isEmpty then none
      else some (String.ofList name, (c :: rest).dropWhile isBare)

def readKeyParts : Nat → Reader (List String)
  | 0, _ => none
  | fuel + 1, cs => do
    let (part, rest) ← readKeyPart (skipSpaces cs)
    match skipSpaces rest with
    | '.' :: rest =>
      let (parts, rest) ← readKeyParts fuel rest
      return (part :: parts, rest)
    | rest => return ([part], rest)

def depthLimit : Nat := 80

def readKey : Reader (List String) := fun cs => readKeyParts (depthLimit - 1) cs

end Crew.Toml
