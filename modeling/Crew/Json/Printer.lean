import Crew.Json.Value

/-!
# JSON texts

The compact text of a value has no blanks. The pretty text puts each item and member on a line of
its own, two spaces deeper than its container; an empty container stays on one line. Quotes,
backslashes and the characters below U+0020 are escaped, all others stand for themselves.
-/

namespace Crew.Json

def hexDigit (n : Nat) : Char :=
  if n < 10 then Char.ofNat (n + 48) else Char.ofNat (n + 87)

def escapeChar (c : Char) : List Char :=
  if c = '"' then ['\\', '"']
  else if c = '\\' then ['\\', '\\']
  else if c = '\x08' then ['\\', 'b']
  else if c = '\x0c' then ['\\', 'f']
  else if c = '\n' then ['\\', 'n']
  else if c = '\r' then ['\\', 'r']
  else if c = '\t' then ['\\', 't']
  else if c.toNat < 0x20 then
    ['\\', 'u', '0', '0', hexDigit (c.toNat / 16), hexDigit (c.toNat % 16)]
  else [c]

def quote (s : String) : String :=
  "\"" ++ String.ofList (s.toList.flatMap escapeChar) ++ "\""

mutual
def compact : Json → String
  | .null => "null"
  | .bool b => if b then "true" else "false"
  | .number n => n.render
  | .string s => quote s
  | .array items => "[" ++ compactItems items ++ "]"
  | .object members => "\x7b" ++ compactMembers members ++ "\x7d"
def compactItems : List Json → String
  | [] => ""
  | [x] => compact x
  | x :: y :: rest => compact x ++ "," ++ compactItems (y :: rest)
def compactMembers : List (String × Json) → String
  | [] => ""
  | [(k, x)] => quote k ++ ":" ++ compact x
  | (k, x) :: m :: rest => quote k ++ ":" ++ compact x ++ "," ++ compactMembers (m :: rest)
end

def newline (depth : Nat) : String :=
  "\n" ++ String.ofList (List.replicate (2 * depth) ' ')

mutual
def prettyAt (depth : Nat) : Json → String
  | .null => "null"
  | .bool b => if b then "true" else "false"
  | .number n => n.render
  | .string s => quote s
  | .array [] => "[]"
  | .array (x :: rest) =>
    "[" ++ prettyItems (depth + 1) (x :: rest) ++ newline depth ++ "]"
  | .object [] => "\x7b\x7d"
  | .object (m :: rest) =>
    "\x7b" ++ prettyMembers (depth + 1) (m :: rest) ++ newline depth ++ "\x7d"
def prettyItems (depth : Nat) : List Json → String
  | [] => ""
  | [x] => newline depth ++ prettyAt depth x
  | x :: y :: rest =>
    newline depth ++ prettyAt depth x ++ "," ++ prettyItems depth (y :: rest)
def prettyMembers (depth : Nat) : List (String × Json) → String
  | [] => ""
  | [(k, x)] => newline depth ++ quote k ++ ": " ++ prettyAt depth x
  | (k, x) :: m :: rest =>
    newline depth ++ quote k ++ ": " ++ prettyAt depth x ++ "," ++ prettyMembers depth (m :: rest)
end

def pretty (value : Json) : String := prettyAt 0 value

end Crew.Json
