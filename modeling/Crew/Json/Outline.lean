import Crew.Json.Fault

/-!
# Outlines of JSON texts

The outline of a text is its value as far as the text is JSON, with a break where it stops being
so. Whoever reads an outline in the order of the text meets the break exactly when reading the
text itself would fail, and a mismatch before that is met first.

A few texts are refused when they are read and accepted when they are skipped: numerals too large
for a double and escapes of lone surrogates. An outline holds neither's value. Where a text fails,
reading and skipping can also see different failures, so that a break has a category for each.
-/

namespace Crew.Json

structure Break where
  read : Category
  skip : Category
  deriving DecidableEq, Repr

namespace Break

def ended : Break := ⟨.ended, .ended⟩

def malformed : Break := ⟨.malformed, .malformed⟩

def openNumeral : Break := ⟨.ended, .malformed⟩

end Break

/-- A number that is too large has no value, a string with a lone surrogate neither. `stop` is the
break that stands in place of a container's end. -/
inductive Outline where
  | null
  | bool (b : Bool)
  | number (value : Option Number)
  | string (value : Option String)
  | array (items : List Outline) (stop : Option Break)
  | object (members : List (Option String × Outline)) (stop : Option Break)
  | broken (b : Break)
  deriving Repr, Inhabited

namespace Outline

/-! ## Strings -/

def isSpace (c : Char) : Bool := c = ' ' || c = '\t' || c = '\n' || c = '\r'

def skipSpaces (cs : List Char) : List Char := cs.dropWhile isSpace

def hexValue? (c : Char) : Option Nat :=
  if '0' ≤ c ∧ c ≤ '9' then some (c.toNat - 48)
  else if 'a' ≤ c ∧ c ≤ 'f' then some (c.toNat - 87)
  else if 'A' ≤ c ∧ c ≤ 'F' then some (c.toNat - 55)
  else none

/-- Four hexadecimal digits. With fewer than four bytes left the text has ended. -/
def readUnit (cs : List Char) : Except Category (Nat × List Char) :=
  match cs.take 4 |>.mapM hexValue? with
  | some [a, b, c, d] => .ok (((a * 16 + b) * 16 + c) * 16 + d, cs.drop 4)
  | _ =>
    if (cs.take 4).foldl (fun size c => size + c.utf8Size) 0 < 4 then .error .ended
    else .error .malformed

def escaped? (c : Char) : Option Char :=
  if c = '"' then some '"'
  else if c = '\\' then some '\\'
  else if c = '/' then some '/'
  else if c = 'b' then some '\x08'
  else if c = 'f' then some '\x0c'
  else if c = 'n' then some '\n'
  else if c = 'r' then some '\r'
  else if c = 't' then some '\t'
  else none

/-- The characters of a string up to its closing quote. `done` holds those read so far, the last
one first; `sound` is false once a lone surrogate was met. -/
def readString : Nat → (done : List Char) → (sound : Bool) → List Char →
    Except Break (Option String × List Char)
  | 0, _, _, _ => .error .ended
  | fuel + 1, done, sound, cs =>
    let fail (c : Category) : Except Break (Option String × List Char) :=
      .error ⟨if sound then c else .malformed, c⟩
    match cs with
    | [] => fail .ended
    | '"' :: rest => .ok (if sound then some (String.ofList done.reverse) else none, rest)
    | '\\' :: 'u' :: rest =>
      match readUnit rest with
      | .error c => fail c
      | .ok (unit, rest) =>
        if 0xDC00 ≤ unit ∧ unit < 0xE000 then readString fuel done false rest
        else if 0xD800 ≤ unit ∧ unit < 0xDC00 then
          match rest with
          | [] => fail .ended
          | ['\\'] => fail .ended
          | '\\' :: 'u' :: more =>
            match readUnit more with
            | .error c => fail c
            | .ok (low, more) =>
              if 0xDC00 ≤ low ∧ low < 0xE000 then
                let c := Char.ofNat (0x10000 + (unit - 0xD800) * 0x400 + (low - 0xDC00))
                readString fuel (c :: done) sound more
              else readString fuel done false rest
          | _ => readString fuel done false rest
        else readString fuel (Char.ofNat unit :: done) sound rest
    | ['\\'] => fail .ended
    | '\\' :: c :: rest =>
      match escaped? c with
      | some e => readString fuel (e :: done) sound rest
      | none => fail .malformed
    | c :: rest => if c.toNat < 0x20 then fail .malformed else readString fuel (c :: done) sound rest

/-! ## Numerals -/

def digit? (c : Char) : Option Nat := if c.isDigit then some (c.toNat - 48) else none

def readDigits (cs : List Char) : List Nat × List Char :=
  ((cs.takeWhile Char.isDigit).filterMap digit?, cs.dropWhile Char.isDigit)

def readSomeDigits (cs : List Char) : Except Break (List Nat × List Char) :=
  match cs, readDigits cs with
  | [], _ => .error .openNumeral
  | _, ([], _) => .error .malformed
  | _, result => .ok result

def readFraction (cs : List Char) : Except Break (Option (List Nat) × List Char) :=
  match cs with
  | '.' :: rest => (readSomeDigits rest).map fun (digits, rest) => (some digits, rest)
  | _ => .ok (none, cs)

def ofDigits (digits : List Nat) : Nat := digits.foldl (fun n d => n * 10 + d) 0

def readExponent (cs : List Char) : Except Break (Option Int × List Char) :=
  let signed (negative : Bool) (rest : List Char) : Except Break (Option Int × List Char) :=
    (readSomeDigits rest).map fun (digits, rest) =>
      (some (if negative then -(ofDigits digits : Int) else ofDigits digits), rest)
  match cs with
  | e :: rest =>
    if e = 'e' ∨ e = 'E' then
      match rest with
      | '+' :: rest => signed false rest
      | '-' :: rest => signed true rest
      | _ => signed false rest
    else .ok (none, cs)
  | [] => .ok (none, cs)

/-- A numeral after its sign. A leading zero stands alone. -/
def readNumeral (negative : Bool) (cs : List Char) : Except Break (Numeral × List Char) := do
  let (whole, rest) ← readSomeDigits cs
  match whole with
  | 0 :: _ :: _ => .error .malformed
  | _ =>
    let (fraction, rest) ← readFraction rest
    let (exponent, rest) ← readExponent rest
    return ({ negative, whole, fraction, exponent }, rest)

/-! ## Values -/

def readWord : (expected : List Char) → List Char → Except Break (List Char)
  | [], cs => .ok cs
  | _ :: _, [] => .error .ended
  | e :: es, c :: cs => if c = e then readWord es cs else .error .malformed

def ofWord (word : List Char) (value : Outline) (cs : List Char) :
    Outline × Option (List Char) :=
  match readWord word cs with
  | .ok rest => (value, some rest)
  | .error b => (.broken b, none)

def ofNumeral (negative : Bool) (cs : List Char) : Outline × Option (List Char) :=
  match readNumeral negative cs with
  | .ok (numeral, rest) => (.number numeral.value?, some rest)
  | .error b => (.broken b, none)

mutual
/-- The value at the front of a text and what follows it; nothing follows a break. -/
def read : Nat → List Char → Outline × Option (List Char)
  | 0, _ => (.broken .ended, none)
  | fuel + 1, cs =>
    match skipSpaces cs with
    | [] => (.broken .ended, none)
    | c :: rest =>
      if c = 'n' then ofWord ['u', 'l', 'l'] .null rest
      else if c = 't' then ofWord ['r', 'u', 'e'] (.bool true) rest
      else if c = 'f' then ofWord ['a', 'l', 's', 'e'] (.bool false) rest
      else if c = '"' then
        match readString (rest.length + 1) [] true rest with
        | .ok (value, rest) => (.string value, some rest)
        | .error b => (.broken b, none)
      else if c = '[' then
        match skipSpaces rest with
        | [] => (.array [] (some .ended), none)
        | d :: more =>
          if d = ']' then (.array [] none, some more)
          else
            let (items, stop, rest) := readItems fuel (d :: more)
            (.array items stop, rest)
      else if c = '\x7b' then
        match skipSpaces rest with
        | [] => (.object [] (some .ended), none)
        | d :: more =>
          if d = '\x7d' then (.object [] none, some more)
          else
            let (members, stop, rest) := readMembers fuel (d :: more)
            (.object members stop, rest)
      else if c = '-' then ofNumeral true rest
      else if c.isDigit then ofNumeral false (c :: rest)
      else (.broken .malformed, none)
def readItems : Nat → List Char → List Outline × Option Break × Option (List Char)
  | 0, _ => ([], some .ended, none)
  | fuel + 1, cs =>
    match read fuel cs with
    | (item, none) => ([item], none, none)
    | (item, some rest) =>
      match skipSpaces rest with
      | [] => ([item], some .ended, none)
      | d :: more =>
        if d = ']' then ([item], none, some more)
        else if d = ',' then
          let (items, stop, rest) := readItems fuel more
          (item :: items, stop, rest)
        else ([item], some .malformed, none)
def readMembers : Nat → List Char →
    List (Option String × Outline) × Option Break × Option (List Char)
  | 0, _ => ([], some .ended, none)
  | fuel + 1, cs =>
    match skipSpaces cs with
    | [] => ([], some .ended, none)
    | c :: rest =>
      if c ≠ '"' then ([], some .malformed, none)
      else
        match readString (rest.length + 1) [] true rest with
        | .error b => ([], some b, none)
        | .ok (key, rest) =>
          match skipSpaces rest with
          | [] => ([(key, .broken .ended)], none, none)
          | d :: rest =>
            if d ≠ ':' then ([(key, .broken .malformed)], none, none)
            else
              match read fuel rest with
              | (value, none) => ([(key, value)], none, none)
              | (value, some rest) =>
                match skipSpaces rest with
                | [] => ([(key, value)], some .ended, none)
                | d :: more =>
                  if d = '\x7d' then ([(key, value)], none, some more)
                  else if d = ',' then
                    let (members, stop, rest) := readMembers fuel more
                    ((key, value) :: members, stop, rest)
                  else ([(key, value)], some .malformed, none)
end

/-- The outline of a text, and whether more than blanks follows the value. -/
def ofText (s : String) : Outline × Bool :=
  let cs := s.toList
  match read (2 * cs.length + 2) cs with
  | (outline, none) => (outline, false)
  | (outline, some rest) => (outline, !(skipSpaces rest).isEmpty)

end Outline

end Crew.Json
