import Crew.Text.Blank
import Crew.Time.Calendar

/-!
# Timestamps

An instant in universal time, as it stands in written events and results. The reader is lenient:
parts may be short of digits and have blanks between them, and an offset may do without its colon.
The writer has one form, with as many digits behind the second as there are, in steps of three.
-/

namespace Crew

/-- The second 60 is a leap second. `minute` counts from the beginning of 1970. -/
structure Stamp where
  minute : Int
  second : Nat
  nano : Nat := 0
  deriving DecidableEq, Repr, Inhabited

inductive StampError where
  | tooShort
  | invalid
  | outOfRange
  | trailing
  | impossible
  deriving DecidableEq, Repr

def StampError.message : StampError → String
  | .tooShort => "premature end of input"
  | .invalid => "input contains invalid characters"
  | .outOfRange => "input is out of range"
  | .trailing => "trailing input"
  | .impossible => "no possible date and time matching input"

namespace Stamp

/-! ## Writing -/

def digitChar (n : Nat) : Char := Char.ofNat (48 + n % 10)

def padded (width n : Nat) : String :=
  String.ofList ((List.range width).reverse.map fun i => digitChar (n / Nat.pow 10 i))

/-- A year of four digits stands alone, every other one behind its sign. -/
def writeYear (year : Int) : String :=
  let digits := if year.natAbs < 10000 then padded 4 year.natAbs else toString year.natAbs
  if 0 ≤ year ∧ year ≤ 9999 then digits
  else (if year < 0 then "-" else "+") ++ digits

def writeFraction (nano : Nat) : String :=
  if nano = 0 then ""
  else if nano % 1000000 = 0 then "." ++ padded 3 (nano / 1000000)
  else if nano % 1000 = 0 then "." ++ padded 6 (nano / 1000)
  else "." ++ padded 9 nano

def render (t : Stamp) : String :=
  let date := Date.ofNumber (t.minute / 1440)
  let minute := (t.minute % 1440).toNat
  writeYear date.year ++ "-" ++ padded 2 date.month ++ "-" ++ padded 2 date.day ++ "T" ++
    padded 2 (minute / 60) ++ ":" ++ padded 2 (minute % 60) ++ ":" ++ padded 2 t.second ++
    writeFraction t.nano ++ "Z"

/-! ## Reading -/

def dropBlanks (cs : List Char) : List Char := cs.dropWhile Text.isBlank

def valueOf (digits : List Char) : Nat := digits.foldl (fun n d => n * 10 + (d.toNat - 48)) 0

def readDigits (width : Nat) (cs : List Char) : Except StampError (Nat × Nat × List Char) :=
  match cs, (cs.take width).takeWhile Char.isDigit with
  | [], _ => .error .tooShort
  | _, [] => .error .invalid
  | _, digits => .ok (valueOf digits, digits.length, cs.drop digits.length)

/-- A number from `least` to `most`, of two digits at most, behind blanks. -/
def readPart (least most : Nat) (cs : List Char) : Except StampError (Nat × List Char) := do
  let (n, _, rest) ← readDigits 2 (dropBlanks cs)
  if least ≤ n ∧ n ≤ most then return (n, rest) else .error .outOfRange

def inRange (year : Int) : Bool := -262143 ≤ year && year ≤ 262142

def readYear (cs : List Char) : Except StampError (Int × List Char) :=
  let signed (negative : Bool) (cs : List Char) : Except StampError (Int × List Char) := do
    let (n, _, rest) ← readDigits cs.length cs
    let year : Int := if negative then -n else n
    if -(Nat.pow 2 31 : Int) ≤ year ∧ year < Nat.pow 2 31 then return (year, rest)
    else .error .outOfRange
  match dropBlanks cs with
  | '-' :: rest => signed true rest
  | '+' :: rest => signed false rest
  | cs => do
    let (n, _, rest) ← readDigits 4 cs
    return ((n : Int), rest)

def expect (c : Char) (cs : List Char) : Except StampError (List Char) :=
  match dropBlanks cs with
  | [] => .error .tooShort
  | d :: rest => if d = c then .ok rest else .error .invalid

/-- Digits behind the second; those after the ninth do not count. -/
def readFraction (cs : List Char) : Except StampError (Nat × List Char) :=
  match cs with
  | '.' :: rest => do
    let (n, width, rest) ← readDigits 9 rest
    return (n * Nat.pow 10 (9 - width), rest.dropWhile Char.isDigit)
  | _ => .ok (0, cs)

def readPair (cs : List Char) : Except StampError (Nat × List Char) :=
  match cs with
  | [] => .error .tooShort
  | [c] => if c.utf8Size < 2 then .error .tooShort else .error .invalid
  | c :: d :: rest =>
    if c.isDigit ∧ d.isDigit then .ok (valueOf [c, d], rest) else .error .invalid

def readOffset (cs : List Char) : Except StampError (Int × List Char) :=
  let distance (negative : Bool) (cs : List Char) : Except StampError (Int × List Char) := do
    let (hours, cs) ← readPair cs
    let (minutes, rest) ← readPair (cs.dropWhile fun c => c = ':' || Text.isBlank c)
    if 60 ≤ minutes then .error .outOfRange
    else
      let offset : Int := hours * 60 + minutes
      return (if negative then -offset else offset, rest)
  match cs with
  | [] => .error .tooShort
  | c :: rest =>
    if c = 'Z' ∨ c = 'z' then .ok (0, rest)
    else if (cs.take 3).map Char.toUpper = ['U', 'T', 'C'] then .ok (0, cs.drop 3)
    else if c = '+' then distance false rest
    else if c = '-' ∨ c = '−' then distance true rest
    else .error .invalid

def ofParts (date : Date) (hour minute second nano : Nat) (offset : Int) :
    Except StampError Stamp :=
  if !inRange date.year || !date.isValid then .error .outOfRange
  else if 1440 ≤ offset.natAbs then .error .outOfRange
  else
    let atPlace := date.toNumber * 1440 + hour * 60 + minute
    let utc := atPlace - offset
    if inRange (Date.ofNumber (utc / 1440)).year then .ok ⟨utc, second, nano⟩
    else .error .impossible

def ofString (s : String) : Except StampError Stamp := do
  let (year, cs) ← readYear s.toList
  let (month, cs) ← readPart 1 12 (← expect '-' cs)
  let (day, cs) ← readPart 1 31 (← expect '-' cs)
  let cs ← match cs with
    | [] => .error .tooShort
    | c :: rest => if c = 'T' ∨ c = 't' ∨ c = ' ' then .ok rest else .error .invalid
  let (hour, cs) ← readPart 0 23 cs
  let (minute, cs) ← readPart 0 59 (← expect ':' cs)
  let (second, cs) ← readPart 0 60 (← expect ':' cs)
  let (nano, cs) ← readFraction cs
  let (offset, cs) ← readOffset (dropBlanks cs)
  if (dropBlanks cs).isEmpty then ofParts ⟨year, month, day⟩ hour minute second nano offset
  else .error .trailing

end Stamp

end Crew
