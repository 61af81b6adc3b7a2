import Crew.Time.Calendar
import Crew.Toml.Scan

/-!
# Scalars of TOML

Numbers, booleans and moments. Digits may be grouped by single underscores. A double is the one
nearest to its numeral; a numeral beyond the doubles is refused if it is positive.
-/

namespace Crew.Toml

def readGroups (digit? : Char → Option Nat) : List Char → Option (List Nat × List Char)
  | [] => none
  | c :: rest => do
    let d ← digit? c
    match rest with
    | '_' :: more => (readGroups digit? more).map fun (ds, rest) => (d :: ds, rest)
    | [] => some ([d], [])
    | e :: more =>
      if (digit? e).isSome then (readGroups digit? (e :: more)).map fun (ds, rest) => (d :: ds, rest)
      else some ([d], e :: more)

def decimal? (c : Char) : Option Nat := Json.Outline.digit? c

def digitOf? (base : Nat) (c : Char) : Option Nat :=
  (Json.Outline.hexValue? c).filter (· < base)

def valueOf (base : Nat) (digits : List Nat) : Nat := digits.foldl (fun n d => n * base + d) 0

def isWord (n : Int) : Bool := -(Nat.pow 2 63 : Int) ≤ n && n < Nat.pow 2 63

def integer? (n : Int) : Option Number := if isWord n then some (.int n) else none

/-- A whole part: zero, or digits that do not begin with zero. -/
def readWhole : List Char → Option (List Nat × List Char)
  | '0' :: rest => some ([0], rest)
  | cs => readGroups decimal? cs

/-- The double nearest to `significand * 10 ^ exponent`. -/
def nearest (significand : Nat) (exponent : Int) : Float :=
  let size : Int := (Nat.toDigits 10 significand).length + exponent
  if significand = 0 ∨ size < -400 then 0.0
  else if 400 < size then 1.0 / 0.0
  else if exponent < 0 then Float.ofScientific significand true exponent.natAbs
  else Float.ofScientific significand false exponent.natAbs

def signed (negative : Bool) (x : Float) : Option Number :=
  if negative then some (.real (-x)) else if x.isInf then none else some (.real x)

def readExponent (cs : List Char) : Option (Int × List Char) := do
  let (negative, cs) := match cs with
    | '+' :: rest => (false, rest)
    | '-' :: rest => (true, rest)
    | _ => (false, cs)
  let (digits, rest) ← readGroups decimal? cs
  let n := valueOf 10 digits
  return (if negative then -(n : Int) else n, rest)

def readTail (cs : List Char) : Option (List Nat × Option Int × List Char) := do
  let (fraction, cs) ← match cs with
    | '.' :: rest => readGroups decimal? rest
    | _ => some ([], cs)
  match cs with
  | c :: rest =>
    if c = 'e' ∨ c = 'E' then
      let (exponent, rest) ← readExponent rest
      return (fraction, some exponent, rest)
    else return (fraction, none, cs)
  | [] => return (fraction, none, cs)

def readDecimal (negative : Bool) (cs : List Char) : Option (Number × List Char) := do
  let (whole, cs) ← readWhole cs
  let (fraction, exponent, rest) ← readTail cs
  match fraction, exponent with
  | [], none =>
    let n : Int := valueOf 10 whole
    let n ← integer? (if negative then -n else n)
    return (n, rest)
  | _, _ =>
    let shift := exponent.getD 0 - fraction.length
    let x ← signed negative (nearest (valueOf 10 (whole ++ fraction)) shift)
    return (x, rest)

def readBase (base : Nat) (cs : List Char) : Option (Number × List Char) := do
  let (digits, rest) ← readGroups (digitOf? base) cs
  let n ← integer? (valueOf base digits)
  return (n, rest)

/-- A decimal numeral or one of the words for infinity and for what is no number. -/
def readUnmarked (negative : Bool) : List Char → Option (Number × List Char)
  | 'i' :: 'n' :: 'f' :: rest =>
    some (.real (if negative then -(1.0 / 0.0) else 1.0 / 0.0), rest)
  | 'n' :: 'a' :: 'n' :: rest => some (.real (0.0 / 0.0), rest)
  | cs => readDecimal negative cs

def readNumber : List Char → Option (Number × List Char)
  | '+' :: rest => readUnmarked false rest
  | '-' :: rest => readUnmarked true rest
  | '0' :: 'x' :: rest => readBase 16 rest
  | '0' :: 'o' :: rest => readBase 8 rest
  | '0' :: 'b' :: rest => readBase 2 rest
  | cs => readUnmarked false cs

/-! ## Moments -/

def readFixed (width least most : Nat) (cs : List Char) : Option (Nat × List Char) := do
  let digits ← (cs.take width).mapM decimal?
  let n := valueOf 10 digits
  if digits.length = width ∧ least ≤ n ∧ n ≤ most then return (n, cs.drop width) else none

def expect (c : Char) : List Char → Option (List Char)
  | d :: rest => if d = c then some rest else none
  | [] => none

def readDate (cs : List Char) : Option (List Char) := do
  let (year, cs) ← readFixed 4 0 9999 cs
  let (month, cs) ← readFixed 2 1 12 (← expect '-' cs)
  let (day, cs) ← readFixed 2 1 31 (← expect '-' cs)
  if (Date.mk year month day).isValid then return cs else none

def readTime (cs : List Char) : Option (List Char) := do
  let (_, cs) ← readFixed 2 0 23 cs
  let (_, cs) ← readFixed 2 0 59 (← expect ':' cs)
  let (_, cs) ← readFixed 2 0 60 (← expect ':' cs)
  match cs with
  | '.' :: rest =>
    match rest.takeWhile Char.isDigit with
    | [] => none
    | _ => return rest.dropWhile Char.isDigit
  | _ => return cs

def readOffset (cs : List Char) : Option (List Char) :=
  match cs with
  | [] => some []
  | c :: rest =>
    if c = 'Z' ∨ c = 'z' then some rest
    else if c = '+' ∨ c = '-' then do
      let (_, cs) ← readFixed 2 0 23 rest
      let (_, cs) ← readFixed 2 0 59 (← expect ':' cs)
      return cs
    else some cs

/-- A date, a time of day, or both, with an offset or without. -/
def readMoment (cs : List Char) : Option (List Char) :=
  match readDate cs with
  | none => readTime cs
  | some rest =>
    match rest with
    | c :: more =>
      if c = 'T' ∨ c = 't' ∨ c = ' ' then
        match readTime more with
        | some rest => readOffset rest
        | none => some rest
      else some rest
    | [] => some rest

end Crew.Toml
