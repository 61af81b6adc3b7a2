import Crew.Decimal.Shortest

/-!
# How numbers are laid out

A decimal is written positionally or with an exponent. Where the one ends and the other begins,
and whether a whole number keeps a point, is the choice of a layout; the two layouts of this
library are here.
-/

namespace Crew

/-- `positional` holds the first and last exponent of the first digit that is written without an
exponent; without it every number is. `pointZero` ends whole numbers in `.0`. -/
structure NumberLayout where
  positional : Option (Int × Int)
  pointZero : Bool

namespace NumberLayout

/-- JSON texts have an exponent below `1e-5` and from `1e16` on. -/
def json : NumberLayout := ⟨some (-5, 15), true⟩

/-- Messages never have an exponent, and whole numbers no point. -/
def plain : NumberLayout := ⟨none, false⟩

def zeros (n : Nat) : String := String.ofList (List.replicate n '0')

def renderPositional (layout : NumberLayout) (digits : List Char) (exponent : Int) : String :=
  let tail := if layout.pointZero then ".0" else ""
  if 0 ≤ exponent then String.ofList digits ++ zeros exponent.toNat ++ tail
  else
    let whole := (digits.length : Int) + exponent
    if 0 < whole then
      String.ofList (digits.take whole.toNat) ++ "." ++ String.ofList (digits.drop whole.toNat)
    else "0." ++ zeros (-whole).toNat ++ String.ofList digits

def renderScientific (digits : List Char) (lead : Int) : String :=
  let fraction := digits.drop 1
  String.ofList (digits.take 1) ++ (if fraction.isEmpty then "" else "." ++ String.ofList fraction) ++
    "e" ++ (if lead < 0 then "-" else "+") ++ toString lead.natAbs

def renderDecimal (layout : NumberLayout) (d : Decimal) : String :=
  let digits := Nat.toDigits 10 d.digits
  let lead := d.exponent + digits.length - 1
  match layout.positional with
  | some (first, last) =>
    if first ≤ lead ∧ lead ≤ last then layout.renderPositional digits d.exponent
    else renderScientific digits lead
  | none => layout.renderPositional digits d.exponent

/-- The text of a double. The sign of zero is kept. -/
def render (layout : NumberLayout) (x : Float) : String :=
  if x.isNaN then "NaN"
  else
    let sign := if x.toBits.toNat / Nat.pow 2 63 = 1 then "-" else ""
    sign ++ if x.isInf then "inf" else layout.renderDecimal (shortestDecimal x)

end NumberLayout

end Crew
