import Crew.Decimal.Layout

/-!
# Numbers in JSON texts

A number is an integer of 64 bits, signed or not, or a double. What a numeral stands for is
decided by how it is written: without point and exponent it is an integer if it fits, and every
other numeral is a double. Minus zero is a double, since no integer has its sign.

A double is read from the leading digits that fit 64 bits, rounded once, and then scaled by a
power of ten, which rounds a second time. Up to fifteen digits and moderate exponents the result
is the nearest double.
-/

namespace Crew

inductive Number where
  | int (n : Int)
  | real (x : Float)
  deriving DecidableEq, Repr, Inhabited

namespace Number

/-- Equality as values: an integer never equals a double, and the two zeros are equal. -/
def same : Number → Number → Bool
  | .int m, .int n => m == n
  | .real x, .real y => x == y
  | _, _ => false

/-- A double that is no number, or infinite, has no JSON text and is written as `null`. -/
def render : Number → String
  | .int n => toString n
  | .real x => if x.isFinite then NumberLayout.json.render x else "null"

def toFloat : Number → Float
  | .int n => if n < 0 then -(n.natAbs.toUInt64.toFloat) else n.natAbs.toUInt64.toFloat
  | .real x => x

end Number

/-- A numeral as written: its digits before and after the point, and its exponent. -/
structure Numeral where
  negative : Bool := false
  whole : List Nat
  fraction : Option (List Nat) := none
  exponent : Option Int := none
  deriving Repr, DecidableEq

namespace Numeral

def wordLimit : Nat := UInt64.size

/-- Append digits to `start` while the number fits 64 bits; also how many digits are left over. -/
def accumulate (start : Nat) : List Nat → Nat × Nat
  | [] => (start, 0)
  | d :: ds =>
    if start * 10 + d < wordLimit then accumulate (start * 10 + d) ds
    else (start, ds.length + 1)

def powerOfTen (n : Nat) : Float := Float.ofScientific 1 false n

/-- `x * 10 ^ exponent`; nothing if that is too large for a double. The exponent is taken in
portions of 308 while it is below the range of the doubles. -/
def scale : Nat → Float → Int → Option Float
  | fuel, x, exponent =>
    if 0 ≤ exponent then
      if exponent ≤ 308 then
        let y := x * powerOfTen exponent.toNat
        if y.isInf then none else some y
      else if x == 0 then some x else none
    else if -308 ≤ exponent then some (x / powerOfTen exponent.natAbs)
    else if x == 0 then some x
    else match fuel with
      | 0 => some 0
      | fuel + 1 => scale fuel (x / powerOfTen 308) (exponent + 308)

/-- The magnitude as a double. An exponent of ten digits or more is beyond every double. -/
def magnitude? (n : Numeral) : Option Float :=
  let (lead, excess) := accumulate 0 n.whole
  let fraction := n.fraction.getD []
  let (significand, left) := accumulate lead fraction
  let shift : Int := (excess : Int) - ((fraction.length - left : Nat) : Int)
  let exponent := n.exponent.getD 0
  if exponent.natAbs < Nat.pow 2 31 then scale 8 significand.toUInt64.toFloat (shift + exponent)
  else if significand = 0 ∨ exponent < 0 then some 0 else none

/-- The number that a numeral stands for; nothing if it is too large for a double. -/
def value? (n : Numeral) : Option Number :=
  let asReal : Option Number :=
    n.magnitude?.map fun x => .real (if n.negative then -x else x)
  if n.fraction.isSome ∨ n.exponent.isSome then asReal
  else
    let (lead, excess) := accumulate 0 n.whole
    if excess ≠ 0 then asReal
    else if n.negative then
      if 0 < lead ∧ lead ≤ Nat.pow 2 63 then some (.int (-(lead : Int))) else asReal
    else some (.int lead)

end Numeral

end Crew
