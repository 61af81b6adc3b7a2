/-!
# Shortest decimals

The decimal with the fewest digits that reads back as a given double. A positive double is
`mantissa * 2 ^ exponent`; the reals that round to it form an interval around it, closed when the
mantissa is even. For one digit, two digits and so on, the two neighbours of the double on that
decimal grid are tested against the interval; the first grid with a hit wins, and of two hits the
nearer one, an exact tie going to the even digit.
-/

namespace Crew

/-- The number `digits * 10 ^ exponent`. -/
structure Decimal where
  digits : Nat
  exponent : Int
  deriving Repr, DecidableEq, Inhabited

namespace Decimal

/-- The magnitude of a finite double. `narrow` says that the next smaller double is half as far
away as the next larger one, which is so at the powers of two. -/
structure Magnitude where
  mantissa : Nat
  exponent : Int
  narrow : Bool
  deriving Repr, DecidableEq

def Magnitude.ofBits (bits : UInt64) : Magnitude :=
  let fraction := bits.toNat % Nat.pow 2 52
  let field : Nat := bits.toNat / Nat.pow 2 52 % 2048
  if field = 0 then ⟨fraction, -1074, false⟩
  else ⟨Nat.pow 2 52 + fraction, (field : Int) - 1075, fraction = 0 && 1 < field⟩

/-- How many decimal digits a number has; zero has one. -/
def width (n : Nat) : Nat := (Nat.toDigits 10 n).length

/-- `10 ^ n` for `n ≥ 0`, and 1 below. -/
def powerUp (base : Nat) (n : Int) : Nat := base.pow n.toNat

/-- A magnitude in quarters of its last binary place, as a fraction: the value is
`4 * mantissa * num / den`. -/
def Magnitude.quarter (x : Magnitude) : Nat × Nat :=
  (powerUp 2 (x.exponent - 2), powerUp 2 (2 - x.exponent))

def leadingExponent (num den : Nat) : Int :=
  if den ≤ num then width (num / den) - 1
  else -(width ((den + num - 1) / num - 1) : Int)

/-- The neighbour of `x` on the grid of multiples of `10 ^ k` that reads back as `x`, if any. -/
def Magnitude.onGrid? (x : Magnitude) (k : Int) : Option Decimal :=
  let (num, den) := x.quarter
  let a := num * powerUp 10 (-k)
  let b := den * powerUp 10 k
  let value := 4 * x.mantissa * a
  let low := (4 * x.mantissa - if x.narrow then 1 else 2) * a
  let high := (4 * x.mantissa + 2) * a
  let inside (d : Nat) : Bool :=
    if x.mantissa % 2 = 0 then low ≤ d * b && d * b ≤ high else low < d * b && d * b < high
  let below := value / b
  let above := below + 1
  let down := value - below * b
  let up := above * b - value
  let nearer := if down < up then below else if up < down then above
    else if below % 2 = 0 then below else above
  let farther := if nearer = below then above else below
  if inside nearer then some ⟨nearer, k⟩
  else if inside farther then some ⟨farther, k⟩
  else none

def strip : Nat → Decimal → Decimal
  | 0, d => d
  | fuel + 1, d =>
    if d.digits ≠ 0 ∧ d.digits % 10 = 0 then strip fuel ⟨d.digits / 10, d.exponent + 1⟩ else d

/-- The shortest decimal of a positive magnitude. Seventeen digits are always enough. -/
def Magnitude.shortest (x : Magnitude) : Decimal :=
  let (num, den) := x.quarter
  let lead := leadingExponent (4 * x.mantissa * num) den
  strip 20 (((List.range 17).findSome? fun n => x.onGrid? (lead - Int.ofNat n)).getD ⟨0, 0⟩)

end Decimal

/-- The digits of the magnitude of a finite double; zero has no digits. -/
def shortestDecimal (x : Float) : Decimal :=
  let magnitude := Decimal.Magnitude.ofBits x.toBits
  if magnitude.mantissa = 0 then ⟨0, 0⟩ else magnitude.shortest

end Crew
