/-!
# Total order of doubles

The order of the doubles by sign and magnitude, in which minus zero is below zero. It agrees with
`<` wherever that decides, and two doubles have the same key only if they are the same.
-/

namespace Crew

/-- Ascending in the total order. -/
def totalOrderKey (x : Float) : Int :=
  let bits := x.toBits.toNat
  if bits < Nat.pow 2 63 then bits else (Nat.pow 2 63 : Int) - 1 - bits

/-- The sum in the given order, from minus zero, which leaves every term as it is. -/
def sumInOrder (xs : List Float) : Float := xs.foldl (· + ·) (-0.0)

end Crew
