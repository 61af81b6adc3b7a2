import Crew.Json.Decoder
import Crew.Time.Stamp

/-!
# Dated values

Results and events carry the instant of their making in their written form. Nothing that a run
decides depends on it, so the values themselves do without.
-/

namespace Crew

structure Dated (α : Type) where
  value : α
  stamp : Stamp
  deriving DecidableEq, Repr

namespace Stamp

def toJson (t : Stamp) : Json := .string t.render

open Json in
def decoder : Decoder Stamp
  | _, .string (some s) => (ofString s).mapError fun e => .data (.invalidTime e.message)
  | _, other => .error (other.mismatch "an RFC 3339 formatted date and time string")

end Stamp

end Crew
