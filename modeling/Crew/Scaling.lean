import Crew.Config.Basic

/-!
# Scaling signals

The ready tasks without a worker per healthy worker are watched against two watermarks. Once the
ratio has stayed outside them on one side for the debounce time, one signal is given; the detector
is armed again when the ratio comes back between them or jumps to the other side.
-/

namespace Crew

inductive ScalingSignal where
  | up (ratio : Float)
  | down (ratio : Float)
  deriving DecidableEq, Repr

/-- On which side of the watermarks the ratio is, since when, and whether that was signalled. -/
inductive Band where
  | inside
  | above (since : Nat) (fired : Bool)
  | below (since : Nat) (fired : Bool)
  deriving DecidableEq, Repr

structure ScalingDetector where
  config : ScalingConfig
  band : Band := .inside
  deriving DecidableEq, Repr

namespace ScalingDetector

/-- The ratio is not defined when there is neither a task nor a worker. -/
def ratio (ready healthy : Nat) : Option Float :=
  if healthy = 0 then
    if ready = 0 then none else some (1.0 / 0.0)
  else some (ready.toUInt64.toFloat / healthy.toUInt64.toFloat)

def due (d : ScalingDetector) (since now : Nat) (fired : Bool) : Bool :=
  !fired && d.config.debounce ≤ now - since

def observe (d : ScalingDetector) (ready healthy now : Nat) :
    ScalingDetector × Option ScalingSignal :=
  if !d.config.enabled then (d, none)
  else
    match ratio ready healthy with
    | none => ({ d with band := .inside }, none)
    | some r =>
      if d.config.highWatermark < r then
        let (since, fired) := match d.band with
          | .above since fired => (since, fired)
          | _ => (now, false)
        let fire := d.due since now fired
        ({ d with band := .above since (fired || fire) }, if fire then some (.up r) else none)
      else if r < d.config.lowWatermark then
        let (since, fired) := match d.band with
          | .below since fired => (since, fired)
          | _ => (now, false)
        let fire := d.due since now fired
        ({ d with band := .below since (fired || fire) }, if fire then some (.down r) else none)
      else ({ d with band := .inside }, none)

end ScalingDetector

end Crew
