import Crew.Event.Basic

/-!
# Event channels

Events are sent to all receivers that have subscribed before. A channel keeps the latest events,
as many as its capacity says; a receiver that falls further behind learns how many it lost and
goes on with the oldest that is left.
-/

namespace Crew

/-- The least power of two that is no smaller than `n`, if `n ≤ 2 ^ fuel * start`. -/
def roundUp : (fuel start : Nat) → Nat → Nat
  | 0, start, _ => start
  | fuel + 1, start, n => if n ≤ start then start else roundUp fuel (2 * start) n

/-- What a receiver gets: an event, the number of events that it has lost, or the news that there
is none. -/
inductive Received where
  | event (e : Event)
  | lagged (count : Nat)
  | empty
  | closed
  | dropped
  deriving DecidableEq, Repr

/-- A receiver is the number of the next event it will get; a dropped one is `none`. -/
structure Channel where
  capacity : Nat
  sent : List Event := []
  receivers : List (Option Nat) := []
  isClosed : Bool := false
  deriving DecidableEq, Repr

namespace Channel

/-- The capacity is at least one and rounded up to a power of two. -/
def ofCapacity (capacity : Nat) : Channel := { capacity := roundUp 64 1 capacity }

def emit (c : Channel) (e : Event) : Channel :=
  if c.isClosed then c else { c with sent := c.sent ++ [e] }

def close (c : Channel) : Channel := { c with isClosed := true }

def subscribe (c : Channel) : Channel × Nat :=
  ({ c with receivers := c.receivers ++ [some c.sent.length] }, c.receivers.length)

def dropReceiver (c : Channel) (rx : Nat) : Channel :=
  { c with receivers := c.receivers.set rx none }

def receiverCount (c : Channel) : Nat := (c.receivers.filter (·.isSome)).length

def oldest (c : Channel) : Nat := c.sent.length - c.capacity

def receive (c : Channel) (rx : Nat) : Channel × Received :=
  match c.receivers[rx]?.join with
  | none => (c, .dropped)
  | some next =>
    if next < c.oldest then
      ({ c with receivers := c.receivers.set rx (some c.oldest) }, .lagged (c.oldest - next))
    else
      match c.sent[next]? with
      | some e => ({ c with receivers := c.receivers.set rx (some (next + 1)) }, .event e)
      | none => (c, if c.isClosed then .closed else .empty)

def drain (c : Channel) (rx : Nat) : Nat → Channel × List Received
  | 0 => (c, [])
  | fuel + 1 =>
    match c.receive rx with
    | (c, .event e) =>
      let (c, rest) := drain c rx fuel
      (c, .event e :: rest)
    | (c, .lagged n) =>
      let (c, rest) := drain c rx fuel
      (c, .lagged n :: rest)
    | (c, _) => (c, [])

end Channel

end Crew
