import Crew.Decimal.TotalOrder
import Crew.Json.Pointer
import Crew.Result
import Crew.Trust

/-!
# Resolving redundant results

Several workers may answer the same attempt. One answer becomes canonical: the common one if all
agree; else, if every answer can be classified, the heaviest answer of the largest class, where
equally large classes are told apart by their summed trust; else the heaviest answer of all. Of
equally heavy answers the one of the worker that registered first is taken, so that the choice
does not depend on the order of arrival.
-/

namespace Crew

inductive ResolutionStrategy where
  | single
  | exactMatch
  | weightedVote
  | priorityFallback
  deriving DecidableEq, Repr

namespace ResolutionStrategy

def name : ResolutionStrategy → String
  | .single => "single"
  | .exactMatch => "exact_match"
  | .weightedVote => "weighted_vote"
  | .priorityFallback => "priority_fallback"

def all : List ResolutionStrategy := [.single, .exactMatch, .weightedVote, .priorityFallback]

end ResolutionStrategy

structure Candidate where
  workerId : String
  payload : Json
  trustWeight : Float
  deriving DecidableEq, Repr

structure Conflict where
  taskId : String
  strategy : ResolutionStrategy
  accepted : Candidate
  discarded : List Candidate
  deriving DecidableEq, Repr

structure CanonicalResult where
  taskId : String
  payload : Json
  workerId : String
  strategy : ResolutionStrategy
  conflict : Option Conflict
  deriving DecidableEq, Repr

/-- Maps a payload to the class it votes for; nothing means that it cannot vote. -/
structure Classifier where
  name : String
  classify : Json → Option String

namespace Classifier

/-- The class of a value is a string itself, and the text of everything else; `null` has none. -/
def classOf : Json → Option String
  | .null => none
  | .string s => some s
  | other => some other.compact

def ofPointer (p : JsonPointer) : Classifier where
  name := p.text
  classify payload := (p.find? payload).bind classOf

end Classifier

structure Resolver where
  classifier : Option Classifier := none

namespace Resolver

/-- The successful results, ordered by the registration of their workers. -/
def candidates (results : List TaskResult) (trust : TrustTable) : List Candidate :=
  let found := results.filterMap fun r => r.outcome.payload?.map fun payload =>
    (trust.seq r.workerId, Candidate.mk r.workerId payload (trust.weight r.workerId))
  (found.mergeSort fun (s, a) (t, b) =>
    s < t || (s == t && !decide (b.workerId < a.workerId))).map (·.2)

def mostTrusted (candidates : List Candidate) : Option Candidate :=
  candidates.foldl (fun best c =>
    match best with
    | some b => if totalOrderKey b.trustWeight < totalOrderKey c.trustWeight then some c else best
    | none => some c) none

/-- The candidates of each class, if every candidate has one. -/
def groups (classify : Json → Option String) (candidates : List Candidate) :
    Option (List (List Candidate)) := do
  let classes ← candidates.mapM fun c => classify c.payload
  let pairs := classes.zip candidates
  return classes.eraseDups.map fun name => (pairs.filter (·.1 = name)).map (·.2)

def weightOf (group : List Candidate) : Int :=
  totalOrderKey (sumInOrder (group.map (·.trustWeight)))

def greatest {α : Type} (rank : α → Int) (xs : List α) : List α :=
  xs.filter fun x => xs.all fun y => rank y ≤ rank x

/-- The winner of a vote: the heaviest candidate of the class that leads by count, or by weight
among those that lead by count. -/
def vote (classifier : Classifier) (candidates : List Candidate) : Option Candidate := do
  let groups ← groups classifier.classify candidates
  match greatest (fun g => (g.length : Int)) groups with
  | [group] => mostTrusted group
  | leaders =>
    match greatest weightOf leaders with
    | [group] => mostTrusted group
    | _ => none

def canonical (taskId : String) (winner : Candidate) (strategy : ResolutionStrategy)
    (conflict : Option Conflict) : CanonicalResult :=
  { taskId, payload := winner.payload, workerId := winner.workerId, strategy, conflict }

def contested (taskId : String) (candidates : List Candidate) (winner : Candidate)
    (strategy : ResolutionStrategy) : CanonicalResult :=
  let discarded := candidates.filter fun c => !c.payload.same winner.payload
  canonical taskId winner strategy (some { taskId, strategy, accepted := winner, discarded })

def resolve (resolver : Resolver) (taskId : String) (results : List TaskResult)
    (trust : TrustTable) : Option CanonicalResult :=
  match candidates results trust with
  | [] => none
  | [only] => some (canonical taskId only .single none)
  | first :: rest =>
    if rest.all fun c => c.payload.same first.payload then
      some (canonical taskId first .exactMatch none)
    else
      match resolver.classifier.bind fun c => vote c (first :: rest) with
      | some winner => some (contested taskId (first :: rest) winner .weightedVote)
      | none =>
        (mostTrusted (first :: rest)).map fun winner =>
          contested taskId (first :: rest) winner .priorityFallback

end Resolver

end Crew
