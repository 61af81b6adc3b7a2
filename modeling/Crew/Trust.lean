import Crew.Table

/-!
# Trust

How much each worker's answers weigh, and in which order the workers registered. A run begins with
the table of that moment and merges later ones into it.
-/

namespace Crew

structure TrustEntry where
  seq : Nat
  weight : Float
  deriving DecidableEq, Repr

abbrev TrustTable := Table String TrustEntry

namespace TrustTable

/-- Behind every registered worker. -/
def unknownSeq : Nat := UInt64.size - 1

/-- Unknown workers weigh one. -/
def weight (table : TrustTable) (workerId : String) : Float :=
  ((Table.get? table workerId).map (·.weight)).getD 1.0

def seq (table : TrustTable) (workerId : String) : Nat :=
  ((Table.get? table workerId).map (·.seq)).getD unknownSeq

def merge (table other : TrustTable) : TrustTable := table.insertAll other.rows

end TrustTable

end Crew
