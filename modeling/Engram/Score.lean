import Engram.Config
import Engram.Memory
import Engram.Number.Logarithm

/-!
The score by which memories stay in their tier: a weighted sum of importance, recency, use and
associations.
-/

namespace Engram.Score

def millisPerDay : Float := 86400000.0

/-- How recent an instant is, from one down to zero. It halves with every half-life; without a
positive half-life only what is brand new is recent. The future counts as brand new. -/
def recency (timestamp now : Time.Instant) (halfLifeDays : Float) : Float :=
  let age := (now.since timestamp).millis.toNat.toFloat / millisPerDay
  if halfLifeDays ≤ 0.0 then if age == 0.0 then 1.0 else 0.0
  else Float.exp2 (-(age / halfLifeDays))

/-- The association term: full from the saturation on, and nothing if there is none. -/
def associationShare (count saturation : Nat) : Float :=
  if saturation = 0 then 0.0
  else
    let share := count.toFloat / saturation.toFloat
    if 1.0 < share then 1.0 else share

/-- What a score is computed from. -/
structure Facts where
  importance : Float
  timestamp : Time.Instant
  retrievals : Nat
  associations : Nat

def factsOf (m : Memory) : Facts :=
  ⟨m.importance.toFloat, m.timestamp, m.retrievals.toNat, m.associations.length⟩

/-- The score of a memory. The four terms are added from left to right. -/
def score (f : Facts) (w : ScoreWeights) (now : Time.Instant) : Float :=
  w.importance * f.importance
    + w.recency * recency f.timestamp now w.halfLifeDays
    + w.retrieval * Number.logOnePlus f.retrievals.toFloat
    + w.associations * associationShare f.associations w.saturation

end Engram.Score
