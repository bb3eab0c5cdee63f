import Engram.Gate
import Engram.Training

/-!
Background cycles as resumable computations. A cycle stops at every question it puts to the outside
and hands out the state as it is; the answer comes back with the state as it has become in the
meantime. Between two questions a cycle runs undisturbed.
-/

namespace Engram

/-- A cycle over a state `σ` that ends with an `α`. -/
inductive Cycle (σ α : Type) where
  | done (state : σ) (result : α)
  /-- May the cycle go on? -/
  | gate (state : σ) (resume : σ → Bool → Cycle σ α)
  /-- What is the state of the device? -/
  | device (state : σ) (resume : σ → DeviceState → Cycle σ α)
  /-- Train on a batch. -/
  | train (state : σ) (batch : TrainingBatch) (resume : σ → TrainReply → Cycle σ α)
  /-- Undo the batch with the given identifier. -/
  | rollback (state : σ) (batch : String) (resume : σ → Cycle σ α)
  /-- Let some milliseconds pass. -/
  | pause (state : σ) (millis : Nat) (resume : σ → Cycle σ α)
  /-- Wait some milliseconds, or until a stop is asked for. Was one? -/
  | wait (state : σ) (millis : Nat) (resume : σ → Bool → Cycle σ α)

namespace Cycle

variable {σ τ α β : Type}

/-- Go on with another cycle. -/
def bind : Cycle σ α → (σ → α → Cycle σ β) → Cycle σ β
  | .done s a, next => next s a
  | .gate s resume, next => .gate s fun s answer => (resume s answer).bind next
  | .device s resume, next => .device s fun s answer => (resume s answer).bind next
  | .train s batch resume, next => .train s batch fun s reply => (resume s reply).bind next
  | .rollback s batch resume, next => .rollback s batch fun s => (resume s).bind next
  | .pause s millis resume, next => .pause s millis fun s => (resume s).bind next
  | .wait s millis resume, next => .wait s millis fun s stop => (resume s stop).bind next

/-- How a state of type `σ` is part of one of type `τ`. -/
structure Part (τ σ : Type) where
  get : τ → σ
  put : σ → τ → τ

/-- Run a cycle on a part of a larger state. Whether it may go on is found out by the larger
one. -/
def within (part : Part τ σ) (keepOn : τ → (τ → Bool → Cycle τ α) → Cycle τ α) (outer : τ) :
    Cycle σ α → Cycle τ α
  | .done s a => .done (part.put s outer) a
  | .gate s resume =>
    keepOn (part.put s outer) fun t answer => (resume (part.get t) answer).within part keepOn t
  | .device s resume =>
    .device (part.put s outer) fun t answer => (resume (part.get t) answer).within part keepOn t
  | .train s batch resume =>
    .train (part.put s outer) batch fun t reply => (resume (part.get t) reply).within part keepOn t
  | .rollback s batch resume =>
    .rollback (part.put s outer) batch fun t => (resume (part.get t)).within part keepOn t
  | .pause s millis resume =>
    .pause (part.put s outer) millis fun t => (resume (part.get t)).within part keepOn t
  | .wait s millis resume =>
    .wait (part.put s outer) millis fun t stop => (resume (part.get t) stop).within part keepOn t

/-- Who answers the questions of a cycle. Every answer may come with a changed state. -/
structure Host (m : Type → Type) (σ : Type) where
  gate : σ → m (σ × Bool)
  device : σ → m (σ × DeviceState)
  train : σ → TrainingBatch → m (σ × TrainReply)
  rollback : σ → String → m σ
  pause : σ → Nat → m σ
  wait : σ → Nat → m (σ × Bool)

/-- Run a cycle to its end. -/
def run {m : Type → Type} [Monad m] (host : Host m σ) : Cycle σ α → m (σ × α)
  | .done s a => return (s, a)
  | .gate s resume => do
    let (s, answer) ← host.gate s
    (resume s answer).run host
  | .device s resume => do
    let (s, answer) ← host.device s
    (resume s answer).run host
  | .train s batch resume => do
    let (s, reply) ← host.train s batch
    (resume s reply).run host
  | .rollback s batch resume => do
    let s ← host.rollback s batch
    (resume s).run host
  | .pause s millis resume => do
    let s ← host.pause s millis
    (resume s).run host
  | .wait s millis resume => do
    let (s, stop) ← host.wait s millis
    (resume s stop).run host

/-- The longest time that a cycle lets pass at once, in milliseconds: thirty years. -/
def longestPause : Nat := 30 * 365 * 86400 * 1000

/-- Train on a batch and judge the reply. A batch that is not accepted is undone. -/
def apply (s : σ) (batch : TrainingBatch)
    (next : σ → Except BatchFailure (Option Float) → Cycle σ α) : Cycle σ α :=
  .train s batch fun s reply =>
    match judge reply with
    | .ok loss => next s (.ok loss)
    | .error failure => .rollback s batch.id fun s => next s (.error failure)

end Cycle

end Engram
