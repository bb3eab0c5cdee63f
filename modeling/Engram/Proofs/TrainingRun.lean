import Engram.Nightly.Phases
import Engram.Proofs.Consistency

/-! Training batch after batch. Whatever the trainer replies and the gate answers, the batches are sent
in order up to the first one after which training has to stop: the trainer cannot be reached, the
batch is the third in a row to be rolled back, or the gate is closed while batches remain. -/
namespace Engram

namespace Cycle

variable {σ ω α β : Type}

/-- What a cycle asks. -/
inductive Question where
  | gate
  | device
  | train (batch : TrainingBatch)
  | rollback (batch : String)
  | pause (millis : Nat)
  | wait (millis : Nat)

namespace Question

def isGate : Question → Bool
  | .gate => true
  | _ => false

/-- The batch to train on. -/
def batch? : Question → Option TrainingBatch
  | .train batch => some batch
  | _ => none

end Question

/-- How the questions of a cycle are answered: the gate and the trainer give one answer after the
other. What becomes of the state in the meantime may depend on all that was asked before. -/
structure Answers (σ : Type) where
  isOpen : Nat → Bool
  reply : Nat → TrainReply
  device : DeviceState
  stop : Bool
  meanwhile : List Question → σ → σ

/-- Who gives these answers, and keeps the questions. -/
def Answers.host (a : Answers σ) : Host (StateM (List Question)) σ where
  gate s := fun asked =>
    ((a.meanwhile asked s, a.isOpen (asked.countP (·.isGate))), asked ++ [.gate])
  device s := fun asked => ((a.meanwhile asked s, a.device), asked ++ [.device])
  train s batch := fun asked =>
    ((a.meanwhile asked s, a.reply (asked.filterMap (·.batch?)).length), asked ++ [.train batch])
  rollback s batch := fun asked => (a.meanwhile asked s, asked ++ [.rollback batch])
  pause s millis := fun asked => (a.meanwhile asked s, asked ++ [.pause millis])
  wait s millis := fun asked => ((a.meanwhile asked s, a.stop), asked ++ [.wait millis])

section Apply

variable {a : Answers σ} {s : σ} {batch : TrainingBatch} {asked : List Question}
  {next : σ → Except BatchFailure (Option Float) → Cycle σ α}

end Apply

end Cycle

namespace Nightly

open Engram.Cycle

/-- The reply to a batch is valid: the step succeeded, and its loss, if it has one, is a number from
zero on. -/
def accepts : TrainReply → Bool
  | .ok outcome => outcome.success && outcome.loss.all fun loss => loss.isFinite && !(loss < 0.0)
  | .error _ => false

/-- Why the trainer could not be reached. -/
def unreachable? : TrainReply → Option String
  | .error (.unreachable reason) => some reason
  | _ => none

/-- What becomes of a batch that was sent. -/
def outcomeOf (reply : TrainReply) : BatchOutcome :=
  match judge reply with
  | .ok loss => .applied loss
  | .error failure => .rolledBack failure.reason

variable (a : Answers Mind) (run : String) (n : Nat)

/-- A batch and the two before it were not accepted. -/
def thirdInRow (i : Nat) : Bool :=
  2 ≤ i && [i - 2, i - 1, i].all fun j => !accepts (a.reply j)

/-- The status with which the reply to a batch ends the training, if it does. -/
def brokenOff (i : Nat) : Option PhaseStatus :=
  ((unreachable? (a.reply i)).map fun reason => .failed ("trainer unreachable: " ++ reason)).or
    (if thirdInRow a i then some (.partially "repeated validation failure") else none)

/-- The status with which training stops after a batch out of `n`, if it does. The gate counts only
while batches remain. -/
def stopAt (i : Nat) : Option PhaseStatus :=
  (brokenOff a i).or
    (if i + 1 < n ∧ a.isOpen i = false then some (.partially gateClosed) else none)

/-- Training from a batch on stops before batch `cut`: after the first at which it has to, or at the
end. -/
inductive Stops (index : Nat) : Nat → PhaseStatus → Prop where
  | never (through : ∀ i, index ≤ i → i < n → stopAt a n i = none) : Stops index n .completed
  | after {i : Nat} {status : PhaseStatus} (from_index : index ≤ i) (lt : i < n)
      (stops : stopAt a n i = some status)
      (first : ∀ j, index ≤ j → j < i → stopAt a n j = none) : Stops index (i + 1) status

/-- What is asked of the trainer for a batch. -/
def sends (i : Nat) (lessons : List Lesson) : List Question :=
  .train (batchOf run i lessons) ::
    if accepts (a.reply i) then [] else [.rollback (batchOf run i lessons).id]

/-- What is asked for a batch out of `n`. The gate is asked before another one. -/
def asks (i : Nat) (lessons : List Lesson) : List Question :=
  sends a run i lessons ++ if i + 1 < n ∧ brokenOff a i = none then [.gate] else []

/-- The report about a batch, where those from `cut` on are left out. -/
def reportAt (cut : Nat) (batch : List Lesson × Nat) : BatchReport :=
  reportOf (batchOf run batch.2 batch.1)
    (if batch.2 < cut then outcomeOf (a.reply batch.2) else .skipped)

/-- The last `failures` batches before batch `i` were not accepted, and the one before them was. -/
structure Row (i failures : Nat) : Prop where
  le : failures ≤ i
  rejected (j : Nat) : i ≤ j + failures → j < i → accepts (a.reply j) = false
  accepted (j : Nat) : j + failures + 1 = i → accepts (a.reply j) = true

theorem Row.zero : Row a 0 0 where
  le := Nat.le_refl 0
  rejected j _ h := absurd h (Nat.not_lt_zero j)
  accepted _ h := absurd h (Nat.succ_ne_zero _)

variable {a} {i failures : Nat}

/-- The state after a batch was sent. -/
def afterBatch (a : Answers Mind) (run : String) (i : Nat) (lessons : List Lesson)
    (asked : List Question) (s : Mind) : Mind :=
  if accepts (a.reply i) then (a.meanwhile asked s).markTrained lessons
  else a.meanwhile (asked ++ [.train (batchOf run i lessons)]) (a.meanwhile asked s)

/-- So many batches were sent and so many times was the gate asked. -/
def Counted (asked : List Question) (i : Nat) : Prop :=
  (asked.filterMap (·.batch?)).length = i ∧ asked.countP (·.isGate) = i

section Step

variable {run : String} {lessons : List Lesson} {asked : List Question}

theorem filterMap_batch?_sends :
    (sends a run i lessons).filterMap (·.batch?) = [batchOf run i lessons] := by
  unfold sends
  split
  · rfl
  · rfl

theorem countP_isGate_sends : (sends a run i lessons).countP (·.isGate) = 0 := by
  unfold sends
  split
  · rfl
  · rfl

end Step

/-- An entry, with its revision noted as trained or not. -/
def learn (learned : Bool) (e : KnowledgeEntry) : KnowledgeEntry :=
  if learned then { e with trainedRevision := max e.trainedRevision e.revision } else e

theorem revision_learn (learned : Bool) (e : KnowledgeEntry) :
    (learn learned e).revision = e.revision := by
  cases learned with
  | false => rfl
  | true => rfl

theorem learn_learn (first second : Bool) (e : KnowledgeEntry) :
    learn second (learn first e) = learn (first || second) e := by
  cases first with
  | false => rfl
  | true =>
      cases second with
      | false => rfl
      | true => simp [learn, ← UInt64.toNat_inj, UInt64.toNat_max]

/-- Some of the lessons is about a concept. -/
def teaches (lessons : List Lesson) (concept : String) : Bool :=
  lessons.any (·.concept == concept)

/-- All lessons about a concept are about one revision. -/
def Current (lessons : List Lesson) (concept : String) (revision : UInt64) : Prop :=
  ∀ l ∈ lessons, l.concept = concept → l.revision = revision

theorem get?_markTrained {lessons : List Lesson} {s : Mind} {concept : String} {e : KnowledgeEntry}
    (known : s.knowledge.get? concept = some e) (current : Current lessons concept e.revision) :
    (s.markTrained lessons).knowledge.get? concept = some (learn (teaches lessons concept) e) := by
  unfold Mind.markTrained
  simp only
  generalize s.knowledge = b at known
  induction lessons generalizing b e with
  | nil => exact known
  | cons l lessons ih =>
      obtain ⟨hl, hlessons⟩ := List.forall_mem_cons.mp current
      have hget : (b.markTrained l.concept l.revision).get? concept =
          some (learn (l.concept == concept) e) := by
        have hconcept := KnowledgeBase.concept_of_get? known
        unfold KnowledgeBase.markTrained
        rw [KnowledgeBase.get?_modify (by intro e; rfl), known, Option.map_some]
        by_cases hsame : l.concept = concept
        · simp [learn, hconcept, hsame, hl hsame, ← UInt64.toNat_inj, UInt64.toNat_max,
            UInt64.toNat_min]
        · simp [learn, hconcept, hsame, Ne.symm hsame]
      rw [List.foldl_cons, ih (by rw [revision_learn]; exact hlessons) _ hget, learn_learn]
      rfl

section Run

variable (a)

/-- Nothing that is known changes while the questions are answered. -/
def Retains : Prop :=
  ∀ asked (s : Mind) concept e, s.knowledge.get? concept = some e →
    (a.meanwhile asked s).knowledge.get? concept = some e

/-- What is known in a state is known in another one, as far as that is left to the answers. -/
def Keeps (s t : Mind) : Prop :=
  Retains a → ∀ concept e, s.knowledge.get? concept = some e → t.knowledge.get? concept = some e

/-- The training from a batch on, where those before `cut` are sent. -/
structure Trains (index : Nat) (batches : List (List Lesson)) (s : Mind) (asked : List Question)
    (outcome : (Mind × PhaseStatus × List BatchReport) × List Question) (cut : Nat) : Prop where
  stops : Stops a n index cut outcome.1.2.1
  reports : outcome.1.2.2 = (batches.zipIdx index).map (reportAt a run cut)
  asked : outcome.2 = asked ++
    (batches.zipIdx index).flatMap fun b => if b.2 < cut then asks a run n b.2 b.1 else []
  learned (retains : Retains a) {concept : String} {e : KnowledgeEntry}
    (known : s.knowledge.get? concept = some e)
    (current : ∀ lessons ∈ batches, Current lessons concept e.revision) :
    outcome.1.1.knowledge.get? concept = some (learn ((batches.zipIdx index).any fun b =>
      b.2 < cut && accepts (a.reply b.2) && teaches b.1 concept) e)

variable {a} {run n} {index : Nat} {lessons : List Lesson} {rest : List (List Lesson)} {s : Mind}
  {asked : List Question}

theorem skipBatches_eq {cut : Nat} (h : cut ≤ index) :
    skipBatches run index rest = (rest.zipIdx index).map (reportAt a run cut) := by
  induction rest generalizing index with
  | nil => rfl
  | cons lessons rest ih =>
      rw [List.zipIdx_cons, List.map_cons, ← ih (by omega), reportAt, if_neg (by simpa using h)]
      simp [skipBatches, List.mapIdx_cons, Nat.add_assoc, Nat.add_comm 1]

theorem skipped_of_le {cut : Nat} (h : cut ≤ index) {b : List Lesson × Nat}
    (hb : b ∈ rest.zipIdx index) : ¬ b.2 < cut := by
  have := List.le_snd_of_mem_zipIdx hb
  omega

theorem get?_afterBatch (run : String) (index : Nat) (asked : List Question) (retains : Retains a)
    {concept : String} {e : KnowledgeEntry} (known : s.knowledge.get? concept = some e)
    (current : Current lessons concept e.revision) :
    (afterBatch a run index lessons asked s).knowledge.get? concept =
      some (learn (accepts (a.reply index) && teaches lessons concept) e) := by
  unfold afterBatch
  cases accepts (a.reply index) with
  | true => exact get?_markTrained (retains _ _ _ _ known) current
  | false => exact retains _ _ _ _ (retains _ _ _ _ known)

theorem Stops.earlier {cut : Nat} {status : PhaseStatus} (stops : Stops a n (index + 1) cut status)
    (goesOn : stopAt a n index = none) : Stops a n index cut status := by
  have hfrom : ∀ {j}, index ≤ j → index + 1 ≤ j ∨ stopAt a n j = none := by
    intro j hj
    rcases Nat.lt_or_eq_of_le hj with hlt | rfl
    · exact .inl hlt
    · exact .inr goesOn
  cases stops with
  | never through =>
      exact .never fun j hj hlt => (hfrom hj).elim (fun h => through j h hlt) fun h => h
  | after from_index lt stops first =>
      refine .after (Nat.le_of_succ_le from_index) lt stops fun j hj hlt => ?_
      exact (hfrom hj).elim (fun h => first j h hlt) fun h => h

theorem Stops.lt_cut {cut : Nat} {status : PhaseStatus} (stops : Stops a n (index + 1) cut status)
    (hlt : index < n) : index < cut := by
  cases stops with
  | never through => exact hlt
  | after from_index lt stops first => omega

/-- A batch with which the training ends. -/
theorem Trains.last {status : PhaseStatus} {after : Mind}
    (keeps : Keeps a (afterBatch a run index lessons asked s) after)
    (stops : Stops a n index (index + 1) status) :
    Trains a run n index (lessons :: rest) s asked
      ((after, status, reportOf (batchOf run index lessons) (outcomeOf (a.reply index)) ::
        skipBatches run (index + 1) rest), asked ++ asks a run n index lessons) (index + 1) where
  stops := stops
  reports := by
    rw [List.zipIdx_cons, List.map_cons, ← skipBatches_eq (Nat.le_refl _), reportAt,
      if_pos (Nat.lt_succ_self _)]
  asked := by
    have hnone : (rest.zipIdx (index + 1)).flatMap (fun b =>
        if b.2 < index + 1 then asks a run n b.2 b.1 else []) = [] := by
      rw [List.flatMap_eq_nil_iff]
      intro b hb
      exact if_neg (skipped_of_le (Nat.le_refl _) hb)
    rw [List.zipIdx_cons, List.flatMap_cons, hnone, if_pos (Nat.lt_succ_self _), List.append_nil]
  learned := by
    intro retains concept e known current
    have hnone : ((rest.zipIdx (index + 1)).any fun b =>
        b.2 < index + 1 && accepts (a.reply b.2) && teaches b.1 concept) = false := by
      rw [List.any_eq_false]
      intro b hb
      simp [skipped_of_le (Nat.le_refl _) hb]
    have hlearned := get?_afterBatch run index asked retains known
      (current lessons List.mem_cons_self)
    rw [List.zipIdx_cons, List.any_cons, hnone, keeps retains _ _ hlearned]
    simp

/-- A batch with more to come. -/
theorem Trains.next {t : Mind} {cut : Nat}
    {outcome : (Mind × PhaseStatus × List BatchReport) × List Question}
    (keeps : Keeps a (afterBatch a run index lessons asked s) t)
    (hlt : index < n) (goesOn : stopAt a n index = none)
    (trains : Trains a run n (index + 1) rest t (asked ++ asks a run n index lessons) outcome cut) :
    Trains a run n index (lessons :: rest) s asked
      ((outcome.1.1, outcome.1.2.1, reportOf (batchOf run index lessons) (outcomeOf (a.reply index)) ::
        outcome.1.2.2), outcome.2) cut where
  stops := trains.stops.earlier goesOn
  reports := by
    rw [List.zipIdx_cons, List.map_cons, ← trains.reports, reportAt,
      if_pos (trains.stops.lt_cut hlt)]
  asked := by
    rw [List.zipIdx_cons, List.flatMap_cons, if_pos (trains.stops.lt_cut hlt), ← List.append_assoc]
    exact trains.asked
  learned := by
    intro retains concept e known current
    obtain ⟨hlessons, hrest⟩ := List.forall_mem_cons.mp current
    have hlearned := keeps retains _ _ (get?_afterBatch run index asked retains known hlessons)
    rw [← revision_learn (accepts (a.reply index) && teaches lessons concept)] at hrest
    have hlast := trains.learned retains hlearned hrest
    rw [learn_learn] at hlast
    rw [List.zipIdx_cons, List.any_cons]
    simpa [trains.stops.lt_cut hlt] using hlast

theorem asks_of_gate (h : i + 1 < n ∧ brokenOff a i = none) :
    asks a run n i lessons = sends a run i lessons ++ [.gate] := by
  simp [asks, h]

theorem Counted.asks (run : String) (lessons : List Lesson) (counted : Counted asked i)
    (h : i + 1 < n ∧ brokenOff a i = none) :
    Counted (asked ++ asks a run n i lessons) (i + 1) := by
  rw [asks_of_gate h]
  constructor
  · rw [List.filterMap_append, List.filterMap_append, filterMap_batch?_sends, List.length_append,
      counted.1]
    rfl
  · rw [List.countP_append, List.countP_append, countP_isGate_sends, counted.2]
    rfl

end Run

end Nightly

end Engram
