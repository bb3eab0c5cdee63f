import Engram.Proofs.Association
import Engram.Proofs.Cycle
import Engram.Proofs.Evolution

/-! Runs of a mind: calls of its operations in any order, nightly runs with calls in between, and
changes of what lies outside. Whatever a run does to the memories is a sequence of changes. -/
namespace Engram.Mind

open Nightly

variable {allowed : List String → Prop}

/-- The memories follow the changes, with nothing stored. -/
def Tends (allowed : List String → Prop) (s s' : Mind) : Prop :=
  ∃ log, Evolves allowed s [] log s'

theorem Tends.refl (s : Mind) : Tends allowed s s := ⟨[], .refl⟩

theorem Tends.trans ⦃s s' s'' : Mind⦄ (first : Tends allowed s s')
    (second : Tends allowed s' s'') : Tends allowed s s'' := by
  obtain ⟨log, h⟩ := first
  obtain ⟨later, h'⟩ := second
  exact ⟨log ++ later, h.trans h'⟩

theorem Quiet.tends {s s' : Mind} (quiet : Quiet allowed s s') : Tends allowed s s' :=
  ⟨[], .rest quiet⟩

theorem quiet_integratePhase (s : Mind) (patterns : List Pattern) :
    Quiet allowed s (s.integratePhase patterns).1 where
  frame := .of_eq rfl rfl rfl
  store := fixed_linkMemories s.extractor s.store patterns
  pending := rfl
  backend := rfl

/-- Between its questions training only notes what was learned. -/
theorem moves_trainBatches {R : Mind → Mind → Prop} (refl : ∀ s, R s s)
    (trans : ∀ ⦃s s' s''⦄, R s s' → R s' s'' → R s s'')
    (learned : ∀ s lessons, R s (s.markTrained lessons)) (run : String)
    (batches : List (List Lesson)) (index failures : Nat) (s : Mind) :
    (trainBatches run batches index failures s).Moves R s := by
  induction batches generalizing index failures s with
  | nil => exact .done (refl s)
  | cons lessons rest ih =>
      have goOn : ∀ (failures : Nat) (report : BatchReport) (s' s : Mind), R s s' →
          Cycle.Moves R
            (if rest.isEmpty then .done s' (PhaseStatus.completed, [report])
            else .gate s' fun s isOpen =>
              if isOpen then
                (trainBatches run rest (index + 1) failures s).bind fun s result =>
                  .done s (result.1, report :: result.2)
              else .done s (.partially gateClosed, report :: skipBatches run (index + 1) rest))
            s := by
        intro failures report s' s first
        split
        · exact .done first
        · refine .gate first ?_
          intro t isOpen
          cases isOpen with
          | true => exact (ih (index + 1) failures t).bind trans fun u _ => .done (refl u)
          | false => exact .done (refl t)
      unfold trainBatches
      refine Cycle.Moves.apply (refl s) refl ?_
      intro t verdict
      cases verdict with
      | ok loss => exact goOn 0 _ _ t (learned t lessons)
      | error failure =>
          simp only
          cases stopAfter failure (failures + 1) with
          | some status => exact .done (refl t)
          | none => exact goOn (failures + 1) _ _ t (refl t)

theorem moves_structurePhase {R : Mind → Mind → Prop} (refl : ∀ s, R s s)
    (trans : ∀ ⦃s s' s''⦄, R s s' → R s' s'' → R s s'')
    (learned : ∀ s lessons, R s (s.markTrained lessons)) (drawn : ∀ s : Mind, R s s.freshId.2)
    (s : Mind) : s.structurePhase.Moves R s := by
  unfold structurePhase
  refine Cycle.Moves.bind trans (Cycle.Moves.after trans (drawn s) ?_) ?_
  · exact moves_trainBatches refl trans learned _ _ 0 0 s.freshId.2
  · intro t result
    exact .done (refl t)

/-- Once the tiers are bounded, the last phase changes only the archive, the source and the day, to
which it adds nothing. -/
theorem cleanupPhase_frame (s : Mind) (night : Night) : ∃ t archive source day,
    s.boundTiers.1 = t ∧ (s.cleanupPhase night).1 = { t with archive, source, day } ∧
      day.experiences.Sublist t.day.experiences := by
  unfold cleanupPhase
  simp only
  generalize s.boundTiers.1 = t
  generalize t.archive.sealBatch t.source night.day night.experiences night.patterns
    { night.metrics with tierSizes := ⟨t.store.sizes⟩ } = outcome
  obtain ⟨⟨archive, result⟩, source⟩ := outcome
  cases result with
  | error e => exact ⟨t, archive, source, t.day, rfl, rfl, .refl _⟩
  | ok entry => exact ⟨t, archive, _, _, rfl, rfl, List.filter_sublist⟩

/-- The last phase bounds the tiers and seals what is pending. -/
theorem tends_cleanupPhase (s : Mind) (night : Night) :
    Tends allowed s (s.cleanupPhase night).1 := by
  have bounded : Tends allowed s s.boundTiers.1 := s.evolves_boundTiers
  refine bounded.trans ?_
  unfold cleanupPhase
  simp only
  generalize s.boundTiers.1 = t
  generalize hsealed : t.archive.sealBatch t.source night.day night.experiences night.patterns
    { night.metrics with tierSizes := ⟨t.store.sizes⟩ } = outcome
  obtain ⟨⟨archive, result⟩, source⟩ := outcome
  have sealing : Tends allowed t { t with archive, source } :=
    evolves_sealBatch rfl rfl rfl (congrArg (·.1.1) hsealed.symm)
  cases result with
  | error e => exact sealing
  | ok entry => exact sealing.trans (Quiet.tends (.of_eq rfl rfl rfl rfl))

theorem tends_finishNight (s : Mind) (p : Progress) : Tends allowed s (s.finishNight p).1 := by
  unfold finishNight
  simp only
  generalize ({ p.night with metrics := _ } : Night) = night
  have cleaned : Tends allowed s (s.cleanupPhase night).1 := s.tends_cleanupPhase night
  generalize s.cleanupPhase night = outcome at cleaned
  exact cleaned.trans (Quiet.tends (.of_eq rfl rfl rfl rfl))

/-- A law of everything that a nightly run does between two of its questions. -/
structure Stretches (R : Mind → Mind → Prop) : Prop where
  refl (s : Mind) : R s s
  trans ⦃s s' s'' : Mind⦄ : R s s' → R s' s'' → R s s''
  ticked (s : Mind) : R s s.now.2
  drawn (s : Mind) : R s s.freshId.2
  learned (s : Mind) (lessons : List Lesson) : R s (s.markTrained lessons)
  integrated (s : Mind) (patterns : List Pattern) : R s (s.integratePhase patterns).1
  finished (s : Mind) (p : Progress) : R s (s.finishNight p).1
  closed (s : Mind) (report : NightlyReport) : R s (s.recordRun report).persist.1

namespace Stretches

variable {R : Mind → Mind → Prop}

theorem moves_updateAndFinish (law : Stretches R) (p : Progress) (s : Mind) (isOpen : Bool) :
    (updateAndFinish p s isOpen).Moves R s := by
  unfold updateAndFinish
  cases isOpen with
  | true =>
      simp only [if_true]
      have trained : s.structurePhase.Moves R s :=
        moves_structurePhase law.refl law.trans law.learned law.drawn s
      refine trained.bind law.trans ?_
      rintro t ⟨result, batches⟩
      exact .done (law.finished t _)
  | false =>
      simp only [Bool.false_eq_true, if_false]
      exact .done (law.finished s _)

theorem moves_integrateAndFinish (law : Stretches R) (p : Progress) (s : Mind) (isOpen : Bool) :
    (integrateAndFinish p s isOpen).Moves R s := by
  unfold integrateAndFinish
  cases isOpen with
  | true =>
      simp only [if_true]
      refine .gate (law.integrated s p.night.patterns) ?_
      intro t answer
      exact law.moves_updateAndFinish _ t answer
  | false =>
      simp only [Bool.false_eq_true, if_false]
      exact law.moves_updateAndFinish _ s false

theorem moves_runNightly (law : Stretches R) (s : Mind) : s.runNightly.Moves R s := by
  unfold runNightly
  refine Cycle.Moves.bind law.trans ?_ ?_
  · refine .gate (law.trans (law.ticked s) (law.ticked s.now.2)) ?_
    intro t isOpen
    exact law.moves_integrateAndFinish _ t isOpen
  · intro t report
    exact .done (law.closed t report)

end Stretches

theorem tends_recordRun (s : Mind) (report : NightlyReport) :
    Tends allowed s (s.recordRun report) := by
  unfold recordRun
  simp only
  split
  · rename_i b recorded
    obtain ⟨contents, refused⟩ := Backend.contents_recordRun recorded
    refine Quiet.tends ⟨.of_eq rfl rfl refused, fun _ => rfl, rfl, contents⟩
  · exact Quiet.tends (.of_eq rfl rfl rfl rfl)

theorem stretches_tends : Stretches (Tends allowed) where
  refl := Tends.refl
  trans := Tends.trans
  ticked _ := Quiet.tends (.of_eq rfl rfl rfl rfl)
  drawn _ := Quiet.tends (.of_eq rfl rfl rfl rfl)
  learned _ _ := Quiet.tends (.of_eq rfl rfl rfl rfl)
  integrated s patterns := (s.quiet_integratePhase patterns).tends
  finished s p := s.tends_finishNight p
  closed s report := (s.tends_recordRun report).trans ⟨[], evolves_persist _⟩

/-- Between its questions a nightly run only changes the use of memories, demotes them, seals them
and saves checkpoints. -/
theorem moves_runNightly (s : Mind) : s.runNightly.Moves (Tends allowed) s :=
  stretches_tends.moves_runNightly s

/-- What lies outside of a mind changes: the clock, and what the backend refuses. -/
def outside (s : Mind) (clock : Clock) (refused : List String)
    (unwritable : ArchiveEntry → Bool) : Mind :=
  { s with
    source := { s.source with clock }
    archive := { s.archive with backend := { s.backend with refused, unwritable } } }

/-- A foreground call or a change outside, with what it stores. -/
inductive Call (allowed : List String → Prop) (s : Mind) : List Memory → Mind → Prop where
  | process (collaborators : Collaborators) (input : Input) :
      Call allowed s (s.made collaborators input) (s.process collaborators input).1
  | query (generator : Generator) (question : String) :
      Call allowed s [] (s.query generator question).1
  | addContext (item : ContextItem) : Call allowed s [] (s.addContext item)
  | consolidate (t : Tier) : Call allowed s [] (s.consolidate t).1
  | persist : Call allowed s [] s.persist.1
  | outside (clock : Clock) (refused : List String) (unwritable : ArchiveEntry → Bool)
      (within : allowed refused) : Call allowed s [] (s.outside clock refused unwritable)

/-- Steps one after the other, with all that they store. -/
inductive Trail (step : Mind → List Memory → Mind → Prop) (s : Mind) :
    List Memory → Mind → Prop where
  | refl : Trail step s [] s
  | tail {s' s'' : Mind} {new more : List Memory} (prior : Trail step s new s')
      (last : step s' more s'') : Trail step s (new ++ more) s''

theorem Trail.single {step : Mind → List Memory → Mind → Prop} {s s' : Mind} {new : List Memory}
    (only : step s new s') : Trail step s new s' := by
  simpa using Trail.refl.tail only

/-- A step that stores nothing. -/
theorem Trail.still {step : Mind → List Memory → Mind → Prop} {s s' s'' : Mind}
    {new : List Memory} (prior : Trail step s new s') (last : step s' [] s'') :
    Trail step s new s'' := by
  simpa using prior.tail last

/-- An operation: a call, or a nightly run with calls at its questions. -/
inductive Step (allowed : List String → Prop) (s : Mind) : List Memory → Mind → Prop where
  | call {new : List Memory} {s' : Mind} (call : Call allowed s new s') : Step allowed s new s'
  | nightly {new : List Memory} {s' : Mind} {report : NightlyReport}
      (ends : s.runNightly.Ends (Trail (Call allowed)) new s' report) : Step allowed s new s'

/-- A run: any sequence of operations. -/
def Run (allowed : List String → Prop) : Mind → List Memory → Mind → Prop :=
  Trail (Step allowed)

/-- From a mind whose cache fits, the memories follow the changes. -/
def Grows (allowed : List String → Prop) (s : Mind) (new : List Memory) (s' : Mind) : Prop :=
  s.cache.Fits s.config.embeddingDimension → ∃ log, Evolves allowed s new log s'

theorem Grows.trans {s s' s'' : Mind} {new more : List Memory} (first : Grows allowed s new s')
    (second : Grows allowed s' more s'') : Grows allowed s (new ++ more) s'' := by
  intro fits
  obtain ⟨log, h⟩ := first fits
  obtain ⟨later, h'⟩ := second (h.frame.cache fits)
  exact ⟨log ++ later, h.trans h'⟩

theorem Trail.grows {step : Mind → List Memory → Mind → Prop}
    (grows : ∀ {s new s'}, step s new s' → Grows allowed s new s') {s s' : Mind}
    {new : List Memory} (trail : Trail step s new s') : Grows allowed s new s' := by
  induction trail with
  | refl => exact fun _ => ⟨[], .refl⟩
  | tail prior last ih => exact ih.trans (grows last)

theorem Call.grows {s s' : Mind} {new : List Memory} (call : Call allowed s new s') :
    Grows allowed s new s' := by
  intro fits
  cases call with
  | process collaborators input => exact s.evolves_process collaborators input fits
  | query generator question => exact s.quiet_recordActivity.tends
  | addContext item =>
      have added : Quiet allowed s.recordActivity (s.recordActivity.appendContext item) :=
        .of_eq rfl rfl rfl rfl
      exact (s.quiet_recordActivity.trans added).tends
  | consolidate t => exact s.evolves_consolidate t
  | persist => exact ⟨[], s.evolves_persist⟩
  | outside clock refused unwritable within =>
      exact Quiet.tends ⟨⟨rfl, id, fun _ => within⟩, fun _ => rfl, rfl, rfl⟩

theorem Step.grows {s s' : Mind} {new : List Memory} (step : Step allowed s new s') :
    Grows allowed s new s' := by
  cases step with
  | call call => exact call.grows
  | nightly ends =>
      exact ends.follows (fun h _ => h) (fun calls => Trail.grows Call.grows calls) Grows.trans
        s.moves_runNightly

/-- A run changes the memories only in the ways that changes do. -/
theorem Run.grows {s s' : Mind} {new : List Memory} (run : Run allowed s new s') :
    Grows allowed s new s' :=
  Trail.grows Step.grows run

/-- A nightly run comes to an end from any state, also if the trainer cannot be reached. -/
theorem exists_nightly (s : Mind) : ∃ s', Step allowed s [] s' :=
  ⟨_, .nightly (Cycle.ends_outcome (fun _ => .refl) true ⟨true, 1, ⟨0⟩, 1, 3⟩
    (.error (.unreachable "offline")) s.runNightly)⟩

theorem create_eq_start {config : Config} {backend : Backend} {source : Source} {fresh : Mind}
    (created : create config backend source = .ok fresh) : fresh = start config backend source := by
  unfold create at created
  cases hvalid : config.validate with
  | error e =>
      rw [hvalid] at created
      cases created
  | ok _ =>
      rw [hvalid] at created
      exact (Except.ok.inj created).symm

/-- An input up to the point where its memory is stored, with the tier that is still to be
bounded. -/
def absorb (s : Mind) (collaborators : Collaborators) (input : Input) :
    Except Mind (Mind × Tier) :=
  match s.recordActivity.embed collaborators.embedder input.text with
  | (s, .error _) => .error s
  | (s, .ok embedding) =>
    match s.store.retrieve s.config.retrieval embedding with
    | .error _ => .error s
    | .ok (memories, store) =>
      let s := { s with store }
      match generate collaborators.generator
          (Prompt.forInput s.config.retrieval input.text memories) with
      | .error _ => .error s
      | .ok output =>
        match s.discoverAssociations embedding with
        | .error _ => .error s
        | .ok associations =>
          let (s, memory) := s.remember input output embedding associations
          .ok (s, memory.tier)

theorem process_eq_absorb (s : Mind) (collaborators : Collaborators) (input : Input) :
    (s.process collaborators input).1 =
      match s.absorb collaborators input with
      | .error s' => s'
      | .ok (s', t) => (s'.consolidateIfOver t).1 := by
  unfold process absorb
  cases s.recordActivity.embed collaborators.embedder input.text with
  | mk s result =>
      cases result with
      | error e => rfl
      | ok embedding =>
          simp only [answer]
          cases s.store.retrieve s.config.retrieval embedding with
          | error e => rfl
          | ok found =>
              simp only [settle]
              cases generate collaborators.generator
                  (Prompt.forInput s.config.retrieval input.text found.1) with
              | error e => rfl
              | ok output =>
                  simp only
                  cases discoverAssociations { s with store := found.2 } embedding with
                  | error e => rfl
                  | ok associations => rfl

/-- A tier with two memories is left with the better one. -/
def keepBetter (s : Mind) (t : Tier) : Mind :=
  match s.store.traces t with
  | [a, b] =>
    let score (a : Trace) := (Consolidation.keepScore s.config.score s.now.1 a.memory, a)
    if (Consolidation.order (score a) (score b)).isLE then
      { s.now.2 with store := s.store.put t [a] }.stage [b.memory]
    else { s.now.2 with store := s.store.put t [b] }.stage [a.memory]
  | _ => s

theorem consolidateIfOver_eq_keepBetter {s : Mind} {t : Tier} (room : s.config.capacity t = 1)
    (few : s.store.size t ≤ 2) : (s.consolidateIfOver t).1 = s.keepBetter t := by
  have hpair : ∀ a b, s.store.traces t = [a, b] → (s.consolidate t).1 = s.keepBetter t := by
    intro a b htraces
    have hnow : s.now.2.store.traces t = [a, b] := htraces
    have hroom : s.now.2.config.capacity t = 1 := room
    have hcommit : ∀ kept, s.now.2.store.commit t [a, b] kept = (s.now.2.store.put t kept, 0) := by
      intro kept
      rw [← hnow]
      exact Store.commit_traces _ _ _
    let place (parts : List Trace × List Trace) : Mind :=
      ({ s.now.2 with store := s.store.put t parts.1 } : Mind).stage (parts.2.map (·.memory))
    have hconsolidate : (s.consolidate t).1 =
        place (Consolidation.partition s.config.score s.now.1 1 [a, b]) := by
      unfold consolidate consolidateAt Consolidation.maxPasses consolidationPasses
      simp only [hnow, hroom, hcommit]
      rw [if_neg (by simp), if_pos trivial]
      rfl
    rw [hconsolidate, Consolidation.partition_pair]
    unfold keepBetter
    simp only [htraces]
    split
    · rfl
    · rfl
  unfold consolidateIfOver
  rw [room]
  unfold Store.size at few ⊢
  cases htraces : s.store.traces t with
  | nil => simp [keepBetter, htraces]
  | cons a rest =>
      cases rest with
      | nil => simp [keepBetter, htraces]
      | cons b rest =>
          cases rest with
          | nil => exact hpair a b htraces
          | cons c rest =>
              rw [htraces] at few
              simp at few

namespace Sample

/-- Every tier has room for one memory, and so has the pending batch. No two memories are similar
enough to be associated. -/
def config : Config := {
  embeddingDimension := 1
  activeSize := 1
  associationThreshold := 2
  score := { halfLifeDays := 0 }
  nightly := { maxPending := 1 } }

def source : Source := ⟨⟨⟨0, 0⟩, .fixed 0, 1⟩, Uid.ofStream 7, 0⟩

def collaborators : Collaborators := ⟨fun _ => .ok [1], fun _ => .ok "noted"⟩

def input (text : String) (importance : Float) : Input := ⟨text, none, some importance, {}⟩

def empty (storage : Storage) : Mind := start config (.ofStorage storage) source

def process (s : Mind) (text : String) (importance : Float := 0.5) : Mind :=
  (s.process collaborators (input text importance)).1

def made (s : Mind) (text : String) (importance : Float := 0.5) : List Memory :=
  s.made collaborators (input text importance)

def memory (n : Nat) : Memory := ⟨source.ids n, "noted", .working, ⟨0, 0⟩, [1], 0.5, [], 0⟩

/-- Processing an input, where the tier of its memory has room for one. -/
def next (s : Mind) (text : String) (importance : Float := 0.5) : Mind :=
  match s.absorb collaborators (input text importance) with
  | .error s' => s'
  | .ok (s', t) => s'.keepBetter t

/-- The tier of the new memory has room for one, and there are at most two. -/
def isNarrow (s : Mind) (text : String) (importance : Float := 0.5) : Bool :=
  match s.absorb collaborators (input text importance) with
  | .error _ => true
  | .ok (s', t) => s'.config.capacity t == 1 && s'.store.size t ≤ 2

/-- A night that nothing disturbs, with the same answer to all questions and no trainer. -/
def undisturbed (answer : Bool) (night : Cycle Mind NightlyReport) : Mind × NightlyReport :=
  night.outcome answer ⟨true, 1, ⟨0⟩, 1, 3⟩ (.error (.unreachable "offline"))

theorem ends_undisturbed {lbl : Type} {meanwhile : Mind → List lbl → Mind → Prop}
    (refl : ∀ s, meanwhile s [] s) (answer : Bool) (night : Cycle Mind NightlyReport) :
    night.Ends meanwhile [] (undisturbed answer night).1 (undisturbed answer night).2 :=
  night.ends_outcome refl _ _ _

theorem process_eq_next {s : Mind} {text : String} {importance : Float}
    (narrow : isNarrow s text importance) : process s text importance = next s text importance := by
  unfold process next
  unfold isNarrow at narrow
  rw [process_eq_absorb]
  cases hs : s.absorb collaborators (input text importance) with
  | error s' => rfl
  | ok found =>
      obtain ⟨s', t⟩ := found
      simp only [hs, Bool.and_eq_true, beq_iff_eq, decide_eq_true_eq] at narrow
      exact consolidateIfOver_eq_keepBetter narrow.1 narrow.2

end Sample

end Engram.Mind
