import Engram.Proofs.Run

/-! What becomes of the experiences of a mind. Every operation is a sequence of four kinds of change:
the day and the backend stay as they are, an experience is recorded, an entry without experiences
is written, a checkpoint is saved. Only the end of a night does more: it writes what the night has
read, and takes it out of the day. -/
namespace Engram

open Nightly

/-- The identifiers of the experiences in a log. -/
def sealedIds (log : List ArchiveEntry) : List Uid := (log.flatMap (·.experiences)).map (·.id)

theorem sealedIds_append (log later : List ArchiveEntry) :
    sealedIds (log ++ later) = sealedIds log ++ sealedIds later := by
  unfold sealedIds
  rw [List.flatMap_append, List.map_append]

/-- The second phase of the night went through. -/
def NightlyReport.isIntegrated (r : NightlyReport) : Bool :=
  (r.phase? .integrating).any (·.status.isCompleted)

namespace Mind

/-- Steps one after the other, with all that is recorded by them. -/
inductive Course (step : Mind → List Experience → Mind → Prop) (s : Mind) :
    List Experience → Mind → Prop where
  | refl : Course step s [] s
  | tail {s' s'' : Mind} {new more : List Experience} (prior : Course step s new s')
      (last : step s' more s'') : Course step s (new ++ more) s''

namespace Course

variable {step : Mind → List Experience → Mind → Prop}

theorem single {s s' : Mind} {new : List Experience} (only : step s new s') :
    Course step s new s' := by
  simpa using Course.refl.tail only

theorem trans {s s' s'' : Mind} {new more : List Experience} (first : Course step s new s')
    (second : Course step s' more s'') : Course step s (new ++ more) s'' := by
  induction second with
  | refl => simpa using first
  | tail prior last ih => simpa [List.append_assoc] using ih.tail last

/-- A step that records nothing. -/
theorem still {s s' s'' : Mind} {new : List Experience} (prior : Course step s new s')
    (last : step s' [] s'') : Course step s new s'' := by
  simpa using prior.tail last

/-- Steps that go along with courses of another kind of steps make one such course. -/
theorem flatten {finer : Mind → List Experience → Mind → Prop}
    (fine : ∀ {s new s'}, step s new s' → Course finer s new s') {s s' : Mind}
    {new : List Experience} (course : Course step s new s') : Course finer s new s' := by
  induction course with
  | refl => exact .refl
  | tail prior last ih => exact ih.trans (fine last)

/-- A relation that composes holds along a course if it holds along its steps. -/
theorem follows {law : Mind → List Experience → Mind → Prop} (refl : ∀ s, law s [] s)
    (trans : ∀ {s new s' more s''}, law s new s' → law s' more s'' → law s (new ++ more) s'')
    (steps : ∀ {s new s'}, step s new s' → law s new s') {s s' : Mind} {new : List Experience}
    (course : Course step s new s') : law s new s' := by
  induction course with
  | refl => exact refl s
  | tail prior last ih => exact trans ih (steps last)

end Course

/-- The configuration and the knowledge base are as they were. -/
structure Unlearned (s s' : Mind) : Prop where
  config : s'.config = s.config
  knowledge : s'.knowledge = s.knowledge

/-- One change to the experiences of a mind, with what is recorded by it. -/
inductive Turn (s : Mind) : List Experience → Mind → Prop where
  | rest {s' : Mind} (frame : Unlearned s s') (day : s'.day = s.day)
      (backend : s'.backend.contents = s.backend.contents) : Turn s [] s'
  | recorded {s' : Mind} (zone : Time.Zone) (e : Experience) (frame : Unlearned s s')
      (day : s'.day = s.day.record zone e)
      (backend : s'.backend.contents = s.backend.contents) : Turn s [e] s'
  | sealed {s' : Mind} (entry : ArchiveEntry) (bare : entry.experiences = [])
      (frame : Unlearned s s') (day : s'.day = s.day)
      (backend : s.backend.append entry = .ok s'.backend) : Turn s [] s'
  | saved {s' : Mind} (c : Checkpoint) (listed : c.pendingDay.experiences = s.day.experiences)
      (frame : Unlearned s s') (day : s'.day = s.day)
      (backend : s'.backend = (s.backend.saveCheckpoint c).1) : Turn s [] s'

/-- The changes of one operation after the other. -/
abbrev Turns : Mind → List Experience → Mind → Prop := Course Turn

theorem Turns.rest {s s' : Mind} (frame : Unlearned s s') (day : s'.day = s.day)
    (archive : s'.archive = s.archive) : Turns s [] s' := by
  refine .single (.rest frame day ?_)
  unfold Mind.backend
  rw [archive]

/-- Changes that record nothing, before others. -/
theorem Turns.after {s s' s'' : Mind} {new : List Experience} (first : Turns s [] s')
    (second : Turns s' new s'') : Turns s new s'' := by
  simpa using first.trans second

/-- Changes that record nothing, after others. -/
theorem Turns.still {s s' s'' : Mind} {new : List Experience} (first : Turns s new s')
    (second : Turns s' [] s'') : Turns s new s'' := by
  simpa using first.trans second

/-- Staged memories are sealed, if at all, without experiences. -/
theorem turns_stage (s : Mind) (memories : List Memory) : Turns s [] (s.stage memories) := by
  obtain hstage | ⟨source, date, hstage⟩ := s.stage_cases memories
  · rw [hstage]
    exact .single (.rest ⟨rfl, rfl⟩ rfl rfl)
  · rw [hstage]
    let staged := { s with archive := { s.archive with pending := s.archive.pending ++ memories } }
    rcases staged.archive.sealBatch_cases source date [] [] {} with
      ⟨entry, backend, _, _, bare, _, _, append, outcome⟩ | ⟨reason, outcome⟩
    · refine .single (.sealed entry bare ⟨rfl, rfl⟩ rfl (append.trans ?_))
      exact congrArg Except.ok (congrArg (·.1.backend) outcome).symm
    · refine .single (.rest ⟨rfl, rfl⟩ rfl ?_)
      exact congrArg (·.1.backend.contents) outcome

theorem turns_consolidationPasses (t : Tier) (now : Time.Instant) (passes : Nat) (s : Mind)
    (result : TierConsolidation) : Turns s [] (consolidationPasses t now passes s result).1 := by
  induction passes generalizing s result with
  | zero => exact .refl
  | succ passes ih =>
      unfold consolidationPasses
      simp only
      split
      · exact .refl
      · have committed : ∀ store, Turns s [] { s with store } := fun store => .rest ⟨rfl, rfl⟩ rfl rfl
        split
        · exact (committed _).after (turns_stage _ _)
        · exact ((committed _).after (turns_stage _ _)).after (ih _ _)

theorem turns_consolidate (s : Mind) (t : Tier) : Turns s [] (s.consolidate t).1 := by
  have read : Turns s [] s.now.2 := .rest ⟨rfl, rfl⟩ rfl rfl
  exact read.after (turns_consolidationPasses t s.now.1 Consolidation.maxPasses s.now.2 _)

theorem turns_consolidateIfOver (s : Mind) (t : Tier) : Turns s [] (s.consolidateIfOver t).1 := by
  unfold consolidateIfOver
  split
  · exact s.turns_consolidate t
  · exact .refl

theorem turns_boundTiers (s : Mind) : Turns s [] s.boundTiers.1 :=
  boundTiers_follows (fun _ => Course.refl) Turns.after turns_consolidateIfOver s

/-- A checkpoint lists the experiences of the day. -/
theorem turns_persist (s : Mind) : Turns s [] s.persist.1 := by
  let c : Checkpoint := ⟨s.readTiers, s.now.2.readPendingDay s.now.1, s.now.2.knowledge.entries⟩
  have persisted : s.persist.1 = s.now.2.setBackend (s.backend.saveCheckpoint c).1 := by
    unfold persist
    simp only
    split
    · rename_i b e hb
      exact congrArg s.now.2.setBackend (congrArg Prod.fst hb).symm
    · rename_i b hb
      exact congrArg s.now.2.setBackend (congrArg Prod.fst hb).symm
  rw [persisted]
  exact .single (.saved c rfl ⟨rfl, rfl⟩ rfl rfl)

theorem turns_recordRun (s : Mind) (report : NightlyReport) :
    Turns s [] (s.recordRun report) := by
  unfold recordRun
  simp only
  split
  · rename_i b recorded
    exact .single (.rest ⟨rfl, rfl⟩ rfl (Backend.contents_recordRun recorded).1)
  · exact .rest ⟨rfl, rfl⟩ rfl rfl

/-- The experience that an input leads to, from the state in which its call was noted. -/
def experienceOf (s : Mind) (input : Input) (outcome : ProcessOutcome) : Experience where
  id := s.source.ids (s.source.drawn + 1)
  input := input.text
  output := outcome.output
  concepts := s.extractor (input.text ++ " " ++ outcome.output)
  tier := outcome.tier
  timestamp := s.now.2.now.2.now.1

/-- What is recorded by processing an input: one experience, or nothing if it fails. -/
def lived (s : Mind) (collaborators : Collaborators) (input : Input) : List Experience :=
  (s.process collaborators input).2.toOption.toList.map (s.recordActivity.experienceOf input)

theorem turns_settle (s : Mind) (input : Input) (output : String) (embedding : Embedding)
    (retrieved : Nat) :
    Turns s ((s.settle input output embedding retrieved).2.toOption.toList.map
      (s.experienceOf input)) (s.settle input output embedding retrieved).1 := by
  unfold settle
  cases s.discoverAssociations embedding with
  | error e => exact .refl
  | ok associations =>
      have recorded : ∀ outcome : ProcessOutcome, outcome.output = output →
          outcome.tier = s.classifier input → Turns s [s.experienceOf input outcome]
            (s.remember input output embedding associations).1 := by
        intro outcome houtput htier
        refine .single (.recorded s.zone _ ⟨rfl, rfl⟩ ?_ rfl)
        rw [experienceOf, houtput, htier]
        rfl
      have bounded := turns_consolidateIfOver (s.remember input output embedding associations).1
        (s.remember input output embedding associations).2.tier
      exact (recorded _ rfl rfl).still bounded

theorem turns_answer (s : Mind) (generator : Generator) (input : Input) (embedding : Embedding) :
    Turns s ((s.answer generator input embedding).2.toOption.toList.map (s.experienceOf input))
      (s.answer generator input embedding).1 := by
  unfold answer
  cases s.store.retrieve s.config.retrieval embedding with
  | error e => exact .refl
  | ok found =>
      have used : Turns s [] { s with store := found.2 } := .rest ⟨rfl, rfl⟩ rfl rfl
      simp only
      cases generate generator (Prompt.forInput s.config.retrieval input.text found.1) with
      | error e => exact used
      | ok output =>
          exact used.after (turns_settle { s with store := found.2 } input output embedding _)

theorem turns_recordActivity (s : Mind) : Turns s [] s.recordActivity := by
  unfold recordActivity
  exact .rest ⟨rfl, rfl⟩ rfl rfl

/-- Processing an input records the experience that its outcome describes, and no other. -/
theorem turns_process (s : Mind) (collaborators : Collaborators) (input : Input) :
    Turns s (s.lived collaborators input) (s.process collaborators input).1 := by
  have embedded : Turns s [] (s.recordActivity.embed collaborators.embedder input.text).1 :=
    s.turns_recordActivity.after (.rest ⟨rfl, rfl⟩ rfl rfl)
  unfold lived process
  cases hasked : s.recordActivity.embed collaborators.embedder input.text with
  | mk t result =>
      rw [hasked] at embedded
      have same : t.experienceOf input = s.recordActivity.experienceOf input :=
        congrArg (·.1.experienceOf input) hasked.symm
      cases result with
      | error e => exact embedded
      | ok embedding =>
          rw [← same]
          exact embedded.after (t.turns_answer collaborators.generator input embedding)

/-- A foreground call or a change outside, with what it records. -/
inductive Act (s : Mind) : List Experience → Mind → Prop where
  | process (collaborators : Collaborators) (input : Input) :
      Act s (s.lived collaborators input) (s.process collaborators input).1
  | query (generator : Generator) (question : String) : Act s [] (s.query generator question).1
  | addContext (item : ContextItem) : Act s [] (s.addContext item)
  | consolidate (t : Tier) : Act s [] (s.consolidate t).1
  | persist : Act s [] s.persist.1
  | outside (clock : Clock) (refused : List String) (unwritable : ArchiveEntry → Bool) :
      Act s [] (s.outside clock refused unwritable)

theorem Act.turns {s s' : Mind} {new : List Experience} (act : Act s new s') :
    Turns s new s' := by
  cases act with
  | process collaborators input => exact s.turns_process collaborators input
  | query generator question => exact s.turns_recordActivity
  | addContext item => exact s.turns_recordActivity.after (.rest ⟨rfl, rfl⟩ rfl rfl)
  | consolidate t => exact s.turns_consolidate t
  | persist => exact s.turns_persist
  | outside clock refused unwritable => exact .single (.rest ⟨rfl, rfl⟩ rfl rfl)

/-- The end of a night: an entry with what the night has read is written, and what it holds leaves
the day; or the write fails and nothing happens. -/
inductive Closes (read : List Experience) (s s' : Mind) : Option Uid → Prop where
  | sealed (entry : ArchiveEntry) (zone : Time.Zone) (today : Time.Date)
      (holds : entry.experiences = read) (frame : Unlearned s s')
      (day : s'.day = s.day.clear zone today (read.map (·.id)))
      (backend : s.backend.append entry = .ok s'.backend) : Closes read s s' (some entry.id)
  | failed (frame : Unlearned s s') (day : s'.day = s.day) (backend : s'.backend = s.backend) :
      Closes read s s' none

theorem cleanupPhase_closes (s : Mind) (night : Night) : ∃ t, Turns s [] t ∧
    Closes night.experiences t (s.cleanupPhase night).1 (s.cleanupPhase night).2.2.1 := by
  refine ⟨s.boundTiers.1, s.turns_boundTiers, ?_⟩
  unfold cleanupPhase
  simp only
  generalize s.boundTiers.1 = t
  rcases t.archive.sealBatch_cases t.source night.day night.experiences night.patterns
      { night.metrics with tierSizes := ⟨t.store.sizes⟩ } with
    ⟨entry, backend, _, _, holds, _, _, append, outcome⟩ | ⟨reason, outcome⟩
  · simp only [outcome]
    exact .sealed entry _ _ holds ⟨rfl, rfl⟩ rfl append
  · simp only [outcome]
    exact .failed ⟨rfl, rfl⟩ rfl rfl

/-- The patterns that a night starting in `s` finds. -/
def found (s : Mind) : List Pattern :=
  Detect.all s.config.nightly s.now.2.now.1 s.day.experiences

/-- The day of `s` with what was found in it, and with the counters of both. -/
structure Gathered (s : Mind) (night : Night) : Prop where
  day : night.day = s.day.day
  experiences : night.experiences = s.day.experiences
  patterns : night.patterns = s.found
  lived : night.metrics.experiences = s.day.experiences.length
  recurring : night.metrics.recurringPatterns = s.found.countP (·.kind == .recurring)
  sequential : night.metrics.sequentialPatterns = s.found.countP (·.kind == .sequential)
  coOccurrence : night.metrics.coOccurrencePatterns = s.found.countP (·.kind == .coOccurrence)

/-- The last phase decides how a night ends. -/
theorem finishNight_eq (s : Mind) (p : Progress) : ∃ night : Night,
    night.experiences = p.night.experiences ∧
      (s.finishNight p).1 = (s.cleanupPhase night).1.now.2 ∧
      (s.finishNight p).2.archiveEntry = (s.cleanupPhase night).2.2.1 ∧
      (s.finishNight p).2.phases = p.phases ++ [(s.cleanupPhase night).2.1] ∧
      (s.finishNight p).2.metrics = (s.cleanupPhase night).2.2.2 ∧
      (s.finishNight p).2.completed = ((s.finishNight p).2.archiveEntry.isSome &&
        (s.finishNight p).2.phases.all (·.status.isCompleted)) ∧
      ∀ s₀ : Mind, s₀.Gathered p.night → s₀.Gathered night := by
  unfold finishNight
  simp only
  generalize hnight : ({ p.night with metrics := _ } : Night) = night
  refine ⟨night, hnight ▸ rfl, ?_⟩
  generalize s.cleanupPhase night = outcome
  refine ⟨rfl, rfl, rfl, rfl, trivial, ?_⟩
  rintro s₀ ⟨day, experiences, patterns, lived, recurring, sequential, coOccurrence⟩
  subst hnight
  exact ⟨day, experiences, patterns, lived, recurring, sequential, coOccurrence⟩

theorem finishNight_closes (s : Mind) (p : Progress) : ∃ t, Turns s [] t ∧
    Closes p.night.experiences t (s.finishNight p).1 (s.finishNight p).2.archiveEntry := by
  obtain ⟨night, read, last, entry, _⟩ := s.finishNight_eq p
  obtain ⟨t, turns, closes⟩ := s.cleanupPhase_closes night
  rw [last, entry, ← read]
  refine ⟨t, turns, ?_⟩
  generalize s.cleanupPhase night = outcome at closes ⊢
  obtain ⟨s', cleanup, entry, metrics⟩ := outcome
  cases closes with
  | sealed entry zone today holds frame day backend =>
      exact .sealed entry zone today holds ⟨frame.config, frame.knowledge⟩ day backend
  | failed frame day backend => exact .failed ⟨frame.config, frame.knowledge⟩ day backend

variable {lbl : Type} {meanwhile law : Mind → List lbl → Mind → Prop}

/-- A law of all that happens in a night between two of its phases: at its questions, and in the
course of its training. -/
structure Abides (meanwhile law : Mind → List lbl → Mind → Prop) : Prop where
  refl (s : Mind) : law s [] s
  trans {s s' s'' : Mind} {new more : List lbl} :
    law s new s' → law s' more s'' → law s (new ++ more) s''
  between {s s' : Mind} {new : List lbl} : meanwhile s new s' → law s new s'
  drawn (s : Mind) : law s [] s.freshId.2
  learned (s : Mind) (lessons : List Lesson) : law s [] (s.markTrained lessons)

theorem Abides.moves_structurePhase (abides : Abides meanwhile law) (s : Mind) :
    s.structurePhase.Moves (fun s s' => law s [] s') s :=
  Mind.moves_structurePhase abides.refl (fun _ _ _ first second => abides.trans first second)
    abides.learned abides.drawn s

theorem phase_of_structurePhase {s t : Mind} {new : List lbl} {result : PhaseResult}
    {batches : List BatchReport}
    (ends : s.structurePhase.Ends meanwhile new t (result, batches)) :
    result.phase = .updatingStructure := by
  unfold structurePhase at ends
  obtain ⟨_, _, _, _, _, _, finished⟩ := ends.bind_cases
  obtain ⟨_, _, hresult⟩ := finished.of_done
  rw [Prod.mk.injEq] at hresult
  rw [hresult.1]

/-- The phases from the third on: a stretch, and the end of the night. -/
theorem Abides.updateAndFinish (abides : Abides meanwhile law) {p : Progress} {s last : Mind}
    {isOpen : Bool} {new : List lbl} {report : NightlyReport}
    (ends : (updateAndFinish p s isOpen).Ends meanwhile new last report) :
    ∃ t p' result, law s new t ∧ t.finishNight p' = (last, report) ∧ p'.night = p.night ∧
      p'.phases = p.phases ++ [result] ∧ result.phase = .updatingStructure := by
  unfold Mind.updateAndFinish at ends
  cases isOpen with
  | true =>
      obtain ⟨front, back, t, ⟨result, batches⟩, rfl, trained, finished⟩ := ends.bind_cases
      have stretch : law s front t := trained.follows id abides.between abides.trans
        (abides.moves_structurePhase s)
      simp only at finished
      generalize hp : ({ p with phases := p.phases ++ [result], batches } : Progress) = p' at finished
      generalize hfinish : t.finishNight p' = outcome at finished
      obtain ⟨rfl, rfl, rfl⟩ := finished.of_done
      rw [List.append_nil]
      subst hp
      exact ⟨t, _, result, stretch, hfinish, rfl, rfl, phase_of_structurePhase trained⟩
  | false =>
      simp only [Bool.false_eq_true, if_false] at ends
      generalize hp : ({ p with
        phases := p.phases ++ [.skipped .updatingStructure gateClosed] } : Progress) = p' at ends
      generalize hfinish : s.finishNight p' = outcome at ends
      obtain ⟨rfl, rfl, rfl⟩ := ends.of_done
      subst hp
      exact ⟨s, _, _, abides.refl s, hfinish, rfl, rfl, rfl⟩

/-- A night begins with its first phase, before the first question. -/
theorem nightlyPhases_eq (s : Mind) : ∃ p result,
    s.nightlyPhases = .gate s.now.2.now.2 (integrateAndFinish p) ∧ s.Gathered p.night ∧
      p.phases = [result] ∧ result.phase = .extracting :=
  ⟨_, _, rfl, ⟨rfl, rfl, rfl, rfl, rfl, rfl, rfl⟩, rfl, rfl⟩

theorem integrateAndFinish_true (p : Progress) (s : Mind) : ∃ p' result,
    integrateAndFinish p s true =
        .gate (s.integratePhase p.night.patterns).1 (updateAndFinish p') ∧
      (∀ s₀ : Mind, s₀.Gathered p.night → s₀.Gathered p'.night) ∧
      p'.phases = p.phases ++ [result] ∧ result.phase = .integrating ∧
      result.status = .completed := by
  refine ⟨_, _, rfl, ?_, rfl, rfl, rfl⟩
  rintro s₀ ⟨day, experiences, patterns, lived, recurring, sequential, coOccurrence⟩
  exact ⟨day, experiences, patterns, lived, recurring, sequential, coOccurrence⟩

theorem integrateAndFinish_false (p : Progress) (s : Mind) : ∃ p' result,
    integrateAndFinish p s false = updateAndFinish p' s false ∧ p'.night = p.night ∧
      p'.phases = p.phases ++ [result] ∧ result.phase = .integrating ∧
      result.status = .skipped gateClosed := by
  unfold integrateAndFinish
  simp only [Bool.false_eq_true, if_false]
  exact ⟨_, _, rfl, rfl, rfl, rfl, rfl⟩

/-- The report of a night tells how its second phase ended. -/
theorem isIntegrated_finishNight {s last : Mind} {p : Progress} {report : NightlyReport}
    {first second third : PhaseResult} (finished : s.finishNight p = (last, report))
    (phases : p.phases = [first] ++ [second] ++ [third]) (hfirst : first.phase = .extracting)
    (hsecond : second.phase = .integrating) :
    report.isIntegrated = second.status.isCompleted := by
  obtain ⟨_, _, _, _, all, _⟩ := s.finishNight_eq p
  rw [finished, phases] at all
  simp only at all
  simp [NightlyReport.isIntegrated, NightlyReport.phase?, all, hfirst, hsecond]

/-- A night, if it comes to its end: a stretch from its first question on, the second phase or
nothing, another stretch, and the end of the night. -/
theorem Abides.nightlyPhases (abides : Abides meanwhile law) {s last : Mind}
    {new : List lbl} {report : NightlyReport}
    (ends : s.nightlyPhases.Ends meanwhile new last report) :
    ∃ front back t u v p, new = front ++ back ∧ law s.now.2.now.2 front t ∧
      u = (if report.isIntegrated then (t.integratePhase s.found).1 else t) ∧ law u back v ∧
      v.finishNight p = (last, report) ∧ s.Gathered p.night ∧
      p.phases.map (·.phase) = [.extracting, .integrating, .updatingStructure] := by
  obtain ⟨p₁, extracted, hnight, gathered, phases₁, hextracted⟩ := s.nightlyPhases_eq
  rw [hnight] at ends
  cases ends with
  | @gate _ t _ _ front back _ answer between rest =>
      cases answer with
      | true =>
          obtain ⟨p₂, integrated, hgate, more, phases₂, hphase, hstatus⟩ :=
            integrateAndFinish_true p₁ t
          rw [hgate, gathered.patterns] at rest
          cases rest with
          | @gate _ u _ _ middle back _ answer between' rest =>
              obtain ⟨v, p, result, stretch, finished, night, phases, hresult⟩ :=
                abides.updateAndFinish rest
              rw [phases₂, phases₁] at phases
              have told := isIntegrated_finishNight finished phases hextracted hphase
              rw [hstatus] at told
              refine ⟨front, middle ++ back, t, (t.integratePhase s.found).1, v, p, rfl,
                abides.between between, ?_, abides.trans (abides.between between') stretch,
                finished, night ▸ more s gathered, ?_⟩
              · rw [told]
                rfl
              · simp [phases, hextracted, hphase, hresult]
      | false =>
          obtain ⟨p₂, skipped, hgate, night₂, phases₂, hphase, hstatus⟩ :=
            integrateAndFinish_false p₁ t
          rw [hgate] at rest
          obtain ⟨v, p, result, stretch, finished, night, phases, hresult⟩ :=
            abides.updateAndFinish rest
          rw [phases₂, phases₁] at phases
          have told := isIntegrated_finishNight finished phases hextracted hphase
          rw [hstatus] at told
          refine ⟨front, back, t, t, v, p, rfl, abides.between between, ?_, stretch, finished,
            (night.trans night₂) ▸ gathered, ?_⟩
          · rw [told]
            rfl
          · simp [phases, hextracted, hphase, hresult]

theorem Abides.halted_updateAndFinish (abides : Abides meanwhile law) {p : Progress}
    {s last : Mind} {isOpen : Bool} {new : List lbl}
    (halts : (Mind.updateAndFinish p s isOpen).Halts meanwhile new last) :
    law s new last ∨ ∃ t p', law s new t ∧ last = (t.finishNight p').1 ∧ p'.night = p.night := by
  unfold Mind.updateAndFinish at halts
  cases isOpen with
  | true =>
      rcases halts.bind_cases with trained | ⟨front, back, t, result, rfl, trained, finished⟩
      · exact .inl (trained.follows id abides.between abides.trans (abides.moves_structurePhase s))
      · have stretch : law s front t := trained.follows id abides.between abides.trans
          (abides.moves_structurePhase s)
        simp only at finished
        generalize hp : ({ p with
          phases := p.phases ++ [result.1], batches := result.2 } : Progress) = p' at finished
        generalize hfinish : t.finishNight p' = outcome at finished
        obtain ⟨rfl, rfl⟩ := finished.of_done
        rw [List.append_nil]
        exact .inr ⟨t, p', stretch, by rw [hfinish], by rw [← hp]⟩
  | false =>
      simp only [Bool.false_eq_true, if_false] at halts
      generalize hp : ({ p with
        phases := p.phases ++ [.skipped .updatingStructure gateClosed] } : Progress) = p' at halts
      generalize hfinish : s.finishNight p' = outcome at halts
      obtain ⟨rfl, rfl⟩ := halts.of_done
      exact .inr ⟨s, p', abides.refl s, by rw [hfinish], by rw [← hp]⟩

/-- A night that is left somewhere: a stretch without the end of the night, or with it. Here `law`
holds of the first two phases as well. -/
theorem Abides.halted (abides : Abides meanwhile law) (clock : ∀ s : Mind, law s [] s.now.2)
    (integrated : ∀ (s : Mind) patterns, law s [] (s.integratePhase patterns).1) {s last : Mind}
    {new : List lbl} (halts : s.nightlyPhases.Halts meanwhile new last) :
    law s new last ∨ ∃ t p, law s new t ∧ last = (t.finishNight p).1 ∧
      p.night.experiences = s.day.experiences := by
  have extracted : law s [] s.now.2.now.2 := abides.trans (clock s) (clock s.now.2)
  obtain ⟨p₁, _, hnight, gathered, _⟩ := s.nightlyPhases_eq
  rw [hnight] at halts
  cases halts with
  | here => exact .inl extracted
  | @gate _ t _ _ front back answer between rest =>
      have first : law s front t := abides.trans extracted (abides.between between)
      cases answer with
      | true =>
          obtain ⟨p₂, _, hgate, more, _⟩ := integrateAndFinish_true p₁ t
          rw [hgate] at rest
          cases rest with
          | here => exact .inl (abides.trans first (integrated t _))
          | @gate _ u _ _ middle back answer between' rest =>
              have second : law t middle u :=
                abides.trans (integrated t p₁.night.patterns) (abides.between between')
              rcases abides.halted_updateAndFinish rest with rest | ⟨v, p, rest, hlast, night⟩
              · exact .inl (abides.trans first (abides.trans second rest))
              · exact .inr ⟨v, p, abides.trans first (abides.trans second rest), hlast,
                  by rw [night, (more s gathered).experiences]⟩
      | false =>
          obtain ⟨p₂, _, hgate, night₂, _⟩ := integrateAndFinish_false p₁ t
          rw [hgate] at rest
          rcases abides.halted_updateAndFinish rest with rest | ⟨v, p, rest, hlast, night⟩
          · exact .inl (abides.trans first rest)
          · exact .inr ⟨v, p, abides.trans first rest, hlast,
              by rw [night, night₂, gathered.experiences]⟩

end Mind

end Engram
