import Engram.Proofs.Capacity
import Engram.Proofs.LogOrder
import Mathlib.Logic.Relation

/-! The contract of a night. Its four phases are reported in order, whatever the gate and the
trainer answer. A gate that is closed ends the night at once, without a lesson. The last phase always
runs: it bounds the tiers and seals the day, and a day that cannot be sealed is left as it is. -/
namespace Engram

open scoped List

theorem ArchiveLog.experiences_overflow {l : ArchiveLog} {source : Source} {memories : List Memory}
    {e : ArchiveEntry} (early : e ∈ written (l.overflow source memories)) : e.experiences = [] := by
  rcases l.stage_eq source memories with ⟨hnone, _⟩ | ⟨source', today, hwrite, _⟩
  · rw [hnone] at early
    cases early
  · rw [hwrite] at early
    generalize ({ l with pending := l.pending ++ memories } : ArchiveLog) = added at early
    rcases added.sealBatch_cases source' today [] [] {} with
      ⟨entry, _, _, _, experiences, _, _, _, outcome⟩ | ⟨reason, outcome⟩
    · rw [outcome] at early
      obtain rfl := List.mem_singleton.mp early
      exact experiences
    · rw [outcome] at early
      cases early

/-- The counters of an entry agree with what it holds. -/
structure ArchiveEntry.Counted (e : ArchiveEntry) : Prop where
  experiences : e.metrics.experiences = e.experiences.length
  recurring : e.metrics.recurringPatterns = e.patterns.countP (·.kind == .recurring)
  sequential : e.metrics.sequentialPatterns = e.patterns.countP (·.kind == .sequential)
  coOccurrence : e.metrics.coOccurrencePatterns = e.patterns.countP (·.kind == .coOccurrence)
  patterns : e.metrics.recurringPatterns + e.metrics.sequentialPatterns +
    e.metrics.coOccurrencePatterns = e.patterns.length
  memories : e.metrics.memoriesArchived = e.memories.length

theorem Pattern.countP_kinds (patterns : List Pattern) :
    patterns.countP (·.kind == .recurring) + patterns.countP (·.kind == .sequential) +
      patterns.countP (·.kind == .coOccurrence) = patterns.length := by
  induction patterns with
  | nil => rfl
  | cons p patterns ih =>
      simp only [List.countP_cons, List.length_cons, ← ih]
      cases p.kind with
      | recurring =>
          simp
          omega
      | sequential =>
          simp
          omega
      | coOccurrence =>
          simp
          omega

namespace Mind

open Nightly

/-- The tiers are bounded. What was demoted is pending, behind what was pending before, or was
written early. -/
structure Bounds (v b : Mind) (demoted : List Memory) (early : List ArchiveEntry) : Prop where
  active : b.active ++ demoted ~ v.active
  archive : v.archive.Continues demoted early b.archive
  early (e : ArchiveEntry) : e ∈ early → e.experiences = []
  day : b.day = v.day
  knowledge : b.knowledge = v.knowledge

theorem Bounds.refl (v : Mind) : Bounds v v [] [] where
  active := by simp
  archive := .refl v.archive
  early _ h := by cases h
  day := rfl
  knowledge := rfl

theorem Bounds.trans {v b c : Mind} {demoted more : List Memory} {early later : List ArchiveEntry}
    (first : Bounds v b demoted early) (second : Bounds b c more later) :
    Bounds v c (demoted ++ more) (early ++ later) where
  active := by
    calc c.active ++ (demoted ++ more)
        _ = c.active ++ demoted ++ more := by rw [List.append_assoc]
        _ ~ c.active ++ more ++ demoted := perm_append_swap _ _ _
        _ ~ b.active ++ demoted := second.active.append_right demoted
        _ ~ v.active := first.active
  archive := first.archive.trans second.archive
  early e h := (List.mem_append.mp h).elim (first.early e) (second.early e)
  day := second.day.trans first.day
  knowledge := second.knowledge.trans first.knowledge

theorem bounds_consolidateIfOver (v : Mind) (t : Tier) :
    ∃ demoted early, Bounds v (v.consolidateIfOver t).1 demoted early := by
  obtain ⟨source, store, demoted, hmind, demotes⟩ := v.consolidateIfOver_spec t
  rw [hmind]
  refine ⟨demoted, ArchiveLog.written (v.archive.overflow source demoted), ?_⟩
  exact {
    active := flatMap_tiers_perm demotes.parts demotes.others
    archive := v.archive.continues_stage source demoted
    early := fun _ => ArchiveLog.experiences_overflow
    day := rfl
    knowledge := rfl }

theorem exists_bounds (v : Mind) : ∃ demoted early, Bounds v v.boundTiers.1 demoted early := by
  refine boundTiers_follows (R := fun v b => ∃ demoted early, Bounds v b demoted early)
    (fun v => ⟨[], [], .refl v⟩) ?_ bounds_consolidateIfOver v
  rintro v b c ⟨demoted, early, first⟩ ⟨more, later, second⟩
  exact ⟨demoted ++ more, early ++ later, first.trans second⟩

/-- How the day of a night that began in `s` is sealed if its last phase begins in `v`. The entry
has the day, the experiences and the patterns of the beginning; what has been recorded since then
stays for the next night. -/
inductive Sealing (s v last : Mind) (demoted : List Memory) :
    Option Uid → DailyMetrics → Prop where
  | sealed (entry : ArchiveEntry) (early : List ArchiveEntry)
      (log : v.backend.Extends (early ++ [entry]) last.backend)
      (without : ∀ e ∈ early, e.experiences = []) (date : entry.date = s.day.day)
      (experiences : entry.experiences = s.day.experiences) (patterns : entry.patterns = s.found)
      (counted : entry.Counted)
      (memories : archived early ++ entry.memories = v.archive.pending ++ demoted)
      (emptied : last.archive.pending = [])
      (left : last.day.experiences = v.day.experiences.filter fun e =>
        !(s.day.experiences.map (·.id)).contains e.id) :
      Sealing s v last demoted (some entry.id) entry.metrics
  | failed (early : List ArchiveEntry) (metrics : DailyMetrics)
      (log : v.backend.Extends early last.backend) (without : ∀ e ∈ early, e.experiences = [])
      (memories : archived early ++ last.archive.pending = v.archive.pending ++ demoted)
      (day : last.day = v.day) : Sealing s v last demoted none metrics

theorem Sealing.now {s v last : Mind} {demoted : List Memory} {entry : Option Uid}
    {metrics : DailyMetrics} (sealing : Sealing s v last demoted entry metrics) :
    Sealing s v last.now.2 demoted entry metrics := by
  cases sealing with
  | sealed entry early log without date experiences patterns counted memories emptied left =>
      exact .sealed entry early log without date experiences patterns counted memories emptied left
  | failed early metrics log without memories day =>
      exact .failed early metrics log without memories day

theorem Gathered.counted {s : Mind} {night : Night} (gathered : s.Gathered night)
    {entry : ArchiveEntry} {tierSizes : TierMap Nat} {memoriesArchived : Nat}
    (experiences : entry.experiences = night.experiences)
    (patterns : entry.patterns = night.patterns)
    (metrics : entry.metrics = { night.metrics with tierSizes, memoriesArchived })
    (memories : memoriesArchived = entry.memories.length) : entry.Counted where
  experiences := by rw [metrics, experiences, gathered.experiences, gathered.lived]
  recurring := by rw [metrics, patterns, gathered.patterns, gathered.recurring]
  sequential := by rw [metrics, patterns, gathered.patterns, gathered.sequential]
  coOccurrence := by rw [metrics, patterns, gathered.patterns, gathered.coOccurrence]
  patterns := by
    rw [metrics, patterns, gathered.patterns, gathered.recurring, gathered.sequential,
      gathered.coOccurrence]
    exact Pattern.countP_kinds s.found
  memories := by rw [metrics, memories]

/-- The last phase seals the day after the tiers are bounded. -/
theorem cleanupPhase_seals {s : Mind} {night : Night} (gathered : s.Gathered night) (v : Mind) :
    (v.cleanupPhase night).2.1.phase = .cleaningUp ∧
      (v.cleanupPhase night).1.knowledge = v.knowledge ∧
      ∃ demoted, (v.cleanupPhase night).1.active ++ demoted ~ v.active ∧
        Sealing s v (v.cleanupPhase night).1 demoted (v.cleanupPhase night).2.2.1
          (v.cleanupPhase night).2.2.2 := by
  -- There are two places that write: the entries written early while the tiers are bounded come
  -- first, and the entry of the day holds what they have left pending.
  obtain ⟨demoted, early, bounds⟩ := v.exists_bounds
  unfold cleanupPhase
  simp only
  generalize v.boundTiers = outcome at bounds ⊢
  obtain ⟨b, actions⟩ := outcome
  simp only at bounds ⊢
  rcases b.archive.sealBatch_cases b.source night.day night.experiences night.patterns
      { night.metrics with tierSizes := ⟨b.store.sizes⟩ } with
    ⟨entry, backend, batch, date, experiences, patterns, metrics, append, outcome⟩ |
      ⟨reason, outcome⟩
  · simp only [outcome]
    refine ⟨trivial, bounds.knowledge, demoted, bounds.active, ?_⟩
    refine .sealed entry early ?_ bounds.early (date.trans gathered.day)
      (experiences.trans gathered.experiences) (patterns.trans gathered.patterns) ?_ ?_ rfl ?_
    · exact bounds.archive.backend.trans (Backend.append_extends append)
    · exact gathered.counted experiences patterns metrics (congrArg List.length batch).symm
    · rw [batch]
      exact bounds.archive.order
    · rw [← gathered.experiences, ← bounds.day]
      rfl
  · simp only [outcome]
    exact ⟨trivial, bounds.knowledge, demoted, bounds.active,
      .failed early _ bounds.archive.backend bounds.early bounds.archive.order bounds.day⟩

/-- How a night that began in `s` ends if its last phase begins in `v`. -/
structure Closing (s v last : Mind) (report : NightlyReport) : Prop where
  phases : report.phases.map (·.phase) =
    [.extracting, .integrating, .updatingStructure, .cleaningUp]
  completed : report.completed = true ↔
    report.archiveEntry.isSome ∧ ∀ result ∈ report.phases, result.status = .completed
  within : last.Within
  knowledge : last.knowledge = v.knowledge
  sealing : ∃ demoted, last.active ++ demoted ~ v.active ∧
    Sealing s v last demoted report.archiveEntry report.metrics

theorem closing_finishNight {s v last : Mind} {p : Progress} {report : NightlyReport}
    (finished : v.finishNight p = (last, report)) (gathered : s.Gathered p.night)
    (phases : p.phases.map (·.phase) = [.extracting, .integrating, .updatingStructure]) :
    Closing s v last report := by
  have within := v.within_finishNight p
  obtain ⟨night, _, hlast, hentry, hphases, hmetrics, hcompleted, kept⟩ := v.finishNight_eq p
  obtain ⟨hphase, hknown, demoted, hactive, sealing⟩ := cleanupPhase_seals (kept s gathered) v
  rw [finished] at within hlast hentry hphases hmetrics hcompleted
  simp only at within hlast hentry hphases hmetrics hcompleted
  generalize v.cleanupPhase night = c at hlast hentry hphases hmetrics hphase hknown hactive sealing
  obtain ⟨cleaned, result, entry, metrics⟩ := c
  simp only at hlast hentry hphases hmetrics hphase hknown hactive sealing
  refine ⟨?_, ?_, within, ?_, demoted, ?_, ?_⟩
  · rw [hphases, List.map_append, phases]
    simp [hphase]
  · rw [hcompleted]
    simp [PhaseStatus.isCompleted]
  · rw [hlast]
    exact hknown
  · rw [hlast]
    exact hactive
  · rw [hentry, hmetrics, hlast]
    exact sealing.now

/-- The day, the tiers, the pending batch and the archive are as they were; at most the use of
memories has changed. -/
structure Rests (s s' : Mind) : Prop where
  quiet : Quiet (fun _ => True) s s'
  day : s'.day = s.day

theorem Rests.trans {s s' s'' : Mind} (first : Rests s s') (second : Rests s' s'') : Rests s s'' :=
  ⟨first.quiet.trans second.quiet, second.day.trans first.day⟩

theorem Rests.of_eq {s s' : Mind} (config : s'.config = s.config) (cache : s'.cache = s.cache)
    (store : s'.store = s.store) (archive : s'.archive = s.archive) (day : s'.day = s.day) :
    Rests s s' :=
  ⟨.of_eq config cache store archive, day⟩

theorem rests_integratePhase (s : Mind) (patterns : List Pattern) :
    Rests s (s.integratePhase patterns).1 :=
  ⟨s.quiet_integratePhase patterns, rfl⟩

/-- From one state to another by what happens meanwhile, and by steps that leave the day, the tiers
and the archive at rest. -/
def Drifts {lbl : Type} (meanwhile : Mind → List lbl → Mind → Prop) : Mind → Mind → Prop :=
  Relation.ReflTransGen fun a b => Rests a b ∨ ∃ labels, meanwhile a labels b

variable {lbl : Type} {meanwhile : Mind → List lbl → Mind → Prop}

theorem Rests.drifts {s s' : Mind} (rests : Rests s s') : Drifts meanwhile s s' :=
  .single (.inl rests)

/-- If nothing happens meanwhile, everything is at rest. -/
theorem Drifts.rests {s s' : Mind} (drifts : Drifts meanwhile s s')
    (undisturbed : ∀ a labels b, meanwhile a labels b → Rests a b) : Rests s s' := by
  induction drifts with
  | refl => exact .of_eq rfl rfl rfl rfl rfl
  | tail _ last ih =>
      rcases last with rests | ⟨labels, happened⟩
      · exact ih.trans rests
      · exact ih.trans (undisturbed _ labels _ happened)

/-- Up to its last phase a night itself changes only the use of memories and what is known. -/
theorem abides_drifts (meanwhile : Mind → List lbl → Mind → Prop) :
    Abides meanwhile fun s _ s' => Drifts meanwhile s s' where
  refl _ := .refl
  trans first second := Relation.ReflTransGen.trans first second
  between happened := .single (.inr ⟨_, happened⟩)
  drawn _ := Rests.drifts (.of_eq rfl rfl rfl rfl rfl)
  learned _ _ := Rests.drifts (.of_eq rfl rfl rfl rfl rfl)

/-- A night, if it comes to its end, has come to its last phase. -/
theorem closing_nightlyPhases {s last : Mind} {labels : List lbl} {report : NightlyReport}
    (ends : s.nightlyPhases.Ends meanwhile labels last report) :
    ∃ v, Drifts meanwhile s v ∧ Closing s v last report := by
  obtain ⟨front, back, t, u, v, p, _, first, hu, second, finished, gathered, phases⟩ :=
    (abides_drifts meanwhile).nightlyPhases ends
  have extracted : Drifts meanwhile s s.now.2.now.2 := Rests.drifts (.of_eq rfl rfl rfl rfl rfl)
  have integrated : Drifts meanwhile t u := by
    rw [hu]
    split
    · exact (t.rests_integratePhase s.found).drifts
    · exact .refl
  exact ⟨v, ((extracted.trans first).trans integrated).trans second,
    closing_finishNight finished gathered phases⟩

/-- A gate that is closed before the third phase ends the night at once. -/
theorem closing_updateAndFinish {s : Mind} {p : Progress} (gathered : s.Gathered p.night)
    (phases : p.phases.map (·.phase) = [.extracting, .integrating]) (v : Mind) :
    ∃ last report, updateAndFinish p v false = .done last report ∧ Closing s v last report := by
  unfold updateAndFinish
  simp only [Bool.false_eq_true, if_false]
  generalize hp : ({ p with
    phases := p.phases ++ [.skipped .updatingStructure gateClosed] } : Progress) = p'
  generalize hfinish : v.finishNight p' = outcome
  obtain ⟨last, report⟩ := outcome
  refine ⟨last, report, rfl, closing_finishNight hfinish (hp ▸ gathered) ?_⟩
  rw [← hp, List.map_append, phases]
  rfl

/-- The contract of a night that begins in any state. The gate is asked before the second phase and
before the third. If it is closed the night ends without another question, so no trainer is called;
and if it is closed before the second phase, what is known and what memories are associated with is
as it was. For every host, that is, for all answers of the gate and of the trainer and all that
happens meanwhile, the four phases are reported and the day is sealed or left as it is. Only what
happens meanwhile touches the day, the tiers or the archive before the last phase does. -/
theorem night_seals_or_keeps_the_day (s : Mind) :
    ∃ integrate : Mind → Bool → Cycle Mind NightlyReport,
      s.nightlyPhases = .gate s.now.2.now.2 integrate ∧
      (∀ t, ∃ last report, integrate t false = .done last report ∧ Closing s t last report) ∧
      (∀ t, ∃ update : Mind → Bool → Cycle Mind NightlyReport,
        integrate t true = .gate (t.integratePhase s.found).1 update ∧
        ∀ u, ∃ last report, update u false = .done last report ∧ Closing s u last report) ∧
      ∀ (ω : Type) (host : Cycle.Host (StateM ω) Mind) (w : ω),
        ∃ v, Drifts host.Alters s v ∧
          ((∀ a labels b, host.Alters a labels b → Rests a b) → Rests s v) ∧
          Closing s v (s.nightlyPhases.run host w).1.1 (s.nightlyPhases.run host w).1.2 := by
  obtain ⟨p, extracted, hnight, gathered, phases, hextracted⟩ := s.nightlyPhases_eq
  refine ⟨integrateAndFinish p, hnight, ?_, ?_, ?_⟩
  · intro t
    obtain ⟨p', skipped, hskip, night, phases', hphase, _⟩ := integrateAndFinish_false p t
    rw [hskip]
    refine closing_updateAndFinish (night ▸ gathered) ?_ t
    simp [phases', phases, hextracted, hphase]
  · intro t
    obtain ⟨p', integrated, hgate, more, phases', hphase, _⟩ := integrateAndFinish_true p t
    rw [gathered.patterns] at hgate
    refine ⟨updateAndFinish p', hgate, closing_updateAndFinish (more s gathered) ?_⟩
    simp [phases', phases, hextracted, hphase]
  · intro ω host w
    obtain ⟨v, drifts, closing⟩ := closing_nightlyPhases (s.nightlyPhases.ends_run host w)
    exact ⟨v, drifts, drifts.rests, closing⟩

/-- Who gives the same answer at the gate and to every batch, touches nothing and counts how often
it is asked or has to train. -/
def Sample.steady (answer : Bool) (reply : TrainReply) : Cycle.Host (StateM Nat) Mind where
  gate s := fun asked => ((s, answer), asked + 1)
  device s := pure (s, ⟨true, 1, ⟨0⟩, 1, 3⟩)
  train s _ := fun asked => ((s, reply), asked + 1)
  rollback s _ := pure s
  pause s _ := pure s
  wait s _ := pure (s, false)

/-- Nights with one experience. With a closed gate, one question is asked, and the experience is
sealed, or it stays if nothing can be written. With an open one, two questions are asked and what
the experience has taught is trained in one batch between them and the end. -/
theorem night_seals_or_keeps_the_day_sample :
    let closed := Sample.steady false (.error (.unreachable "offline"))
    let opened := Sample.steady true (.ok ⟨true, some 0.25, ""⟩)
    let s := Sample.process (Sample.empty (.volatile .empty)) "alpha"
    let barred := s.outside s.source.clock [Operation.append.name] fun _ => false
    let keen := Sample.process { start { Sample.config with nightly := { minOccurrences := 1 } }
      (.ofStorage (.volatile .empty)) Sample.source with extractor := fun _ => ["rain"] } "alpha"
    let night (host : Cycle.Host (StateM Nat) Mind) (s : Mind) := (s.nightlyPhases.run host 0).1
    (s.nightlyPhases.run closed 0).2 = 1 ∧
      (∃ v, Rests s v ∧ Closing s v (night closed s).1 (night closed s).2) ∧
      (night closed s).2.archiveEntry.isSome ∧ (night closed s).1.day.experiences.length = 0 ∧
      (∃ v, Rests barred v ∧ Closing barred v (night closed barred).1 (night closed barred).2) ∧
      (night closed barred).2.archiveEntry.isNone ∧
      (night closed barred).1.day.experiences.length = 1 ∧
      (keen.nightlyPhases.run opened 0).2 = 3 ∧
      (∃ v, Rests keen v ∧ Closing keen v (night opened keen).1 (night opened keen).2) ∧
      (night opened keen).2.batches.map (·.outcome.isApplied) = [true] ∧
      (night opened keen).1.knowledge.entries.map (fun e => (e.concept, e.trainedRevision)) =
        [("rain", 1)] ∧
      (night opened keen).1.day.experiences.length = 0 := by
  intro closed opened s barred keen night
  have undisturbed : ∀ answer reply a labels b,
      (Sample.steady answer reply).Alters a labels b → Rests a b := by
    intro answer reply a labels b alters
    have same : b = a := by cases alters <;> rfl
    rw [same]
    exact .of_eq rfl rfl rfl rfl rfl
  have closes : ∀ host, (∀ a labels b, host.Alters a labels b → Rests a b) → ∀ s,
      ∃ v, Rests s v ∧ Closing s v (night host s).1 (night host s).2 := by
    intro host rest s
    obtain ⟨_, _, _, _, every⟩ := night_seals_or_keeps_the_day s
    obtain ⟨v, _, rests, closing⟩ := every Nat host 0
    exact ⟨v, rests rest, closing⟩
  obtain ⟨asked, sealed, emptied, kept, waiting⟩ : (s.nightlyPhases.run closed 0).2 = 1 ∧
      (night closed s).2.archiveEntry.isSome ∧ (night closed s).1.day.experiences.length = 0 ∧
      (night closed barred).2.archiveEntry.isNone ∧
      (night closed barred).1.day.experiences.length = 1 := by
    decide +kernel
  obtain ⟨askedAgain, applied, trained, ended⟩ : (keen.nightlyPhases.run opened 0).2 = 3 ∧
      (night opened keen).2.batches.map (·.outcome.isApplied) = [true] ∧
      (night opened keen).1.knowledge.entries.map (fun e => (e.concept, e.trainedRevision)) =
        [("rain", 1)] ∧
      (night opened keen).1.day.experiences.length = 0 := by
    decide +kernel
  have hclosed := closes closed (undisturbed _ _)
  have hopened := closes opened (undisturbed _ _)
  exact ⟨asked, hclosed s, sealed, emptied, hclosed barred, kept, waiting, askedAgain, hopened keen,
    applied, trained, ended⟩

end Mind

end Engram
