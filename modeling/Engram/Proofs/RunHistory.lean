import Engram.Proofs.Experience
import Engram.Proofs.Storage

/-! The history of nightly runs. Only the end of a night records a run, and it comes last; the times
in its record are read in order from a clock that does not go back. -/
namespace Engram

theorem DurableArchive.runs_append {a a' : DurableArchive} {entry : ArchiveEntry}
    (h : a.append entry = .ok a') : a'.runs = a.runs := by
  unfold append insertEntry at h
  by_cases hrepeated : a.entries.any (·.id == (rowOf entry).id) = true
  · simp [hrepeated, bind, Except.bind] at h
  · rw [if_neg hrepeated] at h
    cases hday : a.pendingDay? with
    | error e => simp [hday, bind, Except.bind] at h
    | ok day =>
        cases day with
        | none =>
            simp only [hday, bind, Except.bind, pure, Except.pure] at h
            cases h
            rfl
        | some day =>
            simp only [hday, bind, Except.bind, pure, Except.pure] at h
            cases h
            split
            · rfl
            · rfl

theorem DurableArchive.runs_saveCheckpoint (a : DurableArchive) (c : Checkpoint) :
    (a.saveCheckpoint c).runs = a.runs := by
  unfold saveCheckpoint
  change (c.tiers.foldl _ a).runs = a.runs
  induction c.tiers generalizing a with
  | nil => rfl
  | cons p rest ih => exact ih (a.saveSnapshot p.1 p.2)

namespace Backend

/-- The recorded runs, as values or as rows. -/
def history (b : Backend) : List RunRecord ⊕ List RunRow :=
  match b.storage with
  | .volatile a => .inl a.runs
  | .durable a => .inr a.runs

/-- The recorded runs are the given ones, in this order. -/
def HasRuns (b : Backend) (runs : List RunRecord) : Prop :=
  b.history = .inl runs ∨ b.history = .inr (runs.map DurableArchive.runRow)

variable {b b' : Backend}

theorem history_append {entry : ArchiveEntry} (h : b.append entry = .ok b') :
    b'.history = b.history := by
  obtain ⟨_, ⟨a, hb, hb'⟩ | ⟨a, a', hb, happend, hb'⟩⟩ := append_ok_cases h
  · simp [history, hb, hb', VolatileArchive.append]
  · simp [history, hb, hb', DurableArchive.runs_append happend]

theorem history_saveSnapshot {t : Tier} {memories : List Memory}
    (h : b.saveSnapshot t memories = .ok b') : b'.history = b.history := by
  unfold saveSnapshot guarded at h
  split at h
  · cases h
  · split at h <;> rename_i hb <;> cases h
    · simp [history, store, hb]
    · simp [history, store, hb, DurableArchive.saveSnapshot]

theorem history_savePendingDay {day : PendingDay} (h : b.savePendingDay day = .ok b') :
    b'.history = b.history := by
  unfold savePendingDay guarded at h
  split at h
  · cases h
  · split at h <;> rename_i hb <;> cases h
    · simp [history, store, hb]
    · simp [history, store, hb, DurableArchive.savePendingDay]

theorem history_saveKnowledge {entries : List KnowledgeEntry}
    (h : b.saveKnowledge entries = .ok b') : b'.history = b.history := by
  unfold saveKnowledge guarded at h
  split at h
  · cases h
  · split at h <;> rename_i hb <;> cases h
    · simp [history, store, hb]
    · simp [history, store, hb, DurableArchive.saveKnowledge]

theorem history_andThen {write : Except Error Backend}
    {next : Backend → Backend × Except Error Unit}
    (written : ∀ b', write = .ok b' → b'.history = b.history)
    (rest : ∀ b', (next b').1.history = b'.history) :
    (b.andThen write next).1.history = b.history := by
  unfold andThen
  cases write with
  | error e => rfl
  | ok b' => exact (rest b').trans (written b' rfl)

theorem history_saveSnapshots (b : Backend) (tiers : List (Tier × List Memory)) :
    (b.saveSnapshots tiers).1.history = b.history := by
  induction tiers generalizing b with
  | nil => rfl
  | cons p tiers ih => exact history_andThen (fun _ => history_saveSnapshot) ih

theorem history_saveCheckpoint (b : Backend) (c : Checkpoint) :
    (b.saveCheckpoint c).1.history = b.history := by
  cases hb : b.storage with
  | durable a =>
      rcases saveCheckpoint_durable hb c with ⟨_, hsave⟩ | ⟨_, hsave⟩
      · rw [hsave]
      · rw [hsave]
        simp [history, store, hb, DurableArchive.runs_saveCheckpoint]
  | volatile a =>
      have tiers := b.history_saveSnapshots c.tiers
      simp only [saveCheckpoint, hb]
      generalize b.saveSnapshots c.tiers = outcome at tiers
      obtain ⟨b₁, result⟩ := outcome
      cases result with
      | error e => exact tiers
      | ok u =>
          refine Eq.trans ?_ tiers
          refine history_andThen (fun _ => history_savePendingDay) ?_
          intro b₂
          exact history_andThen (fun _ => history_saveKnowledge) fun _ => rfl

/-- A run that is recorded comes last. -/
theorem HasRuns.recordRun {runs : List RunRecord} {run : RunRecord} (held : b.HasRuns runs)
    (h : b.recordRun run = .ok b') : b'.HasRuns (runs ++ [run]) := by
  unfold Backend.recordRun guarded at h
  split at h
  · cases h
  · unfold HasRuns history at *
    split at h <;> rename_i a hb
    · cases h
      simp_all [store]
    · unfold DurableArchive.recordRun DurableArchive.insertRun at h
      split at h
      · cases h
      · cases h
        simp_all [store, DurableArchive.runRow]

/-- The last run is the one that was recorded last, if completion times do not go back. -/
theorem HasRuns.lastRun {runs : List RunRecord} (held : b.HasRuns runs)
    (answers : Operation.lastRun.name ∉ b.refused)
    (stored : b.history = .inl runs ∨ ∀ run ∈ runs, (Write.recordRun run).IsStorable)
    (completed : runs.Pairwise fun r s => ¬ s.completedAt.before r.completedAt) :
    b.lastRun = .ok runs.getLast? := by
  unfold Backend.lastRun guarded
  rw [if_neg (by simpa using answers)]
  unfold HasRuns history at *
  cases hb : b.storage with
  | volatile a => simp_all
  | durable a =>
      simp only [hb, reduceCtorEq, Sum.inr.injEq, false_or] at held stored
      exact DurableArchive.lastRun_eq_getLast? held stored completed

end Backend

/-- Time goes on in the same zone. -/
structure Source.Onward (s s' : Source) : Prop where
  zone : s'.clock.zone = s.clock.zone
  time : ¬ s'.clock.time.before s.clock.time

namespace Source

variable {s s' s'' : Source}

theorem Onward.refl (s : Source) : s.Onward s := ⟨rfl, Time.Instant.not_before_self _⟩

theorem Onward.trans (first : s.Onward s') (second : s'.Onward s'') : s.Onward s'' where
  zone := second.zone.trans first.zone
  time := Time.Instant.not_before_trans first.time second.time

/-- A reading moves the clock on. -/
theorem onward_now (s : Source) : s.Onward s.now.2 where
  zone := rfl
  time := s.clock.time.not_add_before (Int.natCast_nonneg s.clock.tick)

theorem Onward.of_read {clock : Clock} (read : s.clock.Read clock) : s.Onward { s with clock } := by
  induction read with
  | refl => exact .refl s
  | @now c _ ih => exact ih.trans (onward_now { s with clock := c })

theorem onward_freshId (s : Source) : s.Onward s.freshId.2 :=
  ⟨rfl, Time.Instant.not_before_self _⟩

end Source

namespace ArchiveLog

theorem history_write (l : ArchiveLog) (entry : ArchiveEntry) :
    (l.write entry).1.backend.history = l.backend.history := by
  unfold write
  split
  · rename_i written
    exact Backend.history_append written
  · rfl

theorem onward_sealBatch (l : ArchiveLog) (source : Source) (date : Time.Date)
    (experiences : List Experience) (patterns : List Pattern) (metrics : DailyMetrics) :
    source.Onward (l.sealBatch source date experiences patterns metrics).2 ∧
      (l.sealBatch source date experiences patterns metrics).1.1.backend.history =
        l.backend.history :=
  ⟨source.onward_freshId.trans source.freshId.2.onward_now, history_write _ _⟩

theorem onward_stage (l : ArchiveLog) (source : Source) (memories : List Memory) :
    source.Onward (l.stage source memories).2 ∧
      (l.stage source memories).1.backend.history = l.backend.history := by
  unfold stage
  split
  · exact ⟨.refl source, rfl⟩
  · simp only
    split
    · exact ⟨.refl source, rfl⟩
    · obtain ⟨onward, history⟩ := onward_sealBatch { l with pending := l.pending ++ memories }
        source.today.2 source.today.1 [] [] {}
      exact ⟨source.onward_now.trans onward, history⟩

end ArchiveLog

/-- The record of a report in the history. -/
def NightlyReport.record (report : NightlyReport) (id : Uid) : RunRecord :=
  ⟨id, report.startedAt, report.completedAt, report.completed, report.summary⟩

namespace Mind

open Nightly

/-- What the clock of a mind shows. -/
def time (s : Mind) : Time.Instant := s.source.clock.time

/-- What may happen to a mind as long as no night ends: time goes on and no run is recorded, and
everything else is free. -/
structure Lapses (s : Mind) (_ : List Unit) (s' : Mind) : Prop where
  onward : s.source.Onward s'.source
  history : s'.backend.history = s.backend.history

variable {s s' s'' : Mind} {labels more : List Unit}

theorem Lapses.refl (s : Mind) : Lapses s [] s := ⟨.refl s.source, rfl⟩

theorem Lapses.trans (first : Lapses s labels s') (second : Lapses s' more s'') :
    Lapses s (labels ++ more) s'' :=
  ⟨first.onward.trans second.onward, second.history.trans first.history⟩

theorem lapses_now (s : Mind) : Lapses s [] s.now.2 := ⟨s.source.onward_now, rfl⟩

theorem lapses_consolidationPasses (t : Tier) (now : Time.Instant) (passes : Nat) (s : Mind)
    (result : TierConsolidation) :
    Lapses s [] (consolidationPasses t now passes s result).1 := by
  induction passes generalizing s result with
  | zero => exact .refl s
  | succ passes ih =>
      have staged : ∀ store memories, Lapses s [] ({ s with store }.stage memories) := by
        intro store memories
        obtain ⟨onward, history⟩ := s.archive.onward_stage s.source memories
        exact ⟨onward, history⟩
      unfold consolidationPasses
      simp only
      split
      · exact .refl s
      · split
        · exact staged _ _
        · exact (staged _ _).trans (ih _ _)

theorem lapses_consolidateIfOver (s : Mind) (t : Tier) :
    Lapses s [] (s.consolidateIfOver t).1 := by
  unfold consolidateIfOver
  split
  · unfold consolidate consolidateAt
    exact s.lapses_now.trans (lapses_consolidationPasses t _ _ s.now.2 _)
  · exact .refl s

theorem lapses_cleanupPhase (s : Mind) (night : Night) :
    Lapses s [] (s.cleanupPhase night).1 := by
  have bounded : Lapses s [] s.boundTiers.1 :=
    boundTiers_follows (R := fun s s' => Lapses s [] s') Lapses.refl Lapses.trans
      lapses_consolidateIfOver s
  unfold cleanupPhase
  simp only
  generalize s.boundTiers.1 = t at bounded
  obtain ⟨onward, history⟩ := t.archive.onward_sealBatch t.source night.day night.experiences
    night.patterns { night.metrics with tierSizes := ⟨t.store.sizes⟩ }
  generalize t.archive.sealBatch t.source night.day night.experiences night.patterns
    { night.metrics with tierSizes := ⟨t.store.sizes⟩ } = outcome at onward history
  obtain ⟨⟨archive, result⟩, source⟩ := outcome
  have closed : Lapses s [] { t with archive, source } := bounded.trans ⟨onward, history⟩
  cases result with
  | error e => exact closed
  | ok entry => exact closed.trans ⟨source.onward_now, rfl⟩

theorem lapses_persist (s : Mind) : Lapses s [] s.persist.1 := by
  obtain ⟨c, _, _, hpersist, _⟩ := s.persist_cases
  rw [hpersist]
  exact ⟨s.source.onward_now, s.backend.history_saveCheckpoint c⟩

/-- A night ends at a time that its report tells, after its last phase. -/
theorem lapses_finishNight (s : Mind) (p : Progress) : ∃ t, Lapses s [] t ∧
    (s.finishNight p).2.completedAt = t.time ∧ (s.finishNight p).1 = t.now.2 := by
  unfold finishNight
  simp only
  generalize ({ p.night with metrics := _ } : Night) = night
  have cleaned := s.lapses_cleanupPhase night
  generalize s.cleanupPhase night = outcome at cleaned
  exact ⟨outcome.1, cleaned, rfl, rfl⟩

theorem abides_lapses : Abides Lapses Lapses where
  refl := .refl
  trans := .trans
  between := id
  drawn s := ⟨s.source.onward_freshId, rfl⟩
  learned s _ := ⟨.refl s.source, rfl⟩

section

variable {lbl : Type} {meanwhile : Mind → List lbl → Mind → Prop} {p : Progress} {last : Mind}
  {isOpen : Bool} {labels : List lbl} {report : NightlyReport}

theorem startedAt_updateAndFinish
    (ends : (updateAndFinish p s isOpen).Ends meanwhile labels last report) :
    report.startedAt = p.startedAt := by
  unfold updateAndFinish at ends
  cases isOpen with
  | true =>
      obtain ⟨_, _, t, ⟨result, batches⟩, _, _, finished⟩ := ends.bind_cases
      obtain ⟨_, _, rfl⟩ := finished.of_done
      rfl
  | false =>
      obtain ⟨_, _, rfl⟩ := ends.of_done
      rfl

theorem startedAt_integrateAndFinish
    (ends : (integrateAndFinish p s isOpen).Ends meanwhile labels last report) :
    report.startedAt = p.startedAt := by
  cases isOpen with
  | true =>
      obtain ⟨p', hgate, hstarted⟩ : ∃ p', integrateAndFinish p s true =
          .gate (s.integratePhase p.night.patterns).1 (updateAndFinish p') ∧
          p'.startedAt = p.startedAt := ⟨_, rfl, rfl⟩
      rw [hgate] at ends
      cases ends with
      | gate answer between rest => exact (startedAt_updateAndFinish rest).trans hstarted
  | false =>
      obtain ⟨p', hskip, hstarted⟩ : ∃ p', integrateAndFinish p s false =
          updateAndFinish p' s false ∧ p'.startedAt = p.startedAt := by
        unfold integrateAndFinish
        simp only [Bool.false_eq_true, if_false]
        exact ⟨_, rfl, rfl⟩
      rw [hskip] at ends
      exact (startedAt_updateAndFinish ends).trans hstarted

/-- The report of a night tells when it began. -/
theorem startedAt_nightlyPhases (ends : s.nightlyPhases.Ends meanwhile labels last report) :
    report.startedAt = s.time := by
  obtain ⟨p, hgate, hstarted⟩ : ∃ p, s.nightlyPhases = .gate s.now.2.now.2 (integrateAndFinish p) ∧
      p.startedAt = s.time := ⟨_, rfl, rfl⟩
  rw [hgate] at ends
  cases ends with
  | gate answer between rest => exact (startedAt_integrateAndFinish rest).trans hstarted

end

/-- A night from `s` to `s'` with its report. It is recorded, or the history is as before. -/
structure Sleeps (s : Mind) (report : NightlyReport) (s' : Mind) : Prop where
  onward : s.source.Onward s'.source
  started : ¬ report.startedAt.before s.time
  completed : ¬ report.completedAt.before report.startedAt
  ended : ¬ s'.time.before report.completedAt
  history : s'.backend.history = s.backend.history ∨
    ∀ runs, s.backend.HasRuns runs → ∃ id, s'.backend.HasRuns (runs ++ [report.record id])

theorem Sleeps.after {report : NightlyReport} (first : Lapses s labels s')
    (night : Sleeps s' report s'') : Sleeps s report s'' where
  onward := first.onward.trans night.onward
  started := Time.Instant.not_before_trans first.onward.time night.started
  completed := night.completed
  ended := night.ended
  history := by
    unfold Backend.HasRuns
    rw [← first.history]
    exact night.history

theorem Sleeps.before {report : NightlyReport} (night : Sleeps s report s')
    (last : Lapses s' labels s'') : Sleeps s report s'' where
  onward := night.onward.trans last.onward
  started := night.started
  completed := night.completed
  ended := Time.Instant.not_before_trans night.ended last.onward.time
  history := by
    unfold Backend.HasRuns
    rw [last.history]
    exact night.history

/-- The end of a night: its run is recorded, unless that fails. -/
theorem history_recordRun (s : Mind) (report : NightlyReport) :
    s.source.Onward (s.recordRun report).source ∧
      ((s.recordRun report).backend.history = s.backend.history ∨
        ∀ runs, s.backend.HasRuns runs →
          ∃ id, (s.recordRun report).backend.HasRuns (runs ++ [report.record id])) := by
  unfold recordRun
  simp only
  split
  · rename_i b recorded
    refine ⟨s.source.onward_freshId, .inr ?_⟩
    intro runs held
    exact ⟨_, held.recordRun recorded⟩
  · exact ⟨s.source.onward_freshId, .inl rfl⟩

/-- Whatever happens meanwhile, a night that ends tells its own times in order. -/
theorem sleeps_runNightly {last : Mind} {report : NightlyReport}
    (ends : s.runNightly.Ends Lapses labels last report) : Sleeps s report last := by
  obtain ⟨front, back, t, _, rfl, phases, finished⟩ := ends.bind_cases
  obtain ⟨_, rfl, rfl⟩ := finished.of_done
  have hstarted := startedAt_nightlyPhases phases
  obtain ⟨_, _, t₁, t₂, t₃, p, _, first, integrated, second, hfinish, _⟩ :=
    abides_lapses.nightlyPhases phases
  obtain ⟨u, cleaned, hcompleted, hlast⟩ := t₃.lapses_finishNight p
  rw [hfinish] at hcompleted hlast
  have middle : Lapses t₁ [] t₂ := by
    rw [integrated]
    split
    · exact ⟨.of_read (t₁.knowledge.read_integrate s.found t₁.source.clock), rfl⟩
    · exact .refl t₁
  have begun := s.lapses_now.trans s.now.2.lapses_now
  have worked := begun.trans (first.trans (middle.trans (second.trans cleaned)))
  have read : Lapses u [] t := by
    rw [show t = u.now.2 from hlast]
    exact u.lapses_now
  obtain ⟨recorded, history⟩ := t.history_recordRun report
  have saved := (t.recordRun report).lapses_persist
  have closed : t.source.Onward (t.recordRun report).persist.1.source :=
    recorded.trans saved.onward
  exact {
    onward := worked.onward.trans (read.onward.trans closed)
    started := hstarted ▸ Time.Instant.not_before_self _
    completed := by
      rw [hstarted, hcompleted]
      exact worked.onward.time
    ended := by
      rw [hcompleted]
      exact (read.onward.trans closed).time
    history := by
      unfold Backend.HasRuns at *
      rw [saved.history, ← worked.history, ← read.history]
      exact history }

end Mind

end Engram
