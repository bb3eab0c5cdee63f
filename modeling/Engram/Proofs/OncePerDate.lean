import Engram.Proofs.Background
import Engram.Proofs.RunHistory

/-! At most one nightly cycle per local date. Within a process the guard is the date on which the
last nightly cycle ended; after a restart it is the date on which the run started that the backend
tells as the last. The clock does not go back, so the guard is never behind an earlier cycle as long
as local dates do not go back either and the backend tells the run that was recorded last. Dates go
back where clocks are put back at midnight, and tables tell another run from the year 10000 on. -/
namespace Engram

/-- Between two times the local date goes back. -/
def Time.Zone.GoesBack (zone : Time.Zone) (start stop : Time.Instant) : Prop :=
  ∃ t u, ¬ t.before start ∧ ¬ u.before t ∧ ¬ stop.before u ∧
    (zone.date u).days < (zone.date t).days

theorem Time.Zone.date_le_of_not_goesBack {zone : Time.Zone} {start stop t u : Time.Instant}
    (steady : ¬ zone.GoesBack start stop) (begun : ¬ t.before start) (onward : ¬ u.before t)
    (ended : ¬ stop.before u) : (zone.date t).days ≤ (zone.date u).days := by
  by_contra back
  exact steady ⟨t, u, begun, onward, ended, Int.not_le.mp back⟩

theorem Time.Zone.not_goesBack_fixed (secondsEast : Int) (start stop : Time.Instant) :
    ¬ (Time.Zone.fixed secondsEast).GoesBack start stop := by
  rintro ⟨t, u, _, onward, _, back⟩
  exact absurd (Time.Zone.fixed_date_le secondsEast onward) (Int.not_le.mpr back)

namespace Scheduler

variable {s s' s'' : Scheduler} {labels more : List Unit}

/-- What may happen to a scheduler apart from nightly cycles: the date of the last one stays. -/
structure Lapses (s : Scheduler) (labels : List Unit) (s' : Scheduler) : Prop where
  mind : s.mind.Lapses labels s'.mind
  lastNightly : s'.lastNightly = s.lastNightly

theorem Lapses.refl (s : Scheduler) : Lapses s [] s := ⟨.refl s.mind, rfl⟩

theorem Lapses.trans (first : Lapses s labels s') (second : Lapses s' more s'') :
    Lapses s (labels ++ more) s'' :=
  ⟨first.mind.trans second.mind, second.lastNightly.trans first.lastNightly⟩

theorem Lapses.still ⦃s s' s'' : Scheduler⦄ (first : Lapses s [] s') (second : Lapses s' [] s'') :
    Lapses s [] s'' :=
  first.trans second

theorem lapses_now (s : Scheduler) : Lapses s [] s.now.2 := ⟨s.mind.lapses_now, rfl⟩

theorem lapses_advance (s : Scheduler) (items : List ContextItem) :
    Lapses s [] (s.advance items) := by
  unfold advance
  split
  · exact ⟨.refl s.mind, rfl⟩
  · exact .refl s

theorem moves_sendBatches (run : Nat) (batches : List (List ContextItem)) (index : Nat)
    (s : Scheduler) : (sendBatches run batches index s).Moves (fun s s' => Lapses s [] s') s := by
  induction batches generalizing index s with
  | nil => exact .done (.refl s)
  | cons chunk batches ih =>
      have judged : ∀ (t : Scheduler) verdict,
          (goOn run index chunk batches t verdict).Moves (fun s s' => Lapses s [] s') t := by
        intro t verdict
        have advanced := t.lapses_advance chunk
        have rest : ∀ {f : LightBatches → LightBatches},
            ((sendBatches run batches (index + 1) (t.advance chunk)).bind fun s later =>
              .done s (f later)).Moves (fun s s' => Lapses s [] s') t := by
          intro f
          refine Cycle.Moves.bind Lapses.still ((ih (index + 1) _).after Lapses.still advanced) ?_
          intro u later
          exact .done (.refl u)
        unfold goOn
        cases verdict with
        | ok loss => exact rest
        | error failure =>
            simp only
            split
            · exact .done advanced
            · exact rest
      have send : ∀ t : Scheduler, (Cycle.apply t (lightBatch run index chunk)
          (goOn run index chunk batches)).Moves (fun s s' => Lapses s [] s') t :=
        fun t => Cycle.Moves.apply (.refl t) Lapses.refl judged
      rw [sendBatches_cons]
      simp only
      split
      · exact send s
      · refine .pause (.refl s) ?_
        intro t
        unfold keepOn
        split
        · exact .done (.refl t)
        · refine .device (.refl t) ?_
          intro u device
          simp only
          split
          · exact send u
          · exact .done (.refl u)

/-- A light cycle is no nightly cycle. -/
theorem lapses_lightCycle {outcome : StartOutcome}
    (ends : s.lightCycle.Ends Lapses labels s' outcome) :
    Lapses s labels s' ∧ ∀ report, outcome ≠ .nightly report := by
  unfold lightCycle at ends
  simp only at ends
  obtain ⟨front, back, t, sent, rfl, sending, finished⟩ := ends.bind_cases
  obtain ⟨rfl, rfl, rfl⟩ := finished.of_done
  have begun : Lapses s [] { s.now.2 with lightRuns := s.lightRuns + 1 } :=
    ⟨s.mind.lapses_now, rfl⟩
  have went := sending.follows id id Lapses.trans (moves_sendBatches _ _ 0 _)
  refine ⟨(begun.trans went).trans t.lapses_now, ?_⟩
  intro report h
  cases h

/-- A nightly cycle from `s` to `s'`: the date of the last one is read after the night. -/
structure Sleeps (s : Scheduler) (report : NightlyReport) (s' : Scheduler) : Prop where
  mind : s.mind.Sleeps report s'.mind
  lastNightly : ∃ t, s'.lastNightly = some (s'.mind.zone.date t) ∧ ¬ t.before report.startedAt ∧
    ¬ s'.mind.time.before t

theorem Sleeps.after {report : NightlyReport} (first : Lapses s labels s')
    (night : Sleeps s' report s'') : Sleeps s report s'' :=
  ⟨night.mind.after first.mind, night.lastNightly⟩

theorem sleeps_nightlyCycle {outcome : StartOutcome}
    (ends : s.nightlyCycle.Ends Lapses labels s' outcome) :
    ∃ report, outcome = .nightly report ∧ Sleeps s report s' := by
  unfold nightlyCycle at ends
  obtain ⟨front, back, t, report, rfl, slept, finished⟩ := ends.bind_cases
  obtain ⟨_, rfl, rfl⟩ := finished.of_done
  have night : s.mind.runNightly.Ends Mind.Lapses front t.mind report := by
    refine slept.of_within (fun _ _ => rfl) Lapses.mind ?_
    intro u next labels last a asked
    unfold keepOn at asked
    split at asked
    · exact ⟨[], labels, u, false, rfl, .refl u.mind, asked⟩
    · cases asked with
      | device answer between rest => exact ⟨_, _, _, _, rfl, between.mind, rest⟩
  have sleeps := Mind.sleeps_runNightly night
  have read := t.mind.lapses_now
  refine ⟨report, rfl, sleeps.before read, t.mind.time, rfl, ?_, read.onward.time⟩
  exact Time.Instant.not_before_trans sleeps.completed sleeps.ended

/-- A cycle that is asked for: only a nightly cycle that has started is reported as one. -/
theorem runCycle_cases {kind : CycleKind} {outcome : Except Error StartOutcome}
    (ends : (s.runCycle kind).Ends Lapses labels s' outcome) :
    (Lapses s labels s' ∧ ∀ report, outcome ≠ .ok (.nightly report)) ∨
      ∃ report, kind = .nightly ∧ outcome = .ok (.nightly report) ∧ Sleeps s report s' := by
  unfold runCycle at ends
  split at ends
  · obtain ⟨rfl, rfl, rfl⟩ := ends.of_done
    exact .inl ⟨.refl _, by simp⟩
  · cases ends with
    | @device _ t _ _ front back _ device between rest =>
        cases hgate : Gate.violations t.mind.config kind device with
        | error e =>
            simp only [hgate] at rest
            obtain ⟨rfl, rfl, rfl⟩ := rest.of_done
            exact .inl ⟨between.trans (.refl _), by simp⟩
        | ok violations =>
            cases violations with
            | cons first violations =>
                simp only [hgate] at rest
                obtain ⟨rfl, rfl, rfl⟩ := rest.of_done
                exact .inl ⟨between.trans (.refl _), by simp⟩
            | nil =>
                simp only [hgate] at rest
                obtain ⟨middle, back, u, outcome, rfl, ran, finished⟩ := rest.bind_cases
                obtain ⟨rfl, rfl, rfl⟩ := finished.of_done
                have begun : Lapses t [] { t.now.2 with state := .running kind t.now.1 } :=
                  ⟨t.mind.lapses_now, rfl⟩
                cases kind with
                | light =>
                    obtain ⟨lapses, other⟩ := lapses_lightCycle ran
                    have released : Lapses u [] u.release := ⟨.refl u.mind, rfl⟩
                    have whole := between.trans (begun.trans (lapses.trans released))
                    exact .inl ⟨whole, by simpa using other⟩
                | nightly =>
                    obtain ⟨report, rfl, night⟩ := sleeps_nightlyCycle ran
                    have slept := night.after (between.trans begun)
                    exact .inr ⟨report, rfl, rfl, slept.mind, slept.lastNightly⟩

/-- A decision starts a nightly cycle only if its date is not the one of the last. -/
theorem tick_cases {outcome : Except Error StartOutcome}
    (ends : s.tick.Ends Lapses labels s' outcome) :
    (Lapses s labels s' ∧ ∀ report, outcome ≠ .ok (.nightly report)) ∨
      ∃ report, outcome = .ok (.nightly report) ∧ Sleeps s report s' ∧
        s.lastNightly ≠ some (s.mind.zone.date s.mind.time) := by
  have read : Lapses s [] s.today.2 := ⟨s.mind.lapses_now, rfl⟩
  have light : ∀ {t t' : Scheduler} {labels : List Unit} {outcome : Except Error StartOutcome},
      (t.runCycle .light).Ends Lapses labels t' outcome →
        Lapses t labels t' ∧ ∀ report, outcome ≠ .ok (.nightly report) := by
    intro t t' labels outcome ends
    rcases runCycle_cases ends with lapsed | ⟨_, hkind, _⟩
    · exact lapsed
    · cases hkind
  unfold tick at ends
  split at ends
  rename_i date t htoday
  obtain ⟨rfl, rfl⟩ := Prod.mk.inj htoday
  split at ends
  · obtain ⟨lapses, other⟩ := light ends
    exact .inl ⟨read.trans lapses, other⟩
  · rename_i hdate
    obtain ⟨front, back, u, first, rfl, asked, rest⟩ := ends.bind_cases
    rcases runCycle_cases asked with ⟨lapses, other⟩ | ⟨report, _, rfl, night⟩
    · left
      split at rest
      · obtain ⟨later, other⟩ := light rest
        exact ⟨read.trans (lapses.trans later), other⟩
      · obtain ⟨rfl, rfl, rfl⟩ := rest.of_done
        exact ⟨read.trans (lapses.trans (.refl _)), other⟩
    · obtain ⟨_, rfl, rfl⟩ := rest.of_done
      exact .inr ⟨report, rfl, night.after read, hdate⟩

/-- A request to a scheduler. -/
inductive IsCall (s : Scheduler) : Cycle Scheduler (Except Error StartOutcome) → Prop where
  | runCycle (kind : CycleKind) : IsCall s (s.runCycle kind)
  | tick : IsCall s s.tick

theorem IsCall.cases {c : Cycle Scheduler (Except Error StartOutcome)} (call : IsCall s c)
    {outcome : Except Error StartOutcome} (ends : c.Ends Lapses labels s' outcome) :
    (Lapses s labels s' ∧ ∀ report, outcome ≠ .ok (.nightly report)) ∨
      ∃ report, outcome = .ok (.nightly report) ∧ Sleeps s report s' := by
  cases call with
  | runCycle kind =>
      rcases runCycle_cases ends with lapsed | ⟨report, _, houtcome, night⟩
      · exact .inl lapsed
      · exact .inr ⟨report, houtcome, night⟩
  | tick =>
      rcases tick_cases ends with lapsed | ⟨report, houtcome, night, _⟩
      · exact .inl lapsed
      · exact .inr ⟨report, houtcome, night⟩

/-- Recorded runs of the past, in the order in which they were completed. -/
structure Past (now : Time.Instant) (runs : List RunRecord) : Prop where
  started : ∀ run ∈ runs, ¬ now.before run.startedAt
  completed : ∀ run ∈ runs, ¬ now.before run.completedAt
  ordered : runs.Pairwise fun r s => ¬ s.completedAt.before r.completedAt

theorem Past.mono {now later : Time.Instant} {runs : List RunRecord} (past : Past now runs)
    (h : ¬ later.before now) : Past later runs where
  started run hrun := Time.Instant.not_before_trans (past.started run hrun) h
  completed run hrun := Time.Instant.not_before_trans (past.completed run hrun) h
  ordered := past.ordered

/-- A run that begins and ends after all others is the last. -/
theorem Past.concat {now later : Time.Instant} {runs : List RunRecord} {run : RunRecord}
    (past : Past now runs) (started : ¬ run.startedAt.before now)
    (completed : ¬ run.completedAt.before run.startedAt) (ended : ¬ later.before run.completedAt) :
    Past later (runs ++ [run]) := by
  have began : ¬ later.before run.startedAt := Time.Instant.not_before_trans completed ended
  have front := past.mono (Time.Instant.not_before_trans started began)
  refine ⟨?_, ?_, ?_⟩
  · exact List.forall_mem_append.mpr ⟨front.started, List.forall_mem_singleton.mpr began⟩
  · exact List.forall_mem_append.mpr ⟨front.completed, List.forall_mem_singleton.mpr ended⟩
  · rw [List.pairwise_append]
    refine ⟨past.ordered, List.pairwise_singleton _ _, ?_⟩
    intro earlier hearlier last hlast
    rw [List.mem_singleton.mp hlast]
    have before := Time.Instant.not_before_trans (past.completed earlier hearlier) started
    exact Time.Instant.not_before_trans before completed

/-- Schedulers one after the other on one history: the reports of their nightly cycles, all runs in
the history, the backend at the last start unless a nightly cycle has ended since, and the scheduler
of the present. Every nightly cycle is recorded, and every process may be in another time zone. -/
inductive Life :
    List NightlyReport → List RunRecord → Option Backend → Scheduler → Prop where
  | start {history : List RunRecord} {mind : Mind}
      (held : mind.backend.HasRuns history) (past : Past mind.time history) :
      Life [] history (some mind.backend) (start mind)
  | lapses {reports : List NightlyReport} {history : List RunRecord} {origin : Option Backend}
      {s s' : Scheduler} {labels : List Unit} (prior : Life reports history origin s)
      (between : Lapses s labels s') : Life reports history origin s'
  | call {reports : List NightlyReport} {history : List RunRecord} {origin : Option Backend}
      {s s' : Scheduler} {c : Cycle Scheduler (Except Error StartOutcome)} {labels : List Unit}
      {outcome : Except Error StartOutcome} (prior : Life reports history origin s)
      (call : IsCall s c) (ends : c.Ends Lapses labels s' outcome)
      (other : ∀ report, outcome ≠ .ok (.nightly report)) : Life reports history origin s'
  | nightly {reports : List NightlyReport} {history : List RunRecord} {origin : Option Backend}
      {s s' : Scheduler} {c : Cycle Scheduler (Except Error StartOutcome)} {labels : List Unit}
      {report : NightlyReport} {id : Uid} (prior : Life reports history origin s)
      (call : IsCall s c) (ends : c.Ends Lapses labels s' (.ok (.nightly report)))
      (recorded : s'.mind.backend.HasRuns (history ++ [report.record id])) :
      Life (reports ++ [report]) (history ++ [report.record id]) none s'
  | restart {reports : List NightlyReport} {history : List RunRecord} {origin : Option Backend}
      {s : Scheduler} {mind : Mind} (prior : Life reports history origin s)
      (held : mind.backend.HasRuns history) (onward : ¬ mind.time.before s.mind.time) :
      Life reports history (some mind.backend) (start mind)

/-- Whatever the scheduler was started from has told the last run. -/
def Informed (origin : Option Backend) (history : List RunRecord) : Prop :=
  ∀ b, origin = some b → b.lastRun = .ok history.getLast?

/-- The last run is not behind any reported cycle, nothing is ahead of the clock, and the date of
the last nightly cycle is not behind either if the scheduler was informed. -/
structure Guarded (reports : List NightlyReport) (history : List RunRecord)
    (origin : Option Backend) (s : Scheduler) : Prop where
  held : s.mind.backend.HasRuns history
  opened : ∀ b, origin = some b → b.HasRuns history
  past : Past s.mind.time history
  started : ∀ r ∈ reports, ¬ s.mind.time.before r.startedAt
  lastRun : ∀ r ∈ reports, ∃ run, history.getLast? = some run ∧ ¬ run.startedAt.before r.startedAt
  lastNightly : Informed origin history → ∀ r ∈ reports, ∃ t,
    s.lastNightly = some (s.mind.zone.date t) ∧ ¬ t.before r.startedAt ∧ ¬ s.mind.time.before t

variable {reports : List NightlyReport} {history : List RunRecord} {origin : Option Backend}

theorem Guarded.lapses (h : Guarded reports history origin s) (between : Lapses s labels s') :
    Guarded reports history origin s' where
  held := by
    unfold Backend.HasRuns
    rw [between.mind.history]
    exact h.held
  opened := h.opened
  past := h.past.mono between.mind.onward.time
  started r hr := Time.Instant.not_before_trans (h.started r hr) between.mind.onward.time
  lastRun := h.lastRun
  lastNightly informed r hr := by
    obtain ⟨t, hguard, hstarted, hpast⟩ := h.lastNightly informed r hr
    have hzone : s'.mind.zone = s.mind.zone := between.mind.onward.zone
    refine ⟨t, ?_, hstarted, Time.Instant.not_before_trans hpast between.mind.onward.time⟩
    rw [between.lastNightly, hguard, hzone]

theorem Guarded.nightly {report : NightlyReport} {id : Uid}
    (h : Guarded reports history origin s) (night : Sleeps s report s')
    (recorded : s'.mind.backend.HasRuns (history ++ [report.record id])) :
    Guarded (reports ++ [report]) (history ++ [report.record id]) none s' := by
  have behind : ∀ r ∈ reports ++ [report], ¬ report.startedAt.before r.startedAt := by
    intro r hr
    rcases List.mem_append.mp hr with hr | hr
    · exact Time.Instant.not_before_trans (h.started r hr) night.mind.started
    · rw [List.mem_singleton.mp hr]
      exact Time.Instant.not_before_self _
  obtain ⟨t, hguard, hstarted, hpast⟩ := night.lastNightly
  have reached : ∀ r ∈ reports ++ [report], ¬ t.before r.startedAt :=
    fun r hr => Time.Instant.not_before_trans (behind r hr) hstarted
  exact {
    held := recorded
    opened := by simp
    past := h.past.concat night.mind.started night.mind.completed night.mind.ended
    started := fun r hr => Time.Instant.not_before_trans (reached r hr) hpast
    lastRun := fun r hr => ⟨report.record id, List.getLast?_concat, behind r hr⟩
    lastNightly := fun _ r hr => ⟨t, hguard, reached r hr, hpast⟩ }

theorem Guarded.start {mind : Mind} (held : mind.backend.HasRuns history)
    (past : Past mind.time history)
    (lastRun : ∀ r ∈ reports, ∃ run, history.getLast? = some run ∧
      ¬ run.startedAt.before r.startedAt) :
    Guarded reports history (some mind.backend) (start mind) where
  held := held
  opened b hb := Option.some.inj hb ▸ held
  past := past
  started r hr := by
    obtain ⟨run, hlast, hstarted⟩ := lastRun r hr
    exact Time.Instant.not_before_trans hstarted (past.started run (List.mem_of_getLast? hlast))
  lastRun := lastRun
  lastNightly informed r hr := by
    obtain ⟨run, hlast, hstarted⟩ := lastRun r hr
    have hrun : mind.lastRun = some run := by
      unfold Mind.lastRun
      rw [informed mind.backend rfl, hlast]
    refine ⟨run.startedAt, ?_, hstarted, past.started run (List.mem_of_getLast? hlast)⟩
    unfold Scheduler.start
    rw [hrun]
    rfl

theorem Life.guarded (life : Life reports history origin s) :
    Guarded reports history origin s := by
  induction life with
  | start held past => exact .start held past (by simp)
  | lapses prior between ih => exact ih.lapses between
  | call prior call ends other ih =>
      rcases call.cases ends with ⟨between, _⟩ | ⟨report, houtcome, _⟩
      · exact ih.lapses between
      · exact absurd houtcome (other report)
  | nightly prior call ends recorded ih =>
      rcases call.cases ends with ⟨_, other⟩ | ⟨report, houtcome, night⟩
      · exact absurd rfl (other _)
      · cases houtcome
        exact ih.nightly night recorded
  | restart prior held onward ih => exact .start held (ih.past.mono onward) ih.lastRun

/-- A nightly cycle is recorded, and life goes on, unless the backend fails. -/
theorem Life.ticked (life : Life reports history origin s) {report : NightlyReport}
    (ends : s.tick.Ends Lapses labels s' (.ok (.nightly report))) :
    s'.mind.backend.history = s.mind.backend.history ∨
      ∃ id, Life (reports ++ [report]) (history ++ [report.record id]) none s' := by
  obtain ⟨_, other⟩ | ⟨_, houtcome, night, _⟩ := tick_cases ends
  · exact absurd rfl (other report)
  · cases houtcome
    rcases night.mind.history with failed | recorded
    · exact .inl failed
    · obtain ⟨id, recorded⟩ := recorded history life.guarded.held
      exact .inr ⟨id, life.nightly .tick ends recorded⟩

/-- The dates of a decision that starts a nightly cycle, if the scheduler was informed and dates do
not go back. -/
theorem Guarded.later (h : Guarded reports history origin s)
    (informed : Informed origin history)
    (other : s.lastNightly ≠ some (s.mind.zone.date s.mind.time)) {earlier : NightlyReport}
    (hearlier : earlier ∈ reports) {stop : Time.Instant} (ended : ¬ stop.before s.mind.time)
    (steady : ¬ s.mind.zone.GoesBack earlier.startedAt stop) :
    (s.mind.zone.date earlier.startedAt).days < (s.mind.zone.date s.mind.time).days ∧
      (s.mind.zone.date s.mind.time).days ≤ (s.mind.zone.date stop).days := by
  obtain ⟨t, hguard, hstarted, hpast⟩ := h.lastNightly informed earlier hearlier
  have hbehind := Time.Zone.date_le_of_not_goesBack steady (Time.Instant.not_before_self _) hstarted
    (Time.Instant.not_before_trans hpast ended)
  have hreached := Time.Zone.date_le_of_not_goesBack steady hstarted hpast ended
  have hlast := Time.Zone.date_le_of_not_goesBack steady (h.started earlier hearlier) ended
    (Time.Instant.not_before_self _)
  have hdays : (s.mind.zone.date t).days ≠ (s.mind.zone.date s.mind.time).days := by
    intro hdays
    apply other
    rw [hguard]
    exact congrArg (fun days => some (Time.Date.mk days)) hdays
  omega

/-- A decision starts a nightly cycle only on a date after those on which all nightly cycles before
it started, also if they have crossed midnight, unless the local date has gone back since, or the
decision is the first since a start at which the backend told another run than the last. A backend
of values that answers never does; one of tables does only if the years of some run are not of four
digits. -/
theorem nightly_once_per_date (life : Life reports history origin s) {report : NightlyReport}
    (ends : s.tick.Ends Lapses labels s' (.ok (.nightly report))) :
    ((∀ earlier ∈ reports,
      ((s.mind.zone.date earlier.startedAt).days < (s.mind.zone.date s.mind.time).days ∧
        (s.mind.zone.date s.mind.time).days ≤ (s.mind.zone.date report.startedAt).days) ∨
      s.mind.zone.GoesBack earlier.startedAt report.startedAt) ∨
      ∃ b, origin = some b ∧ b.HasRuns history ∧ b.lastRun ≠ .ok history.getLast? ∧
        (Operation.lastRun.name ∈ b.refused ∨
          b.history ≠ .inl history ∧ ∃ run ∈ history, ¬ (Write.recordRun run).IsStorable)) ∧
      (s'.mind.backend.history = s.mind.backend.history ∨
        ∃ id, Life (reports ++ [report]) (history ++ [report.record id]) none s') := by
  have guarded := life.guarded
  refine ⟨?_, life.ticked ends⟩
  obtain ⟨_, other⟩ | ⟨_, houtcome, night, hdate⟩ := tick_cases ends
  · exact absurd rfl (other report)
  · cases houtcome
    by_cases informed : Informed origin history
    · left
      intro earlier hearlier
      by_cases back : s.mind.zone.GoesBack earlier.startedAt report.startedAt
      · exact .inr back
      · exact .inl (guarded.later informed hdate hearlier night.mind.started back)
    · right
      unfold Informed at informed
      push Not at informed
      obtain ⟨b, horigin, hother⟩ := informed
      have held := guarded.opened b horigin
      refine ⟨b, horigin, held, hother, ?_⟩
      by_contra! h
      apply hother
      refine held.lastRun h.1 ?_ guarded.past.ordered
      by_cases values : b.history = .inl history
      · exact .inl values
      · exact .inr (h.2 values)

namespace Life.Sample

/-- A decision that nothing disturbs, on a device at rest and with no trainer. -/
def ticked (s : Scheduler) : Scheduler × Except Error StartOutcome :=
  s.tick.outcome true ⟨true, 1, ⟨1000000000000000⟩, 1, 3⟩ (.error (.unreachable "offline"))

def report? : Except Error StartOutcome → Option NightlyReport
  | .ok (.nightly report) => some report
  | _ => none

theorem ends_ticked {s : Scheduler} {report : NightlyReport}
    (h : report? (ticked s).2 = some report) :
    s.tick.Ends Lapses [] (ticked s).1 (.ok (.nightly report)) := by
  have ends : s.tick.Ends Lapses [] (ticked s).1 (ticked s).2 :=
    Cycle.ends_outcome Lapses.refl _ _ _ s.tick
  unfold report? at h
  split at h
  · rename_i houtcome
    cases h
    exact houtcome ▸ ends
  · cases h

theorem zone_ticked {s : Scheduler} {report : NightlyReport}
    (h : report? (ticked s).2 = some report) : (ticked s).1.mind.zone = s.mind.zone := by
  obtain ⟨lapses, _⟩ | ⟨_, _, night, _⟩ := tick_cases (ends_ticked h)
  · exact lapses.mind.onward.zone
  · exact night.mind.onward.zone

def runCount (s : Scheduler) : Nat := s.mind.backend.history.elim List.length List.length

/-- A nightly cycle after which there is one run more. -/
theorem life_ticked {reports : List NightlyReport} {history : List RunRecord}
    {origin : Option Backend} {s : Scheduler} {report : NightlyReport}
    (life : Life reports history origin s) (h : report? (ticked s).2 = some report)
    (recorded : runCount s < runCount (ticked s).1) : ∃ id,
      Life (reports ++ [report]) (history ++ [report.record id]) none (ticked s).1 := by
  rcases life.ticked (ends_ticked h) with failed | goesOn
  · unfold runCount at recorded
    rw [failed] at recorded
    exact absurd recorded (Nat.lt_irrefl _)
  · exact goesOn

/-- A scheduler at the given second, with one second from one reading of the clock to the next. -/
def opened (storage : Storage) (zone : Time.Zone) (second : Int) : Scheduler :=
  Scheduler.start (Mind.start Mind.Sample.config (.ofStorage storage)
    ⟨⟨⟨second, 0⟩, zone, 1000000000⟩, Uid.ofStream 7, 0⟩)

theorem life_opened {storage : Storage} (blank : (Backend.ofStorage storage).HasRuns [])
    (zone : Time.Zone) (second : Int) :
    Life [] [] (some (.ofStorage storage)) (opened storage zone second) := by
  let mind := Mind.start Mind.Sample.config (.ofStorage storage)
    ⟨⟨⟨second, 0⟩, zone, 1000000000⟩, Uid.ofStream 7, 0⟩
  have life : Life [] [] (some mind.backend) (Scheduler.start mind) :=
    .start blank ⟨by simp, by simp, .nil⟩
  exact life

/-- The process is started again, on a backend that refuses some operations. -/
def reopened (refused : List String) (s : Scheduler) : Scheduler :=
  Scheduler.start (Mind.start Mind.Sample.config { s.mind.backend with refused } s.mind.source)

theorem life_reopened {reports : List NightlyReport} {history : List RunRecord}
    {origin : Option Backend} {s : Scheduler} (life : Life reports history origin s)
    (refused : List String) :
    Life reports history (some { s.mind.backend with refused }) (reopened refused s) := by
  have onward := s.mind.source.onward_now.trans s.mind.source.now.2.onward_now
  let mind := Mind.start Mind.Sample.config { s.mind.backend with refused } s.mind.source
  have restarted : Life reports history (some mind.backend) (Scheduler.start mind) :=
    life.restart life.guarded.held onward.time
  exact restarted

/-- The clock shows the given second. -/
def turned (s : Scheduler) (second : Int) : Scheduler :=
  let clock := { s.mind.source.clock with time := ⟨second, 0⟩ }
  { s with mind := { s.mind with source := { s.mind.source with clock } } }

theorem life_turned {reports : List NightlyReport} {history : List RunRecord}
    {origin : Option Backend} {s : Scheduler} (life : Life reports history origin s)
    {second : Int} (onward : ¬ (turned s second).mind.time.before s.mind.time) :
    Life reports history origin (turned s second) := by
  have passed : Lapses s [] (turned s second) := ⟨⟨⟨rfl, onward⟩, rfl⟩, rfl⟩
  exact life.lapses passed

def utc : Time.Zone := .fixed 0

/-- Five seconds before midnight. -/
def evening : Scheduler := opened (.volatile .empty) utc 86395

end Life.Sample

open Life.Sample in
/-- A night begins on one date and ends on the next. The process is started again, and there is
another night on the date on which the first has ended. -/
theorem nightly_once_per_date_sample : ∃ r r' history origin,
    Life [r] history origin (reopened [] (ticked evening).1) ∧
    (reopened [] (ticked evening).1).tick.Ends Lapses []
      (ticked (reopened [] (ticked evening).1)).1 (.ok (.nightly r')) ∧
    utc.date r.completedAt = utc.date r'.startedAt ∧
    (utc.date r.startedAt).days < (utc.date r'.startedAt).days := by
  -- One evaluation for all, since each of these facts takes the run up to its state.
  obtain ⟨hfirst, hsecond, hcrossed, hrecorded, hvalues⟩ :
      (report? (ticked evening).2).isSome ∧
      (report? (ticked (reopened [] (ticked evening).1)).2).isSome ∧
      (report? (ticked evening).2).map (fun r => utc.date r.completedAt) =
        (report? (ticked (reopened [] (ticked evening).1)).2).map (fun r => utc.date r.startedAt) ∧
      runCount evening < runCount (ticked evening).1 ∧
      (ticked evening).1.mind.backend.history.isLeft := by decide +kernel
  obtain ⟨r, hr⟩ := Option.isSome_iff_exists.mp hfirst
  obtain ⟨r', hr'⟩ := Option.isSome_iff_exists.mp hsecond
  rw [hr, hr'] at hcrossed
  have opening : Life [] [] _ evening := life_opened (.inl rfl) utc 86395
  obtain ⟨id, slept⟩ := life_ticked opening hr hrecorded
  have life := life_reopened slept []
  have hzone : (reopened [] (ticked evening).1).mind.zone = utc := zone_ticked hr
  refine ⟨r, r', _, _, life, ends_ticked hr', Option.some.inj hcrossed, ?_⟩
  obtain ⟨later | ⟨b, hb, held, _, refused | ⟨rows, _⟩⟩, _⟩ :=
    nightly_once_per_date life (ends_ticked hr')
  · rw [hzone] at later
    rcases later r (by simp) with ⟨hless, hle⟩ | back
    · omega
    · exact absurd back (Time.Zone.not_goesBack_fixed 0 _ _)
  · rw [← Option.some.inj hb] at refused
    cases refused
  · rw [← Option.some.inj hb] at held rows
    have values : (ticked evening).1.mind.backend.history = _ := held.resolve_left rows
    rw [values] at hvalues
    cases hvalues

namespace Life.Sample

/-- After the nightly cycles so far, a decision starts another one on the date of the last. -/
def Repeats (s : Scheduler) : Prop :=
  ∃ reports history origin r r', Life (reports ++ [r]) history origin s ∧
    s.tick.Ends Lapses [] (ticked s).1 (.ok (.nightly r')) ∧
    s.mind.zone.date r.startedAt = s.mind.zone.date r'.startedAt

/-- A nightly cycle from `s` is repeated in `s'`, to which life has gone on. -/
theorem repeats_of_life {reports : List NightlyReport} {history : List RunRecord}
    {origin : Option Backend} {s s' : Scheduler} (life : Life reports history origin s)
    (recorded : runCount s < runCount (ticked s).1)
    (goesOn : ∀ {reports history}, Life reports history none (ticked s).1 →
      ∃ origin, Life reports history origin s')
    (slept : (report? (ticked s).2).isSome)
    (same : (report? (ticked s').2).map (fun r => s'.mind.zone.date r.startedAt) =
      (report? (ticked s).2).map (fun r => s'.mind.zone.date r.startedAt)) : Repeats s' := by
  obtain ⟨r, hr⟩ := Option.isSome_iff_exists.mp slept
  rw [hr] at same
  obtain ⟨r', hr', hdate⟩ := Option.map_eq_some_iff.mp same
  obtain ⟨id, once⟩ := life_ticked life hr recorded
  obtain ⟨origin', later⟩ := goesOn once
  exact ⟨reports, _, origin', r, r', later, ends_ticked hr', hdate.symm⟩

/-- The history cannot be read when the process is started again. -/
def unread : Scheduler := reopened ["last_run"] (ticked (opened (.volatile .empty) utc 43200)).1

/-- One minute after midnight, clocks are put back by an hour. -/
def autumn : Time.Zone :=
  ⟨fun t => if t.seconds < 86460 then utc.date t else (Time.Zone.fixed (-3600)).date t⟩

/-- The same process, after a night that began five seconds before midnight, one minute after clocks
were put back. -/
def putBack : Scheduler := turned (ticked (opened (.volatile .empty) autumn 86395)).1 86520

/-- On tables, one minute before the year 10000. -/
def lastMinute : Scheduler := opened (.durable .empty) utc 253402300740

/-- The first second of the year 10000. -/
def newYear : Scheduler := turned (ticked lastMinute).1 253402300800

/-- The process is started again in the year 10000. -/
def sameDay : Scheduler := reopened [] (ticked newYear).1

end Life.Sample

open Life.Sample in
/-- A nightly cycle is repeated on its date if the history cannot be read when the process is
started again. It is repeated by the same process if clocks are put back over midnight while it
sleeps. And it is repeated after a nightly cycle in the year 9999 and one in the year 10000: tables
tell the first as the last run, since its text is the greater one. -/
theorem nightly_twice_on_a_date : Repeats unread ∧ Repeats putBack ∧ Repeats sameDay ∧
    sameDay.mind.backend.lastRun.isOk := by
  refine ⟨?_, ?_, ?_, by decide +kernel⟩
  · exact repeats_of_life (life_opened (.inl rfl) utc 43200) (by decide +kernel)
      (fun once => ⟨_, life_reopened once _⟩) (by decide +kernel) (by decide +kernel)
  · exact repeats_of_life (life_opened (.inl rfl) autumn 86395) (by decide +kernel)
      (fun once => ⟨_, life_turned once (by decide +kernel)⟩) (by decide +kernel)
      (by decide +kernel)
  · obtain ⟨r, hr⟩ := Option.isSome_iff_exists.mp
      (show (report? (ticked lastMinute).2).isSome by decide +kernel)
    obtain ⟨id, once⟩ := life_ticked (life_opened (.inr rfl) utc 253402300740) hr
      (by decide +kernel)
    have turn : Life [r] _ none newYear := life_turned once (by decide +kernel)
    exact repeats_of_life turn (by decide +kernel) (fun twice => ⟨_, life_reopened twice _⟩)
      (by decide +kernel) (by decide +kernel)

end Scheduler

end Engram
