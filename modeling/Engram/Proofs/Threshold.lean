import Engram.Proofs.Cycle
import Engram.Scheduler
import Mathlib.Algebra.Group.Nat.Defs

/-! When the gate has no answer. A configuration names the idle time that a cycle asks for in hours or
in minutes, and not every number of these is a length of time. Validation does not look at them. So
whether the gate of a kind answers depends on that number alone, and not on the device; requests to
a scheduler fail where they come to a gate without an answer, and nowhere else. -/
namespace Engram

namespace Config

/-- The idle time that a kind of cycle asks for, in seconds. -/
def askedSeconds (c : Config) : CycleKind → Int
  | .light => c.background.idleMinutes * 60
  | .nightly => c.nightly.idleHours * 3600

/-- The idle time that a kind of cycle asks for is a length of time: its milliseconds fit in a signed
64-bit word. -/
def InRange (c : Config) (kind : CycleKind) : Prop :=
  (c.askedSeconds kind * 1000).natAbs < 2 ^ 63

instance (c : Config) (kind : CycleKind) : Decidable (c.InRange kind) :=
  inferInstanceAs (Decidable (_ < _))

/-- The same configuration with other idle times. -/
def asking (c : Config) (hours minutes : Int) : Config :=
  { c with
    nightly := { c.nightly with idleHours := hours }
    background := { c.background with idleMinutes := minutes } }

/-- No check of a configuration looks at an idle time. -/
theorem validate_asking (c : Config) (hours minutes : Int) :
    (c.asking hours minutes).validate = c.validate := rfl

end Config

namespace Time.Span

theorem ofSeconds?_eq_none_iff {n : Int} : ofSeconds? n = none ↔ ¬ (n * 1000).natAbs < 2 ^ 63 := by
  have hmost : mostMillis.natAbs = 2 ^ 63 - 1 := by decide
  unfold ofSeconds?
  rw [hmost, ite_eq_right_iff]
  simp only [reduceCtorEq, imp_false]
  omega

end Time.Span

namespace Gate

variable {c : Config} {kind : CycleKind}

/-- The gate of a kind answers for a device if the idle time it asks for is a length of time. -/
theorem exists_violations (inRange : c.InRange kind) (device : DeviceState) :
    ∃ found, violations c kind device = .ok found := by
  have hspan : Time.Span.ofSeconds? (c.askedSeconds kind) ≠ none := fun h =>
    Time.Span.ofSeconds?_eq_none_iff.mp h inRange
  obtain ⟨required, hrequired⟩ := Option.ne_none_iff_exists'.mp hspan
  cases kind with
  | light =>
      have hidle : c.background.idleThreshold? = some required := hrequired
      exact ⟨_, by rw [violations, hidle]⟩
  | nightly =>
      have hidle : c.nightly.idleThreshold? = some required := hrequired
      exact ⟨_, by rw [violations, hidle]⟩

/-- If it is not, the gate has no answer for any device. -/
theorem violations_eq_error (outOfRange : ¬ c.InRange kind) (device : DeviceState) :
    violations c kind device = .error .undefined := by
  have hspan := Time.Span.ofSeconds?_eq_none_iff.mpr outOfRange
  cases kind with
  | light =>
      have hidle : c.background.idleThreshold? = none := hspan
      rw [violations, hidle]
  | nightly =>
      have hidle : c.nightly.idleThreshold? = none := hspan
      rw [violations, hidle]

theorem exists_violations_iff (device : DeviceState) :
    (∃ found, violations c kind device = .ok found) ↔ c.InRange kind := by
  by_cases inRange : c.InRange kind
  · exact iff_of_true (exists_violations inRange device) inRange
  · refine iff_of_false ?_ inRange
    rw [violations_eq_error inRange device]
    rintro ⟨found, hfound⟩
    cases hfound

/-- A device that is not charging keeps a nightly cycle from running. -/
theorem exists_closed (inRange : c.InRange .nightly) :
    ∃ device first rest, violations c .nightly device = .ok (first :: rest) := by
  let device : DeviceState := ⟨false, 0, .zero, 0, 0⟩
  obtain ⟨found, hfound⟩ := exists_violations inRange device
  unfold violations at hfound ⊢
  cases hidle : c.nightly.idleThreshold? with
  | none => simp [hidle] at hfound
  | some required => exact ⟨device, .notCharging, _, by simp [nightlyViolations, check, device]; rfl⟩

end Gate

namespace Scheduler

/-- What happens at a question leaves the configuration as it is. -/
def Configured (s : Scheduler) (_ : List Unit) (s' : Scheduler) : Prop :=
  s'.mind.config = s.mind.config

variable {s s' : Scheduler} {kind : CycleKind} {labels : List Unit}

/-- A nightly cycle that has started is reported as one. -/
theorem nightlyCycle_outcome {outcome : StartOutcome}
    (ends : s.nightlyCycle.Ends Configured labels s' outcome) :
    ∃ report, outcome = .nightly report := by
  unfold nightlyCycle at ends
  obtain ⟨_, _, _, report, _, _, finished⟩ := ends.bind_cases
  obtain ⟨_, _, rfl⟩ := finished.of_done
  exact ⟨report, rfl⟩

theorem lightCycle_outcome {outcome : StartOutcome}
    (ends : s.lightCycle.Ends Configured labels s' outcome) :
    ∃ report, outcome = .light report := by
  unfold lightCycle at ends
  obtain ⟨_, _, _, _, _, _, finished⟩ := ends.bind_cases
  obtain ⟨_, _, rfl⟩ := finished.of_done
  exact ⟨_, rfl⟩

/-- How a request for a cycle ends: with a failure of its gate, with a closed gate and the
configuration as it was, or with something else. -/
theorem runCycle_outcome {outcome : Except Error StartOutcome}
    (ends : (s.runCycle kind).Ends Configured labels s' outcome) :
    (∀ e, outcome = .error e → s.state = .idle ∧ ¬ s.mind.config.InRange kind) ∧
      ∀ found, outcome = .ok (.conditionNotMet found) →
        s.state = .idle ∧ s'.mind.config = s.mind.config := by
  unfold runCycle at ends
  cases hstate : s.state with
  | running running startedAt =>
      simp only [hstate] at ends
      obtain ⟨_, _, rfl⟩ := ends.of_done
      simp
  | idle =>
      simp only [hstate] at ends
      cases ends with
      | @device _ t _ _ front back _ device between rest =>
          have same : t.mind.config = s.mind.config := between
          cases hgate : Gate.violations t.mind.config kind device with
          | error e =>
              simp only [hgate] at rest
              obtain ⟨_, _, rfl⟩ := rest.of_done
              have outOfRange : ¬ t.mind.config.InRange kind := by
                intro inRange
                obtain ⟨found, hfound⟩ := Gate.exists_violations inRange device
                rw [hfound] at hgate
                cases hgate
              rw [same] at outOfRange
              simp [outOfRange]
          | ok found =>
              cases found with
              | cons first found =>
                  simp only [hgate] at rest
                  obtain ⟨_, rfl, rfl⟩ := rest.of_done
                  simp [same]
              | nil =>
                  simp only [hgate] at rest
                  obtain ⟨_, _, _, outcome, _, ran, finished⟩ := rest.bind_cases
                  obtain ⟨_, _, rfl⟩ := finished.of_done
                  cases kind with
                  | light =>
                      obtain ⟨report, rfl⟩ := lightCycle_outcome ran
                      simp
                  | nightly =>
                      obtain ⟨report, rfl⟩ := nightlyCycle_outcome ran
                      simp

/-- A request fails in some course of what happens outside. -/
def Fails (request : Cycle Scheduler (Except Error StartOutcome)) : Prop :=
  ∃ labels last e, request.Ends Configured labels last (.error e)

theorem Fails.of_runCycle (idle : s.state = .idle) (outOfRange : ¬ s.mind.config.InRange kind) :
    Fails (s.runCycle kind) := by
  let device : DeviceState := ⟨true, 1, .zero, 1, 0⟩
  have between : Configured s [] s := rfl
  refine ⟨[], s, .undefined, ?_⟩
  unfold runCycle
  simp only [idle]
  refine .device device between ?_
  rw [Gate.violations_eq_error outOfRange device]
  exact .done s _

/-- A request for a cycle fails exactly if it comes to a gate that has no answer. -/
theorem fails_runCycle_iff :
    Fails (s.runCycle kind) ↔ s.state = .idle ∧ ¬ s.mind.config.InRange kind := by
  refine ⟨?_, fun h => .of_runCycle h.1 h.2⟩
  rintro ⟨labels, last, e, ends⟩
  exact (runCycle_outcome ends).1 e rfl

/-- A closed gate of a nightly cycle is reported, and nothing else happens. -/
theorem exists_conditionNotMet (idle : s.state = .idle)
    (inRange : s.mind.config.InRange .nightly) :
    ∃ found, (s.runCycle .nightly).Ends Configured [] s (.ok (.conditionNotMet found)) := by
  obtain ⟨device, first, rest, hclosed⟩ := Gate.exists_closed inRange
  have between : Configured s [] s := rfl
  refine ⟨first :: rest, ?_⟩
  unfold runCycle
  simp only [idle]
  refine .device device between ?_
  rw [hclosed]
  exact .done s _

/-- The local date on which a decision is made. -/
def date (s : Scheduler) : Time.Date := s.mind.zone.date s.mind.source.clock.time

/-- A decision fails exactly if it can come to a gate that has no answer: to the one of a nightly
cycle if there was none on its date, and to the one of a light cycle in any case. -/
theorem fails_tick_iff : Fails s.tick ↔ s.state = .idle ∧
    (¬ s.mind.config.InRange .light ∨
      s.lastNightly ≠ some s.date ∧ ¬ s.mind.config.InRange .nightly) := by
  have later : ∀ {kind : CycleKind}, Fails (s.today.2.runCycle kind) ↔
      s.state = .idle ∧ ¬ s.mind.config.InRange kind := fails_runCycle_iff
  by_cases hdate : s.lastNightly = some s.date
  · have htick : s.tick = s.today.2.runCycle .light := if_pos hdate
    simp [htick, later, hdate]
  · have htick : s.tick = (s.today.2.runCycle .nightly).bind _ := if_neg hdate
    rw [htick]
    constructor
    · rintro ⟨labels, last, e, ends⟩
      obtain ⟨front, back, t, outcome, _, asked, rest⟩ := ends.bind_cases
      obtain ⟨failed, closed⟩ := runCycle_outcome asked
      split at rest
      · rename_i found
        obtain ⟨hidle, same⟩ := closed found rfl
        obtain ⟨_, outOfRange⟩ := (runCycle_outcome rest).1 e rfl
        rw [same] at outOfRange
        exact ⟨hidle, .inl outOfRange⟩
      · obtain ⟨_, _, houtcome⟩ := rest.of_done
        obtain ⟨hidle, outOfRange⟩ := failed e houtcome.symm
        exact ⟨hidle, .inr ⟨hdate, outOfRange⟩⟩
    · rintro ⟨hidle, houtOfRange⟩
      by_cases inRange : s.mind.config.InRange .nightly
      · -- The gate of the nightly cycle can be closed, and then the other one is asked.
        have hlight : ¬ s.mind.config.InRange .light := by simpa [inRange] using houtOfRange
        obtain ⟨found, asked⟩ := exists_conditionNotMet (s := s.today.2) hidle inRange
        obtain ⟨labels, last, e, ends⟩ := later.mpr ⟨hidle, hlight⟩
        exact ⟨[] ++ labels, last, e, asked.bind ends⟩
      · obtain ⟨labels, last, e, asked⟩ := later.mpr ⟨hidle, inRange⟩
        exact ⟨labels ++ [], last, e, asked.bind (.done last _)⟩

/-- Whether a validated configuration has gates that answer. Validation accepts any idle times; the
gate of a kind answers, for all devices alike, exactly if the idle time it asks for is a length of
time; and where it is not, every request of an idle scheduler that comes to this gate fails. -/
theorem gate_answers_iff_inRange {c : Config} (valid : c.validate = .ok ()) :
    (∀ hours minutes, (c.asking hours minutes).validate = .ok ()) ∧
    (∀ kind device, (∃ found, Gate.violations c kind device = .ok found) ↔ c.InRange kind) ∧
    (∀ s : Scheduler, s.mind.config = c → ∀ kind,
      Fails (s.runCycle kind) ↔ s.state = .idle ∧ ¬ c.InRange kind) ∧
    ∀ s : Scheduler, s.mind.config = c → (Fails s.tick ↔ s.state = .idle ∧
      (¬ c.InRange .light ∨ s.lastNightly ≠ some s.date ∧ ¬ c.InRange .nightly)) := by
  refine ⟨?_, fun _ device => Gate.exists_violations_iff device, ?_, ?_⟩
  · intro hours minutes
    rw [c.validate_asking, valid]
  · rintro s rfl kind
    exact fails_runCycle_iff
  · rintro s rfl
    exact fails_tick_iff

namespace Sample

/-- A nightly cycle asks for one hour more than a length of time can have. -/
def sleepless : Config := { nightly := { idleHours := 2562047788016 } }

def restless : Scheduler :=
  start (.start sleepless (.ofStorage (.volatile .empty))
    ⟨⟨⟨0, 0⟩, .fixed 0, 1⟩, Uid.ofStream 7, 0⟩)

/-- A device on which every cycle may run. -/
def ready : DeviceState := ⟨true, 1, ⟨10800000000000⟩, 1, 3⟩

end Sample

open Sample in
theorem gate_answers_iff_inRange_sample :
    sleepless.validate = .ok () ∧
      ¬ (∃ found, Gate.violations sleepless .nightly ready = .ok found) ∧
      (∃ found, Gate.violations sleepless .light ready = .ok found) ∧
      Fails (restless.runCycle .nightly) ∧ ¬ Fails (restless.runCycle .light) ∧
      Fails restless.tick := by
  have valid : sleepless.validate = .ok () := rfl
  have hnightly : ¬ sleepless.InRange .nightly := by decide
  have hlight : sleepless.InRange .light := by decide
  obtain ⟨_, answers, cycles, decisions⟩ := gate_answers_iff_inRange valid
  refine ⟨valid, fun h => hnightly ((answers _ _).mp h), (answers _ _).mpr hlight, ?_, ?_, ?_⟩
  · exact (cycles restless rfl .nightly).mpr ⟨rfl, hnightly⟩
  · exact fun h => ((cycles restless rfl .light).mp h).2 hlight
  · exact (decisions restless rfl).mpr ⟨rfl, .inr ⟨by decide, hnightly⟩⟩

end Scheduler

end Engram
