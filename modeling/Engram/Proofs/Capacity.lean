import Engram.Proofs.Experience
import Engram.Proofs.Likeness

/-! Tiers and their capacities. A consolidation leaves a tier with as many memories as it has room
for and those that arrived after it last read the tier. If nothing arrives meanwhile, every
operation leaves every tier within its capacity. -/
namespace Engram

theorem Consolidation.length_kept (w : ScoreWeights) (now : Time.Instant) (capacity : Nat)
    (traces : List Trace) :
    (partition w now capacity traces).1.length = min capacity traces.length := by
  unfold partition
  rw [List.splitAt_eq, List.length_take, (ordered_perm w now traces).length_eq]

namespace Store

theorem size_eq_of_fixed {s s' : Store} {t : Tier} (h : s'.fixed t = s.fixed t) :
    s'.size t = s.size t := by
  have hlength := congrArg List.length h
  simpa [fixed, memories, size] using hlength

theorem size_put (s : Store) (t u : Tier) (traces : List Trace) :
    (s.put t traces).size u = if u = t then traces.length else s.size u := by
  have hlength := congrArg List.length (s.memories_put t u traces)
  by_cases h : u = t
  · simpa [memories, size, h] using hlength
  · simpa [memories, size, h] using hlength

/-- Append memories to their tiers, one after the other. -/
def addAll (s : Store) (arrivals : List Memory) : Store := arrivals.foldl add s

theorem traces_add (s : Store) (m : Memory) (t : Tier) :
    (s.add m).traces t = s.traces t ++ if m.tier = t then [⟨s.enrolled, m⟩] else [] := by
  by_cases h : m.tier = t
  · subst h
    simp [add, enroll, traces]
  · simp [add, enroll, traces, h, Ne.symm h]

/-- What arrives in a tier stands behind what was there. -/
theorem traces_addAll (s : Store) (arrivals : List Memory) (t : Tier) :
    ∃ new, (s.addAll arrivals).traces t = s.traces t ++ new ∧
      new.length = arrivals.countP (·.tier == t) := by
  induction arrivals generalizing s with
  | nil => exact ⟨[], by simp [addAll], rfl⟩
  | cons m arrivals ih =>
      obtain ⟨new, htraces, hlength⟩ := ih (s.add m)
      rw [traces_add, List.append_assoc] at htraces
      refine ⟨_, htraces, ?_⟩
      by_cases h : m.tier = t
      · simp [h, hlength, Nat.add_comm]
      · simp [h, hlength]

theorem size_addAll (s : Store) (arrivals : List Memory) (t : Tier) :
    (s.addAll arrivals).size t = s.size t + arrivals.countP (·.tier == t) := by
  obtain ⟨new, htraces, hlength⟩ := s.traces_addAll arrivals t
  rw [size, htraces, List.length_append, hlength, size]

/-- What is put in place of a tier is what was kept of it and some of what has arrived since it was
read. -/
theorem size_commit_le {s : Store} {t : Tier} {base new : List Trace} (kept : List Trace)
    (read : s.traces t = base ++ new) :
    (s.commit t base kept).1.size t ≤ kept.length + new.length := by
  simp only [commit, size_put, if_true, List.length_append, read, List.filter_append, filter_read,
    List.nil_append]
  exact Nat.add_le_add_left (List.length_filter_le _ _) _

end Store

namespace Mind

open Consolidation

section Arrivals

variable (t : Tier) (now : Time.Instant)

/-- The memories that are added while a pass over a tier is under way: before the tier is read,
before the result is put in place, and before what was demoted is staged. -/
structure Arrivals where
  before : List Memory
  during : List Memory
  after : List Memory

/-- A mind with memories that others have added. -/
def joinedBy (s : Mind) (arrivals : List Memory) : Mind :=
  { s with store := s.store.addAll arrivals }

/-- One pass over a tier, from the time it is read on. It ends with the number of late arrivals and
with what was demoted. -/
def passAmid (s : Mind) (a : Arrivals) : Mind × Nat × List Memory :=
  let base := s.store.traces t
  let (kept, demoted) := partition s.config.score now (s.config.capacity t) base
  let s := s.joinedBy a.during
  let (store, late) := s.store.commit t base kept
  let demoted := demoted.map (·.memory)
  ((({ s with store } : Mind).joinedBy a.after).stage demoted, late, demoted)

/-- Passes over a tier while memories are added. What was added since the tier was last read is
returned as well. -/
def passesAmid (arrivals : Nat → Arrivals) :
    Nat → Mind → TierConsolidation → List Memory → (Mind × TierConsolidation) × List Memory
  | 0, s, result, since => ((s, result), since)
  | passes + 1, s, result, _ =>
    let a := arrivals passes
    let s := s.joinedBy a.before
    if s.store.size t ≤ s.config.capacity t then ((s, result), [])
    else
      let (s, late, demoted) := s.passAmid t now a
      let result := { result with
        archived := result.archived ++ demoted.map (·.id)
        lateArrivals := result.lateArrivals + late
        passes := result.passes + 1 }
      let since := a.during ++ a.after
      if late = 0 then ((s, result), since)
      else passesAmid arrivals passes s result since

/-- A consolidation while memories are added, up to the time when the tier is counted. -/
def consolidateAmid (s : Mind) (arrivals : Nat → Arrivals) (last : List Memory) :
    (Mind × TierConsolidation) × List Memory :=
  let start := s.source.clock.time
  let ((s, result), since) := passesAmid t now arrivals maxPasses s {
    tier := t, before := s.store.size t, after := 0, archived := [], lateArrivals := 0, passes := 0,
    durationMs := 0 } []
  let s := s.joinedBy last
  ((s, { result with
    after := s.store.size t
    durationMs := s.source.clock.elapsed start }), since ++ last)

/-- Nothing is added. -/
def Arrivals.none : Arrivals := ⟨[], [], []⟩

theorem joinedBy_nil (s : Mind) : s.joinedBy [] = s := rfl

theorem passAmid_none (s : Mind) :
    s.passAmid t now .none =
      (({ s with store := s.store.put t (s.divide t now).1 } : Mind).stage
        ((s.divide t now).2.map (·.memory)), 0, (s.divide t now).2.map (·.memory)) := by
  simp only [passAmid, Arrivals.none, joinedBy_nil, Store.commit_traces]
  rfl

/-- If nothing is added, a consolidation is what it is for a mind that is left alone. -/
theorem consolidateAmid_none (s : Mind) :
    s.consolidateAmid t now (fun _ => .none) [] = (s.consolidateAt t now, []) := by
  have hpasses : ∀ result, passesAmid t now (fun _ => .none) maxPasses s result [] =
      (consolidationPasses t now maxPasses s result, []) := by
    intro result
    change passesAmid t now _ (2 + 1) s result [] = (consolidationPasses t now (2 + 1) s result, [])
    rw [consolidationPasses_succ, passesAmid]
    simp only [passAmid_none, if_true]
    by_cases hfits : s.store.size t ≤ s.config.capacity t
    · rw [if_pos hfits]
      exact if_pos hfits
    · rw [if_neg hfits]
      exact if_neg hfits
  rw [consolidateAmid, hpasses]
  rfl

/-- After a pass a tier holds what it has room for and what has arrived since it was read. -/
theorem size_passAmid_le (s : Mind) (a : Arrivals) :
    (s.passAmid t now a).1.store.size t ≤
      s.config.capacity t + (a.during ++ a.after).countP (·.tier == t) := by
  obtain ⟨new, hread, hlength⟩ := s.store.traces_addAll a.during t
  let kept := (partition s.config.score now (s.config.capacity t) (s.store.traces t)).1
  have hkept : kept.length ≤ s.config.capacity t := by
    rw [length_kept]
    exact Nat.min_le_left _ _
  have hcommit := Store.size_commit_le kept hread
  calc (s.passAmid t now a).1.store.size t
      _ = ((s.store.addAll a.during).commit t (s.store.traces t) kept).1.size t +
          a.after.countP (·.tier == t) := Store.size_addAll _ _ _
      _ ≤ s.config.capacity t + (a.during ++ a.after).countP (·.tier == t) := by
          rw [List.countP_append]
          omega

/-- The invariant of the passes. -/
theorem size_passesAmid_le (arrivals : Nat → Arrivals) (passes : Nat) (s : Mind)
    (result : TierConsolidation) (since : List Memory)
    (bounded : passes = 0 →
      s.store.size t ≤ s.config.capacity t + since.countP (·.tier == t)) :
    let ended := passesAmid t now arrivals passes s result since
    ended.1.1.store.size t ≤ s.config.capacity t + ended.2.countP (·.tier == t) ∧
      ended.1.2.passes ≤ result.passes + passes := by
  -- Before the first pass the tier may hold anything, so the bound is asked for only when no pass
  -- is left; each pass reads the tier anew and establishes it for what has arrived since.
  induction passes generalizing s result since with
  | zero => exact ⟨bounded rfl, le_rfl⟩
  | succ passes ih =>
      simp only [passesAmid]
      have hroom : (s.joinedBy (arrivals passes).before).config.capacity t = s.config.capacity t :=
        rfl
      by_cases hfits : (s.joinedBy (arrivals passes).before).store.size t ≤ s.config.capacity t
      · rw [hroom, if_pos hfits]
        exact ⟨hfits, Nat.le_add_right _ _⟩
      · rw [hroom, if_neg hfits]
        have hsize := size_passAmid_le t now (s.joinedBy (arrivals passes).before)
          (arrivals passes)
        split
        · refine ⟨hsize, ?_⟩
          simp only
          omega
        · refine ⟨(ih _ _ _ fun _ => hsize).1, (ih _ _ _ fun _ => hsize).2.trans ?_⟩
          simp only
          omega

theorem size_consolidateAmid_le (s : Mind) (arrivals : Nat → Arrivals) (last : List Memory) :
    let ended := s.consolidateAmid t now arrivals last
    ended.1.2.after = ended.1.1.store.size t ∧
      ended.1.2.after ≤ s.config.capacity t + ended.2.countP (·.tier == t) ∧
      ended.1.2.passes ≤ maxPasses := by
  unfold consolidateAmid
  simp only
  generalize hresult : TierConsolidation.mk t _ _ _ _ _ _ = result
  have hzero : result.passes = 0 := by rw [← hresult]
  obtain ⟨hsize, hpasses⟩ := size_passesAmid_le t now arrivals maxPasses s result []
    (fun h => by cases h)
  generalize passesAmid t now arrivals maxPasses s result [] = ended at hsize hpasses ⊢
  have hlast : (ended.1.1.joinedBy last).store.size t =
      ended.1.1.store.size t + last.countP (·.tier == t) := Store.size_addAll _ _ _
  refine ⟨trivial, ?_, ?_⟩
  · rw [hlast, List.countP_append]
    omega
  · rw [hzero, Nat.zero_add] at hpasses
    exact hpasses

end Arrivals

/-- A tier is brought back to its capacity: some of its memories stay in the store and the others
are staged. -/
structure Demotes (s : Mind) (t : Tier) (store : Store) (staged : List Memory) : Prop where
  room : store.size t = min (s.config.capacity t) (s.store.size t)
  parts : (store.memories t ++ staged).Perm (s.store.memories t)
  others (u : Tier) : u ≠ t → store.memories u = s.store.memories u

theorem Demotes.none {s : Mind} {t : Tier} (fits : s.store.size t ≤ s.config.capacity t) :
    Demotes s t s.store [] where
  room := (Nat.min_eq_right fits).symm
  parts := by simp
  others _ _ := rfl

theorem demotes_divide (s : Mind) (t : Tier) (now : Time.Instant) :
    Demotes s t (s.store.put t (s.divide t now).1) ((s.divide t now).2.map (·.memory)) where
  room := by
    rw [Store.size_put, if_pos rfl, divide, length_kept]
    rfl
  parts := by
    rw [Store.memories_put, if_pos rfl, ← List.map_append]
    exact (partition_perm _ _ _ _).map _
  others u hu := by rw [Store.memories_put, if_neg hu]

theorem Demotes.size {s : Mind} {t : Tier} {store : Store} {staged : List Memory}
    (demotes : Demotes s t store staged) (u : Tier) :
    store.size u =
      if u = t then min (s.config.capacity t) (s.store.size t) else s.store.size u := by
  by_cases h : u = t
  · rw [if_pos h, h, demotes.room]
  · rw [if_neg h]
    have hlength := congrArg List.length (demotes.others u h)
    simpa [Store.memories, Store.size] using hlength

/-- Nothing is lost on the way. -/
theorem Demotes.length {s : Mind} {t : Tier} {store : Store} {staged : List Memory}
    (demotes : Demotes s t store staged) : s.store.size t = store.size t + staged.length := by
  have hlength := demotes.parts.length_eq
  simpa [Store.memories, Store.size] using hlength.symm

/-- A consolidation that nothing disturbs takes at most one pass. -/
theorem consolidateAt_spec (s : Mind) (t : Tier) (now : Time.Instant) :
    ∃ store staged, (s.consolidateAt t now).1 = ({ s with store } : Mind).stage staged ∧
      Demotes s t store staged ∧
      (s.consolidateAt t now).2.before = s.store.size t ∧
      (s.consolidateAt t now).2.after = store.size t ∧
      (s.consolidateAt t now).2.archived = staged.map (·.id) ∧
      (s.consolidateAt t now).2.passes ≤ 1 := by
  unfold consolidateAt
  simp only
  rw [show maxPasses = 2 + 1 from rfl, consolidationPasses_succ]
  by_cases hfits : s.store.size t ≤ s.config.capacity t
  · rw [if_pos hfits]
    exact ⟨s.store, [], rfl, .none hfits, rfl, rfl, rfl, Nat.zero_le 1⟩
  · rw [if_neg hfits]
    exact ⟨_, _, rfl, s.demotes_divide t now, rfl, rfl, rfl, le_rfl⟩

theorem consolidateIfOver_spec (s : Mind) (t : Tier) :
    ∃ source store staged,
      (s.consolidateIfOver t).1 = ({ s with source, store } : Mind).stage staged ∧
        Demotes s t store staged := by
  unfold consolidateIfOver
  split
  · obtain ⟨store, staged, hmind, demotes, _⟩ := s.now.2.consolidateAt_spec t s.now.1
    exact ⟨_, store, staged, hmind, ⟨demotes.room, demotes.parts, demotes.others⟩⟩
  · rename_i hfits
    exact ⟨s.source, s.store, [], rfl, .none (Nat.le_of_not_lt hfits)⟩

/-- Every tier is within its capacity. -/
def Within (s : Mind) : Prop := ∀ t, s.store.size t ≤ s.config.capacity t

/-- Bounding one tier is enough if all others are within their capacities. -/
theorem within_consolidateIfOver {s : Mind} {t : Tier}
    (others : ∀ u, u ≠ t → s.store.size u ≤ s.config.capacity u) :
    (s.consolidateIfOver t).1.Within := by
  obtain ⟨source, store, staged, hmind, demotes⟩ := s.consolidateIfOver_spec t
  rw [hmind]
  intro u
  change store.size u ≤ s.config.capacity u
  rw [demotes.size]
  by_cases h : u = t
  · rw [if_pos h, h]
    exact Nat.min_le_left _ _
  · rw [if_neg h]
    exact others u h

/-- A tier that is bounded stays so while others are. -/
theorem size_bounded_le (tiers : List Tier) (s : Mind) :
    let bounded := tiers.foldl (fun s t => (s.consolidateIfOver t).1) s
    bounded.config = s.config ∧ ∀ u, bounded.store.size u ≤ s.store.size u ∧
      (u ∈ tiers → bounded.store.size u ≤ s.config.capacity u) := by
  induction tiers generalizing s with
  | nil => exact ⟨rfl, fun u => ⟨le_rfl, fun h => by cases h⟩⟩
  | cons t tiers ih =>
      obtain ⟨source, store, staged, hmind, demotes⟩ := s.consolidateIfOver_spec t
      obtain ⟨hconfig, hsize⟩ := ih (s.consolidateIfOver t).1
      have hkept : (s.consolidateIfOver t).1.config = s.config := by
        rw [hmind]
        rfl
      have hfirst : ∀ u, (s.consolidateIfOver t).1.store.size u = store.size u := by
        rw [hmind]
        exact fun _ => rfl
      rw [hkept] at hconfig hsize
      refine ⟨hconfig, ?_⟩
      intro u
      obtain ⟨hshrinks, hbounds⟩ := hsize u
      rw [hfirst, demotes.size] at hshrinks
      rw [List.foldl_cons, List.mem_cons]
      by_cases h : u = t
      · subst h
        rw [if_pos rfl] at hshrinks
        exact ⟨hshrinks.trans (Nat.min_le_right _ _),
          fun _ => hshrinks.trans (Nat.min_le_left _ _)⟩
      · rw [if_neg h] at hshrinks
        exact ⟨hshrinks, fun hu => hbounds (hu.resolve_left h)⟩

theorem within_boundTiers (s : Mind) : s.boundTiers.1.Within := by
  obtain ⟨hconfig, hsize⟩ := size_bounded_le Tier.all s
  intro t
  rw [boundTiers_eq, hconfig]
  exact (hsize t).2 t.mem_all

theorem Within.of_eq {s s' : Mind} (within : s.Within) (store : s'.store = s.store)
    (config : s'.config = s.config) : s'.Within := by
  intro t
  rw [store, config]
  exact within t

theorem within_cleanupPhase (s : Mind) (night : Night) : (s.cleanupPhase night).1.Within := by
  have bounded := s.within_boundTiers
  obtain ⟨t, _, _, _, ht, hcleaned, _⟩ := s.cleanupPhase_frame night
  rw [ht] at bounded
  rw [hcleaned]
  exact bounded.of_eq rfl rfl

/-- The last phase bounds every tier, whatever the night has found. -/
theorem within_finishNight (s : Mind) (p : Progress) : (s.finishNight p).1.Within := by
  obtain ⟨night, _, last, _⟩ := s.finishNight_eq p
  have cleaned := s.within_cleanupPhase night
  rw [last]
  generalize s.cleanupPhase night = outcome at cleaned
  exact cleaned.of_eq rfl rfl

theorem Within.recordRun {s : Mind} (within : s.Within) (report : NightlyReport) :
    (s.recordRun report).Within := by
  unfold Mind.recordRun
  simp only
  split
  · exact within.of_eq rfl rfl
  · exact within.of_eq rfl rfl

theorem Within.persist {s : Mind} (within : s.Within) : s.persist.1.Within := by
  obtain ⟨c, _, _, hpersist, _⟩ := s.persist_cases
  rw [hpersist]
  exact within.of_eq rfl rfl

/-- At the end of a night every tier is within its capacity, whatever has happened meanwhile. -/
theorem within_of_nightly {lbl : Type} {meanwhile : Mind → List lbl → Mind → Prop} {s last : Mind}
    {labels : List lbl} {report : NightlyReport}
    (ends : s.runNightly.Ends meanwhile labels last report) : last.Within := by
  obtain ⟨front, back, t, _, _, phases, checkpoint⟩ := ends.bind_cases
  obtain ⟨_, rfl, rfl⟩ := checkpoint.of_done
  have free : Abides meanwhile fun _ _ _ => True :=
    ⟨fun _ => trivial, fun _ _ => trivial, fun _ => trivial, fun _ => trivial,
      fun _ _ => trivial⟩
  -- Nothing is asked of what happens before the last phase: that phase bounds all tiers by itself.
  obtain ⟨_, _, _, _, v, p, _, _, _, _, finished, _⟩ := free.nightlyPhases phases
  have within := v.within_finishNight p
  rw [finished] at within
  exact (within.recordRun _).persist

theorem Within.quiet {allowed : List String → Prop} {s s' : Mind} (within : s.Within)
    (quiet : Quiet allowed s s') : s'.Within := by
  intro t
  rw [Store.size_eq_of_fixed (quiet.store t), quiet.frame.config]
  exact within t

theorem Within.settle {s : Mind} (within : s.Within) (input : Input) (output : String)
    (embedding : Embedding) (retrieved : Nat) :
    (s.settle input output embedding retrieved).1.Within := by
  unfold Mind.settle
  cases s.discoverAssociations embedding with
  | error e => exact within
  | ok associations =>
      obtain ⟨store, config, _⟩ := s.remember_stores input output embedding associations
      refine within_consolidateIfOver ?_
      intro u hu
      rw [store, config, Store.size, Store.traces_add, if_neg (Ne.symm hu), List.append_nil]
      exact within u

theorem Within.answer {s : Mind} (within : s.Within) (generator : Generator) (input : Input)
    (embedding : Embedding) : (s.answer generator input embedding).1.Within := by
  unfold Mind.answer
  cases hretrieve : s.store.retrieve s.config.retrieval embedding with
  | error e => exact within
  | ok found =>
      obtain ⟨memories, store⟩ := found
      have used : ({ s with store } : Mind).Within := by
        intro t
        rw [Store.size_eq_of_fixed (Store.fixed_retrieve hretrieve t)]
        exact within t
      simp only
      cases generate generator (Prompt.forInput s.config.retrieval input.text memories) with
      | error e => exact used
      | ok output => exact used.settle input output embedding memories.length

/-- Only the tier of the new memory can be over its capacity, and it is bounded at once. -/
theorem Within.process {s : Mind} (within : s.Within) (collaborators : Collaborators)
    (input : Input) : (s.process collaborators input).1.Within := by
  have quiet : Quiet (fun _ => True) s
      (s.recordActivity.embed collaborators.embedder input.text).1 :=
    s.quiet_recordActivity.trans (s.recordActivity.quiet_embed _ _)
  have embedded := within.quiet quiet
  unfold Mind.process
  cases hasked : s.recordActivity.embed collaborators.embedder input.text with
  | mk s' result =>
      rw [hasked] at embedded
      cases result with
      | error e => exact embedded
      | ok embedding => exact embedded.answer collaborators.generator input embedding

theorem Within.consolidate {s : Mind} (within : s.Within) (t : Tier) :
    (s.consolidate t).1.Within := by
  obtain ⟨store, staged, hmind, demotes, _⟩ := s.now.2.consolidateAt_spec t s.now.1
  intro u
  rw [Mind.consolidate, hmind]
  change store.size u ≤ s.config.capacity u
  rw [demotes.size]
  by_cases h : u = t
  · rw [if_pos h, h]
    exact Nat.min_le_left _ _
  · rw [if_neg h]
    exact within u

variable {allowed : List String → Prop}

theorem Call.within {s s' : Mind} {new : List Memory} (call : Call allowed s new s')
    (within : s.Within) : s'.Within := by
  cases call with
  | process collaborators input => exact within.process collaborators input
  | query generator question =>
      have quiet : Quiet allowed s s.recordActivity := s.quiet_recordActivity
      exact within.quiet quiet
  | addContext item =>
      have quiet : Quiet allowed s s.recordActivity := s.quiet_recordActivity
      exact (within.quiet quiet).of_eq rfl rfl
  | consolidate t => exact within.consolidate t
  | persist => exact within.persist
  | outside clock refused unwritable _ => exact within.of_eq rfl rfl

theorem Step.within {s s' : Mind} {new : List Memory} (step : Step allowed s new s')
    (within : s.Within) : s'.Within := by
  cases step with
  | call call => exact call.within within
  | nightly ends => exact within_of_nightly ends

theorem Run.within {s s' : Mind} {new : List Memory} (run : Run allowed s new s')
    (within : s.Within) : s'.Within := by
  induction run with
  | refl => exact within
  | tail prior last ih => exact last.within ih

theorem within_create {config : Config} {backend : Backend} {source : Source} {fresh : Mind}
    (created : create config backend source = .ok fresh) : fresh.Within := by
  obtain rfl := create_eq_start created
  intro t
  have hempty : (start config backend source).store.size t = 0 := by
    cases t <;> rfl
  rw [hempty]
  exact Nat.zero_le _

/-- The size of a tier after a consolidation is at most its capacity and what was added to the tier
since it was last read, whatever is added at whatever time. If nothing is added, one pass is enough,
and the identifiers it reports are those of what it has staged, in order. So every operation of a
mind that was not restored leaves every tier within its capacity, and a nightly run does so from any
state. -/
theorem tiers_within_capacity (s : Mind) (t : Tier) (now : Time.Instant) :
    (∀ arrivals last,
      let ended := s.consolidateAmid t now arrivals last
      ended.1.2.after = ended.1.1.store.size t ∧
        ended.1.2.after ≤ s.config.capacity t + ended.2.countP (·.tier == t) ∧
        ended.1.2.passes ≤ maxPasses) ∧
      s.consolidateAmid t now (fun _ => .none) [] = (s.consolidateAt t now, []) ∧
      (∃ store staged, (s.consolidateAt t now).1 = ({ s with store } : Mind).stage staged ∧
        (s.consolidateAt t now).2.archived = staged.map (·.id) ∧
        (s.consolidateAt t now).2.passes ≤ 1 ∧
        (s.consolidateAt t now).2.after = (s.consolidateAt t now).1.store.size t ∧
        (s.consolidateAt t now).2.after ≤ s.config.capacity t ∧
        (s.consolidateAt t now).2.before = s.store.size t ∧
        (s.consolidateAt t now).2.before =
          (s.consolidateAt t now).2.after + (s.consolidateAt t now).2.archived.length) ∧
      (∀ config backend source fresh classifier extractor new s',
        create config backend source = .ok fresh →
          Run (fun _ => True) { fresh with classifier, extractor } new s' → s'.Within) ∧
      ∀ (ω : Type) (host : Cycle.Host (StateM ω) Mind) (w : ω),
        (s.runNightly.run host w).1.1.Within := by
  refine ⟨size_consolidateAmid_le t now s, consolidateAmid_none t now s, ?_, ?_, ?_⟩
  · obtain ⟨store, staged, hmind, demotes, before, after, archived, passes⟩ :=
      s.consolidateAt_spec t now
    refine ⟨store, staged, hmind, archived, passes, rfl, ?_, before, ?_⟩
    · rw [after, demotes.room]
      exact Nat.min_le_left _ _
    · rw [before, after, archived, List.length_map]
      exact demotes.length
  · intro config backend source fresh classifier extractor new s' created run
    have start : fresh.Within := within_create created
    exact run.within (start.of_eq rfl rfl)
  · intro ω host w
    exact within_of_nightly (s.runNightly.ends_run host w)

/-- Two inputs, of which the second is one too many; and a consolidation that finds two memories
where there is room for one, while a third one arrives. -/
theorem tiers_within_capacity_sample :
    let s₀ := Sample.empty (.volatile .empty)
    let arrivals (_ : Nat) : Arrivals := ⟨[Sample.memory 0, Sample.memory 1], [], [Sample.memory 2]⟩
    let ended := s₀.consolidateAmid .working ⟨0, 0⟩ arrivals []
    (∃ new s, Run (fun _ => True) s₀ new s ∧ new.length = 2 ∧ s.Within) ∧
      ended.2.map (·.id) = [Sample.source.ids 2] ∧ ended.1.2.passes = 1 ∧
      ended.1.2.after ≤ s₀.config.capacity .working + ended.2.countP (·.tier == .working) := by
  intro s₀ arrivals ended
  let s₁ := Sample.process s₀ "alpha"
  let s₂ := Sample.process s₁ "beta"
  obtain ⟨one, two, since, passes⟩ : (Sample.made s₀ "alpha").length = 1 ∧
      (Sample.made s₁ "beta").length = 1 ∧ ended.2.map (·.id) = [Sample.source.ids 2] ∧
      ended.1.2.passes = 1 := by decide +kernel
  have run : Run (fun _ => True) s₀ (Sample.made s₀ "alpha" ++ Sample.made s₁ "beta") s₂ :=
    (Trail.single (.call (.process _ _))).tail (.call (.process _ _))
  have law := tiers_within_capacity s₀ .working ⟨0, 0⟩
  have within : s₂.Within :=
    law.2.2.2.1 Sample.config (.ofStorage (.volatile .empty)) Sample.source s₀ _ _ _ s₂ rfl run
  exact ⟨⟨_, s₂, run, by rw [List.length_append, one, two], within⟩, since, passes,
    (law.1 arrivals []).2.1⟩

end Mind

end Engram
