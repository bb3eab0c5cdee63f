import Engram.Proofs.Completeness

/-! Operations that overlap. A consolidation reads its tier, puts its result in place and stages what
it has demoted; a seal takes the pending batch, writes it, and puts it back if that fails; a
checkpoint reads the tiers, then the pending batch, and is then saved. Each of these is one step,
and the steps of several operations may come in any order. No order of them loses a memory or
copies one. A checkpoint, however, sees nothing of a batch that a seal has taken. -/
namespace Engram

open scoped List

/-- What a consolidation of a tier holds between its steps. -/
inductive Pass where
  | idle
  | read (base : List Trace)
  | demoted (memories : List Memory)

/-- The memories that have left their tier and are not yet pending. -/
def Pass.held : Pass → List Memory
  | .demoted memories => memories
  | _ => []

/-- A mind with the operations that are under way: at most one consolidation for each tier, and any
number of seals, whose entries are still to be written or whose batches are still to be put back. -/
structure Scene where
  mind : Mind
  passes : Tiers Pass
  sealing : List ArchiveEntry
  failed : List (List Memory)

namespace Scene

/-- A mind with nothing under way. -/
def still (s : Mind) : Scene := ⟨s, .replicate .idle, [], []⟩

/-- The memories that consolidations hold. -/
def held (σ : Scene) : List Memory := Tier.all.flatMap fun t => (σ.passes.get t).held

/-- The memories that seals hold. -/
def inFlight (σ : Scene) : List Memory := σ.sealing.flatMap (·.memories) ++ σ.failed.flatten

/-- The memories that are pending or held by seals. -/
def waiting (σ : Scene) : List Memory := σ.mind.archive.pending ++ σ.inFlight

/-- All memories outside the archive. -/
def places (σ : Scene) : List Memory := σ.mind.active ++ σ.held ++ σ.waiting

/-- One step of one of the operations, with what is stored and what is written by it. Memories may
be used at any time, also between the reading of a tier and the end of its consolidation. -/
inductive Step (σ : Scene) : List Memory → List ArchiveEntry → Scene → Prop where
  | add (m : Memory) :
      Step σ [m] [] { σ with mind := { σ.mind with store := σ.mind.store.add m } }
  | use (store : Store) (same : ∀ t, store.fixed t = σ.mind.store.fixed t) :
      Step σ [] [] { σ with mind := { σ.mind with store } }
  | read (t : Tier) (free : σ.passes.get t = .idle) :
      Step σ [] [] { σ with passes := σ.passes.set t (.read (σ.mind.store.traces t)) }
  | leave (t : Tier) {base : List Trace} (reading : σ.passes.get t = .read base)
      (fits : base.length ≤ σ.mind.config.capacity t) :
      Step σ [] [] { σ with passes := σ.passes.set t .idle }
  | commit (t : Tier) (now : Time.Instant) {base present kept demoted : List Trace}
      (reading : σ.passes.get t = .read base) (full : σ.mind.config.capacity t < base.length)
      (same : present.map (·.memory.fixed) = base.map (·.memory.fixed))
      (parts : Consolidation.partition σ.mind.config.score now (σ.mind.config.capacity t) present =
        (kept, demoted)) :
      Step σ [] [] { σ with
        mind := { σ.mind with store := (σ.mind.store.commit t base kept).1 }
        passes := σ.passes.set t (.demoted (demoted.map (·.memory))) }
  | stage (t : Tier) {memories : List Memory} (moving : σ.passes.get t = .demoted memories) :
      Step σ [] [] { σ with
        mind := { σ.mind with archive := { σ.mind.archive with
          pending := σ.mind.archive.pending ++ memories } }
        passes := σ.passes.set t .idle }
  | take (entry : ArchiveEntry) (batch : entry.memories = σ.mind.archive.takePending.1) :
      Step σ [] [] { σ with
        mind := { σ.mind with archive := σ.mind.archive.takePending.2 }
        sealing := σ.sealing ++ [entry] }
  | append {before after : List ArchiveEntry} {entry : ArchiveEntry} {backend : Backend}
      (taken : σ.sealing = before ++ entry :: after)
      (written : σ.mind.backend.append entry = .ok backend) :
      Step σ [] [entry] { σ with
        mind := { σ.mind with
          archive := { σ.mind.archive with backend }.remember entry.memories }
        sealing := before ++ after }
  | refuse {before after : List ArchiveEntry} {entry : ArchiveEntry} {e : Error}
      (taken : σ.sealing = before ++ entry :: after)
      (refused : σ.mind.backend.append entry = .error e) :
      Step σ [] [] { σ with
        sealing := before ++ after
        failed := σ.failed ++ [entry.memories] }
  | putBack {before after : List (List Memory)} {batch : List Memory}
      (unwritten : σ.failed = before ++ batch :: after) :
      Step σ [] [] { σ with
        mind := { σ.mind with archive := σ.mind.archive.putBack batch }
        failed := before ++ after }
  | save (c : Checkpoint) :
      Step σ [] [] { σ with mind := σ.mind.setBackend (σ.mind.backend.saveCheckpoint c).1 }
  | draw (source : Source) : Step σ [] [] { σ with mind := { σ.mind with source } }
  | outside (clock : Clock) (refused : List String) (unwritable : ArchiveEntry → Bool) :
      Step σ [] [] { σ with mind := σ.mind.outside clock refused unwritable }

/-- Steps one after the other, with all that was stored and written on the way. -/
inductive Steps (σ : Scene) : List Memory → List ArchiveEntry → Scene → Prop where
  | refl : Steps σ [] [] σ
  | tail {σ' σ'' : Scene} {new more : List Memory} {log later : List ArchiveEntry}
      (prior : Steps σ new log σ') (last : Step σ' more later σ'') :
      Steps σ (new ++ more) (log ++ later) σ''

theorem Steps.single {σ σ' : Scene} {new : List Memory} {log : List ArchiveEntry}
    (step : Step σ new log σ') : Steps σ new log σ' :=
  .tail .refl step

theorem Steps.trans {σ σ' σ'' : Scene} {new more : List Memory} {log later : List ArchiveEntry}
    (first : Steps σ new log σ') (second : Steps σ' more later σ'') :
    Steps σ (new ++ more) (log ++ later) σ'' := by
  induction second with
  | refl => simpa using first
  | tail prior last ih => simpa [List.append_assoc] using ih.tail last

theorem Step.extends {σ σ' : Scene} {new : List Memory} {log : List ArchiveEntry}
    (step : Step σ new log σ') : σ.mind.backend.Extends log σ'.mind.backend := by
  cases step with
  | append taken written => exact Backend.append_extends written
  | save c => exact (σ.mind.backend.saveCheckpoint_spec c).2.1
  | outside clock refused unwritable => exact Backend.extends_of_contents rfl
  | _ => exact .refl _

/-- The backend holds what the steps have written. -/
theorem Steps.extends {σ σ' : Scene} {new : List Memory} {log : List ArchiveEntry}
    (steps : Steps σ new log σ') : σ.mind.backend.Extends log σ'.mind.backend := by
  induction steps with
  | refl => exact .refl _
  | tail prior last ih => exact ih.trans last.extends

/-- The memories have distinct identifiers, and what a consolidation has read is still at the front
of its tier. -/
structure Coherent (σ : Scene) : Prop where
  distinct : (σ.places.map (·.id)).Nodup
  reads : ∀ t base, σ.passes.get t = .read base →
    base.map (·.memory.fixed) <+: σ.mind.store.fixed t

theorem map_fixed_places (σ : Scene) :
    σ.places.map Memory.fixed = Tier.all.flatMap σ.mind.store.fixed ++
      (Tier.all.flatMap fun t => (σ.passes.get t).held.map Memory.fixed) ++
      σ.waiting.map Memory.fixed := by
  unfold places Mind.active held
  rw [List.map_append, List.map_append, List.map_flatMap, List.map_flatMap]
  rfl

/-- The identifiers within one tier are distinct. -/
theorem Coherent.distinct_tier {σ : Scene} (coherent : σ.Coherent) (t : Tier) :
    ((σ.mind.store.fixed t).map (·.id)).Nodup := by
  have hall := coherent.distinct
  rw [← Memory.map_id_fixed, map_fixed_places, List.append_assoc, List.map_append] at hall
  have htiers := (List.nodup_append.mp hall).1
  refine htiers.sublist (List.Sublist.map _ ?_)
  exact List.sublist_flatten_of_mem (List.mem_map_of_mem t.mem_all)

/-- Two states of the passes that differ in one tier, where one of them holds more. -/
theorem held_perm {fewer more : Tiers Pass} (t : Tier) (moved : List Memory)
    (here : (more.get t).held = (fewer.get t).held ++ moved)
    (others : ∀ u, u ≠ t → fewer.get u = more.get u) :
    (Tier.all.flatMap fun u => (fewer.get u).held.map Memory.fixed) ++ moved.map Memory.fixed ~
      Tier.all.flatMap fun u => (more.get u).held.map Memory.fixed := by
  refine Mind.flatMap_tiers_perm (t := t) ?_ ?_
  · rw [here, List.map_append]
  · intro u hu
    rw [others u hu]

/-- A consolidation that is put in place takes what it demotes out of the tier. -/
theorem Coherent.commit_perm {σ : Scene} (coherent : σ.Coherent) {t : Tier} {now : Time.Instant}
    {base present kept demoted : List Trace} (reading : σ.passes.get t = .read base)
    (same : present.map (·.memory.fixed) = base.map (·.memory.fixed))
    (parts : Consolidation.partition σ.mind.config.score now (σ.mind.config.capacity t) present =
      (kept, demoted)) :
    Tier.all.flatMap (σ.mind.store.commit t base kept).1.fixed ++
      (demoted.map (·.memory)).map Memory.fixed ~ Tier.all.flatMap σ.mind.store.fixed := by
  obtain ⟨late, hlate⟩ := coherent.reads t base reading
  refine Mind.flatMap_tiers_perm (t := t) ?_ fun u hu => Store.fixed_commit_of_ne _ _ _ hu
  have hparts : (kept ++ demoted) ~ present := by
    have hperm := Consolidation.partition_perm σ.mind.config.score now (σ.mind.config.capacity t)
      present
    rw [parts] at hperm
    exact hperm
  rw [Store.fixed_commit hlate.symm (coherent.distinct_tier t), ← hlate, List.map_map]
  calc kept.map (·.memory.fixed) ++ late ++ demoted.map (·.memory.fixed)
      _ ~ kept.map (·.memory.fixed) ++ demoted.map (·.memory.fixed) ++ late :=
        Mind.perm_append_swap _ _ _
      _ = (kept ++ demoted).map (·.memory.fixed) ++ late := by rw [List.map_append]
      _ ~ present.map (·.memory.fixed) ++ late := (hparts.map _).append_right late
      _ = base.map (·.memory.fixed) ++ late := by rw [same]

/-- What one step does to the places where memories are: the tiers lose `demoted` and gain `stored`,
consolidations lose `staged` and gain `demoted`, and the way to the archive loses what is written
and gains `staged`. -/
structure Moves (σ σ' : Scene) (stored : List Memory) (log : List ArchiveEntry)
    (demoted staged : List Memory) : Prop where
  tiers : Tier.all.flatMap σ'.mind.store.fixed ++ demoted.map Memory.fixed ~
    Tier.all.flatMap σ.mind.store.fixed ++ stored.map Memory.fixed
  held : (Tier.all.flatMap fun t => (σ'.passes.get t).held.map Memory.fixed) ++
      staged.map Memory.fixed ~
    (Tier.all.flatMap fun t => (σ.passes.get t).held.map Memory.fixed) ++ demoted.map Memory.fixed
  waiting : σ'.waiting ++ Mind.archived log ~ σ.waiting ++ staged

theorem Moves.places_perm {σ σ' : Scene} {stored demoted staged : List Memory}
    {log : List ArchiveEntry} (moves : Moves σ σ' stored log demoted staged) :
    (σ'.places ++ Mind.archived log).map Memory.fixed ~
      (σ.places ++ stored).map Memory.fixed := by
  classical
  refine List.perm_iff_count.mpr fun m => ?_
  have htiers := moves.tiers.count_eq m
  have hheld := moves.held.count_eq m
  have hwaiting := (moves.waiting.map Memory.fixed).count_eq m
  simp only [List.map_append, map_fixed_places, List.count_append] at *
  omega

/-- A step moves memories from one place to the next. -/
theorem Step.moves {σ σ' : Scene} {new : List Memory} {log : List ArchiveEntry}
    (step : Step σ new log σ') (coherent : σ.Coherent) :
    ∃ demoted staged, Moves σ σ' new log demoted staged := by
  classical
  have stays : ∀ l : List Memory, l ++ [] ~ l ++ [] := fun l => .refl _
  have others : ∀ (t : Tier) (p : Pass), ∀ u, u ≠ t →
      σ.passes.get u = (σ.passes.set t p).get u :=
    fun t p u hu => (Tiers.get_set_of_ne _ _ hu).symm
  cases step with
  | add m =>
      refine ⟨[], [], ?_, stays _, stays _⟩
      simpa using (Mind.flatMap_fixed_add σ.mind.store m).symm
  | use store same =>
      refine ⟨[], [], ?_, stays _, stays _⟩
      rw [funext same]
  | read t free =>
      refine ⟨[], [], stays _, ?_, stays _⟩
      simpa using (held_perm t [] (by simp [free, Pass.held]) (others t _)).symm
  | leave t reading fits =>
      refine ⟨[], [], stays _, ?_, stays _⟩
      simpa using (held_perm t [] (by simp [reading, Pass.held]) (others t _)).symm
  | @commit t now base present kept demoted reading full same parts =>
      refine ⟨demoted.map (·.memory), [], ?_, ?_, stays _⟩
      · simpa using coherent.commit_perm reading same parts
      · simpa using (held_perm t (demoted.map (·.memory)) (by simp [reading, Pass.held])
          (others t _)).symm
  | @stage t memories moving =>
      refine ⟨[], memories, stays _, ?_, ?_⟩
      · simpa using held_perm t memories (by simp [moving, Pass.held])
          fun u hu => (others t _ u hu).symm
      · refine List.perm_iff_count.mpr fun m => ?_
        simp only [waiting, inFlight, Mind.archived, List.flatMap_nil, List.count_append,
          List.count_nil]
        omega
  | take entry batch =>
      refine ⟨[], [], stays _, stays _, List.perm_iff_count.mpr fun m => ?_⟩
      simp only [waiting, inFlight, batch, ArchiveLog.takePending, Mind.archived,
        List.flatMap_append, List.flatMap_cons, List.flatMap_nil, List.count_append, List.count_nil]
      omega
  | append taken written =>
      refine ⟨[], [], stays _, stays _, List.perm_iff_count.mpr fun m => ?_⟩
      simp only [waiting, inFlight, taken, ArchiveLog.remember, Mind.archived,
        List.flatMap_append, List.flatMap_cons, List.flatMap_nil, List.count_append, List.count_nil]
      omega
  | refuse taken refused =>
      refine ⟨[], [], stays _, stays _, List.perm_iff_count.mpr fun m => ?_⟩
      simp only [waiting, inFlight, taken, Mind.archived, List.flatMap_append, List.flatMap_cons,
        List.flatMap_nil, List.flatten_append, List.flatten_cons, List.flatten_nil,
        List.count_append, List.count_nil]
      omega
  | putBack unwritten =>
      refine ⟨[], [], stays _, stays _, List.perm_iff_count.mpr fun m => ?_⟩
      simp only [waiting, inFlight, unwritten, ArchiveLog.putBack, Mind.archived, List.flatMap_nil,
        List.flatten_append, List.flatten_cons, List.count_append, List.count_nil]
      omega
  | save c => exact ⟨[], [], stays _, stays _, stays _⟩
  | draw source => exact ⟨[], [], stays _, stays _, stays _⟩
  | outside clock refused unwritable => exact ⟨[], [], stays _, stays _, stays _⟩

/-- Adding to a tier, and working on other tiers, leaves what a consolidation has read in front. -/
theorem Step.reads {σ σ' : Scene} {new : List Memory} {log : List ArchiveEntry}
    (step : Step σ new log σ') (coherent : σ.Coherent) (t : Tier) (base : List Trace)
    (reading : σ'.passes.get t = .read base) :
    base.map (·.memory.fixed) <+: σ'.mind.store.fixed t := by
  have elsewhere : ∀ {u : Tier} {p : Pass}, p ≠ .read base →
      (σ.passes.set u p).get t = .read base → t ≠ u ∧ σ.passes.get t = .read base := by
    intro u p hp hget
    have hne : t ≠ u := by
      rintro rfl
      exact hp ((Tiers.get_set_self _ _ _).symm.trans hget)
    exact ⟨hne, (Tiers.get_set_of_ne _ _ hne).symm.trans hget⟩
  cases step with
  | add m =>
      have hread := coherent.reads t base reading
      by_cases h : t = m.tier
      · simp only [Store.fixed, Store.memories_add, if_pos h, List.map_append]
        exact hread.trans (List.prefix_append _ _)
      · simpa only [Store.fixed, Store.memories_add, if_neg h] using hread
  | use store same =>
      rw [same]
      exact coherent.reads t base reading
  | read u free =>
      by_cases h : t = u
      · subst h
        obtain rfl : σ.mind.store.traces t = base :=
          Pass.read.inj ((Tiers.get_set_self _ _ _).symm.trans reading)
        rw [Store.fixed, Store.memories, List.map_map]
        exact List.prefix_refl _
      · exact coherent.reads t base ((Tiers.get_set_of_ne _ _ h).symm.trans reading)
  | leave u left fits => exact coherent.reads t base (elsewhere (by simp) reading).2
  | stage u moving => exact coherent.reads t base (elsewhere (by simp) reading).2
  | commit u now left full same parts =>
      obtain ⟨hne, hread⟩ := elsewhere (by simp) reading
      rw [Store.fixed_commit_of_ne _ _ _ hne]
      exact coherent.reads t base hread
  | _ => exact coherent.reads t base reading

/-- A step keeps a scene coherent, as long as what is stored is new. -/
theorem Step.coherent {σ σ' : Scene} {new : List Memory} {log : List ArchiveEntry}
    (step : Step σ new log σ') (coherent : σ.Coherent)
    (fresh : ((σ.places ++ new).map (·.id)).Nodup) : σ'.Coherent := by
  obtain ⟨demoted, staged, moves⟩ := step.moves coherent
  have hdistinct := (Memory.ids_perm moves.places_perm).nodup_iff.mpr fresh
  rw [List.map_append] at hdistinct
  exact ⟨(List.nodup_append.mp hdistinct).1, step.reads coherent⟩

theorem fresh_before {σ : Scene} {new more : List Memory}
    (fresh : ((σ.places ++ (new ++ more)).map (·.id)).Nodup) :
    ((σ.places ++ new).map (·.id)).Nodup := by
  refine fresh.sublist (List.Sublist.map _ ?_)
  exact (List.sublist_append_left _ _).append_left _

/-- What is new to a scene is new to a later one. -/
theorem fresh_of_perm {σ σ' : Scene} {new more : List Memory} {log : List ArchiveEntry}
    (perm : (σ'.places ++ Mind.archived log).map Memory.fixed ~
      (σ.places ++ new).map Memory.fixed)
    (fresh : ((σ.places ++ (new ++ more)).map (·.id)).Nodup) :
    ((σ'.places ++ more).map (·.id)).Nodup := by
  rw [← List.append_assoc, List.map_append] at fresh
  have hnodup := ((Memory.ids_perm perm).append_right (more.map (·.id))).nodup_iff.mpr fresh
  rw [← List.map_append] at hnodup
  refine hnodup.sublist (List.Sublist.map _ ?_)
  exact (List.sublist_append_left _ _).append_right more

/-- Whatever the order of the steps, every memory stays in one place: in its tier, held by a
consolidation, pending, held by a seal, or in an entry. -/
theorem Steps.places_perm {σ σ' : Scene} {new : List Memory} {log : List ArchiveEntry}
    (steps : Steps σ new log σ') (coherent : σ.Coherent)
    (fresh : ((σ.places ++ new).map (·.id)).Nodup) :
    σ'.Coherent ∧ (σ'.places ++ Mind.archived log).map Memory.fixed ~
      (σ.places ++ new).map Memory.fixed := by
  induction steps with
  | refl => exact ⟨coherent, .refl _⟩
  | @tail σ' σ'' new more log later prior last ih =>
      obtain ⟨hcoherent, hperm⟩ := ih (fresh_before fresh)
      have hfresh := fresh_of_perm hperm fresh
      obtain ⟨demoted, staged, moves⟩ := last.moves hcoherent
      refine ⟨last.coherent hcoherent hfresh, ?_⟩
      classical
      refine List.perm_iff_count.mpr fun m => ?_
      have hprior := hperm.count_eq m
      have hlast := moves.places_perm.count_eq m
      simp only [Mind.archived_append, List.map_append, List.count_append] at *
      omega

/-- What is pending or held by a seal stays so until it is written. -/
theorem Steps.waiting_subset {σ σ' : Scene} {new : List Memory} {log : List ArchiveEntry}
    (steps : Steps σ new log σ') (coherent : σ.Coherent)
    (fresh : ((σ.places ++ new).map (·.id)).Nodup) :
    σ.waiting ⊆ σ'.waiting ++ Mind.archived log := by
  induction steps with
  | refl => exact List.subset_append_left _ _
  | @tail σ' σ'' new more log later prior last ih =>
      have hfresh := fresh_before fresh
      obtain ⟨demoted, staged, moves⟩ := last.moves (prior.places_perm coherent hfresh).1
      intro m hm
      rw [Mind.archived_append]
      rcases List.mem_append.mp (ih hfresh hm) with hm | hm
      · have hlast := moves.waiting.mem_iff.mpr (List.mem_append_left staged hm)
        simp only [List.mem_append] at hlast ⊢
        exact hlast.imp_right .inr
      · exact List.mem_append_right _ (List.mem_append_left _ hm)

/-- A seal that nothing interrupts is a run of its steps. -/
theorem steps_sealBatch (s : Mind) (source : Source) (date : Time.Date)
    (experiences : List Experience) (patterns : List Pattern) (metrics : DailyMetrics) :
    let result := s.archive.sealBatch source date experiences patterns metrics
    ∃ log, Steps (still s) [] log (still { s with archive := result.1.1, source := result.2 }) := by
  intro result
  let entry : ArchiveEntry := ⟨source.freshId.1, date, source.freshId.2.now.1, s.archive.pending,
    experiences, patterns, { metrics with memoriesArchived := s.archive.pending.length }⟩
  have hresult : result = (s.archive.takePending.2.write entry, source.freshId.2.now.2) := rfl
  have taken := Steps.single (Step.take (σ := still s) entry rfl)
  rw [hresult]
  unfold ArchiveLog.write
  cases happend : s.archive.takePending.2.backend.append entry with
  | ok backend =>
      have written := taken.tail (.append rfl happend)
      exact ⟨_, written.tail (.draw _)⟩
  | error e =>
      have refused := taken.tail (.refuse rfl happend)
      have back := refused.tail (.putBack rfl)
      exact ⟨_, back.tail (.draw _)⟩

theorem passes_idle (t : Tier) (p q : Pass) :
    (((Tiers.replicate Pass.idle).set t p).set t q).set t .idle = .replicate .idle := by
  cases t <;> rfl

/-- A consolidation that nothing interrupts is a run of its steps, with those of the seal that it may
bring about. -/
theorem steps_consolidationPasses (t : Tier) (now : Time.Instant) (passes : Nat) (s : Mind)
    (result : TierConsolidation) :
    ∃ log, Steps (still s) [] log (still (Mind.consolidationPasses t now passes s result).1) := by
  cases passes with
  | zero => exact ⟨[], .refl⟩
  | succ passes =>
      unfold Mind.consolidationPasses
      simp only
      by_cases hroom : (s.store.traces t).length ≤ s.config.capacity t
      · rw [if_pos hroom]
        exact ⟨[], .refl⟩
      · rw [if_neg hroom, Store.commit_traces]
        simp only [if_pos]
        obtain ⟨kept, demoted, hparts⟩ : ∃ kept demoted,
            Consolidation.partition s.config.score now (s.config.capacity t) (s.store.traces t) =
              (kept, demoted) := ⟨_, _, rfl⟩
        have hfree : (still s).passes.get t = .idle := Tiers.get_replicate _ _
        have reads := Steps.single (Step.read t hfree)
        have commits := reads.tail (.commit t now (Tiers.get_set_self _ _ _)
          (Nat.lt_of_not_le hroom) rfl hparts)
        have stages := commits.tail (.stage t (Tiers.get_set_self _ _ _))
        rw [hparts]
        simp only [still, passes_idle, Store.commit_traces] at stages
        rcases Mind.stage_cases { s with store := s.store.put t kept } (demoted.map (·.memory)) with
          hstage | ⟨source, date, hstage⟩
        · rw [hstage]
          exact ⟨_, stages⟩
        · rw [hstage]
          obtain ⟨log, seals⟩ := steps_sealBatch { s with
            store := s.store.put t kept
            archive := { s.archive with
              pending := s.archive.pending ++ demoted.map (·.memory) } } source date [] [] {}
          exact ⟨_, stages.trans seals⟩

/-- The steps are those of the operations themselves: a whole consolidation of a mind is a run of
them, so what every run of steps keeps is kept by it. -/
theorem steps_consolidate (s : Mind) (t : Tier) :
    ∃ log, Steps (still s) [] log (still (s.consolidate t).1) := by
  obtain ⟨log, passes⟩ := steps_consolidationPasses t s.now.1 Consolidation.maxPasses s.now.2 {
    tier := t, before := s.now.2.store.size t, after := 0, archived := [], lateArrivals := 0,
    passes := 0, durationMs := 0 }
  exact ⟨_, (Steps.single (.draw _)).trans passes⟩

/-- So is a whole checkpoint: one that nothing interrupts reads what there is and saves it. -/
theorem steps_persist (s : Mind) : Steps (still s) [] [] (still s.persist.1) := by
  obtain ⟨c, _, _, hpersist, _⟩ := s.persist_cases
  rw [hpersist]
  exact (Steps.single (.draw _)).tail (.save c)

theorem places_still (s : Mind) : (still s).places = s.live := by
  simp [places, held, waiting, inFlight, still, Mind.live, Pass.held]

/-- A mind with distinct identifiers and nothing under way is coherent. -/
theorem coherent_still {s : Mind} (distinct : (s.live.map (·.id)).Nodup) : (still s).Coherent := by
  refine ⟨by rwa [places_still], ?_⟩
  intro t base reading
  cases (Tiers.get_replicate _ _).symm.trans reading

/-- What is on its way to the archive is in no tier. -/
theorem Coherent.waiting_not_active {σ : Scene} (coherent : σ.Coherent) {m : Memory}
    (waits : m ∈ σ.waiting) : m.id ∉ σ.mind.active.map (·.id) := by
  intro hactive
  have hall := coherent.distinct
  rw [places, List.append_assoc, List.map_append, List.nodup_append] at hall
  refine hall.2.2 _ hactive _ ?_ rfl
  exact List.mem_map_of_mem (List.mem_append_right _ waits)

/-- What a seal holds is not pending. -/
theorem Coherent.inFlight_not_pending {σ : Scene} (coherent : σ.Coherent) {m : Memory}
    (taken : m ∈ σ.inFlight) : m.id ∉ σ.mind.archive.pending.map (·.id) := by
  intro hpending
  have hall := coherent.distinct
  rw [places, waiting, ← List.append_assoc, List.map_append, List.map_append,
    List.nodup_append] at hall
  exact hall.2.2 _ (List.mem_append_right _ hpending) _ (List.mem_map_of_mem taken) rfl

/-- What the steps have written is in no other place. -/
theorem Steps.archived_not_placed {σ σ' : Scene} {new : List Memory} {log : List ArchiveEntry}
    (steps : Steps σ new log σ') (coherent : σ.Coherent)
    (fresh : ((σ.places ++ new).map (·.id)).Nodup) {m : Memory} (placed : m ∈ σ'.places) :
    m.id ∉ (Mind.archived log).map (·.id) := by
  have hdistinct := (Memory.ids_perm (steps.places_perm coherent fresh).2).nodup_iff.mpr fresh
  rw [List.map_append, List.nodup_append] at hdistinct
  intro harchived
  exact hdistinct.2.2 _ (List.mem_map_of_mem placed) _ harchived rfl

/-- A tier over its capacity can be consolidated, and then something is pending. -/
theorem exists_demoted {σ : Scene} {t : Tier} (free : σ.passes.get t = .idle)
    (full : σ.mind.config.capacity t < (σ.mind.store.traces t).length) :
    ∃ σ', Steps σ [] [] σ' ∧ ∃ m, m ∈ σ'.mind.archive.pending := by
  let now : Time.Instant := σ.mind.source.clock.time
  let parts := Consolidation.partition σ.mind.config.score now (σ.mind.config.capacity t)
    (σ.mind.store.traces t)
  have reads := Steps.single (Step.read t free)
  have commits := reads.tail (.commit t now (Tiers.get_set_self _ _ _) full rfl
    (rfl : _ = (parts.1, parts.2)))
  have stages := commits.tail (.stage t (Tiers.get_set_self _ _ _))
  have hlength : parts.2.length =
      (σ.mind.store.traces t).length - σ.mind.config.capacity t :=
    Consolidation.length_demoted _ _ _ _
  obtain ⟨a, ha⟩ : ∃ a, a ∈ parts.2 := List.exists_mem_of_length_pos (by omega)
  exact ⟨_, stages, a.memory, List.mem_append_right _ (List.mem_map_of_mem ha)⟩

/-- A seal can hold the whole pending batch for a while and then put it back. -/
theorem exists_put_back (σ : Scene) :
    ∃ σ' σ'', Steps σ [] [] σ' ∧ σ.mind.archive.pending ⊆ σ'.inFlight ∧ Steps σ' [] [] σ'' ∧
      σ.mind.archive.pending ⊆ σ''.mind.archive.pending := by
  let entry : ArchiveEntry := ⟨⟨0⟩, ⟨0⟩, ⟨0, 0⟩, σ.mind.archive.pending, [], [], {}⟩
  have takes := Steps.single (Step.take (σ := σ) entry rfl)
  have fails := Steps.single (Step.outside (σ := { σ with
    mind := { σ.mind with archive := σ.mind.archive.takePending.2 }
    sealing := σ.sealing ++ [entry] }) σ.mind.source.clock [] fun _ => true)
  have refuses := fails.tail (.refuse rfl rfl)
  refine ⟨_, _, takes, ?_, refuses.tail (.putBack rfl), ?_⟩
  · intro m hm
    simp only [inFlight, List.flatMap_append, List.mem_append]
    refine .inl (.inr ?_)
    simpa using hm
  · exact List.subset_append_left _ _

/-- A checkpoint that reads the tiers of one mind and the pending batch of another, later one. -/
def reading (tiersOf dayOf : Mind) (now : Time.Instant) : Checkpoint :=
  ⟨tiersOf.readTiers, dayOf.readPendingDay now, dayOf.knowledge.entries⟩

/-- A checkpoint names a memory in a tier or in the pending day. -/
def Names (c : Checkpoint) (id : Uid) : Prop :=
  (∃ p ∈ c.tiers, ∃ m ∈ p.2, m.id = id) ∨ ∃ m ∈ c.pendingDay.memories, m.id = id

theorem names_reading {tiersOf dayOf : Mind} {now : Time.Instant} {id : Uid} :
    Names (reading tiersOf dayOf now) id ↔
      id ∈ tiersOf.active.map (·.id) ∨ id ∈ dayOf.archive.pending.map (·.id) := by
  have hactive : tiersOf.active = tiersOf.readTiers.flatMap (·.2) := by
    simp [Mind.active, Mind.readTiers, List.flatMap_map]
  rw [hactive]
  simp only [Names, reading, Mind.readPendingDay, List.mem_map, List.mem_flatMap]
  refine or_congr ⟨?_, ?_⟩ .rfl
  · rintro ⟨p, hp, m, hm, rfl⟩
    exact ⟨m, ⟨p, hp, hm⟩, rfl⟩
  · rintro ⟨m, ⟨p, hp, hm⟩, rfl⟩
    exact ⟨p, hp, m, hm, rfl⟩

/-- A checkpoint reads the tiers, later the pending batch, and is saved later still, with any steps
of other operations between. Of what was in a tier or pending when it began and is in no entry when
it is saved, it misses exactly what was pending then and has been taken by a seal by the time the
pending batch is read, and not been written since. -/
theorem missed_iff_in_flight {s : Mind} {new₁ new₂ new₃ : List Memory}
    {log₁ log₂ log₃ : List ArchiveEntry} {σ₁ σ₂ σ₃ : Scene}
    (before : Steps (still s) new₁ log₁ σ₁) (between : Steps σ₁ new₂ log₂ σ₂)
    (after : Steps σ₂ new₃ log₃ σ₃) (now : Time.Instant)
    (fresh : ((s.live ++ (new₁ ++ new₂)).map (·.id)).Nodup) :
    s.backend.Extends (log₁ ++ log₂ ++ log₃) σ₃.mind.backend ∧
      ∀ m ∈ σ₁.mind.live,
        (¬ Names (reading σ₁.mind σ₂.mind now) m.id ∧
          m.id ∉ (Mind.archived (log₁ ++ log₂ ++ log₃)).map (·.id)) ↔
        m ∈ σ₁.mind.archive.pending ∧ m ∈ σ₂.inFlight ∧
          m.id ∉ (Mind.archived log₃).map (·.id) := by
  have overall := before.trans between
  refine ⟨(overall.trans after).extends, ?_⟩
  rw [← places_still] at fresh
  have hstart : (still s).Coherent := by
    rw [List.map_append, places_still] at fresh
    exact coherent_still (List.nodup_append.mp fresh).1
  obtain ⟨hfirst, hperm⟩ := before.places_perm hstart (fresh_before fresh)
  have hkept := between.waiting_subset hfirst (fresh_of_perm hperm fresh)
  have hsecond := (overall.places_perm hstart fresh).1
  intro m hm
  rw [names_reading, not_or, Mind.archived_append, List.map_append, List.mem_append, not_or]
  constructor
  · rintro ⟨⟨hactive, hpending⟩, hlog, hlater⟩
    have hbegan : m ∈ σ₁.mind.archive.pending :=
      (List.mem_append.mp hm).resolve_left fun h => hactive (List.mem_map_of_mem h)
    refine ⟨hbegan, ?_, hlater⟩
    rcases List.mem_append.mp (hkept (List.mem_append_left _ hbegan)) with hwaits | hwritten
    · exact (List.mem_append.mp hwaits).resolve_left fun h => hpending (List.mem_map_of_mem h)
    · rw [Mind.archived_append] at hlog
      exact absurd (List.mem_map_of_mem (List.mem_append_right _ hwritten)) hlog
  · rintro ⟨hbegan, htaken, hlater⟩
    have hplaced : m ∈ σ₂.places := List.mem_append_right _ (List.mem_append_right _ htaken)
    exact ⟨⟨hfirst.waiting_not_active (List.mem_append_left _ hbegan),
      hsecond.inFlight_not_pending htaken⟩,
      overall.archived_not_placed hstart fresh hplaced, hlater⟩

/-- Two memories are stored, one of them is demoted and taken by a seal, a checkpoint misses it, and
it is pending again when the seal has failed. -/
theorem missed_iff_in_flight_sample :
    let s := Mind.Sample.empty (.volatile .empty)
    let new := [Mind.Sample.memory 0, Mind.Sample.memory 1]
    ∃ σ₁ σ₂ σ₃, Steps (still s) new [] σ₁ ∧ Steps σ₁ [] [] σ₂ ∧ Steps σ₂ [] [] σ₃ ∧
      ∃ m ∈ σ₁.mind.archive.pending, m ∈ σ₃.mind.archive.pending ∧
        ¬ Names (reading σ₁.mind σ₂.mind ⟨0, 0⟩) m.id := by
  intro s new
  obtain ⟨σ₀, adds, free, full⟩ : ∃ σ₀, Steps (still s) new [] σ₀ ∧
      σ₀.passes.get .working = .idle ∧
      σ₀.mind.config.capacity .working < (σ₀.mind.store.traces .working).length :=
    ⟨_, (Steps.single (.add _)).tail (.add _), rfl, by decide +kernel⟩
  obtain ⟨σ₁, demotes, m, hm⟩ := exists_demoted free full
  have before : Steps (still s) new [] σ₁ := adds.trans demotes
  obtain ⟨σ₂, σ₃, takes, htaken, back, hback⟩ := σ₁.exists_put_back
  have fresh : ((s.live ++ (new ++ [])).map fun m : Memory => m.id).Nodup := by decide +kernel
  have hmissed := ((missed_iff_in_flight before takes .refl ⟨0, 0⟩ fresh).2 m
    (List.mem_append_right _ hm)).mpr ⟨hm, htaken hm, List.not_mem_nil⟩
  exact ⟨σ₁, σ₂, σ₃, before, takes, back, m, hm, hback hm, hmissed.1⟩

end Scene

end Engram
