import Engram.Proofs.Fitness
import Engram.Proofs.Restart

/-! A restart goes unnoticed. A mind that takes up the checkpoint of another one, of the same
configuration and over the same backend, holds what the other one held, and whatever is processed
from then on has the outcome that it would have had without the restart. Only the day that the
experiences began on may be another one, where the time zone is. -/
namespace Engram

/-- A value that is written into a row is read back from it. -/
def Payload.Lasts {α : Type} [Json.Codec α] (a : α) : Prop := (Payload.ofValue a).read = .ok a

/-- Everything in a checkpoint can be read back from rows. -/
structure Checkpoint.Lasts (c : Checkpoint) : Prop where
  tiers : ∀ p ∈ c.tiers, Payload.Lasts p.2
  pendingDay : Payload.Lasts c.pendingDay
  knowledge : Payload.Lasts c.knowledge

namespace Backend

/-- The operations that save a checkpoint and load it. -/
def checkpointOperations : List Operation :=
  [.saveCheckpoint, .saveSnapshot, .savePendingDay, .saveKnowledge, .loadSnapshots,
    .loadPendingDay, .loadKnowledge]

/-- What is saved of a checkpoint is the checkpoint: values as they are, or rows that last. -/
def Preserves (b : Backend) (c : Checkpoint) : Prop :=
  match b.storage with
  | .volatile _ => True
  | .durable _ => c.Lasts

variable {b : Backend} {tiers : ByTag (List Memory)} {day : Option PendingDay}

theorem loadSnapshots_eq (saved : b.Saved tiers day)
    (accepted : Operation.loadSnapshots.name ∉ b.refused)
    (lasts : ∀ a, b.storage = .durable a → ∀ p ∈ tiers, Payload.Lasts p.2) :
    b.loadSnapshots = .ok tiers := by
  unfold loadSnapshots guarded
  rw [if_neg (by simpa using accepted)]
  cases ha : b.storage with
  | volatile a =>
      simp only [Saved, ha] at saved
      simp only [saved.1]
  | durable a =>
      simp only [Saved, ha] at saved
      simp only [DurableArchive.loadSnapshots, saved.1]
      replace lasts := lasts a ha
      clear saved
      induction tiers with
      | nil => rfl
      | cons p tiers ih =>
          have first : ((Payload.ofValue p.2).read : Except Error (List Memory)) = .ok p.2 :=
            lasts p List.mem_cons_self
          rw [List.map_cons, List.mapM_cons, ih fun q hq => lasts q (List.mem_cons_of_mem _ hq)]
          simp only [first, bind, Except.bind, pure, Except.pure]

theorem loadPendingDay_eq {d : PendingDay} (saved : b.Saved tiers (some d))
    (accepted : Operation.loadPendingDay.name ∉ b.refused)
    (lasts : ∀ a, b.storage = .durable a → Payload.Lasts d) :
    b.loadPendingDay = .ok (some d) := by
  unfold loadPendingDay guarded
  rw [if_neg (by simpa using accepted)]
  cases ha : b.storage with
  | volatile a =>
      simp only [Saved, ha] at saved
      simp only [saved.2]
  | durable a =>
      simp only [Saved, ha] at saved
      have hread : ((Payload.ofValue d).read : Except Error PendingDay) = .ok d := lasts a ha
      simp only [DurableArchive.pendingDay?, saved.2, Option.map_some, hread]
      rfl

/-- The knowledge that was saved last. -/
def SavedKnowledge (b : Backend) (entries : List KnowledgeEntry) : Prop :=
  match b.storage with
  | .volatile a => a.knowledge = entries
  | .durable a => a.knowledge = some (.ofValue entries)

theorem loadKnowledge_eq {entries : List KnowledgeEntry} (saved : b.SavedKnowledge entries)
    (accepted : Operation.loadKnowledge.name ∉ b.refused)
    (lasts : ∀ a, b.storage = .durable a → Payload.Lasts entries) :
    b.loadKnowledge = .ok entries := by
  unfold loadKnowledge guarded
  rw [if_neg (by simpa using accepted)]
  cases ha : b.storage with
  | volatile a =>
      simp only [SavedKnowledge, ha] at saved
      simp only [saved]
  | durable a =>
      simp only [SavedKnowledge, ha] at saved
      simp only [DurableArchive.loadKnowledge, saved]
      exact lasts a ha

theorem saveKnowledge_saved {b' : Backend} {entries : List KnowledgeEntry}
    (h : b.saveKnowledge entries = .ok b') : b'.SavedKnowledge entries := by
  unfold saveKnowledge guarded at h
  split at h
  · cases h
  · split at h
    · cases h
      rfl
    · cases h
      rfl

theorem saveCheckpoint_savedKnowledge {c : Checkpoint} (h : (b.saveCheckpoint c).2 = .ok ()) :
    (b.saveCheckpoint c).1.SavedKnowledge c.knowledge := by
  cases ha : b.storage with
  | durable a =>
      rcases saveCheckpoint_durable ha c with ⟨_, hsave⟩ | ⟨_, hsave⟩
      · rw [hsave] at h
        cases h
      · rw [hsave]
        rfl
  | volatile a =>
      simp only [saveCheckpoint, ha] at h ⊢
      generalize b.saveSnapshots c.tiers = saving at h ⊢
      obtain ⟨b₁, result⟩ := saving
      cases result with
      | error e => cases h
      | ok _ =>
          simp only [andThen] at h ⊢
          cases hd : b₁.savePendingDay c.pendingDay with
          | error e =>
              rw [hd] at h
              cases h
          | ok b₂ =>
              rw [hd] at h
              simp only at h ⊢
              cases hk : b₂.saveKnowledge c.knowledge with
              | error e =>
                  rw [hk] at h
                  cases h
              | ok b₃ => exact saveKnowledge_saved hk

/-- A backend stays of its kind. -/
theorem Extends.isDurable {b' : Backend} {log : List ArchiveEntry} (h : b.Extends log b')
    {a' : DurableArchive} (durable : b'.storage = .durable a') : ∃ a, b.storage = .durable a := by
  unfold Extends at h
  cases ha : b.storage with
  | volatile a =>
      rw [ha, durable] at h
      exact h.elim
  | durable a => exact ⟨a, rfl⟩

theorem Preserves.lasts {c : Checkpoint} (preserves : b.Preserves c) {a : DurableArchive}
    (durable : b.storage = .durable a) : c.Lasts := by
  unfold Preserves at preserves
  rw [durable] at preserves
  exact preserves

/-- A checkpoint of all tiers is loaded as it was saved, where all tags are names of tiers. -/
theorem load_saveCheckpoint {c : Checkpoint} (saved : b.Saved tiers day)
    (accepted : ∀ op ∈ checkpointOperations, op.name ∉ b.refused) (preserves : b.Preserves c)
    (ordered : tiers.Ordered) (named : ∀ p ∈ tiers, ∃ t : Tier, p.1 = t.name)
    (distinct : (c.tiers.map Prod.fst).Nodup) (whole : ∀ t, t ∈ c.tiers.map Prod.fst) :
    (b.saveCheckpoint c).1.loadSnapshots = .ok (tiers.putAll c.tiers) ∧
      (b.saveCheckpoint c).1.loadPendingDay = .ok (some c.pendingDay) ∧
      (b.saveCheckpoint c).1.loadKnowledge = .ok c.knowledge ∧
      (b.saveCheckpoint c).2 = .ok () ∧
      ∀ p, p ∈ tiers.putAll c.tiers ↔ ∃ q ∈ c.tiers, p = (q.1.name, q.2) := by
  have hok := saveCheckpoint_ok (accepted .saveCheckpoint (by decide))
    (accepted .saveSnapshot (by decide)) (accepted .savePendingDay (by decide))
    (accepted .saveKnowledge (by decide)) c
  obtain ⟨hrefused, hextends, count, hcount, hall⟩ := b.saveCheckpoint_spec c
  obtain ⟨day', _, hday, hsaved⟩ := hall tiers day saved
  rw [hcount hok, List.take_length, hday hok] at hsaved
  have hlasts : ∀ a, (b.saveCheckpoint c).1.storage = .durable a → c.Lasts := by
    intro a durable
    obtain ⟨_, durable⟩ := hextends.isDurable durable
    exact preserves.lasts durable
  have hmem := ByTag.mem_putAll_iff distinct whole ordered named
  refine ⟨?_, ?_, ?_, hok, hmem⟩
  · refine loadSnapshots_eq hsaved ?_ ?_
    · rw [hrefused]
      exact accepted .loadSnapshots (by decide)
    · intro a durable p hp
      obtain ⟨q, hq, rfl⟩ := (hmem p).mp hp
      exact (hlasts a durable).tiers q hq
  · refine loadPendingDay_eq hsaved ?_ fun a durable => (hlasts a durable).pendingDay
    rw [hrefused]
    exact accepted .loadPendingDay (by decide)
  · refine loadKnowledge_eq (saveCheckpoint_savedKnowledge hok) ?_
      fun a durable => (hlasts a durable).knowledge
    rw [hrefused]
    exact accepted .loadKnowledge (by decide)

end Backend

namespace Mind

/-- A foreground call with a known embedder, a checkpoint, or a change outside that stays in some
time zones; with what it stores. -/
inductive Use (known : Embedder → Prop) (zones : Time.Zone → Prop) (s : Mind) :
    List Memory → Mind → Prop where
  | process {embedder : Embedder} (given : known embedder) (generator : Generator)
      (input : Input) : Use known zones s (s.made ⟨embedder, generator⟩ input)
        (s.process ⟨embedder, generator⟩ input).1
  | query (generator : Generator) (question : String) :
      Use known zones s [] (s.query generator question).1
  | addContext (item : ContextItem) : Use known zones s [] (s.addContext item)
  | consolidate (t : Tier) : Use known zones s [] (s.consolidate t).1
  | persist : Use known zones s [] s.persist.1
  | outside (clock : Clock) (refused : List String) (unwritable : ArchiveEntry → Bool)
      (there : zones clock.zone) : Use known zones s [] (s.outside clock refused unwritable)

/-- The service of minds over one backend: calls, nights with calls at their questions, and new
minds in place of the old one, which take up the checkpoint or start from nothing. -/
inductive Service (known : Embedder → Prop) (zones : Time.Zone → Prop) (s : Mind) :
    List Memory → Mind → Prop where
  | refl : Service known zones s [] s
  | use {stored new : List Memory} {s' s'' : Mind} (prior : Service known zones s stored s')
      (use : Use known zones s' new s'') : Service known zones s (stored ++ new) s''
  | nightly {stored new : List Memory} {s' s'' : Mind} {report : NightlyReport}
      (prior : Service known zones s stored s')
      (ends : s'.runNightly.Ends (Trail (Use known zones)) new s'' report) :
      Service known zones s (stored ++ new) s''
  | reopened {stored : List Memory} {s' s'' : Mind} (prior : Service known zones s stored s')
      (reopens : s'.Reopens s'') : Service known zones s stored s''
  | emptied {stored : List Memory} {s' : Mind} (prior : Service known zones s stored s') :
      Service known zones s stored s'.emptied

variable {known : Embedder → Prop} {config : Config} {zones : Time.Zone → Prop} {s s' : Mind}
  {stored new : List Memory}

theorem Use.call (use : Use known zones s new s') : Call (fun _ => True) s new s' := by
  cases use with
  | process _ generator input => exact .process _ input
  | query generator question => exact .query generator question
  | addContext item => exact .addContext item
  | consolidate t => exact .consolidate t
  | persist => exact .persist
  | outside clock refused unwritable _ => exact .outside clock refused unwritable trivial

theorem Use.fit (use : Use known zones s new s') (fit : Fit known config zones s) :
    Fit known config zones s' := by
  cases use with
  | process given generator input => exact fit.process given generator input
  | query generator question => exact fit.recordActivity
  | addContext item => exact fit.recordActivity.still rfl rfl rfl rfl rfl rfl rfl
  | consolidate t => exact fit.consolidate t
  | persist => exact fit.persist
  | outside clock refused unwritable there =>
      exact ⟨fit.config, there, fit.tidy, fit.settled, fit.cache, fit.day, fit.knowledge, fit.batch⟩

theorem Fit.emptied (fit : Fit known config zones s) : Fit known config zones s.emptied := by
  have fresh := fit_start known s.config s.backend s.source fit.zone s.classifier s.extractor
  unfold Mind.emptied
  rw [fit.config] at fresh ⊢
  exact fresh

theorem Fit.reopens (fit : Fit known config zones s) (reopens : s.Reopens s') :
    Fit known config zones s' := by
  obtain ⟨fresh, n, hrestart, hrestore⟩ := reopens
  have restored := fit.emptied.restore
  rw [← restart_eq hrestart, hrestore] at restored
  exact restored

/-- A mind stays fit in service. -/
theorem Service.fit (service : Service known zones s stored s') (fit : Fit known config zones s) :
    Fit known config zones s' := by
  induction service with
  | refl => exact fit
  | use prior use ih => exact use.fit ih
  | nightly prior ends ih =>
      refine ih.runNightly ?_ ends
      intro s new s' calls fit
      induction calls with
      | refl => exact fit
      | tail prior last ih => exact last.fit ih
  | reopened prior reopens ih => exact ih.reopens reopens
  | emptied prior ih => exact ih.emptied

variable {b₀ : Backend} {log : List ArchiveEntry} {restarts : List (Mind × Mind)}
  {tiers : ByTag (List Memory.Key)} {day : List Memory.Key}

/-- A new mind that takes nothing up keeps the account, since nothing is live. -/
theorem Traced.emptied (traced : Traced b₀ log stored restarts s tiers day) :
    Traced b₀ log stored restarts s.emptied tiers day := by
  have sound : Sound s.emptied tiers day := sound_start traced.sound.valid traced.sound.saved
    traced.sound.ordered traced.sound.tagged traced.sound.dayWidth
  have none : s.emptied.live = [] := live_start _ _ _ _ _
  refine ⟨sound, traced.written, ?_, ?_, traced.tiersNamed, traced.tiersDistinct, traced.dayNamed,
    traced.dayDistinct, traced.archivedNamed, ?_, traced.dayRevived, traced.twiceRevived⟩
  · simp [none, Named]
  · simp [none]
  · simp [none]

/-- Memories are told apart by their identifiers throughout the service. -/
theorem Service.traced (service : Service known zones s stored s')
    (start : Traced b₀ [] [] [] s [] []) (distinct : (stored.map (·.id)).Nodup) :
    ∃ log restarts tiers day, Traced b₀ log stored restarts s' tiers day := by
  induction service with
  | refl => exact ⟨[], [], [], [], start⟩
  | use prior use ih =>
      obtain ⟨_, _, _, _, traced⟩ := ih (distinct.sublist ((List.sublist_append_left _ _).map _))
      obtain ⟨_, _, _, traced⟩ := traced.grows use.call.grows distinct
      exact ⟨_, _, _, _, traced⟩
  | @nightly _ new s' s'' _ prior ends ih =>
      obtain ⟨_, _, _, _, traced⟩ := ih (distinct.sublist ((List.sublist_append_left _ _).map _))
      have grows : Grows (fun _ => True) s' new s'' := ends.follows (fun h _ => h)
        (fun calls => Trail.grows (fun use => use.call.grows) calls) Grows.trans s'.moves_runNightly
      obtain ⟨_, _, _, traced⟩ := traced.grows grows distinct
      exact ⟨_, _, _, _, traced⟩
  | reopened prior reopens ih =>
      obtain ⟨log, restarts, tiers, day, traced⟩ := ih distinct
      exact ⟨log, _, tiers, day, traced.restart distinct reopens⟩
  | emptied prior ih =>
      obtain ⟨log, restarts, tiers, day, traced⟩ := ih distinct
      exact ⟨log, restarts, tiers, day, traced.emptied⟩

/-- The checkpoint of a mind. -/
def checkpoint (s : Mind) : Checkpoint :=
  ⟨s.readTiers, s.now.2.readPendingDay s.now.1, s.knowledge.entries⟩

theorem persist_eq {s : Mind} (saved : (s.backend.saveCheckpoint s.checkpoint).2 = .ok ()) :
    s.persist = (s.now.2.setBackend (s.backend.saveCheckpoint s.checkpoint).1,
      .ok (countSaved s.readTiers)) := by
  unfold persist
  simp only
  have hsave : s.now.2.backend.saveCheckpoint
      ⟨s.readTiers, s.now.2.readPendingDay s.now.1, s.now.2.knowledge.entries⟩ =
      s.backend.saveCheckpoint s.checkpoint := rfl
  rw [hsave]
  generalize s.backend.saveCheckpoint s.checkpoint = r at saved
  obtain ⟨b, result⟩ := r
  obtain rfl : result = .ok () := saved
  rfl

/-- `s'` holds what `s` holds: the tiers and the pending batch in order, the experiences of the day
and the knowledge base. -/
structure Resumes (s s' : Mind) : Prop where
  tiers : ∀ t, s'.store.memories t = s.store.memories t
  pending : s'.archive.pending = s.archive.pending
  experiences : s'.day.experiences = s.day.experiences
  knowledge : s'.knowledge = s.knowledge

theorem countSaved_readTiers (s : Mind) : countSaved s.readTiers = s.active.length := by
  rw [countSaved_eq, readTiers, List.map_map, active, List.length_flatMap]
  rfl

/-- Tiers that are all those of `s`, in whatever order. -/
theorem countSaved_of_perm {tiers : List (Tier × List Memory)} (h : tiers.Perm s.readTiers) :
    countSaved tiers = s.active.length := by
  rw [← countSaved_readTiers, countSaved_eq, countSaved_eq]
  exact (h.map _).sum_eq

theorem map_fst_readTiers (s : Mind) : s.readTiers.map Prod.fst = Tier.all := by
  unfold readTiers
  rw [List.map_map]
  rfl

/-- What an empty mind takes up of a checkpoint is all that was in it: the active memories are
settled, no pending one is among them, and the day fits into the buffer. The day begins as it did,
exactly if it may begin so where the new mind is. -/
theorem Fit.adopt_resumes (fit : Fit known config zones s)
    (distinct : (s.live.map (·.id)).Nodup) {loaded : Loaded}
    (tiers : loaded.tiers.Perm s.readTiers) {time : Time.Instant}
    (pendingDay : loaded.pendingDay = some (s.readPendingDay time))
    (knowledge : loaded.knowledge = s.knowledge.entries) (later : Source) (backend : Backend)
    (classifier : Classifier) (extractor : Extractor) :
    let restored := { start config backend later with classifier, extractor }.adopt loaded
    Resumes s restored ∧ ∀ first ∈ s.day.experiences.head?,
      (restored.day.day = s.day.day ↔ DayBuffer.Begins later.clock.zone s.day.day first) := by
  have hmemories : ∀ (fresh : Mind) t,
      (fresh.adoptTiers loaded.tiers).store.memories t = s.store.memories t := by
    intro fresh t
    have hdistinct : (loaded.tiers.map Prod.fst).Nodup := by
      rw [(tiers.map _).nodup_iff, map_fst_readTiers]
      decide
    have hin : (t, s.store.memories t) ∈ loaded.tiers :=
      tiers.symm.subset (List.mem_map_of_mem t.mem_all)
    rw [fresh.memories_adoptTiers_of_mem hdistinct hin]
    exact (List.map_congr_left fun m hm => fit.settled t m hm).trans (List.map_id _)
  have hwaiting : (s.archive.pending.filter fun m =>
      !(loaded.tiers.flatMap fun p => p.2.map (·.id)).contains m.id) = s.archive.pending := by
    rw [List.filter_eq_self]
    intro m hm
    rw [live, List.map_append, List.nodup_append] at distinct
    simp only [Bool.not_eq_true', List.contains_eq_mem, decide_eq_false_iff_not]
    intro hactive
    obtain ⟨p, hp, hid⟩ := List.mem_flatMap.mp hactive
    obtain ⟨t, ht, rfl⟩ := List.mem_map.mp (tiers.subset hp)
    refine distinct.2.2 m.id ?_ m.id (List.mem_map_of_mem hm) rfl
    rw [active, List.map_flatMap]
    exact List.mem_flatMap.mpr ⟨t, ht, hid⟩
  have hday := DayBuffer.restore_empty fit.day.fits later.clock.zone later.today.1
  have hknowledge : (KnowledgeBase.empty.restore s.knowledge.entries).1 = s.knowledge :=
    KnowledgeBase.restore_behind fit.knowledge
  unfold Mind.adopt
  simp only [pendingDay, knowledge]
  refine ⟨⟨hmemories _, ?_, (hday _).1, hknowledge⟩, (hday _).2⟩
  simp only [adoptPendingDay, readPendingDay, hwaiting, ArchiveLog.restorePending,
    ArchiveLog.putBack]
  change (s.archive.pending.filter fun m => !([] : List Uid).contains m.id) ++ [] =
    s.archive.pending
  simp

theorem persist_frame (s : Mind) :
    s.persist.1.classifier = s.classifier ∧ s.persist.1.extractor = s.extractor := by
  obtain ⟨_, _, _, hpersist, _⟩ := s.persist_cases
  rw [hpersist]
  exact ⟨rfl, rfl⟩

/-- Saving a checkpoint changes nothing of what a mind holds. -/
theorem Resumes.of_persist (resumes : Resumes s s') : Resumes s.persist.1 s' := by
  obtain ⟨_, _, _, hpersist, _⟩ := s.persist_cases
  rw [hpersist]
  exact ⟨resumes.tiers, resumes.pending, resumes.experiences, resumes.knowledge⟩

/-- The same mind with other parts that its answers do not depend on. -/
theorem eq_aside (config : s'.config = s.config) (classifier : s'.classifier = s.classifier)
    (extractor : s'.extractor = s.extractor) (backend : s'.backend = s.backend)
    (pending : s'.archive.pending = s.archive.pending)
    (maxPending : s'.archive.maxPending = s.archive.maxPending) (source : s'.source = s.source) :
    s' = s.aside s'.parts := by
  have harchive : s'.archive =
      s.archive.viewed s'.archive.recent s'.archive.recentCapacity := by
    unfold Mind.backend at backend
    unfold ArchiveLog.viewed
    rw [← backend, ← pending, ← maxPending]
  unfold aside parts
  simp only
  rw [← config, ← classifier, ← extractor, ← source, ← harchive]

theorem outcomes_of_source (embedder : Embedder) (s : Mind) (source : Source)
    (requests : List Request) :
    outcomes embedder { s with source } requests = outcomes embedder s requests := by
  cases requests with
  | nil => rfl
  | cons r rest => rfl

/-- A mind that resumes another one goes on as the other one would, where both have had no other
embedder. -/
theorem Resumes.outcomes (resumes : Resumes s s') (fit : Fit known config zones s)
    {zones' : Time.Zone → Prop} (fit' : Fit known config zones' s')
    (classifier : s'.classifier = s.classifier) (extractor : s'.extractor = s.extractor)
    (backend : s'.backend = s.backend) {embedder : Embedder} (only : Only known embedder)
    (requests : List Request) :
    Mind.outcomes embedder s' requests = Mind.outcomes embedder s requests := by
  have alike : Alike embedder s { s' with source := s.source } := {
    rest := ⟨_, eq_aside (fit'.config.trans fit.config.symm) classifier extractor backend
      resumes.pending (fit'.batch.trans fit.batch.symm) rfl⟩
    tidy := fit.tidy
    tidy' := fit'.tidy
    memories := resumes.tiers
    cache := fit.config ▸ fit.cache embedder only
    cache' := fit.config ▸ fit'.cache embedder only }
  exact (outcomes_of_source embedder s' s.source requests).symm.trans (alike.outcomes requests)

theorem adopt_frame (s : Mind) (loaded : Loaded) :
    (s.adopt loaded).classifier = s.classifier ∧ (s.adopt loaded).extractor = s.extractor ∧
      (s.adopt loaded).backend = s.backend := by
  unfold adopt
  cases loaded.pendingDay with
  | none => exact ⟨rfl, rfl, rfl⟩
  | some day => exact ⟨rfl, rfl, rfl⟩

/-- Tiers that are loaded by their tags are those of the mind that has saved them. -/
theorem perm_readTiers {snapshots : ByTag (List Memory)} {loaded : List (Tier × List Memory)}
    (same : loaded.map (fun p => (p.1.name, p.2)) = snapshots) (ordered : snapshots.Ordered)
    (saved : ∀ p, p ∈ snapshots ↔ ∃ q ∈ s.readTiers, p = (q.1.name, q.2)) :
    loaded.Perm s.readTiers := by
  have hloaded : loaded.Nodup := by
    refine List.Nodup.of_map (fun p => (p.1.name, p.2)) ?_
    rw [same]
    exact List.Nodup.of_map Prod.fst (ordered.imp fun hlt => ne_of_lt hlt)
  have hread : s.readTiers.Nodup := by
    refine List.Nodup.of_map Prod.fst ?_
    rw [map_fst_readTiers]
    decide
  have hpair : ∀ {p q : Tier × List Memory}, (p.1.name, p.2) = (q.1.name, q.2) → p = q := by
    intro p q h
    obtain ⟨hname, hmemories⟩ := Prod.mk.inj h
    exact Prod.ext (Tier.name_injective hname) hmemories
  refine (List.perm_ext_iff_of_nodup hloaded hread).mpr fun p => ⟨fun hp => ?_, fun hp => ?_⟩
  · have hin : (p.1.name, p.2) ∈ snapshots := by
      rw [← same]
      exact List.mem_map_of_mem (f := fun p : Tier × List Memory => (p.1.name, p.2)) hp
    obtain ⟨q, hq, hsame⟩ := (saved _).mp hin
    exact hpair hsame ▸ hq
  · have hin := (saved _).mpr ⟨p, hp, rfl⟩
    rw [← same] at hin
    obtain ⟨q, hq, hsame⟩ := List.mem_map.mp hin
    exact hpair hsame ▸ hq

/-- An empty mind over the backend of a saved one loads its checkpoint. -/
theorem Sound.load_checkpoint (sound : Sound s tiers day) {tiers' : ByTag (List Memory.Key)}
    {day' : List Memory.Key} (after : Sound s.persist.1 tiers' day')
    (accepted : ∀ op ∈ Backend.checkpointOperations, op.name ∉ s.backend.refused)
    (preserves : s.backend.Preserves s.checkpoint) (later : Source) (classifier : Classifier)
    (extractor : Extractor) :
    s.persist.2 = .ok s.active.length ∧ ∃ loaded,
      Mind.load { start s.persist.1.config s.persist.1.backend later with
        classifier, extractor } = .ok loaded ∧
      loaded.tiers.Perm s.readTiers ∧
      loaded.pendingDay = some (s.readPendingDay s.now.1) ∧
      loaded.knowledge = s.knowledge.entries := by
  obtain ⟨snapshots, savedDay, saved, hkeys, _⟩ := sound.saved
  have hordered : snapshots.Ordered := by
    have h := sound.ordered
    rw [← hkeys] at h
    unfold ByTag.Ordered Backend.keysByTag at h
    rw [List.map_map] at h
    exact h
  have hnamed : ∀ p ∈ snapshots, ∃ t : Tier, p.1 = t.name := by
    intro p hp
    obtain ⟨t, ht, _⟩ := sound.tagged_memories hkeys p hp
    exact ⟨t, ht⟩
  have hall : s.checkpoint.tiers.map Prod.fst = Tier.all := s.map_fst_readTiers
  obtain ⟨hsnapshots, hday, hknowledge, hok, hmem⟩ := Backend.load_saveCheckpoint
    (c := s.checkpoint) saved accepted preserves hordered hnamed (by rw [hall]; decide)
    (fun t => by rw [hall]; exact t.mem_all)
  have hpersist := persist_eq hok
  have hbackend : s.persist.1.backend = (s.backend.saveCheckpoint s.checkpoint).1 := by
    rw [hpersist]
    rfl
  rw [← hbackend] at hsnapshots hday hknowledge
  refine ⟨by rw [hpersist, countSaved_readTiers], ?_⟩
  have fresh : Sound { start s.persist.1.config s.persist.1.backend later with
      classifier, extractor } tiers' day' :=
    sound_start after.valid after.saved after.ordered after.tagged after.dayWidth
  obtain ⟨loaded, hload⟩ := fresh.load_ok hsnapshots hday hknowledge
  refine ⟨loaded, hload, ?_⟩
  obtain ⟨read, hread, hchecked, hloadedDay, hlearned⟩ := load_ok_cases hload
  obtain rfl := Except.ok.inj (hread.symm.trans hsnapshots)
  refine ⟨?_, Except.ok.inj (hloadedDay.symm.trans hday),
    Except.ok.inj (hlearned.symm.trans hknowledge)⟩
  refine perm_readTiers (eq_of_mapM_checkSnapshot ?_ hchecked) (hordered.putAll _) hmem
  intro p hp
  obtain ⟨q, _, rfl⟩ := (hmem p).mp hp
  exact ⟨q.1, rfl⟩

/-- In the only time zone that a day may have begun in, it may begin as it did. -/
theorem Fit.begins (fit : Fit known config zones s) {zone : Time.Zone} (only : Only zones zone)
    {first : Experience} (hfirst : first ∈ s.day.experiences.head?) :
    DayBuffer.Begins zone s.day.day first := by
  obtain ⟨zone', there, begins⟩ := fit.day.begins first hfirst
  exact only zone' there ▸ begins

/-- A restart goes unnoticed. In any state that minds over one backend can come to, with whatever
embedders and in whatever time zones, a checkpoint is saved, and a new mind of the same
configuration over the same backend takes it up, at whatever time and wherever; both tell the
number of active memories. The new mind holds what the old one held. The day of the experiences is
kept exactly if they may begin on it in the new time zone, as they may if there is no other one. If
there is no other embedder either, the new mind gives the outcomes that the old one would give to
any inputs, where the generators, the clock and the fresh identifiers are the same for both and
whatever the backend refuses. -/
theorem restart_goes_unnoticed {config : Config} {backend : Backend} {source : Source}
    {fresh : Mind} (created : create config backend source = .ok fresh) (blank : backend.Blank)
    (classifier : Classifier) (extractor : Extractor) {known : Embedder → Prop}
    {zones : Time.Zone → Prop} (home : zones source.clock.zone) {stored : List Memory} {s : Mind}
    (service : Service known zones { fresh with classifier, extractor } stored s)
    (distinct : (stored.map (·.id)).Nodup)
    (accepted : ∀ op ∈ Backend.checkpointOperations, op.name ∉ s.backend.refused)
    (preserves : s.backend.Preserves s.checkpoint) (later : Source) :
    s.persist.2 = .ok s.active.length ∧ ∃ empty restored,
      create s.config s.persist.1.backend later = .ok empty ∧
      Mind.restore { empty with classifier := s.classifier, extractor := s.extractor } =
        (restored, .ok s.active.length) ∧
      Resumes s restored ∧
      (∀ first ∈ s.day.experiences.head?,
        (restored.day.day = s.day.day ↔ DayBuffer.Begins later.clock.zone s.day.day first) ∧
        (Only zones later.clock.zone → restored.day.day = s.day.day)) ∧
      ∀ embedder, Only known embedder → ∀ requests,
        outcomes embedder restored requests = outcomes embedder s.persist.1 requests := by
  have hstart : Traced backend [] [] [] { fresh with classifier, extractor } [] [] := by
    have hsound := sound_create created blank classifier extractor
    obtain rfl := create_eq_start created
    refine ⟨hsound, .refl backend, ?_, ?_, ?_, ?_, ?_, ?_, ?_, ?_, ?_, ?_⟩ <;>
      simp [live_start, Named, archived, timesArchived]
  have saved : Service known zones { fresh with classifier, extractor } stored s.persist.1 := by
    simpa using service.use .persist
  obtain ⟨_, _, tiers, day, traced⟩ := service.traced hstart distinct
  obtain ⟨_, _, tiers', day', traced'⟩ := saved.traced hstart distinct
  have fit : Fit known config zones s := by
    obtain rfl := create_eq_start created
    exact service.fit (fit_start known config backend source home classifier extractor)
  obtain ⟨hpersist, loaded, hload, htiers, hday, hknowledge⟩ :=
    traced.sound.load_checkpoint traced'.sound accepted preserves later s.classifier s.extractor
  rw [fit.persist.config] at hload
  obtain ⟨resumes, begins⟩ := fit.adopt_resumes traced.liveDistinct htiers hday hknowledge later
    s.persist.1.backend s.classifier s.extractor
  have fit' : Fit known config (fun _ => True) _ := (fit_start known config s.persist.1.backend
    later trivial s.classifier s.extractor).adopt loaded
  obtain ⟨hclassifier, hextractor, hbackend⟩ := adopt_frame
    { start config s.persist.1.backend later with
      classifier := s.classifier, extractor := s.extractor } loaded
  refine ⟨hpersist, start config s.persist.1.backend later, _, ?_, ?_, resumes, ?_, ?_⟩
  · unfold create
    rw [traced.sound.valid, fit.config]
    rfl
  · unfold restore
    rw [hload]
    exact congrArg (Prod.mk _) (congrArg Except.ok (countSaved_of_perm htiers))
  · intro first hfirst
    exact ⟨begins first hfirst, fun only => (begins first hfirst).mpr (fit.begins only hfirst)⟩
  · intro embedder only
    refine Resumes.outcomes resumes.of_persist fit.persist fit' ?_ ?_ hbackend only
    · exact hclassifier.trans s.persist_frame.1.symm
    · exact hextractor.trans s.persist_frame.2.symm

/-- A mind with a night and a restart behind it, with one active and one pending memory, one
experience of the day and one entry of knowledge, is restarted again. -/
theorem restart_goes_unnoticed_sample :
    let config := { Sample.config with nightly := { maxPending := 1, minOccurrences := 1 } }
    let s₀ := { start config (.ofStorage (.volatile .empty)) Sample.source with
      extractor := fun _ => ["rain"] }
    ∃ stored s, Service (· = Sample.collaborators.embedder) (· = Sample.source.clock.zone) s₀
        stored s ∧ s.active.length = 1 ∧ s.archive.pending.length = 1 ∧
      s.knowledge.entries.length = 1 ∧ s.persist.2 = .ok 1 ∧ ∃ empty restored,
        create s.config s.persist.1.backend Sample.source = .ok empty ∧
        Mind.restore { empty with classifier := s.classifier, extractor := s.extractor } =
          (restored, .ok 1) ∧
        Resumes s restored ∧ s.day.experiences.length = 1 ∧ restored.day.day = s.day.day ∧
        ∀ requests, outcomes Sample.collaborators.embedder restored requests =
          outcomes Sample.collaborators.embedder s.persist.1 requests := by
  intro config s₀
  let known : Embedder → Prop := (· = Sample.collaborators.embedder)
  let zones : Time.Zone → Prop := (· = Sample.source.clock.zone)
  have given : known Sample.collaborators.embedder := rfl
  have home : zones Sample.source.clock.zone := rfl
  let t₁ := Sample.next s₀ "alpha"
  let night := Sample.undisturbed true t₁.runNightly
  let t₂ := night.1.emptied.restore.1
  let t₃ := Sample.next t₂ "beta"
  let stored := Sample.made s₀ "alpha" ++ Sample.made t₂ "beta"
  -- One evaluation for all, since each of these facts takes the run up to its state.
  obtain ⟨n₁, hvalid, hloaded, n₃, distinct, hactive, hpending, hday, hknowledge, hrefused,
      hvolatile⟩ :
      Sample.isNarrow s₀ "alpha" ∧ night.1.config.validate = .ok () ∧
      night.1.emptied.restore.2 = .ok 1 ∧ Sample.isNarrow t₂ "beta" ∧
      (stored.map fun m : Memory => m.id).Nodup ∧ t₃.active.length = 1 ∧
      t₃.archive.pending.length = 1 ∧ t₃.day.experiences.length = 1 ∧
      t₃.knowledge.entries.length = 1 ∧ t₃.backend.refused = [] ∧
      (match t₃.backend.storage with
        | .volatile _ => true
        | .durable _ => false) = true := by decide +kernel
  have h₁ : Sample.process s₀ "alpha" = t₁ := Sample.process_eq_next n₁
  have h₃ : Sample.process t₂ "beta" = t₃ := Sample.process_eq_next n₃
  have ends : t₁.runNightly.Ends (Trail (Use known zones)) [] night.1 night.2 :=
    Sample.ends_undisturbed (fun _ => .refl) _ _
  have reopens : night.1.Reopens t₂ := reopens_restore hvalid hloaded
  clear_value t₃ t₂ night t₁
  have service : Service known zones s₀ stored t₃ := by
    have first : Service known zones s₀ (Sample.made s₀ "alpha") t₁ := by
      rw [← h₁]
      exact Service.refl.use (.process given _ _)
    have slept : Service known zones s₀ (Sample.made s₀ "alpha") night.1 := by
      simpa using first.nightly ends
    rw [← h₃]
    exact (slept.reopened reopens).use (.process given _ _)
  have created : create config (.ofStorage (.volatile .empty)) Sample.source =
      .ok (start config (.ofStorage (.volatile .empty)) Sample.source) := rfl
  have accepted : ∀ op ∈ Backend.checkpointOperations, op.name ∉ t₃.backend.refused := by
    rw [hrefused]
    exact fun _ _ => List.not_mem_nil
  have preserves : t₃.backend.Preserves t₃.checkpoint := by
    unfold Backend.Preserves
    cases hstorage : t₃.backend.storage with
    | volatile a => trivial
    | durable a => simp [hstorage] at hvolatile
  obtain ⟨hpersist, empty, restored, hempty, hrestored, resumes, hkept, same⟩ :=
    restart_goes_unnoticed created (.inl rfl) _ _ home service distinct accepted preserves
      Sample.source
  obtain ⟨first, hfirst⟩ := List.length_eq_one_iff.mp hday
  have onDay : restored.day.day = t₃.day.day :=
    (hkept first (by rw [hfirst]; rfl)).2 fun _ there => there
  rw [hactive] at hpersist hrestored
  exact ⟨stored, t₃, service, hactive, hpending, hknowledge, hpersist, empty, restored, hempty,
    hrestored, resumes, hday, onDay, same _ fun _ given => given⟩

/-- Two restarts that are noticed. A backend that has saved a checkpoint does not load it; and in
another time zone, an hour to the west of a mind that has processed an input just after midnight,
the experience is taken up with the day before. -/
theorem restart_noticed :
    let s := Sample.next (Sample.empty (.volatile .empty)) "alpha"
    let saved := s.persist.1
    let refusing := saved.outside saved.source.clock ["load_snapshots"] fun _ => false
    let west := saved.outside { saved.source.clock with zone := .fixed (-3600) } [] fun _ => false
    Sample.process (Sample.empty (.volatile .empty)) "alpha" = s ∧ s.persist.2 = .ok 1 ∧
      refusing.emptied.restore.2 = .error (.refused "load_snapshots") ∧
      west.emptied.restore.2 = .ok 1 ∧
      west.emptied.restore.1.day.experiences.length = 1 ∧
      s.day.day = ⟨0⟩ ∧ west.emptied.restore.1.day.day = ⟨-1⟩ := by
  intro s saved refusing west
  refine ⟨Sample.process_eq_next (by decide +kernel), ?_⟩
  decide +kernel

end Mind

end Engram
