import Engram.Proofs.Completeness
import Mathlib.Algebra.BigOperators.Group.List.Basic
import Mathlib.Algebra.GroupWithZero.Nat
import Mathlib.Data.List.Nodup

/-! What is saved of a mind, and what is taken up from it. Between two checkpoints only the saved day
changes, and it loses what is written to the archive. A checkpoint that was saved is one that the
next mind accepts. -/
namespace Engram

/-- Nothing has been written yet. -/
def Backend.Blank (b : Backend) : Prop :=
  b.storage = .volatile .empty ∨ b.storage = .durable .empty

theorem Backend.Blank.saved {b : Backend} (blank : b.Blank) : b.Saved [] none := by
  unfold Backend.Saved
  rcases blank with h | h
  · rw [h]
    exact ⟨rfl, rfl⟩
  · rw [h]
    exact ⟨rfl, rfl⟩

namespace Mind

open scoped List

variable {allowed : List String → Prop} {tiers : ByTag (List Memory.Key)} {day : List Memory.Key}

/-- The tiers by the keys of their memories. -/
def tierKeys (s : Mind) : List (Tier × List Memory.Key) :=
  Tier.all.map fun t => (t, (s.store.memories t).map Memory.key)

/-- A mind over a backend where the given tiers and the given day are saved: memories are in their
tiers, live or saved, and all of them have the configured width. -/
structure Sound (s : Mind) (tiers : ByTag (List Memory.Key)) (day : List Memory.Key) : Prop where
  valid : s.config.validate = .ok ()
  cache : s.cache.Fits s.config.embeddingDimension
  placed : s.Placed
  width : ∀ m ∈ s.live, m.embedding.length = s.config.embeddingDimension
  saved : s.backend.SavedKeys tiers day
  ordered : tiers.Ordered
  tagged : ∀ p ∈ tiers, ∃ t : Tier, p.1 = t.name ∧
    ∀ key ∈ p.2, key.2.1 = t ∧ key.2.2 = s.config.embeddingDimension
  dayWidth : ∀ key ∈ day, key.2.2 = s.config.embeddingDimension

/-- What becomes of what is saved: a write takes its memories out of the day, and a checkpoint
replaces the first tiers, as many as could be saved, and perhaps the day. One that is written
whole replaces all or nothing. -/
inductive Saving (s : Mind) (log : List ArchiveEntry) (tiers : ByTag (List Memory.Key))
    (day : List Memory.Key) : ByTag (List Memory.Key) → List Memory.Key → Prop where
  | pruned : Saving s log tiers day tiers
      (day.filter fun key => !((archived log).map (·.id)).contains key.1)
  | checkpoint {day' : List Memory.Key} (count : Nat) (nothing : log = [])
      (either : day' = day ∨ day' = s.archive.pending.map Memory.key)
      (whole : Backend.WholeCheckpoints s.backend.refused →
        (s.tierKeys.length ≤ count ∧ day' = s.archive.pending.map Memory.key) ∨
          (count = 0 ∧ day' = day)) :
      Saving s log tiers day (tiers.putAll (s.tierKeys.take count)) day'

theorem Saving.rest (s : Mind) (tiers : ByTag (List Memory.Key)) (day : List Memory.Key) :
    Saving s [] tiers day tiers day := by
  have h : Saving s [] tiers day tiers _ := .pruned
  simpa [archived] using h

theorem Change.new_width {s s' : Mind} {new : List Memory} {log : List ArchiveEntry}
    (change : Change allowed s new log s') :
    ∀ m ∈ new, m.embedding.length = s.config.embeddingDimension := by
  cases change with
  | stored m frame width => simpa using width
  | rest | demoted | sealed | saved => simp

theorem Change.live_width {s s' : Mind} {new : List Memory} {log : List ArchiveEntry}
    (change : Change allowed s new log s') {width : Nat}
    (live : ∀ m ∈ s.live, m.embedding.length = width)
    (made : ∀ m ∈ new, m.embedding.length = width) :
    ∀ m ∈ s'.live, m.embedding.length = width := by
  intro m hm
  have hfixed : m.fixed ∈ (s'.live ++ archived log).map Memory.fixed :=
    List.mem_map_of_mem (List.mem_append_left _ hm)
  obtain ⟨old, hold, hsame⟩ := List.mem_map.mp (change.live_perm.subset hfixed)
  rw [← Memory.fixed_embedding m, ← hsame]
  rcases List.mem_append.mp hold with hold | hold
  · exact live old hold
  · exact made old hold

theorem Change.frame {s s' : Mind} {new : List Memory} {log : List ArchiveEntry}
    (change : Change allowed s new log s') : Frame allowed s s' :=
  (Evolves.single change).frame

theorem mem_live_of_mem_memories {s : Mind} {t : Tier} {m : Memory} (h : m ∈ s.store.memories t) :
    m ∈ s.live := by
  apply List.mem_append_left
  exact List.mem_flatMap.mpr ⟨t, t.mem_all, h⟩

theorem map_key_readTiers (s : Mind) :
    s.readTiers.map (fun p => (p.1, p.2.map Memory.key)) = s.tierKeys := by
  unfold readTiers tierKeys
  rw [List.map_map]
  rfl

theorem Sound.tagged_putAll {s : Mind} (sound : Sound s tiers day) (count : Nat) :
    ∀ p ∈ tiers.putAll (s.tierKeys.take count), ∃ t : Tier, p.1 = t.name ∧
      ∀ key ∈ p.2, key.2.1 = t ∧ key.2.2 = s.config.embeddingDimension := by
  intro p hp
  rcases ByTag.mem_putAll hp with hp | ⟨q, hq, rfl⟩
  · exact sound.tagged p hp
  · obtain ⟨t, _, rfl⟩ := List.mem_map.mp (List.mem_of_mem_take hq)
    refine ⟨t, rfl, ?_⟩
    intro key hkey
    obtain ⟨m, hm, rfl⟩ := List.mem_map.mp hkey
    exact ⟨sound.placed t m hm, sound.width m (mem_live_of_mem_memories hm)⟩

/-- Saving the present state: all of it, or some of its first tiers and perhaps its day. -/
theorem Sound.saveCheckpoint {s : Mind} {c : Checkpoint} (sound : Sound s tiers day)
    (hc : c.tiers = s.readTiers) (batch : c.pendingDay.memories = s.archive.pending) :
    ∃ count day', (s.backend.saveCheckpoint c).1.SavedKeys
        (tiers.putAll (s.tierKeys.take count)) day' ∧
      (day' = day ∨ day' = s.archive.pending.map Memory.key) ∧
      (Backend.WholeCheckpoints s.backend.refused ∨ (s.backend.saveCheckpoint c).2 = .ok () →
        (s.tierKeys.length ≤ count ∧ day' = s.archive.pending.map Memory.key) ∨
          (∃ e, (s.backend.saveCheckpoint c).2 = .error e) ∧ count = 0 ∧ day' = day) := by
  have hkeys : c.tiers.map (fun p => (p.1, p.2.map Memory.key)) = s.tierKeys := by
    rw [hc, map_key_readTiers]
  have hlength : s.tierKeys.length = c.tiers.length := by
    rw [← hkeys, List.length_map]
  obtain ⟨count, day', hsaved, heither, hok⟩ := sound.saved.saveCheckpoint c
  rw [hkeys] at hsaved
  rw [batch] at heither hok
  cases hresult : (s.backend.saveCheckpoint c).2 with
  | ok _ =>
      obtain ⟨hcount, hday⟩ := hok hresult
      exact ⟨count, day', hsaved, heither, fun _ => .inl ⟨by omega, hday⟩⟩
  | error e =>
      by_cases whole : Backend.WholeCheckpoints s.backend.refused
      · have hsame : (s.backend.saveCheckpoint c).1 = s.backend := by
          refine Backend.saveCheckpoint_error whole ?_ hresult
          rw [hc]
          simp [readTiers, Tier.all]
        rw [hsame]
        exact ⟨0, day, sound.saved, .inl rfl, fun _ => .inr ⟨⟨e, rfl⟩, rfl, rfl⟩⟩
      · refine ⟨count, day', hsaved, heither, ?_⟩
        rintro (h | h)
        · exact absurd h whole
        · cases h

/-- A change of a sound mind leads to a sound mind, and to what `Saving` says of what is saved. -/
theorem Sound.change {s s' : Mind} {new : List Memory} {log : List ArchiveEntry}
    (sound : Sound s tiers day) (change : Change allowed s new log s') :
    ∃ tiers' day', Sound s' tiers' day' ∧ Saving s log tiers day tiers' day' := by
  have hconfig := change.frame.config
  have hsound : ∀ tiers' day', s'.backend.SavedKeys tiers' day' → tiers'.Ordered →
      (∀ p ∈ tiers', ∃ t : Tier, p.1 = t.name ∧
        ∀ key ∈ p.2, key.2.1 = t ∧ key.2.2 = s.config.embeddingDimension) →
      (∀ key ∈ day', key.2.2 = s.config.embeddingDimension) → Sound s' tiers' day' := by
    intro tiers' day' saved ordered tagged dayWidth
    rw [← hconfig] at tagged dayWidth
    refine ⟨?_, change.frame.cache sound.cache, change.placed sound.placed, ?_, saved, ordered,
      tagged, dayWidth⟩
    · rw [hconfig]
      exact sound.valid
    · rw [hconfig]
      exact change.live_width sound.width change.new_width
  have hsame : s'.backend.contents = s.backend.contents → Sound s' tiers day := fun contents =>
    hsound tiers day (sound.saved.of_contents contents) sound.ordered sound.tagged sound.dayWidth
  cases change with
  | rest quiet => exact ⟨tiers, day, hsame quiet.backend, .rest s tiers day⟩
  | stored m frame width store pending backend =>
      exact ⟨tiers, day, hsame backend, .rest s tiers day⟩
  | demoted t moved frame tier others pending backend =>
      exact ⟨tiers, day, hsame backend, .rest s tiers day⟩
  | sealed entry frame batch store pending backend =>
      refine ⟨tiers, _, ?_, .pruned⟩
      have hsaved := sound.saved.append backend
      have hlog : archived [entry] = entry.memories := by simp [archived]
      rw [hlog]
      refine hsound tiers _ hsaved sound.ordered sound.tagged ?_
      intro key hkey
      exact sound.dayWidth key (List.mem_of_mem_filter hkey)
  | saved c frame hc batch store pending backend =>
      obtain ⟨count, day', hsaved, heither, hwhole⟩ := sound.saveCheckpoint hc batch
      rw [← backend] at hsaved
      refine ⟨_, day', ?_, .checkpoint count rfl heither ?_⟩
      · refine hsound _ day' hsaved (sound.ordered.putAll _) (sound.tagged_putAll count) ?_
        intro key hkey
        rcases heither with rfl | rfl
        · exact sound.dayWidth key hkey
        · obtain ⟨m, hm, rfl⟩ := List.mem_map.mp hkey
          exact sound.width m (List.mem_append_right _ hm)
      · intro whole
        exact (hwhole (.inl whole)).imp id And.right

theorem checkSnapshot_ok {dimension : Nat} {saved : String × List Memory}
    {p : Tier × List Memory} (h : checkSnapshot dimension saved = .ok p) :
    Tier.parse saved.1 = .ok p.1 ∧ p.2 = saved.2 := by
  unfold checkSnapshot at h
  cases hparse : Tier.parse saved.1 with
  | error e => simp [hparse, bind, Except.bind] at h
  | ok t =>
      cases hcheck : saved.2.forM (checkSaved dimension saved.1 t) with
      | error e => simp [hparse, hcheck, bind, Except.bind] at h
      | ok _ =>
          simp only [hparse, hcheck, bind, Except.bind, pure, Except.pure] at h
          cases h
          exact ⟨rfl, rfl⟩

theorem parse_name (t : Tier) : Tier.parse t.name = .ok t := by
  cases t <;> decide +kernel

/-- What is loaded is what was saved, where tags are names of tiers. -/
theorem eq_of_mapM_checkSnapshot {dimension : Nat} {snapshots : ByTag (List Memory)}
    {loaded : List (Tier × List Memory)} (named : ∀ p ∈ snapshots, ∃ t : Tier, p.1 = t.name)
    (h : snapshots.mapM (checkSnapshot dimension) = .ok loaded) :
    loaded.map (fun p => (p.1.name, p.2)) = snapshots := by
  induction snapshots generalizing loaded with
  | nil =>
      cases h
      rfl
  | cons p snapshots ih =>
      rw [List.mapM_cons] at h
      simp only [bind, Except.bind, pure, Except.pure] at h
      split at h
      · cases h
      · rename_i first hfirst
        split at h
        · cases h
        · rename_i rest hrest
          cases h
          obtain ⟨hparse, hmemories⟩ := checkSnapshot_ok hfirst
          obtain ⟨t, ht⟩ := named p List.mem_cons_self
          rw [ht, parse_name] at hparse
          have hname : first.1.name = p.1 := by
            rw [ht, ← Except.ok.inj hparse]
          rw [List.map_cons, ih (fun q hq => named q (List.mem_cons_of_mem _ hq)) hrest, hname,
            hmemories]

theorem load_ok_cases {s : Mind} {loaded : Loaded} (h : s.load = .ok loaded) :
    ∃ snapshots, s.backend.loadSnapshots = .ok snapshots ∧
      snapshots.mapM (checkSnapshot s.config.embeddingDimension) = .ok loaded.tiers ∧
      s.backend.loadPendingDay = .ok loaded.pendingDay ∧
      s.backend.loadKnowledge = .ok loaded.knowledge := by
  unfold load at h
  simp only [bind, Except.bind, pure, Except.pure] at h
  split at h
  · cases h
  · rename_i snapshots hsnapshots
    split at h
    · cases h
    · rename_i checked hchecked
      split at h
      · cases h
      · rename_i pendingDay hday
        split at h
        · cases h
        · split at h
          · cases h
          · rename_i knowledge hknowledge
            cases h
            exact ⟨snapshots, hsnapshots, hchecked, hday, hknowledge⟩

/-- Snapshots with the saved keys are tagged with the tiers of their memories. -/
theorem Sound.tagged_memories {s : Mind} (sound : Sound s tiers day)
    {snapshots : ByTag (List Memory)} (keys : Backend.keysByTag snapshots = tiers) :
    ∀ p ∈ snapshots, ∃ t : Tier, p.1 = t.name ∧
      ∀ m ∈ p.2, m.tier = t ∧ m.embedding.length = s.config.embeddingDimension := by
  intro p hp
  obtain ⟨t, ht, hmemories⟩ := sound.tagged (p.1, p.2.map Memory.key) (by
    rw [← keys]
    exact List.mem_map_of_mem hp)
  exact ⟨t, ht, fun m hm => hmemories m.key (List.mem_map_of_mem hm)⟩

/-- A loaded checkpoint has the keys that were saved. -/
theorem Sound.load_keys {s : Mind} {loaded : Loaded} (sound : Sound s tiers day)
    (h : s.load = .ok loaded) :
    loaded.tiers.map (fun p => (p.1.name, p.2.map Memory.key)) = tiers ∧
      PendingDay.keysOf loaded.pendingDay = day := by
  obtain ⟨snapshots, hsnapshots, hchecked, hday, _⟩ := load_ok_cases h
  obtain ⟨T, d, hsaved, htiers, hdays⟩ := sound.saved
  have hkeys : Backend.keysByTag snapshots = tiers :=
    (Backend.keys_loadSnapshots hsaved hsnapshots).trans htiers
  refine ⟨?_, (Backend.keys_loadPendingDay hsaved hday).1.trans hdays⟩
  have hnamed : ∀ p ∈ snapshots, ∃ t : Tier, p.1 = t.name := by
    intro p hp
    obtain ⟨t, ht, _⟩ := sound.tagged_memories hkeys p hp
    exact ⟨t, ht⟩
  have hread := eq_of_mapM_checkSnapshot hnamed hchecked
  rw [← hkeys, ← hread, Backend.keysByTag, List.map_map]
  rfl

theorem checkSnapshot_of_keys {dimension : Nat} {t : Tier} {memories : List Memory}
    (h : ∀ m ∈ memories, m.tier = t ∧ m.embedding.length = dimension) :
    checkSnapshot dimension (t.name, memories) = .ok (t, memories) := by
  have hall : memories.forM (checkSaved dimension t.name t) = .ok () := by
    induction memories with
    | nil => rfl
    | cons m memories ih =>
        obtain ⟨htier, hwidth⟩ := h m List.mem_cons_self
        have hfirst : checkSaved dimension t.name t m = .ok () := by
          simp [checkSaved, htier, hwidth]
        change (checkSaved dimension t.name t m >>= fun _ => memories.forM _) = .ok ()
        rw [hfirst]
        exact ih fun n hn => h n (List.mem_cons_of_mem _ hn)
  unfold checkSnapshot
  simp only [parse_name, hall, bind, Except.bind, pure, Except.pure]

theorem mapM_checkSnapshot {dimension : Nat} {snapshots : ByTag (List Memory)}
    (h : ∀ p ∈ snapshots, ∃ t : Tier, p.1 = t.name ∧
      ∀ m ∈ p.2, m.tier = t ∧ m.embedding.length = dimension) :
    ∃ loaded, snapshots.mapM (checkSnapshot dimension) = .ok loaded := by
  induction snapshots with
  | nil => exact ⟨[], rfl⟩
  | cons p snapshots ih =>
      obtain ⟨t, ht, hmemories⟩ := h p List.mem_cons_self
      obtain ⟨rest, hrest⟩ := ih fun q hq => h q (List.mem_cons_of_mem _ hq)
      obtain ⟨tag, memories⟩ := p
      obtain rfl : tag = t.name := ht
      refine ⟨(t, memories) :: rest, ?_⟩
      rw [List.mapM_cons, checkSnapshot_of_keys hmemories, hrest]
      rfl

/-- A checkpoint of a sound mind that can be read is one that fits. -/
theorem Sound.load_ok {s : Mind} (sound : Sound s tiers day) {snapshots : ByTag (List Memory)}
    {pendingDay : Option PendingDay} {knowledge : List KnowledgeEntry}
    (hsnapshots : s.backend.loadSnapshots = .ok snapshots)
    (hday : s.backend.loadPendingDay = .ok pendingDay)
    (hknowledge : s.backend.loadKnowledge = .ok knowledge) : ∃ loaded, s.load = .ok loaded := by
  obtain ⟨T, d, hsaved, htiers, hdays⟩ := sound.saved
  have hkeys : Backend.keysByTag snapshots = tiers :=
    (Backend.keys_loadSnapshots hsaved hsnapshots).trans htiers
  have hdayKeys : PendingDay.keysOf pendingDay = day :=
    (Backend.keys_loadPendingDay hsaved hday).1.trans hdays
  obtain ⟨checked, hchecked⟩ : ∃ checked,
      snapshots.mapM (checkSnapshot s.config.embeddingDimension) = .ok checked :=
    mapM_checkSnapshot (sound.tagged_memories hkeys)
  have hfits : pendingDay.forM (checkPendingDay s.config.embeddingDimension) = .ok () := by
    cases pendingDay with
    | none => rfl
    | some saved =>
        have hnone : saved.memories.find?
            (fun m => m.embedding.length != s.config.embeddingDimension) = none := by
          rw [List.find?_eq_none]
          intro m hm
          have hwidth := sound.dayWidth m.key (by
            rw [← hdayKeys]
            exact List.mem_map_of_mem hm)
          simpa [Memory.key] using hwidth
        change checkPendingDay s.config.embeddingDimension saved = .ok ()
        unfold checkPendingDay
        rw [hnone]
  refine ⟨⟨checked, pendingDay, knowledge⟩, ?_⟩
  unfold load
  simp only [hsnapshots, hchecked, hday, hfits, hknowledge, bind, Except.bind, pure, Except.pure]

theorem countSaved_eq (tiers : List (Tier × List Memory)) :
    countSaved tiers = (tiers.map (·.2.length)).sum := by
  unfold countSaved
  rw [List.sum_eq_foldl, List.foldl_map]

theorem memories_adoptTiers_of_notMem (s : Mind) {loaded : List (Tier × List Memory)} {t : Tier}
    (h : t ∉ loaded.map Prod.fst) :
    (s.adoptTiers loaded).store.memories t = s.store.memories t := by
  induction loaded generalizing s with
  | nil => rfl
  | cons p loaded ih =>
      rw [List.map_cons, List.mem_cons, not_or] at h
      let placed : Mind := { s with store := s.store.replace p.1 (p.2.map Memory.activate) }
      refine (ih placed h.2).trans ?_
      exact (Store.memories_replace _ _ _ _).trans (if_neg h.1)

theorem memories_adoptTiers_of_mem (s : Mind) {loaded : List (Tier × List Memory)}
    (distinct : (loaded.map Prod.fst).Nodup) {t : Tier} {memories : List Memory}
    (h : (t, memories) ∈ loaded) :
    (s.adoptTiers loaded).store.memories t = memories.map Memory.activate := by
  induction loaded generalizing s with
  | nil => cases h
  | cons p loaded ih =>
      rw [List.map_cons, List.nodup_cons] at distinct
      let placed : Mind := { s with store := s.store.replace p.1 (p.2.map Memory.activate) }
      rcases List.mem_cons.mp h with h | h
      · subst h
        refine (placed.memories_adoptTiers_of_notMem distinct.1).trans ?_
        exact (Store.memories_replace _ _ _ _).trans (if_pos rfl)
      · exact ih placed distinct.2 h

/-- The identifiers in saved tiers. -/
def savedIds (tiers : ByTag (List Memory.Key)) : List Uid := tiers.flatMap fun p => p.2.map (·.1)

/-- The keys without those of some identifiers. -/
def without (ids : List Uid) (keys : List Memory.Key) : List Memory.Key :=
  keys.filter fun key => !ids.contains key.1

/-- The memories of `s'` are those of `s` with the saved tiers in place of its own and, in front of
its pending batch, the memories of the saved day that are not in these tiers or in the batch. -/
structure Restored (s : Mind) (tiers : ByTag (List Memory.Key)) (day : List Memory.Key)
    (s' : Mind) : Prop where
  config : s'.config = s.config
  cache : s'.cache = s.cache
  backend : s'.backend = s.backend
  memories : ∀ t : Tier, (s'.store.memories t).map Memory.key =
    (tiers.lookup t.name).getD ((s.store.memories t).map Memory.key)
  pending : s'.archive.pending.map Memory.key =
    without (s.archive.pending.map (·.id)) (without (savedIds tiers) day) ++
      s.archive.pending.map Memory.key

theorem map_key_filter (ids : List Uid) (memories : List Memory) :
    (memories.filter fun m => !ids.contains m.id).map Memory.key =
      without ids (memories.map Memory.key) := by
  unfold without
  rw [List.filter_map]
  rfl

theorem Sound.adopt {s : Mind} {loaded : Loaded} (sound : Sound s tiers day)
    (h : s.load = .ok loaded) : Restored s tiers day (s.adopt loaded) := by
  obtain ⟨htiers, hday⟩ := sound.load_keys h
  have hdistinct : (loaded.tiers.map Prod.fst).Nodup := by
    have hnames := sound.ordered.imp fun hlt => ne_of_lt hlt
    rw [← htiers, List.map_map] at hnames
    have hcomp : (loaded.tiers.map Prod.fst).map Tier.name =
        loaded.tiers.map (Prod.fst ∘ fun p => (p.1.name, p.2.map Memory.key)) := by
      rw [List.map_map]
      rfl
    rw [← hcomp] at hnames
    exact List.Nodup.of_map _ hnames
  have hactive : loaded.tiers.flatMap (fun p => p.2.map (·.id)) = savedIds tiers := by
    unfold savedIds
    rw [← htiers, List.flatMap_map]
    simp [Memory.key, Function.comp_def]
  have hkept : ∀ t : Tier, ((s.adoptTiers loaded.tiers).store.memories t).map Memory.key =
      (tiers.lookup t.name).getD ((s.store.memories t).map Memory.key) := by
    intro t
    by_cases ht : t ∈ loaded.tiers.map Prod.fst
    · obtain ⟨p, hp, rfl⟩ := List.mem_map.mp ht
      rw [s.memories_adoptTiers_of_mem hdistinct hp, List.map_map]
      have hin : (p.1.name, p.2.map Memory.key) ∈ tiers := by
        rw [← htiers]
        exact List.mem_map_of_mem hp
      have hlookup : tiers.lookup p.1.name = some (p.2.map Memory.key) :=
        sound.ordered.lookup_eq_some hin
      rw [hlookup]
      rfl
    · rw [s.memories_adoptTiers_of_notMem ht]
      have hnone : tiers.lookup t.name = none := by
        rw [List.lookup_eq_none_iff]
        intro p hp
        rw [← htiers] at hp
        obtain ⟨q, hq, rfl⟩ := List.mem_map.mp hp
        simp only [ne_eq, bne_iff_ne]
        intro hname
        exact ht (List.mem_map.mpr ⟨q, hq, (Tier.name_injective hname).symm⟩)
      rw [hnone]
      rfl
  unfold Mind.adopt
  simp only
  cases hpending : loaded.pendingDay with
  | none =>
      rw [hpending] at hday
      refine ⟨rfl, rfl, rfl, hkept, ?_⟩
      rw [← hday]
      rfl
  | some saved =>
      rw [hpending] at hday
      refine ⟨rfl, rfl, rfl, hkept, ?_⟩
      rw [← hday, ← hactive]
      simp only [adoptPendingDay, ArchiveLog.restorePending, ArchiveLog.putBack, List.map_append,
        map_key_filter]
      rfl

theorem restore_ok_cases {s s' : Mind} {n : Nat} (h : s.restore = (s', .ok n)) :
    ∃ loaded, s.load = .ok loaded ∧ s' = s.adopt loaded := by
  unfold restore at h
  cases hload : s.load with
  | error e =>
      rw [hload] at h
      cases h
  | ok loaded =>
      rw [hload] at h
      exact ⟨loaded, rfl, (congrArg Prod.fst h).symm⟩

theorem Sound.key_width {s : Mind} (sound : Sound s tiers day) {key : Memory.Key}
    (h : key ∈ s.live.map Memory.key) : key.2.2 = s.config.embeddingDimension := by
  obtain ⟨m, hm, rfl⟩ := List.mem_map.mp h
  exact sound.width m hm

/-- The key of a restored active memory is a saved one or that of a memory of the same tier. -/
theorem Restored.key_cases {s s' : Mind} (restored : Restored s tiers day s') {t : Tier}
    {m : Memory} (h : m ∈ s'.store.memories t) :
    (∃ keys, (t.name, keys) ∈ tiers ∧ m.key ∈ keys) ∨
      m.key ∈ (s.store.memories t).map Memory.key := by
  have hkey : m.key ∈ (s'.store.memories t).map Memory.key := List.mem_map_of_mem h
  rw [restored.memories] at hkey
  cases hlookup : tiers.lookup t.name with
  | none =>
      rw [hlookup] at hkey
      exact .inr hkey
  | some keys =>
      rw [hlookup] at hkey
      obtain ⟨before, after, hsplit, _⟩ := List.lookup_eq_some_iff.mp hlookup
      exact .inl ⟨keys, by rw [hsplit]; simp, hkey⟩

/-- Everything that was saved is live after it was taken up. -/
theorem Restored.mem_live {s s' : Mind} (restored : Restored s tiers day s')
    (sound : Sound s tiers day) {id : Uid} (h : id ∈ savedIds tiers ++ day.map (·.1)) :
    id ∈ s'.live.map (·.id) := by
  have hlive : ∀ {keys : List Memory.Key} {key : Memory.Key}, key ∈ keys →
      (∃ memories : List Memory, memories.map Memory.key = keys ∧ memories ⊆ s'.live) →
      key.1 ∈ s'.live.map (·.id) := by
    rintro _ key hkey ⟨memories, rfl, hsub⟩
    obtain ⟨m, hm, rfl⟩ := List.mem_map.mp hkey
    exact List.mem_map_of_mem (hsub hm)
  have htier : id ∈ savedIds tiers → id ∈ s'.live.map (·.id) := by
    intro h
    obtain ⟨p, hp, hid⟩ := List.mem_flatMap.mp h
    obtain ⟨key, hkey, rfl⟩ := List.mem_map.mp hid
    obtain ⟨t, ht, _⟩ := sound.tagged p hp
    refine hlive hkey ⟨s'.store.memories t, ?_, fun m => mem_live_of_mem_memories⟩
    have hlookup : tiers.lookup t.name = some p.2 := by
      rw [← ht]
      exact sound.ordered.lookup_eq_some hp
    rw [restored.memories, hlookup]
    rfl
  rcases List.mem_append.mp h with h | h
  · exact htier h
  · by_cases hsaved : id ∈ savedIds tiers
    · exact htier hsaved
    · obtain ⟨key, hkey, rfl⟩ := List.mem_map.mp h
      by_cases hpending : key.1 ∈ s.archive.pending.map (·.id)
      · obtain ⟨m, hm, hid⟩ := List.mem_map.mp hpending
        have hin : m.key ∈ s'.archive.pending.map Memory.key := by
          rw [restored.pending]
          exact List.mem_append_right _ (List.mem_map_of_mem hm)
        rw [← hid]
        exact hlive hin ⟨_, rfl, fun n => List.mem_append_right _⟩
      · have hin : key ∈ s'.archive.pending.map Memory.key := by
          rw [restored.pending]
          refine List.mem_append_left _ ?_
          simp only [without, List.mem_filter, Bool.not_eq_true', List.contains_eq_mem,
            decide_eq_false_iff_not]
          exact ⟨⟨hkey, hsaved⟩, hpending⟩
        exact hlive hin ⟨_, rfl, fun n => List.mem_append_right _⟩

/-- A mind that has taken up a checkpoint is sound. -/
theorem Restored.sound {s s' : Mind} (restored : Restored s tiers day s')
    (sound : Sound s tiers day) : Sound s' tiers day := by
  have hplaced : ∀ t, ∀ m ∈ s'.store.memories t,
      m.tier = t ∧ m.embedding.length = s.config.embeddingDimension := by
    intro t m hm
    rcases restored.key_cases hm with ⟨keys, hin, hkey⟩ | hkey
    · obtain ⟨u, hu, hall⟩ := sound.tagged _ hin
      obtain rfl : t = u := Tier.name_injective hu
      exact hall m.key hkey
    · obtain ⟨old, hold, hsame⟩ := List.mem_map.mp hkey
      obtain ⟨-, htier, hwidth⟩ : old.id = m.id ∧ old.tier = m.tier ∧
          old.embedding.length = m.embedding.length := by
        simpa [Memory.key] using hsame
      rw [← htier, ← hwidth]
      exact ⟨sound.placed t old hold, sound.width old (mem_live_of_mem_memories hold)⟩
  have hpending : ∀ m ∈ s'.archive.pending,
      m.embedding.length = s.config.embeddingDimension := by
    intro m hm
    have hkey : m.key ∈ s'.archive.pending.map Memory.key := List.mem_map_of_mem hm
    rw [restored.pending, List.mem_append] at hkey
    rcases hkey with hkey | hkey
    · exact sound.dayWidth m.key (List.mem_of_mem_filter (List.mem_of_mem_filter hkey))
    · have hlive : m.key ∈ s.live.map Memory.key := by
        rw [live, List.map_append]
        exact List.mem_append_right _ hkey
      exact sound.key_width hlive
  refine ⟨?_, ?_, fun t m hm => (hplaced t m hm).1, ?_, ?_, sound.ordered, ?_, ?_⟩
  · rw [restored.config]
    exact sound.valid
  · rw [restored.config, restored.cache]
    exact sound.cache
  · intro m hm
    rw [restored.config]
    rcases List.mem_append.mp hm with hm | hm
    · obtain ⟨t, _, hm⟩ := List.mem_flatMap.mp hm
      exact (hplaced t m hm).2
    · exact hpending m hm
  · rw [restored.backend]
    exact sound.saved
  · rw [restored.config]
    exact sound.tagged
  · rw [restored.config]
    exact sound.dayWidth

theorem Sound.restore {s s' : Mind} {n : Nat} (sound : Sound s tiers day)
    (h : s.restore = (s', .ok n)) : Restored s tiers day s' := by
  obtain ⟨loaded, hload, rfl⟩ := restore_ok_cases h
  exact sound.adopt hload

/-- A new mind in place of `s`, of the same configuration and over the same backend, takes up the
saved checkpoint. -/
def Reopens (s s' : Mind) : Prop :=
  ∃ fresh n, s.restart s.config = .ok fresh ∧ fresh.restore = (s', .ok n)

/-- The empty mind that takes the place of `s`. -/
def emptied (s : Mind) : Mind :=
  { start s.config s.backend s.source with
    classifier := s.classifier, extractor := s.extractor }

theorem restart_eq {s fresh : Mind} (h : s.restart s.config = .ok fresh) : fresh = s.emptied := by
  unfold restart at h
  unfold emptied
  cases hcreate : create s.config s.backend s.source with
  | error e =>
      rw [hcreate] at h
      cases h
  | ok blank =>
      rw [hcreate] at h
      rw [← create_eq_start hcreate]
      exact (Except.ok.inj h).symm

theorem restart_emptied {s : Mind} (valid : s.config.validate = .ok ()) :
    s.restart s.config = .ok s.emptied := by
  unfold restart create
  rw [valid]
  rfl

/-- A mind is reopened if the saved checkpoint is taken up. -/
theorem reopens_restore {s : Mind} {n : Nat} (valid : s.config.validate = .ok ())
    (loaded : s.emptied.restore.2 = .ok n) : s.Reopens s.emptied.restore.1 :=
  ⟨s.emptied, n, restart_emptied valid, Prod.ext rfl loaded⟩

/-- An empty mind is sound over whatever was saved by a sound one of its configuration. -/
theorem sound_start {config : Config} {backend : Backend} {source : Source}
    {classifier : Classifier} {extractor : Extractor} (valid : config.validate = .ok ())
    (saved : backend.SavedKeys tiers day) (ordered : tiers.Ordered)
    (tagged : ∀ p ∈ tiers, ∃ t : Tier, p.1 = t.name ∧
      ∀ key ∈ p.2, key.2.1 = t ∧ key.2.2 = config.embeddingDimension)
    (dayWidth : ∀ key ∈ day, key.2.2 = config.embeddingDimension) :
    Sound { start config backend source with classifier, extractor } tiers day := by
  refine ⟨valid, ?_, ?_, ?_, saved, ordered, tagged, dayWidth⟩
  · intro p hp
    cases hp
  · intro t m hm
    simp [start, Store.memories_empty] at hm
  · intro m hm
    rw [live_start] at hm
    cases hm

theorem sound_create {config : Config} {backend : Backend} {source : Source} {fresh : Mind}
    (created : create config backend source = .ok fresh) (blank : backend.Blank)
    (classifier : Classifier) (extractor : Extractor) :
    Sound { fresh with classifier, extractor } [] [] := by
  have hvalid : config.validate = .ok () := by
    unfold create at created
    cases hvalid : config.validate with
    | error e =>
        rw [hvalid] at created
        cases created
    | ok _ => rfl
  have hsaved : backend.SavedKeys [] [] := ⟨[], none, blank.saved, rfl, rfl⟩
  obtain rfl := create_eq_start created
  exact sound_start hvalid hsaved .nil (by simp) (by simp)

/-- A mind that is reopened is an empty one that has taken up what was saved. -/
theorem Sound.reopens {s s' : Mind} (sound : Sound s tiers day) (h : s.Reopens s') :
    ∃ fresh, Sound fresh tiers day ∧ fresh.live = [] ∧ fresh.backend = s.backend ∧
      Restored fresh tiers day s' := by
  obtain ⟨fresh, n, hrestart, hrestore⟩ := h
  obtain rfl := restart_eq hrestart
  have hfresh : Sound s.emptied tiers day :=
    sound_start sound.valid sound.saved sound.ordered sound.tagged sound.dayWidth
  exact ⟨_, hfresh, live_start _ _ _ _ _, rfl, hfresh.restore hrestore⟩

/-- A sound mind whose checkpoint can be read can be reopened. -/
theorem Sound.exists_reopens {s : Mind} (sound : Sound s tiers day)
    {snapshots : ByTag (List Memory)} {pendingDay : Option PendingDay}
    {knowledge : List KnowledgeEntry} (hsnapshots : s.backend.loadSnapshots = .ok snapshots)
    (hday : s.backend.loadPendingDay = .ok pendingDay)
    (hknowledge : s.backend.loadKnowledge = .ok knowledge) : ∃ s', s.Reopens s' := by
  have hfresh : Sound s.emptied tiers day :=
    sound_start sound.valid sound.saved sound.ordered sound.tagged sound.dayWidth
  obtain ⟨loaded, hload⟩ := hfresh.load_ok hsnapshots hday hknowledge
  have hok : s.emptied.restore.2 = .ok (countSaved loaded.tiers) := by
    unfold Mind.restore
    rw [hload]
  exact ⟨_, reopens_restore sound.valid hok⟩

end Mind

end Engram
