import Engram.Proofs.Checkpoint

/-! No loss across restarts. What a checkpoint holds is at any later time live or in the archive: a
write takes out of the saved day only what it writes, and a checkpoint that is saved whole puts
what is live in place of what was saved. -/
namespace Engram

/-- A memory with this identifier is in a saved tier or in the saved day. -/
def Backend.Holds (b : Backend) (id : Uid) : Prop :=
  ∃ tiers day, b.Saved tiers day ∧
    ((∃ p ∈ tiers, ∃ m ∈ p.2, m.id = id) ∨ ∃ d ∈ day, ∃ m ∈ d.memories, m.id = id)

namespace Mind

variable {tiers : ByTag (List Memory.Key)} {day : List Memory.Key}

/-- The identifiers of all that is saved. -/
def heldIds (tiers : ByTag (List Memory.Key)) (day : List Memory.Key) : List Uid :=
  savedIds tiers ++ day.map (·.1)

theorem holds_iff {b : Backend} (saved : b.SavedKeys tiers day) (id : Uid) :
    b.Holds id ↔ id ∈ heldIds tiers day := by
  have hsides : ∀ T d, ((∃ p ∈ T, ∃ m ∈ p.2, m.id = id) ∨
      ∃ d' ∈ d, ∃ m ∈ d'.memories, m.id = id) ↔
        id ∈ heldIds (Backend.keysByTag T) (PendingDay.keysOf d) := by
    intro T d
    simp only [heldIds, savedIds, Backend.keysByTag, PendingDay.keysOf, List.mem_append,
      List.flatMap_map, List.mem_flatMap, List.map_map, List.mem_map]
    refine or_congr (by rfl) ?_
    cases d with
    | none => simp
    | some d => simp [Memory.key]
  constructor
  · rintro ⟨T, d, hsaved, hin⟩
    obtain ⟨rfl, rfl⟩ := saved.unique ⟨T, d, hsaved, rfl, rfl⟩
    exact (hsides T d).mp hin
  · obtain ⟨T, d, hsaved, rfl, rfl⟩ := saved
    exact fun hin => ⟨T, d, hsaved, (hsides T d).mpr hin⟩

/-- A whole checkpoint holds everything that is live. -/
theorem mem_heldIds_of_live (s : Mind) (tiers : ByTag (List Memory.Key)) {m : Memory}
    (h : m ∈ s.live) :
    m.id ∈ heldIds (tiers.putAll s.tierKeys) (s.archive.pending.map Memory.key) := by
  rcases List.mem_append.mp h with hm | hm
  · apply List.mem_append_left
    obtain ⟨t, ht, hm⟩ := List.mem_flatMap.mp hm
    have hin : (t, (s.store.memories t).map Memory.key) ∈ s.tierKeys := List.mem_map_of_mem ht
    have hdistinct : (s.tierKeys.map Prod.fst).Nodup := by
      have hall : s.tierKeys.map Prod.fst = Tier.all := by simp [tierKeys, Function.comp_def]
      rw [hall]
      decide
    have hlookup := ByTag.lookup_putAll_of_mem hdistinct hin tiers
    obtain ⟨before, after, hsplit, _⟩ := List.lookup_eq_some_iff.mp hlookup
    refine List.mem_flatMap.mpr ⟨(t.name, (s.store.memories t).map Memory.key), ?_, ?_⟩
    · rw [hsplit]
      simp
    · rw [List.map_map]
      exact List.mem_map_of_mem hm
  · apply List.mem_append_right
    rw [List.map_map]
    exact List.mem_map_of_mem hm

/-- After a successful checkpoint everything that is live is saved. -/
theorem Sound.persist_holds {s : Mind} {n : Nat} (sound : Sound s tiers day)
    (h : s.persist.2 = .ok n) : ∀ m ∈ s.live, s.persist.1.backend.Holds m.id := by
  obtain ⟨c, htiers, hbatch, hpersist, hok⟩ := s.persist_cases
  have hresult := hok n h
  obtain ⟨count, day', hsaved, _, hall⟩ := sound.saveCheckpoint htiers hbatch
  have hback : s.persist.1.backend = (s.backend.saveCheckpoint c).1 := by
    rw [hpersist]
    rfl
  obtain ⟨hcount, rfl⟩ | ⟨⟨e, herror⟩, _⟩ := hall (.inr hresult)
  · rw [List.take_of_length_le hcount, ← hback] at hsaved
    intro m hm
    exact (holds_iff hsaved m.id).mpr (s.mem_heldIds_of_live tiers hm)
  · rw [herror] at hresult
    cases hresult

/-- Everything saved is live or in the log, and checkpoints are saved whole. -/
structure Recoverable (b₀ : Backend) (log : List ArchiveEntry) (s : Mind)
    (tiers : ByTag (List Memory.Key)) (day : List Memory.Key) : Prop where
  sound : Sound s tiers day
  whole : Backend.WholeCheckpoints s.backend.refused
  written : b₀.Extends log s.backend
  held : ∀ id ∈ heldIds tiers day, id ∈ s.live.map (·.id) ∨ id ∈ (archived log).map (·.id)

/-- The identifiers of what is saved or in the log. -/
def secured (log : List ArchiveEntry) (tiers : ByTag (List Memory.Key)) (day : List Memory.Key) :
    List Uid :=
  heldIds tiers day ++ (archived log).map (·.id)

/-- What is secured in one state is secured in the other. -/
def Secures (b₀ : Backend) (log : List ArchiveEntry) (tiers : ByTag (List Memory.Key))
    (day : List Memory.Key) (s' : Mind) : Prop :=
  ∃ later tiers' day', Recoverable b₀ (log ++ later) s' tiers' day' ∧
    secured log tiers day ⊆ secured (log ++ later) tiers' day'

variable {b₀ : Backend} {log : List ArchiveEntry}

/-- A memory that was live is live or written after a change. -/
theorem Change.live_or_archived {allowed : List String → Prop} {s s' : Mind} {new : List Memory}
    {later : List ArchiveEntry} (change : Change allowed s new later s') {id : Uid}
    (h : id ∈ s.live.map (·.id)) :
    id ∈ s'.live.map (·.id) ∨ id ∈ (archived later).map (·.id) := by
  have hids := Memory.ids_perm change.live_perm
  rw [List.map_append, List.map_append] at hids
  exact List.mem_append.mp (hids.symm.subset (List.mem_append_left _ h))

/-- What is saved after a change was saved or live before it. -/
theorem Saving.mem_heldIds {s : Mind} {later : List ArchiveEntry}
    {tiers' : ByTag (List Memory.Key)} {day' : List Memory.Key}
    (saving : Saving s later tiers day tiers' day') {id : Uid} (h : id ∈ heldIds tiers' day') :
    id ∈ heldIds tiers day ∨ id ∈ s.live.map (·.id) := by
  cases saving with
  | pruned =>
      left
      refine (List.mem_append.mp h).elim (List.mem_append_left _) fun hday => ?_
      obtain ⟨key, hkey, rfl⟩ := List.mem_map.mp hday
      exact List.mem_append_right _ (List.mem_map_of_mem (List.mem_of_mem_filter hkey))
  | checkpoint count nothing either whole =>
      rcases List.mem_append.mp h with htiers | hday
      · obtain ⟨p, hp, hid⟩ := List.mem_flatMap.mp htiers
        rcases ByTag.mem_putAll hp with hp | ⟨q, hq, rfl⟩
        · exact .inl (List.mem_append_left _ (List.mem_flatMap.mpr ⟨p, hp, hid⟩))
        · right
          obtain ⟨t, _, rfl⟩ := List.mem_map.mp (List.mem_of_mem_take hq)
          rw [List.map_map] at hid
          obtain ⟨m, hm, rfl⟩ := List.mem_map.mp hid
          exact List.mem_map_of_mem (mem_live_of_mem_memories hm)
      · rcases either with rfl | rfl
        · exact .inl (List.mem_append_right _ hday)
        · right
          rw [List.map_map] at hday
          obtain ⟨m, hm, rfl⟩ := List.mem_map.mp hday
          exact List.mem_map_of_mem (List.mem_append_right _ hm)

/-- What was saved is saved after a change that saves whole checkpoints, unless it was written or a
checkpoint of what is live has replaced it. -/
theorem Saving.kept {s : Mind} {later : List ArchiveEntry} {tiers' : ByTag (List Memory.Key)}
    {day' : List Memory.Key} (saving : Saving s later tiers day tiers' day')
    (whole : Backend.WholeCheckpoints s.backend.refused) {id : Uid}
    (h : id ∈ heldIds tiers day) :
    id ∈ heldIds tiers' day' ∨ id ∈ (archived later).map (·.id) ∨
      (∀ m ∈ s.live, m.id ∈ heldIds tiers' day') := by
  cases saving with
  | pruned =>
      rcases List.mem_append.mp h with htiers | hday
      · exact .inl (List.mem_append_left _ htiers)
      · obtain ⟨key, hkey, rfl⟩ := List.mem_map.mp hday
        by_cases hwritten : key.1 ∈ (archived later).map (·.id)
        · exact .inr (.inl hwritten)
        · left
          refine List.mem_append_right _ (List.mem_map_of_mem (List.mem_filter.mpr ⟨hkey, ?_⟩))
          simpa using hwritten
  | checkpoint count nothing either all =>
      obtain ⟨hcount, rfl⟩ | ⟨rfl, rfl⟩ := all whole
      · right
        right
        intro m hm
        rw [List.take_of_length_le hcount]
        exact s.mem_heldIds_of_live tiers hm
      · exact .inl h

theorem Recoverable.change {s s' : Mind} {new : List Memory} {later : List ArchiveEntry}
    (safe : Recoverable b₀ log s tiers day)
    (change : Change Backend.WholeCheckpoints s new later s') : Secures b₀ log tiers day s' := by
  obtain ⟨tiers', day', hsound, hsaving⟩ := safe.sound.change change
  have hlog : (archived (log ++ later)).map (·.id) =
      (archived log).map (·.id) ++ (archived later).map (·.id) := by
    rw [archived_append, List.map_append]
  have hmoved : ∀ id, id ∈ s.live.map (·.id) ∨ id ∈ (archived log).map (·.id) →
      id ∈ s'.live.map (·.id) ∨ id ∈ (archived (log ++ later)).map (·.id) := by
    intro id hid
    rw [hlog, List.mem_append]
    rcases hid with hid | hid
    · exact (change.live_or_archived hid).imp_right .inr
    · exact .inr (.inl hid)
  refine ⟨later, tiers', day', ⟨hsound, change.frame.refused safe.whole,
    safe.written.trans change.extends, ?_⟩, ?_⟩
  · intro id hid
    apply hmoved
    rcases hsaving.mem_heldIds hid with hid | hid
    · exact safe.held id hid
    · exact .inl hid
  · intro id hid
    rw [secured, hlog]
    simp only [secured, List.mem_append] at hid ⊢
    rcases hid with hid | hid
    · rcases hsaving.kept safe.whole hid with hid | hid | hall
      · exact .inl hid
      · exact .inr (.inr hid)
      · rcases safe.held id hid with hlive | hwritten
        · obtain ⟨m, hm, rfl⟩ := List.mem_map.mp hlive
          exact .inl (hall m hm)
        · exact .inr (.inl hwritten)
    · exact .inr (.inl hid)

theorem Secures.trans {s : Mind} (first : Secures b₀ log tiers day s) {s' : Mind}
    (next : ∀ log tiers day, Recoverable b₀ log s tiers day → Secures b₀ log tiers day s') :
    Secures b₀ log tiers day s' := by
  obtain ⟨later, tiers', day', safe, hsub⟩ := first
  obtain ⟨more, tiers'', day'', safe', hsub'⟩ := next _ tiers' day' safe
  rw [List.append_assoc] at safe' hsub'
  exact ⟨later ++ more, tiers'', day'', safe', List.Subset.trans hsub hsub'⟩

theorem Recoverable.refl {s : Mind} (safe : Recoverable b₀ log s tiers day) :
    Secures b₀ log tiers day s :=
  ⟨[], tiers, day, by simpa using safe, by simp⟩

theorem Recoverable.evolves {s s' : Mind} {new : List Memory} {later : List ArchiveEntry}
    (safe : Recoverable b₀ log s tiers day)
    (evolves : Evolves Backend.WholeCheckpoints s new later s') :
    Secures b₀ log tiers day s' := by
  induction evolves with
  | refl => exact safe.refl
  | tail prior last ih => exact ih.trans fun _ _ _ safe => safe.change last

/-- Taking up the checkpoint, in place or by a new mind, keeps what is secured. -/
theorem Recoverable.restored {s s' fresh : Mind} (safe : Recoverable b₀ log s tiers day)
    (sound : Sound fresh tiers day) (same : fresh.backend = s.backend)
    (restored : Restored fresh tiers day s') : Secures b₀ log tiers day s' := by
  have hbackend : s'.backend = s.backend := restored.backend.trans same
  refine ⟨[], tiers, day, ⟨restored.sound sound, ?_, ?_, ?_⟩, by simp⟩
  · rw [hbackend]
    exact safe.whole
  · rw [hbackend, List.append_nil]
    exact safe.written
  · intro id hid
    exact .inl (restored.mem_live sound hid)

/-- The histories of a mind: operations, checkpoints taken up at any time, and restarts. -/
inductive Onward (s : Mind) : Mind → Prop where
  | refl : Onward s s
  | step {s' s'' : Mind} {new : List Memory} (prior : Onward s s')
      (step : Step Backend.WholeCheckpoints s' new s'') : Onward s s''
  | restore {s' : Mind} (prior : Onward s s') : Onward s s'.restore.1
  | restart {s' s'' : Mind} (prior : Onward s s') (reopens : s'.Reopens s'') : Onward s s''

theorem Recoverable.onward {s s' : Mind} (safe : Recoverable b₀ log s tiers day)
    (onward : Onward s s') : Secures b₀ log tiers day s' := by
  induction onward with
  | refl => exact safe.refl
  | step prior step ih =>
      refine ih.trans fun _ _ _ safe => ?_
      obtain ⟨later, evolves⟩ := step.grows safe.sound.cache
      exact safe.evolves evolves
  | @restore s' prior ih =>
      refine ih.trans fun _ _ _ safe => ?_
      cases hrestore : s'.restore with
      | mk s'' result =>
          cases result with
          | error e =>
              have hsame : s'' = s' := by
                unfold restore at hrestore
                split at hrestore <;> cases hrestore
                rfl
              rw [hsame]
              exact safe.refl
          | ok n => exact safe.restored safe.sound rfl (safe.sound.restore hrestore)
  | restart prior reopens ih =>
      refine ih.trans fun _ _ _ safe => ?_
      obtain ⟨fresh, hfresh, _, hsame, hrestored⟩ := safe.sound.reopens reopens
      exact safe.restored hfresh hsame hrestored

/-- Over an unused backend an empty mind has nothing to lose. -/
theorem recoverable_start {config : Config} {backend : Backend} {source : Source} {fresh : Mind}
    (created : create config backend source = .ok fresh) (blank : backend.Blank)
    (whole : Backend.WholeCheckpoints backend.refused) (classifier : Classifier)
    (extractor : Extractor) :
    Recoverable backend [] { fresh with classifier, extractor } [] [] := by
  have hsound := sound_create created blank classifier extractor
  obtain rfl := create_eq_start created
  refine ⟨hsound, whole, .refl backend, ?_⟩
  simp [heldIds, savedIds]

/-- Whatever was ever part of a saved checkpoint is at any later time active, pending or in the
archive, through operations, failed writes, restores and restarts, where checkpoints are saved
whole. A successful checkpoint holds everything that is live, and a later mind can always be
started from one that can be read. -/
theorem saved_never_lost {config : Config} {backend : Backend} {source : Source} {fresh : Mind}
    (created : create config backend source = .ok fresh) (blank : backend.Blank)
    (whole : Backend.WholeCheckpoints backend.refused) (classifier : Classifier)
    (extractor : Extractor) {s₁ s₂ : Mind}
    (before : Onward { fresh with classifier, extractor } s₁) (after : Onward s₁ s₂) :
    (∀ n, s₁.persist.2 = .ok n → ∀ m ∈ s₁.live, s₁.persist.1.backend.Holds m.id) ∧
      (∃ log, backend.Extends log s₂.backend ∧ ∀ id, s₁.backend.Holds id →
        (∃ t, ∃ m ∈ s₂.store.memories t, m.id = id) ∨ (∃ m ∈ s₂.archive.pending, m.id = id) ∨
          ∃ m ∈ archived log, m.id = id) ∧
      ∀ snapshots day knowledge, s₂.backend.loadSnapshots = .ok snapshots →
        s₂.backend.loadPendingDay = .ok day → s₂.backend.loadKnowledge = .ok knowledge →
          ∃ s₃, s₂.Reopens s₃ := by
  have hstart := recoverable_start created blank whole classifier extractor
  obtain ⟨log, tiers, day, safe, _⟩ := hstart.onward before
  obtain ⟨later, tiers', day', safe', hkept⟩ := safe.onward after
  refine ⟨fun n => safe.sound.persist_holds, ⟨[] ++ log ++ later, safe'.written, ?_⟩, ?_⟩
  · intro id hid
    have hheld : id ∈ heldIds tiers day := (holds_iff safe.sound.saved id).mp hid
    have hplace : id ∈ s₂.live.map (·.id) ∨ id ∈ (archived ([] ++ log ++ later)).map (·.id) := by
      rcases List.mem_append.mp (hkept (List.mem_append_left _ hheld)) with hid | hid
      · exact safe'.held id hid
      · exact .inr hid
    simp only [live, active, List.map_append, List.mem_append, List.mem_map,
      List.mem_flatMap] at hplace
    rcases hplace with (⟨m, ⟨t, _, hm⟩, hid⟩ | hpending) | harchived
    · exact .inl ⟨t, m, hm, hid⟩
    · exact .inr (.inl hpending)
    · exact .inr (.inr harchived)
  · intro snapshots day knowledge hsnapshots hday hknowledge
    exact safe'.sound.exists_reopens hsnapshots hday hknowledge

/-- A memory is saved, another one is stored after that, and the first is there after a restart. -/
theorem saved_never_lost_sample :
    let s₀ := Sample.empty (.volatile .empty)
    let s₁ := Sample.process s₀ "alpha"
    let s₂ := Sample.process s₁.persist.1 "beta today"
    s₁.live.map (·.content) = ["alpha\nnoted"] ∧ ∃ s₃, s₂.Reopens s₃ ∧
      ∃ log, s₀.backend.Extends log s₃.backend ∧ ∀ m ∈ s₁.live,
        (∃ t, ∃ m' ∈ s₃.store.memories t, m'.id = m.id) ∨
          (∃ m' ∈ s₃.archive.pending, m'.id = m.id) ∨ ∃ m' ∈ archived log, m'.id = m.id := by
  intro s₀ s₁ s₂
  have created : create Sample.config (.ofStorage (.volatile .empty)) Sample.source = .ok s₀ := rfl
  have whole : Backend.WholeCheckpoints [] := .inr ⟨by simp, by simp⟩
  have first : Onward s₀ s₁ := .step .refl (.call (.process _ _))
  have second : Onward s₀ s₁.persist.1 := .step first (.call .persist)
  have third : Onward s₁.persist.1 s₂ := .step .refl (.call (.process _ _))
  have hcontents : s₁.live.map (·.content) = ["alpha\nnoted"] := by decide +kernel
  have hsaved : s₁.persist.2 = .ok 1 := by decide +kernel
  have hread : s₂.backend.loadSnapshots.isOk && s₂.backend.loadPendingDay.isOk &&
      s₂.backend.loadKnowledge.isOk := by decide +kernel
  have ok : ∀ {α : Type} (e : Except Error α), e.isOk → ∃ a, e = .ok a := by
    intro α e h
    cases e with
    | error e => cases h
    | ok a => exact ⟨a, rfl⟩
  clear_value s₂ s₁
  rw [Bool.and_eq_true, Bool.and_eq_true] at hread
  obtain ⟨snapshots, hsnapshots⟩ := ok _ hread.1.1
  obtain ⟨day, hday⟩ := ok _ hread.1.2
  obtain ⟨knowledge, hknowledge⟩ := ok _ hread.2
  have hholds := (saved_never_lost created (.inl rfl) whole _ _ first .refl).1 1 hsaved
  obtain ⟨s₃, hreopens⟩ := (saved_never_lost created (.inl rfl) whole _ _ second third).2.2
    snapshots day knowledge hsnapshots hday hknowledge
  obtain ⟨log, hlog, hall⟩ := (saved_never_lost created (.inl rfl) whole _ _ second
    (.restart third hreopens)).2.1
  exact ⟨hcontents, s₃, hreopens, log, hlog, fun m hm => hall m.id (hholds m hm)⟩

end Mind

end Engram
