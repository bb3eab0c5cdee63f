import Engram.Proofs.Recovery

/-! Double archiving across restarts. A write takes what it writes out of the saved day but leaves
the saved tiers alone, so a memory that was active at the last checkpoint and has been archived
since is active again after a restart. This is the only way for a memory to be archived twice. -/
namespace Engram.Mind

open scoped List

/-- How often an identifier stands in the entries of a log. -/
def timesArchived (log : List ArchiveEntry) (id : Uid) : Nat := ((archived log).map (·.id)).count id

/-- Lives of a mind: operations and restarts that take up the checkpoint. All that was stored is
collected, and for every restart the mind before it and the mind after it. -/
inductive Life (s : Mind) : List Memory → List (Mind × Mind) → Mind → Prop where
  | refl : Life s [] [] s
  | step {stored new : List Memory} {restarts : List (Mind × Mind)} {s' s'' : Mind}
      (prior : Life s stored restarts s') (step : Step (fun _ => True) s' new s'') :
      Life s (stored ++ new) restarts s''
  | restart {stored : List Memory} {restarts : List (Mind × Mind)} {s' s'' : Mind}
      (prior : Life s stored restarts s') (reopens : s'.Reopens s'') :
      Life s stored (restarts ++ [(s', s'')]) s''

/-- A restart has made a memory active that had been archived, but no more than `n` times. -/
def Revived (b₀ : Backend) (restarts : List (Mind × Mind)) (id : Uid) (n : Nat) : Prop :=
  ∃ r ∈ restarts, ∃ earlier, b₀.Extends earlier r.1.backend ∧ id ∈ r.2.active.map (·.id) ∧
    1 ≤ timesArchived earlier id ∧ timesArchived earlier id ≤ n

/-- Each key has the identifier and the tier of a stored memory. -/
def Named (stored : List Memory) (keys : List Memory.Key) : Prop :=
  ∀ key ∈ keys, ∃ m ∈ stored, m.id = key.1 ∧ m.tier = key.2.1

/-- Memories are told apart by their identifiers, wherever they are; and one that is live or saved as
pending after it was archived has been revived, as has one that was archived twice. -/
structure Traced (b₀ : Backend) (log : List ArchiveEntry) (stored : List Memory)
    (restarts : List (Mind × Mind)) (s : Mind) (tiers : ByTag (List Memory.Key))
    (day : List Memory.Key) : Prop where
  sound : Sound s tiers day
  written : b₀.Extends log s.backend
  liveNamed : Named stored (s.live.map Memory.key)
  liveDistinct : (s.live.map (·.id)).Nodup
  tiersNamed : ∀ p ∈ tiers, Named stored p.2
  tiersDistinct : ∀ p ∈ tiers, (p.2.map (·.1)).Nodup
  dayNamed : Named stored day
  dayDistinct : (day.map (·.1)).Nodup
  archivedNamed : (archived log).map (·.id) ⊆ stored.map (·.id)
  liveRevived : ∀ id ∈ s.live.map (·.id), 1 ≤ timesArchived log id →
    Revived b₀ restarts id (timesArchived log id)
  dayRevived : ∀ id ∈ day.map (·.1), 1 ≤ timesArchived log id →
    Revived b₀ restarts id (timesArchived log id)
  twiceRevived : ∀ id, 2 ≤ timesArchived log id →
    Revived b₀ restarts id (timesArchived log id - 1)

variable {b₀ : Backend} {log : List ArchiveEntry} {stored : List Memory}
  {restarts : List (Mind × Mind)} {tiers : ByTag (List Memory.Key)} {day : List Memory.Key}

theorem timesArchived_append (log later : List ArchiveEntry) (id : Uid) :
    timesArchived (log ++ later) id = timesArchived log id + timesArchived later id := by
  unfold timesArchived
  rw [archived_append, List.map_append, List.count_append]

theorem Named.mem {keys : List Memory.Key} (named : Named stored keys) {id : Uid}
    (h : id ∈ keys.map (·.1)) : id ∈ stored.map (·.id) := by
  obtain ⟨key, hkey, rfl⟩ := List.mem_map.mp h
  obtain ⟨m, hm, hid, _⟩ := named key hkey
  rw [← hid]
  exact List.mem_map_of_mem hm

theorem Named.append {keys : List Memory.Key} (named : Named stored keys) (new : List Memory) :
    Named (stored ++ new) keys := by
  intro key hkey
  obtain ⟨m, hm, h⟩ := named key hkey
  exact ⟨m, List.mem_append_left _ hm, h⟩

theorem Named.subset {keys keys' : List Memory.Key} (named : Named stored keys)
    (h : keys' ⊆ keys) : Named stored keys' :=
  fun key hkey => named key (h hkey)

/-- Where identifiers are distinct an identifier has one tier. -/
theorem tier_unique (distinct : (stored.map (·.id)).Nodup) {m n : Memory} (hm : m ∈ stored)
    (hn : n ∈ stored) (h : m.id = n.id) : m = n :=
  List.inj_on_of_nodup_map distinct hm hn h

theorem map_key_fst (memories : List Memory) :
    (memories.map Memory.key).map (·.1) = memories.map (·.id) := by
  rw [List.map_map]
  rfl

/-- After a change the live identifiers and those just written are distinct. -/
theorem Traced.distinct_change {s s' : Mind} {new : List Memory} {later : List ArchiveEntry}
    {allowed : List String → Prop} (traced : Traced b₀ log stored restarts s tiers day)
    (change : Change allowed s new later s') (distinct : ((stored ++ new).map (·.id)).Nodup) :
    (s'.live.map (·.id) ++ (archived later).map (·.id)).Nodup ∧
      s'.live.map (·.id) ++ (archived later).map (·.id) ~
        s.live.map (·.id) ++ new.map (·.id) := by
  have hperm := Memory.ids_perm change.live_perm
  rw [List.map_append, List.map_append] at hperm
  refine ⟨hperm.nodup_iff.mpr ?_, hperm⟩
  rw [List.map_append, List.nodup_append] at distinct
  refine List.nodup_append.mpr ⟨traced.liveDistinct, distinct.2.1, ?_⟩
  intro a ha b hb
  rw [← map_key_fst] at ha
  exact distinct.2.2 a (traced.liveNamed.mem ha) b hb

/-- A saved tier was saved before or is a tier as it is now. -/
theorem Saving.tiers_cases {s : Mind} {later : List ArchiveEntry}
    {tiers' : ByTag (List Memory.Key)} {day' : List Memory.Key}
    (saving : Saving s later tiers day tiers' day') {p : String × List Memory.Key}
    (h : p ∈ tiers') : p ∈ tiers ∨ ∃ t, p.2 = (s.store.memories t).map Memory.key := by
  cases saving with
  | pruned => exact .inl h
  | checkpoint count nothing either whole =>
      rcases ByTag.mem_putAll h with h | ⟨q, hq, rfl⟩
      · exact .inl h
      · obtain ⟨t, _, rfl⟩ := List.mem_map.mp (List.mem_of_mem_take hq)
        exact .inr ⟨t, rfl⟩

/-- The saved day is the one saved before without what was written, or the pending batch. -/
theorem Saving.day_cases {s : Mind} {later : List ArchiveEntry}
    {tiers' : ByTag (List Memory.Key)} {day' : List Memory.Key}
    (saving : Saving s later tiers day tiers' day') :
    day' = without ((archived later).map (·.id)) day ∨
      later = [] ∧ day' = s.archive.pending.map Memory.key := by
  cases saving with
  | pruned => exact .inl rfl
  | checkpoint count nothing either whole =>
      rcases either with h | h
      · left
        rw [h, nothing]
        simp [without, archived]
      · exact .inr ⟨nothing, h⟩

theorem without_sublist (ids : List Uid) (keys : List Memory.Key) :
    (without ids keys).Sublist keys := List.filter_sublist

theorem mem_without {ids : List Uid} {keys : List Memory.Key} {id : Uid}
    (h : id ∈ (without ids keys).map (·.1)) : id ∈ keys.map (·.1) ∧ id ∉ ids := by
  obtain ⟨key, hkey, rfl⟩ := List.mem_map.mp h
  obtain ⟨hin, hout⟩ := List.mem_filter.mp hkey
  refine ⟨List.mem_map_of_mem hin, ?_⟩
  simpa using hout

theorem memories_sublist_live (s : Mind) (t : Tier) : (s.store.memories t).Sublist s.live := by
  apply List.sublist_append_of_sublist_left
  rw [active, List.flatMap_def]
  exact List.sublist_flatten_of_mem (List.mem_map_of_mem t.mem_all)

/-- What was stored in one step has not been archived before it. -/
theorem Traced.timesArchived_new {s : Mind} {new : List Memory}
    (traced : Traced b₀ log stored restarts s tiers day)
    (distinct : ((stored ++ new).map (·.id)).Nodup) {id : Uid} (h : id ∈ new.map (·.id)) :
    timesArchived log id = 0 := by
  rw [List.map_append, List.nodup_append] at distinct
  refine List.count_eq_zero.mpr ?_
  intro harchived
  exact distinct.2.2 id (traced.archivedNamed harchived) id h rfl

theorem Traced.liveNamed_change {s s' : Mind} {new : List Memory} {later : List ArchiveEntry}
    {allowed : List String → Prop} (traced : Traced b₀ log stored restarts s tiers day)
    (change : Change allowed s new later s') :
    Named (stored ++ new) (s'.live.map Memory.key) := by
  intro key hkey
  obtain ⟨m, hm, rfl⟩ := List.mem_map.mp hkey
  have hfixed : m.fixed ∈ (s'.live ++ archived later).map Memory.fixed :=
    List.mem_map_of_mem (List.mem_append_left _ hm)
  obtain ⟨old, hold, hsame⟩ := List.mem_map.mp (change.live_perm.subset hfixed)
  have hid : old.id = m.id := by rw [← Memory.fixed_id old, hsame, Memory.fixed_id]
  have htier : old.tier = m.tier := by rw [← Memory.fixed_tier old, hsame, Memory.fixed_tier]
  rcases List.mem_append.mp hold with hold | hold
  · obtain ⟨made, hmade, hmadeId, hmadeTier⟩ :=
      traced.liveNamed old.key (List.mem_map_of_mem hold)
    exact ⟨made, List.mem_append_left _ hmade, hmadeId.trans hid, hmadeTier.trans htier⟩
  · exact ⟨old, List.mem_append_right _ hold, hid, htier⟩

theorem Traced.archivedNamed_change {s s' : Mind} {new : List Memory}
    {later : List ArchiveEntry} {allowed : List String → Prop}
    (traced : Traced b₀ log stored restarts s tiers day)
    (change : Change allowed s new later s') (distinct : ((stored ++ new).map (·.id)).Nodup) :
    (archived (log ++ later)).map (·.id) ⊆ (stored ++ new).map (·.id) := by
  obtain ⟨_, hperm⟩ := traced.distinct_change change distinct
  intro id hid
  rw [archived_append, List.map_append, List.mem_append] at hid
  rw [List.map_append]
  rcases hid with hid | hid
  · exact List.mem_append_left _ (traced.archivedNamed hid)
  · rcases List.mem_append.mp (hperm.subset (List.mem_append_right _ hid)) with hid | hid
    · rw [← map_key_fst] at hid
      exact List.mem_append_left _ (traced.liveNamed.mem hid)
    · exact List.mem_append_right _ hid

/-- A change keeps the account of what was archived how often. -/
theorem Traced.change {s s' : Mind} {new : List Memory} {later : List ArchiveEntry}
    {allowed : List String → Prop} (traced : Traced b₀ log stored restarts s tiers day)
    (change : Change allowed s new later s') (distinct : ((stored ++ new).map (·.id)).Nodup) :
    ∃ tiers' day', Traced b₀ (log ++ later) (stored ++ new) restarts s' tiers' day' := by
  obtain ⟨tiers', day', hsound, hsaving⟩ := traced.sound.change change
  obtain ⟨hdistinct, hperm⟩ := traced.distinct_change change distinct
  obtain ⟨hlive, hwritten, hapart⟩ := List.nodup_append.mp hdistinct
  have hpending : (s.archive.pending.map Memory.key) ⊆ s.live.map Memory.key := by
    rw [live, List.map_append]
    exact List.subset_append_right _ _
  have honce : ∀ id, timesArchived later id ≤ 1 := fun id => List.nodup_iff_count_le_one.mp hwritten id
  -- An identifier that is live and not stored just now was live before.
  have hbefore : ∀ id, id ∈ s'.live.map (·.id) ++ (archived later).map (·.id) →
      1 ≤ timesArchived log id → id ∈ s.live.map (·.id) := by
    intro id hid htimes
    rcases List.mem_append.mp (hperm.subset hid) with hid | hid
    · exact hid
    · have hnever := traced.timesArchived_new distinct hid
      omega
  refine ⟨tiers', day', hsound, traced.written.trans change.extends,
    traced.liveNamed_change change, hlive, ?_, ?_, ?_, ?_,
    traced.archivedNamed_change change distinct, ?_, ?_, ?_⟩
  · intro p hp
    rcases hsaving.tiers_cases hp with hp | ⟨t, ht⟩
    · exact (traced.tiersNamed p hp).append new
    · rw [ht]
      exact (traced.liveNamed.subset ((s.memories_sublist_live t).map _).subset).append new
  · intro p hp
    rcases hsaving.tiers_cases hp with hp | ⟨t, ht⟩
    · exact traced.tiersDistinct p hp
    · rw [ht, map_key_fst]
      exact traced.liveDistinct.sublist ((s.memories_sublist_live t).map _)
  · rcases hsaving.day_cases with rfl | ⟨_, rfl⟩
    · exact (traced.dayNamed.subset (without_sublist _ _).subset).append new
    · exact (traced.liveNamed.subset hpending).append new
  · rcases hsaving.day_cases with rfl | ⟨_, rfl⟩
    · exact traced.dayDistinct.sublist ((without_sublist _ _).map _)
    · rw [map_key_fst]
      exact traced.liveDistinct.sublist ((List.sublist_append_right _ _).map _)
  · intro id hid htimes
    have hout : timesArchived later id = 0 :=
      List.count_eq_zero.mpr fun hin => hapart id hid id hin rfl
    rw [timesArchived_append, hout, Nat.add_zero] at htimes ⊢
    exact traced.liveRevived id (hbefore id (List.mem_append_left _ hid) htimes) htimes
  · intro id hid htimes
    rcases hsaving.day_cases with rfl | ⟨rfl, rfl⟩
    · obtain ⟨hin, hout⟩ := mem_without hid
      have hnone : timesArchived later id = 0 := List.count_eq_zero.mpr hout
      rw [timesArchived_append, hnone, Nat.add_zero] at htimes ⊢
      exact traced.dayRevived id hin htimes
    · rw [List.append_nil] at htimes ⊢
      refine traced.liveRevived id ?_ htimes
      rw [map_key_fst] at hid
      exact ((List.sublist_append_right _ _).map _).subset hid
  · intro id htimes
    rw [timesArchived_append] at htimes ⊢
    have hle := honce id
    by_cases hout : timesArchived later id = 0
    · rw [hout, Nat.add_zero] at htimes ⊢
      exact traced.twiceRevived id htimes
    · have hin : id ∈ (archived later).map (·.id) :=
        List.count_pos_iff.mp (Nat.pos_of_ne_zero hout)
      have hold : id ∈ s.live.map (·.id) :=
        hbefore id (List.mem_append_right _ hin) (by omega)
      have hrevived := traced.liveRevived id hold (by omega)
      have hsame : timesArchived log id + timesArchived later id - 1 = timesArchived log id := by
        omega
      rw [hsame]
      exact hrevived

theorem Traced.evolves {s s' : Mind} {new : List Memory} {later : List ArchiveEntry}
    {allowed : List String → Prop} (traced : Traced b₀ log stored restarts s tiers day)
    (evolves : Evolves allowed s new later s') (distinct : ((stored ++ new).map (·.id)).Nodup) :
    ∃ tiers' day', Traced b₀ (log ++ later) (stored ++ new) restarts s' tiers' day' := by
  induction evolves with
  | refl => exact ⟨tiers, day, by simpa using traced⟩
  | tail prior last ih =>
      rw [← List.append_assoc] at distinct ⊢
      rw [List.map_append] at distinct
      obtain ⟨tiers', day', htraced⟩ := ih (List.nodup_append.mp distinct).1
      rw [← List.append_assoc]
      exact htraced.change last (by rw [List.map_append]; exact distinct)

/-- An operation keeps the account. -/
theorem Traced.grows {s s' : Mind} {new : List Memory} {allowed : List String → Prop}
    (traced : Traced b₀ log stored restarts s tiers day) (grows : Grows allowed s new s')
    (distinct : ((stored ++ new).map (·.id)).Nodup) :
    ∃ later tiers' day', Traced b₀ (log ++ later) (stored ++ new) restarts s' tiers' day' := by
  obtain ⟨later, evolves⟩ := grows traced.sound.cache
  obtain ⟨tiers', day', traced'⟩ := traced.evolves evolves distinct
  exact ⟨later, tiers', day', traced'⟩

/-- Nothing stands in two of the saved tiers. -/
theorem Traced.saved_apart {s : Mind} (traced : Traced b₀ log stored restarts s tiers day)
    (distinct : (stored.map (·.id)).Nodup) {t u : Tier} {keys others : List Memory.Key}
    (hkeys : (t.name, keys) ∈ tiers) (hothers : (u.name, others) ∈ tiers) {id : Uid}
    (hid : id ∈ keys.map (·.1)) (hid' : id ∈ others.map (·.1)) : t = u := by
  obtain ⟨key, hkey, rfl⟩ := List.mem_map.mp hid
  obtain ⟨key', hkey', hsame⟩ := List.mem_map.mp hid'
  obtain ⟨m, hm, hmid, hmtier⟩ := traced.tiersNamed _ hkeys key hkey
  obtain ⟨n, hn, hnid, hntier⟩ := traced.tiersNamed _ hothers key' hkey'
  obtain rfl : m = n := tier_unique distinct hm hn (by rw [hmid, hnid, hsame])
  obtain ⟨t', ht', htagged⟩ := traced.sound.tagged _ hkeys
  obtain ⟨u', hu', hutagged⟩ := traced.sound.tagged _ hothers
  rw [Tier.name_injective ht', Tier.name_injective hu', ← (htagged key hkey).1,
    ← (hutagged key' hkey').1, ← hmtier, ← hntier]

theorem lookup_eq_some_mem {t : Tier} {keys : List Memory.Key}
    (h : tiers.lookup t.name = some keys) : (t.name, keys) ∈ tiers := by
  obtain ⟨before, after, hsplit, _⟩ := List.lookup_eq_some_iff.mp h
  rw [hsplit]
  simp

/-- What an empty mind takes up: the saved tiers, and the saved day without what is in them. -/
theorem Restored.of_empty {fresh s' : Mind} (restored : Restored fresh tiers day s')
    (empty : fresh.live = []) :
    (∀ t : Tier, (s'.store.memories t).map Memory.key = (tiers.lookup t.name).getD []) ∧
      s'.archive.pending.map Memory.key = without (savedIds tiers) day := by
  have hpending : fresh.archive.pending = [] := (List.append_eq_nil_iff.mp empty).2
  have hmemories : ∀ t, fresh.store.memories t = [] := by
    intro t
    exact List.sublist_nil.mp (empty ▸ fresh.memories_sublist_live t)
  refine ⟨fun t => ?_, ?_⟩
  · rw [restored.memories, hmemories]
    rfl
  · rw [restored.pending, hpending]
    simp [without]

theorem map_id_active (s : Mind) :
    s.active.map (·.id) = Tier.all.flatMap fun t => ((s.store.memories t).map Memory.key).map (·.1) := by
  simp only [active, List.map_flatMap, map_key_fst]

/-- What is active after a restart was in a saved tier. -/
theorem Restored.active_saved {fresh s' : Mind} (restored : Restored fresh tiers day s')
    (empty : fresh.live = []) : s'.active.map (·.id) ⊆ savedIds tiers := by
  obtain ⟨hmemories, _⟩ := restored.of_empty empty
  intro id hid
  rw [map_id_active] at hid
  obtain ⟨t, _, hid⟩ := List.mem_flatMap.mp hid
  rw [hmemories] at hid
  cases hlookup : tiers.lookup t.name with
  | none => simp [hlookup] at hid
  | some keys =>
      rw [hlookup] at hid
      exact List.mem_flatMap.mpr ⟨_, lookup_eq_some_mem hlookup, hid⟩

/-- The identifiers that are live after a restart are distinct. -/
theorem Traced.distinct_restored {s fresh s' : Mind}
    (traced : Traced b₀ log stored restarts s tiers day)
    (distinct : (stored.map (·.id)).Nodup) (empty : fresh.live = [])
    (restored : Restored fresh tiers day s') : (s'.live.map (·.id)).Nodup := by
  obtain ⟨hmemories, hpending⟩ := restored.of_empty empty
  rw [live, List.map_append]
  refine List.nodup_append.mpr ⟨?_, ?_, ?_⟩
  · rw [map_id_active]
    refine List.nodup_flatMap.mpr ⟨?_, ?_⟩
    · intro t _
      rw [hmemories]
      cases hlookup : tiers.lookup t.name with
      | none => exact List.nodup_nil
      | some keys => exact traced.tiersDistinct _ (lookup_eq_some_mem hlookup)
    · have hall : Tier.all.Pairwise (· ≠ ·) := by decide
      refine hall.imp ?_
      intro t u hne id ht hu
      simp only [hmemories] at ht hu
      cases hlookup : tiers.lookup t.name with
      | none => simp [hlookup] at ht
      | some keys =>
          cases hlookup' : tiers.lookup u.name with
          | none => simp [hlookup'] at hu
          | some others =>
              rw [hlookup] at ht
              rw [hlookup'] at hu
              exact hne (traced.saved_apart distinct (lookup_eq_some_mem hlookup)
                (lookup_eq_some_mem hlookup') ht hu)
  · rw [← map_key_fst, hpending]
    exact traced.dayDistinct.sublist ((without_sublist _ _).map _)
  · intro a ha b hb hab
    rw [← map_key_fst, hpending] at hb
    exact (mem_without hb).2 (hab ▸ restored.active_saved empty ha)

theorem Revived.mono {id : Uid} {n : Nat} (revived : Revived b₀ restarts id n)
    (more : List (Mind × Mind)) : Revived b₀ (restarts ++ more) id n := by
  obtain ⟨r, hr, h⟩ := revived
  exact ⟨r, List.mem_append_left _ hr, h⟩

/-- A restart keeps the account: whatever it makes active is revived, and whatever it makes pending
was pending at the last checkpoint and has not been written since. -/
theorem Traced.restart {s s' : Mind} (traced : Traced b₀ log stored restarts s tiers day)
    (distinct : (stored.map (·.id)).Nodup) (reopens : s.Reopens s') :
    Traced b₀ log stored (restarts ++ [(s, s')]) s' tiers day := by
  obtain ⟨fresh, hfresh, hempty, hbackend, hrestored⟩ := traced.sound.reopens reopens
  obtain ⟨hmemories, hpending⟩ := hrestored.of_empty hempty
  refine ⟨hrestored.sound hfresh, ?_, ?_, traced.distinct_restored distinct hempty hrestored,
    traced.tiersNamed, traced.tiersDistinct, traced.dayNamed, traced.dayDistinct,
    traced.archivedNamed, ?_, ?_, ?_⟩
  · rw [hrestored.backend, hbackend]
    exact traced.written
  · intro key hkey
    rw [live, List.map_append, List.mem_append] at hkey
    rcases hkey with hkey | hkey
    · obtain ⟨m, hm, rfl⟩ := List.mem_map.mp hkey
      obtain ⟨t, _, hm⟩ := List.mem_flatMap.mp hm
      have hin : m.key ∈ (s'.store.memories t).map Memory.key := List.mem_map_of_mem hm
      rw [hmemories] at hin
      cases hlookup : tiers.lookup t.name with
      | none => simp [hlookup] at hin
      | some keys =>
          rw [hlookup] at hin
          exact traced.tiersNamed _ (lookup_eq_some_mem hlookup) m.key hin
    · rw [hpending] at hkey
      exact traced.dayNamed key ((without_sublist _ _).subset hkey)
  · intro id hid htimes
    rw [live, List.map_append, List.mem_append] at hid
    rcases hid with hid | hid
    · exact ⟨(s, s'), List.mem_append_right _ (List.mem_singleton.mpr rfl), log, traced.written, hid,
        htimes, Nat.le_refl _⟩
    · rw [← map_key_fst, hpending] at hid
      exact (traced.dayRevived id (mem_without hid).1 htimes).mono _
  · intro id hid htimes
    exact (traced.dayRevived id hid htimes).mono _
  · intro id htimes
    exact (traced.twiceRevived id htimes).mono _

theorem Life.traced {s s' : Mind} (life : Life s stored restarts s')
    (start : Traced b₀ [] [] [] s [] []) (distinct : (stored.map (·.id)).Nodup) :
    ∃ log tiers day, Traced b₀ log stored restarts s' tiers day := by
  induction life with
  | refl => exact ⟨[], [], [], start⟩
  | step prior step ih =>
      obtain ⟨log, tiers, day, traced⟩ :=
        ih (distinct.sublist ((List.sublist_append_left _ _).map _))
      obtain ⟨later, tiers', day', traced'⟩ := traced.grows step.grows distinct
      exact ⟨log ++ later, tiers', day', traced'⟩
  | restart prior reopens ih =>
      obtain ⟨log, tiers, day, traced⟩ := ih distinct
      exact ⟨log, tiers, day, traced.restart distinct reopens⟩

/-- Over restarts that take up the checkpoint, a memory is archived twice exactly if it was archived,
made active again by a restart that found it in a saved tier, and archived once more after that. In
particular the saved day is never the reason. -/
theorem archived_twice_iff_revived {config : Config} {backend : Backend} {source : Source}
    {fresh : Mind} (created : create config backend source = .ok fresh) (blank : backend.Blank)
    (classifier : Classifier) (extractor : Extractor) {stored : List Memory}
    {restarts : List (Mind × Mind)} {s : Mind}
    (life : Life { fresh with classifier, extractor } stored restarts s)
    (distinct : (stored.map (·.id)).Nodup) :
    ∃ log, backend.Extends log s.backend ∧ ∀ id, 2 ≤ timesArchived log id ↔
      ∃ r ∈ restarts, ∃ earlier, backend.Extends earlier r.1.backend ∧
        id ∈ r.2.active.map (·.id) ∧ 1 ≤ timesArchived earlier id ∧
          timesArchived earlier id < timesArchived log id := by
  have hstart : Traced backend [] [] [] { fresh with classifier, extractor } [] [] := by
    have hsound := sound_create created blank classifier extractor
    obtain rfl := create_eq_start created
    refine ⟨hsound, .refl backend, ?_, ?_, ?_, ?_, ?_, ?_, ?_, ?_, ?_, ?_⟩ <;>
      simp [live_start, Named, archived, timesArchived]
  obtain ⟨log, tiers, day, traced⟩ := life.traced hstart distinct
  refine ⟨log, traced.written, fun id => ⟨fun htimes => ?_, ?_⟩⟩
  · obtain ⟨r, hr, earlier, hearlier, hactive, hone, hle⟩ := traced.twiceRevived id htimes
    exact ⟨r, hr, earlier, hearlier, hactive, hone, by omega⟩
  · rintro ⟨r, hr, earlier, _, _, hone, hlt⟩
    omega

/-- How often a memory is archived among values. -/
def Sample.timesIn (storage : Storage) (id : Uid) : Nat :=
  match storage with
  | .volatile a => timesArchived a.entries id
  | .durable _ => 0

/-- A memory is saved in its tier, is archived, is active again after a restart, and is archived a
second time. -/
theorem archived_twice_iff_revived_sample :
    let s₀ := Sample.empty (.volatile .empty)
    let s₁ := Sample.process s₀ "alpha" 0.1
    let s₂ := Sample.process (Sample.process s₁.persist.1 "beta") "gamma"
    ∃ s₃, s₂.Reopens s₃ ∧
      let s₄ := Sample.process (Sample.process s₃ "delta") "epsilon"
      ∃ log earlier, s₀.backend.Extends log s₄.backend ∧ s₀.backend.Extends earlier s₂.backend ∧
        ∃ id, id ∈ s₃.active.map (·.id) ∧ 1 ≤ timesArchived earlier id ∧
          2 ≤ timesArchived log id := by
  intro s₀ s₁ s₂
  let t₁ := Sample.next s₀ "alpha" 0.1
  let β := Sample.next t₁.persist.1 "beta"
  let t₂ := Sample.next β "gamma"
  let t₃ := t₂.emptied.restore.1
  let δ := Sample.next t₃ "delta"
  let t₄ := Sample.next δ "epsilon"
  -- One evaluation for all, since each of these facts takes the run up to its state.
  obtain ⟨n₁, nβ, n₂, hvalid, hloaded, nδ, n₄, distinct, htwice⟩ :
      Sample.isNarrow s₀ "alpha" 0.1 ∧ Sample.isNarrow t₁.persist.1 "beta" ∧
      Sample.isNarrow β "gamma" ∧ t₂.config.validate = .ok () ∧ t₂.emptied.restore.2 = .ok 1 ∧
      Sample.isNarrow t₃ "delta" ∧ Sample.isNarrow δ "epsilon" ∧
      ((Sample.made s₀ "alpha" 0.1 ++ [] ++ Sample.made t₁.persist.1 "beta" ++
        Sample.made β "gamma" ++ Sample.made t₃ "delta" ++ Sample.made δ "epsilon").map
          fun m : Memory => m.id).Nodup ∧
      Sample.timesIn t₄.backend.storage (Sample.source.ids 0) = 2 := by decide +kernel
  have h₁ : Sample.process s₀ "alpha" 0.1 = t₁ := Sample.process_eq_next n₁
  have hβ : Sample.process t₁.persist.1 "beta" = β := Sample.process_eq_next nβ
  have h₂ : Sample.process β "gamma" = t₂ := Sample.process_eq_next n₂
  have hδ : Sample.process t₃ "delta" = δ := Sample.process_eq_next nδ
  have h₄ : Sample.process δ "epsilon" = t₄ := Sample.process_eq_next n₄
  have reopens : t₂.Reopens t₃ := reopens_restore hvalid hloaded
  have created : create Sample.config (.ofStorage (.volatile .empty)) Sample.source = .ok s₀ := rfl
  have hs₂ : s₂ = t₂ := by
    simp only [s₂, s₁, h₁, hβ, h₂]
  clear_value t₄ δ t₃ t₂ β t₁ s₂
  have life : Life s₀ (Sample.made s₀ "alpha" 0.1 ++ [] ++ Sample.made t₁.persist.1 "beta" ++
      Sample.made β "gamma" ++ Sample.made t₃ "delta" ++ Sample.made δ "epsilon") [(t₂, t₃)] t₄ := by
    have process : ∀ {stored : List Memory} {restarts : List (Mind × Mind)} {s s' : Mind}
        {text : String} {importance : Float}, Life s₀ stored restarts s →
        Sample.process s text importance = s' →
        Life s₀ (stored ++ Sample.made s text importance) restarts s' := by
      intro stored restarts s s' text importance prior h
      rw [← h]
      exact prior.step (.call (.process _ _))
    have saved := (process .refl h₁).step (.call .persist)
    exact process (process ((process (process saved hβ) h₂).restart reopens) hδ) h₄
  obtain ⟨log, hlog, hall⟩ := archived_twice_iff_revived created (.inl rfl) _ _ life distinct
  have htimes : timesArchived log (Sample.source.ids 0) = 2 := by
    unfold Backend.Extends at hlog
    cases hstorage : t₄.backend.storage with
    | durable a => simp [hstorage, Backend.ofStorage] at hlog
    | volatile a =>
        simp only [hstorage, Backend.ofStorage, Sample.timesIn] at hlog htwice
        rw [hlog] at htwice
        exact htwice
  obtain ⟨r, hr, earlier, hearlier, hactive, hone, _⟩ := (hall _).mp (Nat.le_of_eq htimes.symm)
  obtain rfl := List.mem_singleton.mp hr
  rw [hs₂]
  refine ⟨t₃, reopens, log, earlier, ?_, hearlier, _, hactive, hone, Nat.le_of_eq htimes.symm⟩
  rw [hδ, h₄]
  exact hlog

end Engram.Mind
