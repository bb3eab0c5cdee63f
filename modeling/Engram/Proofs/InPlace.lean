import Engram.Proofs.Restart

/-! A checkpoint that is taken up in place, by the mind that saved it. The saved tiers replace the
present ones while the pending batch stays, so a memory that was demoted after the checkpoint is
active again and still pending. This is the only way for a memory to be in both places: of the saved
day nothing becomes pending that is active. -/
namespace Engram

theorem ByTag.lookup_ne_none_putAll {α : Type} (tiers : List (Tier × α)) {m : ByTag α} {tag : String}
    (h : m.lookup tag ≠ none) : (m.putAll tiers).lookup tag ≠ none := by
  induction tiers generalizing m with
  | nil => exact h
  | cons p tiers ih =>
      refine ih ?_
      rw [lookup_put]
      split
      · exact Option.some_ne_none _
      · exact h

namespace Mind

variable {allowed : List String → Prop} {b₀ : Backend} {log : List ArchiveEntry}
  {stored : List Memory} {restarts : List (Mind × Mind)} {tiers : ByTag (List Memory.Key)}
  {day : List Memory.Key}

theorem map_id_eq_of_fixed {s s' : Store} {t : Tier} (h : s'.fixed t = s.fixed t) :
    (s'.memories t).map (·.id) = (s.memories t).map (·.id) := by
  rw [← Memory.map_id_fixed, ← Memory.map_id_fixed (s.memories t)]
  exact congrArg _ h

/-- A memory leaves its tier only for the pending batch. -/
theorem Change.memories_or_pending {s s' : Mind} {new : List Memory} {later : List ArchiveEntry}
    (change : Change allowed s new later s') {t : Tier} {id : Uid}
    (h : id ∈ (s.store.memories t).map (·.id)) :
    id ∈ (s'.store.memories t).map (·.id) ∨ id ∈ s'.archive.pending.map (·.id) := by
  cases change with
  | rest quiet =>
      rw [map_id_eq_of_fixed (quiet.store t)]
      exact .inl h
  | stored m frame width store pending backend =>
      rw [map_id_eq_of_fixed (store t), Store.memories_add]
      left
      split
      · rw [List.map_append]
        exact List.mem_append_left _ h
      · exact h
  | demoted u moved frame tier others pending backend =>
      by_cases hu : t = u
      · subst hu
        have hperm := Memory.ids_perm (List.map_append ▸ tier :
          ((s'.store.memories t ++ moved).map Memory.fixed).Perm _)
        rw [pending, List.map_append]
        rw [List.map_append] at hperm
        rcases List.mem_append.mp (hperm.mem_iff.mpr h) with hkept | hmoved
        · exact .inl hkept
        · exact .inr (List.mem_append_right _ hmoved)
      · rw [map_id_eq_of_fixed (others t hu)]
        exact .inl h
  | sealed entry frame batch store pending backend =>
      rw [map_id_eq_of_fixed (store t)]
      exact .inl h
  | saved c frame hc batch store pending backend =>
      rw [map_id_eq_of_fixed (store t)]
      exact .inl h

/-- A memory leaves the pending batch only for the archive. -/
theorem Change.pending_or_archived {s s' : Mind} {new : List Memory} {later : List ArchiveEntry}
    (change : Change allowed s new later s') {id : Uid}
    (h : id ∈ s.archive.pending.map (·.id)) :
    id ∈ s'.archive.pending.map (·.id) ∨ id ∈ (archived later).map (·.id) := by
  cases change with
  | rest quiet => exact .inl (quiet.pending ▸ h)
  | stored m frame width store pending backend => exact .inl (pending ▸ h)
  | demoted u moved frame tier others pending backend =>
      rw [pending, List.map_append]
      exact .inl (List.mem_append_left _ h)
  | sealed entry frame batch store pending backend =>
      right
      simpa [archived, batch] using h
  | saved c frame hc batch store pending backend => exact .inl (pending ▸ h)

/-- What is saved as pending is pending, or it is active in a tier of which there is a snapshot. -/
def Covered (s : Mind) (tiers : ByTag (List Memory.Key)) (day : List Memory.Key) : Prop :=
  ∀ id ∈ day.map (·.1), id ∈ s.archive.pending.map (·.id) ∨
    ∃ t : Tier, tiers.lookup t.name ≠ none ∧ id ∈ (s.store.memories t).map (·.id)

theorem Saving.lookup_ne_none {s : Mind} {later : List ArchiveEntry}
    {tiers' : ByTag (List Memory.Key)} {day' : List Memory.Key}
    (saving : Saving s later tiers day tiers' day') {tag : String} (h : tiers.lookup tag ≠ none) :
    tiers'.lookup tag ≠ none := by
  cases saving with
  | pruned => exact h
  | checkpoint count nothing either whole => exact ByTag.lookup_ne_none_putAll _ h

theorem Covered.change {s s' : Mind} {new : List Memory} {later : List ArchiveEntry}
    (covered : Covered s tiers day) (change : Change allowed s new later s')
    {tiers' : ByTag (List Memory.Key)} {day' : List Memory.Key}
    (saving : Saving s later tiers day tiers' day') : Covered s' tiers' day' := by
  intro id hid
  rcases saving.day_cases with rfl | ⟨rfl, rfl⟩
  · obtain ⟨hday, hout⟩ := mem_without hid
    rcases covered id hday with hpending | ⟨t, htag, hin⟩
    · exact .inl ((change.pending_or_archived hpending).resolve_right hout)
    · rcases change.memories_or_pending hin with hin | hpending
      · exact .inr ⟨t, saving.lookup_ne_none htag, hin⟩
      · exact .inl hpending
  · rw [map_key_fst] at hid
    exact .inl ((change.pending_or_archived hid).resolve_right (by simp [archived]))

/-- What is in the saved tiers can be looked up under the name of a tier. -/
theorem Sound.lookup_saved {s : Mind} (sound : Sound s tiers day) {id : Uid}
    (h : id ∈ savedIds tiers) :
    ∃ (t : Tier) (keys : List Memory.Key), tiers.lookup t.name = some keys ∧
      id ∈ keys.map (·.1) := by
  obtain ⟨p, hp, hin⟩ := List.mem_flatMap.mp h
  obtain ⟨t, ht, _⟩ := sound.tagged p hp
  refine ⟨t, p.2, ?_, hin⟩
  rw [← ht]
  exact sound.ordered.lookup_eq_some hp

/-- A restart makes active what is in a saved tier, and the rest of the saved day pending. -/
theorem Covered.reopens {s s' : Mind} (sound : Sound s tiers day) (reopens : s.Reopens s') :
    Covered s' tiers day := by
  obtain ⟨fresh, _, hempty, _, hrestored⟩ := sound.reopens reopens
  obtain ⟨hmemories, hpending⟩ := hrestored.of_empty hempty
  intro id hid
  by_cases hsaved : id ∈ savedIds tiers
  · right
    obtain ⟨t, keys, hlookup, hin⟩ := sound.lookup_saved hsaved
    refine ⟨t, by rw [hlookup]; exact Option.some_ne_none _, ?_⟩
    rw [← map_key_fst, hmemories, hlookup]
    exact hin
  · left
    obtain ⟨key, hkey, rfl⟩ := List.mem_map.mp hid
    rw [← map_key_fst, hpending]
    refine List.mem_map_of_mem (List.mem_filter.mpr ⟨hkey, ?_⟩)
    simpa using hsaved

theorem Covered.evolves {s s' : Mind} {new : List Memory} {later : List ArchiveEntry}
    (sound : Sound s tiers day) (covered : Covered s tiers day)
    (evolves : Evolves allowed s new later s') :
    ∃ tiers' day', Sound s' tiers' day' ∧ Covered s' tiers' day' := by
  induction evolves with
  | refl => exact ⟨tiers, day, sound, covered⟩
  | tail prior last ih =>
      obtain ⟨tiers', day', hsound, hcovered⟩ := ih
      obtain ⟨tiers'', day'', hsound', hsaving⟩ := hsound.change last
      exact ⟨tiers'', day'', hsound', hcovered.change last hsaving⟩

theorem Life.covered {s s' : Mind} (life : Life s stored restarts s') (sound : Sound s [] []) :
    ∃ tiers day, Sound s' tiers day ∧ Covered s' tiers day := by
  induction life with
  | refl => exact ⟨[], [], sound, by simp [Covered]⟩
  | step prior step ih =>
      obtain ⟨tiers, day, hsound, hcovered⟩ := ih
      obtain ⟨later, evolves⟩ := step.grows hsound.cache
      exact hcovered.evolves hsound evolves
  | restart prior reopens ih =>
      obtain ⟨tiers, day, hsound, _⟩ := ih
      obtain ⟨fresh, hfresh, _, _, hrestored⟩ := hsound.reopens reopens
      exact ⟨tiers, day, hrestored.sound hfresh, .reopens hsound reopens⟩

/-- Where identifiers are distinct an identifier is in one tier. -/
theorem Sound.tier_eq {s : Mind} (sound : Sound s tiers day) (distinct : (s.live.map (·.id)).Nodup)
    {t u : Tier} {id : Uid} (ht : id ∈ (s.store.memories t).map (·.id))
    (hu : id ∈ (s.store.memories u).map (·.id)) : t = u := by
  obtain ⟨m, hm, rfl⟩ := List.mem_map.mp ht
  obtain ⟨n, hn, hsame⟩ := List.mem_map.mp hu
  obtain rfl : n = m := List.inj_on_of_nodup_map distinct (mem_live_of_mem_memories hn)
    (mem_live_of_mem_memories hm) hsame
  rw [← sound.placed t n hm, ← sound.placed u n hn]

theorem notMem_pending_of_mem_memories {s : Mind} (distinct : (s.live.map (·.id)).Nodup) {t : Tier}
    {id : Uid} (h : id ∈ (s.store.memories t).map (·.id)) : id ∉ s.archive.pending.map (·.id) := by
  intro hpending
  rw [live, List.map_append] at distinct
  refine (List.nodup_append.mp distinct).2.2 id ?_ id hpending rfl
  obtain ⟨m, hm, rfl⟩ := List.mem_map.mp h
  exact List.mem_map_of_mem (List.mem_flatMap.mpr ⟨t, t.mem_all, hm⟩)

/-- What is pending after a checkpoint was taken up was pending, or it is in the saved day and in no
saved tier. -/
theorem Restored.pending_cases {s s' : Mind} (restored : Restored s tiers day s') {id : Uid}
    (h : id ∈ s'.archive.pending.map (·.id)) :
    id ∈ s.archive.pending.map (·.id) ∨
      id ∈ day.map (·.1) ∧ id ∉ savedIds tiers ∧ id ∉ s.archive.pending.map (·.id) := by
  rw [← map_key_fst, restored.pending, List.map_append, List.mem_append, map_key_fst] at h
  rcases h with h | h
  · obtain ⟨hin, hout⟩ := mem_without h
    exact .inr ⟨(mem_without hin).1, (mem_without hin).2, hout⟩
  · exact .inl h

theorem Restored.active_and_pending_iff {s s' : Mind} (restored : Restored s tiers day s')
    (sound : Sound s tiers day) (covered : Covered s tiers day)
    (distinct : (s.live.map (·.id)).Nodup) (id : Uid) :
    (id ∈ s'.active.map (·.id) ∧ id ∈ s'.archive.pending.map (·.id)) ↔
      id ∈ savedIds tiers ∧ id ∈ s.archive.pending.map (·.id) := by
  rw [map_id_active, List.mem_flatMap]
  constructor
  · rintro ⟨⟨t, _, hactive⟩, hpending⟩
    rw [restored.memories] at hactive
    cases hlookup : tiers.lookup t.name with
    | some keys =>
        rw [hlookup] at hactive
        have hsaved : id ∈ savedIds tiers :=
          List.mem_flatMap.mpr ⟨_, lookup_eq_some_mem hlookup, hactive⟩
        refine ⟨hsaved, (restored.pending_cases hpending).resolve_right ?_⟩
        exact fun hday => hday.2.1 hsaved
    | none =>
        -- The tier is kept as it is, and nothing in it is pending, now or by the saved day.
        rw [hlookup, Option.getD_none, map_key_fst] at hactive
        have hout := notMem_pending_of_mem_memories distinct hactive
        obtain ⟨hday, _, _⟩ := (restored.pending_cases hpending).resolve_left hout
        obtain ⟨u, hsaved, hin⟩ := (covered id hday).resolve_left hout
        obtain rfl := sound.tier_eq distinct hactive hin
        exact absurd hlookup hsaved
  · rintro ⟨hsaved, hpending⟩
    obtain ⟨t, keys, hlookup, hin⟩ := sound.lookup_saved hsaved
    refine ⟨⟨t, t.mem_all, ?_⟩, ?_⟩
    · rw [restored.memories, hlookup]
      exact hin
    · rw [← map_key_fst, restored.pending, List.map_append, map_key_fst]
      exact List.mem_append_right _ hpending

theorem traced_create {config : Config} {backend : Backend} {source : Source} {fresh : Mind}
    (created : create config backend source = .ok fresh) (blank : backend.Blank)
    (classifier : Classifier) (extractor : Extractor) :
    Traced backend [] [] [] { fresh with classifier, extractor } [] [] := by
  have hsound := sound_create created blank classifier extractor
  obtain rfl := create_eq_start created
  refine ⟨hsound, .refl backend, ?_, ?_, ?_, ?_, ?_, ?_, ?_, ?_, ?_, ?_⟩ <;>
    simp [live_start, Named, archived, timesArchived]

/-- The checkpoint is taken up by a running mind, over any life before it. A memory is then active
and pending at once exactly if it is in a tier of the checkpoint and was pending already. So what is
recovered from the saved day is never active as well, but a memory that was demoted after the
checkpoint and is not yet archived is in both places. -/
theorem active_and_pending_iff_demoted_since {config : Config} {backend : Backend} {source : Source}
    {fresh : Mind} (created : create config backend source = .ok fresh) (blank : backend.Blank)
    (classifier : Classifier) (extractor : Extractor) {stored : List Memory}
    {restarts : List (Mind × Mind)} {s s' : Mind} {n : Nat}
    (life : Life { fresh with classifier, extractor } stored restarts s)
    (distinct : (stored.map (·.id)).Nodup) (restored : s.restore = (s', .ok n)) :
    ∃ checkpoint, s.load = .ok checkpoint ∧ ∀ id,
      (id ∈ s'.active.map (·.id) ∧ id ∈ s'.archive.pending.map (·.id)) ↔
        id ∈ checkpoint.tiers.flatMap (fun p => p.2.map (·.id)) ∧
          id ∈ s.archive.pending.map (·.id) := by
  obtain ⟨log, tiers, day, traced⟩ :=
    life.traced (traced_create created blank classifier extractor) distinct
  obtain ⟨tiers', day', hsound, hcovered⟩ :=
    life.covered (sound_create created blank classifier extractor)
  obtain ⟨rfl, rfl⟩ := traced.sound.saved.unique hsound.saved
  obtain ⟨checkpoint, hload, rfl⟩ := restore_ok_cases restored
  refine ⟨checkpoint, hload, fun id => ?_⟩
  have hids : checkpoint.tiers.flatMap (fun p => p.2.map (·.id)) = savedIds tiers := by
    rw [← (hsound.load_keys hload).1, savedIds, List.flatMap_map]
    simp only [map_key_fst]
  rw [hids]
  exact (hsound.adopt hload).active_and_pending_iff hsound hcovered traced.liveDistinct id

/-- A memory is saved in its tier and demoted after that. Once the checkpoint is taken up in place
it is active and pending. -/
theorem active_and_pending_iff_demoted_since_sample :
    let s₀ := Sample.empty (.volatile .empty)
    let s₁ := (Sample.process s₀ "alpha" 0.1).persist.1
    let s₂ := Sample.process s₁ "beta"
    ∃ s₃, s₂.restore = (s₃, .ok 1) ∧ ∃ id, id ∈ s₃.active.map (·.id) ∧
      id ∈ s₃.archive.pending.map (·.id) := by
  intro s₀ s₁ s₂
  let t₁ := Sample.next s₀ "alpha" 0.1
  let t₂ := Sample.next t₁.persist.1 "beta"
  obtain ⟨n₁, n₂, hrestored, distinct, hin⟩ :
      Sample.isNarrow s₀ "alpha" 0.1 ∧ Sample.isNarrow t₁.persist.1 "beta" ∧
      t₂.restore.2 = .ok 1 ∧
      ((Sample.made s₀ "alpha" 0.1 ++ [] ++ Sample.made t₁.persist.1 "beta").map
        fun m : Memory => m.id).Nodup ∧
      (match t₂.load with
        | .ok checkpoint =>
          (checkpoint.tiers.flatMap fun p => p.2.map (·.id)).contains (Sample.source.ids 0) &&
            (t₂.archive.pending.map (·.id)).contains (Sample.source.ids 0)
        | .error _ => false) = true := by decide +kernel
  have h₁ : Sample.process s₀ "alpha" 0.1 = t₁ := Sample.process_eq_next n₁
  have h₂ : s₂ = t₂ := by
    simp only [s₂, s₁, h₁]
    exact Sample.process_eq_next n₂
  have created : create Sample.config (.ofStorage (.volatile .empty)) Sample.source = .ok s₀ := rfl
  have hs₁ : s₁ = t₁.persist.1 := by
    simp only [s₁, h₁]
  rw [h₂]
  have restored : t₂.restore = (t₂.restore.1, .ok 1) := Prod.ext rfl hrestored
  have life : Life s₀ (Sample.made s₀ "alpha" 0.1 ++ [] ++ Sample.made t₁.persist.1 "beta") [] t₂ := by
    have first : Step (fun _ => True) s₀ (Sample.made s₀ "alpha" 0.1) t₁ :=
      h₁ ▸ .call (.process _ _)
    have second : Step (fun _ => True) t₁.persist.1 (Sample.made t₁.persist.1 "beta") t₂ := by
      rw [← h₂, ← hs₁]
      exact .call (.process _ _)
    have saved : Life s₀ (Sample.made s₀ "alpha" 0.1 ++ []) [] t₁.persist.1 :=
      (Life.refl.step first).step (.call .persist)
    exact saved.step second
  clear_value t₂ t₁ s₂ s₁
  obtain ⟨checkpoint, hload, hall⟩ :=
    active_and_pending_iff_demoted_since created (.inl rfl) _ _ life distinct restored
  rw [hload] at hin
  have hboth := (hall (Sample.source.ids 0)).mpr (by simpa using hin)
  exact ⟨_, restored, _, hboth⟩

end Mind

end Engram
