import Engram.Proofs.Refusal

/-! What a restore puts in place. Tiers are saved by tag, and several tags may stand for one tier: the
last of them in the order of the tags supersedes the others. What is lost in a restore is what was saved
under superseded tags only; all other saved memories are active or pending afterwards. -/
namespace Engram.Mind

/-- The saved tiers that a later one replaces. -/
def superseded : List (Tier × List Memory) → List (Tier × List Memory)
  | [] => []
  | p :: rest => if p.1 ∈ rest.map Prod.fst then p :: superseded rest else superseded rest

/-- The saved tiers that stay: the last one of each. -/
def lasting : List (Tier × List Memory) → List (Tier × List Memory)
  | [] => []
  | p :: rest => if p.1 ∈ rest.map Prod.fst then lasting rest else p :: lasting rest

section Tiers

variable {tiers : List (Tier × List Memory)} {t : Tier} {memories : List Memory}

/-- Every saved tier either stays or is replaced. -/
theorem superseded_append_lasting (tiers : List (Tier × List Memory)) :
    (superseded tiers ++ lasting tiers).Perm tiers := by
  induction tiers with
  | nil => exact .nil
  | cons p rest ih =>
      unfold superseded lasting
      split
      · exact ih.cons p
      · exact List.perm_middle.trans (ih.cons p)

theorem mem_fst_lasting : t ∈ (lasting tiers).map Prod.fst ↔ t ∈ tiers.map Prod.fst := by
  induction tiers with
  | nil => rfl
  | cons p rest ih =>
      rw [lasting, List.map_cons, List.mem_cons]
      split
      · rename_i hlater
        rw [ih]
        exact ⟨.inr, fun h => h.elim (fun h => h ▸ hlater) fun h => h⟩
      · rw [List.map_cons, List.mem_cons, ih]

/-- Where the tiers are distinct, all of them stay. -/
theorem lasting_of_nodup (distinct : (tiers.map Prod.fst).Nodup) :
    superseded tiers = [] ∧ lasting tiers = tiers := by
  induction tiers with
  | nil => exact ⟨rfl, rfl⟩
  | cons p rest ih =>
      rw [List.map_cons, List.nodup_cons] at distinct
      obtain ⟨hsuperseded, hlasting⟩ := ih distinct.2
      rw [superseded, lasting, if_neg distinct.1, if_neg distinct.1, hsuperseded, hlasting]
      exact ⟨rfl, rfl⟩

/-- A tier holds what was saved last for it. -/
theorem memories_adoptTiers_of_lasting (s : Mind) (h : (t, memories) ∈ lasting tiers) :
    (s.adoptTiers tiers).store.memories t = memories.map Memory.activate := by
  induction tiers generalizing s with
  | nil => cases h
  | cons p rest ih =>
      let placed : Mind := { s with store := s.store.replace p.1 (p.2.map Memory.activate) }
      change (placed.adoptTiers rest).store.memories t = _
      rw [lasting] at h
      split at h
      · exact ih placed h
      · rename_i hlast
        rcases List.mem_cons.mp h with rfl | h
        · refine (placed.memories_adoptTiers_of_notMem hlast).trans ?_
          exact (Store.memories_replace _ _ _ _).trans (if_pos rfl)
        · exact ih placed h

end Tiers

/-- The identifiers of the memories in saved tiers. -/
def tierIds (tiers : List (Tier × List Memory)) : List Uid := tiers.flatMap fun p => p.2.map (·.id)

/-- A memory of the given identifier is active. -/
def IsActive (s : Mind) (id : Uid) : Prop := ∃ t, id ∈ (s.store.memories t).map (·.id)

/-- A memory of the given identifier is pending. -/
def IsPending (s : Mind) (id : Uid) : Prop := id ∈ s.archive.pending.map (·.id)

section Adopt

variable (s : Mind) (loaded : Loaded) {id : Uid}

theorem mem_tierIds {tiers : List (Tier × List Memory)} :
    id ∈ tierIds tiers ↔ id ∈ tierIds (superseded tiers) ∨ id ∈ tierIds (lasting tiers) := by
  rw [← List.mem_append, tierIds, tierIds, tierIds, ← List.flatMap_append]
  exact ((superseded_append_lasting tiers).flatMap_right _).mem_iff.symm

theorem store_adopt : (s.adopt loaded).store = (s.adoptTiers loaded.tiers).store := by
  unfold adopt
  cases loaded.pendingDay with
  | none => rfl
  | some day => rfl

theorem isActive_adopt_of_lasting (h : id ∈ tierIds (lasting loaded.tiers)) :
    (s.adopt loaded).IsActive id := by
  obtain ⟨⟨t, memories⟩, hmem, hid⟩ := List.mem_flatMap.mp h
  refine ⟨t, ?_⟩
  rw [store_adopt, s.memories_adoptTiers_of_lasting hmem, List.map_map]
  exact hid

/-- Of the saved day waits again what is in no saved tier, in front of what was waiting. -/
theorem isPending_adopt_iff {day : PendingDay} (hday : loaded.pendingDay = some day) :
    (s.adopt loaded).IsPending id ↔
      s.IsPending id ∨ id ∈ day.memories.map (·.id) ∧ id ∉ tierIds loaded.tiers := by
  have hpending : (s.adopt loaded).archive.pending =
      (day.memories.filter fun m => !(tierIds loaded.tiers).contains m.id).filter
        (fun m => !(s.archive.pending.map (·.id)).contains m.id) ++ s.archive.pending := by
    unfold adopt
    rw [hday]
    rfl
  unfold IsPending
  rw [hpending, List.map_append, List.mem_append]
  constructor
  · rintro (h | h)
    · obtain ⟨m, hm, rfl⟩ := List.mem_map.mp h
      obtain ⟨hm, hother⟩ := List.mem_filter.mp (List.mem_filter.mp hm).1
      exact .inr ⟨List.mem_map_of_mem hm, by simpa using hother⟩
    · exact .inl h
  · rintro (h | ⟨h, hother⟩)
    · exact .inr h
    · by_cases hwaits : id ∈ s.archive.pending.map (·.id)
      · exact .inr hwaits
      · obtain ⟨m, hm, rfl⟩ := List.mem_map.mp h
        refine .inl (List.mem_map_of_mem (List.mem_filter.mpr ⟨List.mem_filter.mpr ⟨hm, ?_⟩, ?_⟩))
        · simpa using hother
        · simpa using hwaits

/-- A memory of the saved day is lost exactly if it was saved under superseded tags and is neither
active nor was it waiting. -/
theorem day_adopt_iff {day : PendingDay} (hday : loaded.pendingDay = some day)
    (hid : id ∈ day.memories.map (·.id)) :
    (s.adopt loaded).IsActive id ∨ (s.adopt loaded).IsPending id ↔
      ¬ (id ∈ tierIds (superseded loaded.tiers) ∧ ¬ (s.adopt loaded).IsActive id ∧
        ¬ s.IsPending id) := by
  rw [s.isPending_adopt_iff loaded hday]
  constructor
  · rintro (h | h | ⟨_, h⟩) ⟨hsuperseded, hinactive, hnew⟩
    · exact hinactive h
    · exact hnew h
    · exact h (mem_tierIds.mpr (.inl hsuperseded))
  · intro h
    by_contra hlost
    obtain ⟨hinactive, hlost⟩ := not_or.mp hlost
    obtain ⟨hnew, hlost⟩ := not_or.mp hlost
    have hsaved : id ∈ tierIds loaded.tiers := by
      by_contra hother
      exact hlost ⟨hid, hother⟩
    rcases mem_tierIds.mp hsaved with hsuperseded | hlasting
    · exact h ⟨hsuperseded, hinactive, hnew⟩
    · exact hinactive (s.isActive_adopt_of_lasting loaded hlasting)

theorem size_adopt_of_lasting {t : Tier} {memories : List Memory}
    (h : (t, memories) ∈ lasting loaded.tiers) : (s.adopt loaded).store.size t = memories.length := by
  have hheld := congrArg List.length (s.memories_adoptTiers_of_lasting h)
  rw [← store_adopt] at hheld
  simpa [Store.memories, Store.size] using hheld

/-- The number that is told counts what was superseded as well. -/
theorem countSaved_eq_sizes : countSaved loaded.tiers =
    ((lasting loaded.tiers).map fun p => (s.adopt loaded).store.size p.1).sum +
      ((superseded loaded.tiers).map (·.2.length)).sum := by
  have hsizes : ((lasting loaded.tiers).map fun p => (s.adopt loaded).store.size p.1) =
      (lasting loaded.tiers).map (·.2.length) :=
    List.map_congr_left fun p hp => s.size_adopt_of_lasting loaded hp
  rw [countSaved_eq, hsizes, Nat.add_comm, ← List.sum_append, ← List.map_append]
  exact (((superseded_append_lasting loaded.tiers).map _).sum_eq).symm

end Adopt

/-- What is in place after a restore from the given tiers and day, where `n` was told: every tier has
what was saved last for it, and what is lost was saved under superseded tags only. -/
structure Resumed (s : Mind) (tiers : List (Tier × List Memory)) (day : Option PendingDay)
    (s' : Mind) (n : Nat) : Prop where
  held {t : Tier} {memories : List Memory} (h : (t, memories) ∈ lasting tiers) :
    s'.store.memories t = memories.map Memory.activate
  kept {t : Tier} (h : t ∉ tiers.map Prod.fst) : s'.store.memories t = s.store.memories t
  active {t : Tier} {memories : List Memory} (h : (t, memories) ∈ tiers) {m : Memory}
    (hm : m ∈ memories) : m.tier = t ∧ ∃ last, (t, last) ∈ lasting tiers ∧
      (m.activate ∈ s'.store.memories t ↔ m.activate ∈ last.map Memory.activate)
  count : n = ((lasting tiers).map fun p => s'.store.size p.1).sum +
    ((superseded tiers).map (·.2.length)).sum
  waiting {d : PendingDay} (hd : d ∈ day) {m : Memory} (hm : m ∈ d.memories) :
    s'.IsActive m.id ∨ s'.IsPending m.id ↔
      ¬ (m.id ∈ tierIds (superseded tiers) ∧ ¬ s'.IsActive m.id ∧ ¬ s.IsPending m.id)

theorem resumed_adopt {s : Mind} {loaded : Loaded} (h : s.load = .ok loaded) :
    Resumed s loaded.tiers loaded.pendingDay (s.adopt loaded) (countSaved loaded.tiers) where
  held hlast := by
    rw [store_adopt]
    exact s.memories_adoptTiers_of_lasting hlast
  kept hnone := by
    rw [store_adopt]
    exact s.memories_adoptTiers_of_notMem hnone
  active {t memories} hmem {m} hm := by
    refine ⟨((load_aligned h).1 _ hmem m hm).1, ?_⟩
    obtain ⟨p, hlast, rfl⟩ := List.mem_map.mp (mem_fst_lasting.mpr (List.mem_map_of_mem hmem))
    refine ⟨p.2, hlast, ?_⟩
    rw [store_adopt, s.memories_adoptTiers_of_lasting hlast]
  count := s.countSaved_eq_sizes loaded
  waiting hd _ hm := s.day_adopt_iff loaded hd (List.mem_map_of_mem hm)

theorem parse?_of_parse {tag : String} {t : Tier} (h : Tier.parse tag = .ok t) :
    Tier.parse? tag = some t := by
  unfold Tier.parse at h
  cases htier : Tier.parse? tag with
  | none =>
      rw [htier] at h
      cases h
  | some tier =>
      rw [htier] at h
      cases h
      rfl

/-- Where the tiers are distinct, all that is loaded is in place. -/
theorem Resumed.complete {s s' : Mind} {tiers : List (Tier × List Memory)} {day : Option PendingDay}
    {n : Nat} (resumed : Resumed s tiers day s' n) (distinct : (tiers.map Prod.fst).Nodup) :
    (∀ p ∈ tiers, ∀ m ∈ p.2, m.activate ∈ s'.store.memories p.1) ∧
      n = (tiers.map fun p => s'.store.size p.1).sum ∧
      ∀ d ∈ day, ∀ m ∈ d.memories, s'.IsActive m.id ∨ s'.IsPending m.id := by
  obtain ⟨hsuperseded, hlasting⟩ := lasting_of_nodup distinct
  refine ⟨?_, ?_, ?_⟩
  · intro p hp m hm
    rw [resumed.held (hlasting.symm ▸ hp)]
    exact List.mem_map_of_mem hm
  · have hcount := resumed.count
    rwa [hsuperseded, hlasting] at hcount
  · intro d hd m hm
    rw [resumed.waiting hd hm, hsuperseded]
    exact fun h => absurd h.1 List.not_mem_nil

/-- A restore loses nothing but what was saved under superseded tags: every tier that was saved holds
what the last of its tags has, the number told counts the superseded memories too, and a memory of the
saved day is active or pending unless it is among them. Where no two tags stand for one tier, all that
is loaded is in place. -/
theorem restore_loses_only_superseded {s s' : Mind} {n : Nat} (h : s.restore = (s', .ok n)) :
    ∃ snapshots tiers day, s.backend.loadSnapshots = .ok snapshots ∧
      s.backend.loadPendingDay = .ok day ∧
      List.Forall₂ (fun saved p => Tier.parse? saved.1 = some p.1 ∧ p.2 = saved.2) snapshots tiers ∧
      Resumed s tiers day s' n ∧
      ((tiers.map Prod.fst).Nodup →
        (∀ p ∈ tiers, ∀ m ∈ p.2, m.activate ∈ s'.store.memories p.1) ∧
          n = (tiers.map fun p => s'.store.size p.1).sum ∧
          ∀ d ∈ day, ∀ m ∈ d.memories, s'.IsActive m.id ∨ s'.IsPending m.id) := by
  obtain ⟨loaded, hload, rfl⟩ := restore_ok_cases h
  obtain rfl : countSaved loaded.tiers = n := by
    rw [restore, hload] at h
    exact Except.ok.inj (congrArg Prod.snd h)
  obtain ⟨snapshots, read, checked, readDay, _⟩ := load_ok_cases hload
  have resumed := resumed_adopt hload
  refine ⟨snapshots, loaded.tiers, loaded.pendingDay, read, readDay, ?_, resumed, resumed.complete⟩
  refine (mapM_ok_iff.mp checked).imp fun saved p h => ?_
  obtain ⟨hparse, hsame⟩ := checkSnapshot_ok h
  exact ⟨parse?_of_parse hparse, hsame⟩

namespace Sample

/-- The day of a checkpoint, with a memory that is waiting. -/
def waitingDay : PendingDay where
  savedAt := ⟨0, 0⟩
  day := (empty (.volatile .empty)).day.day
  memories := [memory 5]
  experiences := []

/-- A mind that faces a checkpoint with two tags for one tier. -/
def doubled : Mind :=
  (empty (.volatile .empty)).setBackend (.ofStorage (.volatile { VolatileArchive.empty with
    snapshots := [(" Working", [memory 5, memory 6]), ("working", [memory 7])]
    pendingDay := some waitingDay }))

end Sample

open Sample in
/-- Of three memories that a restore says it has loaded one is active, and one of the others is not
pending either though it was saved as such. -/
theorem restore_loses_only_superseded_sample :
    doubled.restore.2 = .ok 3 ∧
      (doubled.restore.1.store.memories .working).map (·.id) = [Sample.source.ids 7] ∧
      ¬ doubled.restore.1.IsActive (Sample.source.ids 5) ∧
      ¬ doubled.restore.1.IsPending (Sample.source.ids 5) ∧
      ∃ tiers, Resumed doubled tiers (some waitingDay) doubled.restore.1 3 := by
  have hcount : doubled.restore.2 = .ok 3 := by decide +kernel
  have hrestore : doubled.restore = (doubled.restore.1, .ok 3) := Prod.ext rfl hcount
  obtain ⟨_, tiers, day, _, readDay, _, resumed, _⟩ := restore_loses_only_superseded hrestore
  obtain rfl : day = some waitingDay := (Except.ok.inj readDay).symm
  have hnone : doubled.restore.1.archive.pending.map (·.id) = [] := by decide +kernel
  have hwaits : ¬ doubled.restore.1.IsPending (Sample.source.ids 5) := by simp [IsPending, hnone]
  refine ⟨hcount, by decide +kernel, ?_, hwaits, tiers, resumed⟩
  rintro ⟨t, ht⟩
  revert ht
  cases t with
  | working => decide +kernel
  | episodic => decide +kernel
  | semantic => decide +kernel
  | procedural => decide +kernel

end Engram.Mind
