import Engram.Proofs.Run
import Mathlib.Data.List.Perm.Basic

/-! Completeness of the archive: a memory that was stored is in one place at any time, in its tier,
in the pending batch or in an entry of the archive. Every change moves memories between these
places without losing or copying one, and so does every run. -/
namespace Engram.Mind

open scoped List

variable {allowed : List String → Prop}

/-- The memories that have not been sealed: those of the tiers and those that are pending. -/
def live (s : Mind) : List Memory := s.active ++ s.archive.pending

/-- The memories in the entries of a log. -/
def archived (log : List ArchiveEntry) : List Memory := log.flatMap (·.memories)

/-- Every memory stands in the tier of its tag. -/
def Placed (s : Mind) : Prop := ∀ t, ∀ m ∈ s.store.memories t, m.tier = t

theorem archived_append (log later : List ArchiveEntry) :
    archived (log ++ later) = archived log ++ archived later :=
  List.flatMap_append

theorem map_fixed_live (s : Mind) :
    s.live.map Memory.fixed =
      Tier.all.flatMap s.store.fixed ++ s.archive.pending.map Memory.fixed := by
  unfold live active
  rw [List.map_append, List.map_flatMap]
  rfl

theorem perm_append_swap (a b c : List Memory) : a ++ b ++ c ~ a ++ c ++ b := by
  rw [List.append_assoc, List.append_assoc]
  exact List.perm_append_comm.append_left a

/-- Taking memories out of one tier takes them out of the tiers together. -/
theorem flatMap_tiers_perm {f g : Tier → List Memory} {t : Tier} {moved : List Memory}
    (here : (f t ++ moved).Perm (g t)) (others : ∀ u, u ≠ t → f u = g u) :
    (Tier.all.flatMap f ++ moved).Perm (Tier.all.flatMap g) := by
  have general : ∀ tiers : List Tier, t ∈ tiers → tiers.Nodup →
      (tiers.flatMap f ++ moved).Perm (tiers.flatMap g) := by
    intro tiers
    induction tiers with
    | nil => intro h; cases h
    | cons u rest ih =>
        intro hmem hnodup
        obtain ⟨hu, hrest⟩ := List.nodup_cons.mp hnodup
        rw [List.flatMap_cons, List.flatMap_cons]
        by_cases htu : t = u
        · subst htu
          have hsame : rest.flatMap f = rest.flatMap g := by
            apply List.flatMap_congr
            intro v hv
            exact others v fun h => hu (h ▸ hv)
          rw [hsame]
          calc f t ++ rest.flatMap g ++ moved
              _ ~ f t ++ moved ++ rest.flatMap g := perm_append_swap _ _ _
              _ ~ g t ++ rest.flatMap g := here.append_right _
        · rw [others u (Ne.symm htu), List.append_assoc]
          have hin : t ∈ rest := (List.mem_cons.mp hmem).resolve_left htu
          exact (ih hin hrest).append_left _
  exact general Tier.all t.mem_all (by decide)

theorem flatMap_fixed_add (s : Store) (m : Memory) :
    Tier.all.flatMap s.fixed ++ [m.fixed] ~ Tier.all.flatMap (s.add m).fixed := by
  refine flatMap_tiers_perm (t := m.tier) ?_ ?_
  · simp [Store.fixed, Store.memories_add]
  · intro u hu
    simp [Store.fixed, Store.memories_add, hu]

/-- A change loses no memory and copies none: what is live or written after it was live before it or
is stored by it. -/
theorem Change.live_perm {s s' : Mind} {new : List Memory} {log : List ArchiveEntry}
    (change : Change allowed s new log s') :
    ((s'.live ++ archived log).map Memory.fixed).Perm ((s.live ++ new).map Memory.fixed) := by
  simp only [List.map_append, map_fixed_live]
  cases change with
  | rest quiet =>
      rw [funext quiet.store, quiet.pending]
      simp [archived]
  | stored m frame width store pending backend =>
      have hadded := flatMap_fixed_add s.store m
      rw [← funext store] at hadded
      rw [pending]
      simp only [archived, List.flatMap_nil, List.map_nil, List.append_nil, List.map_cons]
      calc Tier.all.flatMap s'.store.fixed ++ s.archive.pending.map Memory.fixed
          _ ~ Tier.all.flatMap s.store.fixed ++ [m.fixed] ++ s.archive.pending.map Memory.fixed :=
            hadded.symm.append_right _
          _ ~ Tier.all.flatMap s.store.fixed ++ s.archive.pending.map Memory.fixed ++ [m.fixed] :=
            perm_append_swap _ _ _
  | demoted t moved frame tier others pending backend =>
      have hmoved := flatMap_tiers_perm tier others
      rw [pending]
      simp only [archived, List.flatMap_nil, List.map_nil, List.append_nil, List.map_append]
      rw [← List.append_assoc]
      calc Tier.all.flatMap s'.store.fixed ++ s.archive.pending.map Memory.fixed ++
            moved.map Memory.fixed
          _ ~ Tier.all.flatMap s'.store.fixed ++ moved.map Memory.fixed ++
              s.archive.pending.map Memory.fixed := perm_append_swap _ _ _
          _ ~ Tier.all.flatMap s.store.fixed ++ s.archive.pending.map Memory.fixed :=
            hmoved.append_right _
  | sealed entry frame batch store pending backend =>
      rw [funext store, pending]
      simp [archived, batch]
  | saved c frame tiers batch store pending backend =>
      rw [funext store, pending]
      simp [archived]

theorem Evolves.live_perm {s s' : Mind} {new : List Memory} {log : List ArchiveEntry}
    (evolves : Evolves allowed s new log s') :
    (s'.live ++ archived log).map Memory.fixed ~ (s.live ++ new).map Memory.fixed := by
  induction evolves with
  | refl => simp [archived]
  | @tail s' s'' new more log later prior last ih =>
      have hlast := last.live_perm
      simp only [archived_append, List.map_append] at hlast ih ⊢
      rw [← List.append_assoc, ← List.append_assoc]
      generalize s''.live.map Memory.fixed = l₂ at *
      generalize s'.live.map Memory.fixed = l₁ at *
      calc l₂ ++ (archived log).map Memory.fixed ++ (archived later).map Memory.fixed
          _ ~ l₂ ++ (archived later).map Memory.fixed ++ (archived log).map Memory.fixed :=
            perm_append_swap _ _ _
          _ ~ l₁ ++ more.map Memory.fixed ++ (archived log).map Memory.fixed :=
            hlast.append_right _
          _ ~ l₁ ++ (archived log).map Memory.fixed ++ more.map Memory.fixed :=
            perm_append_swap _ _ _
          _ ~ s.live.map Memory.fixed ++ new.map Memory.fixed ++ more.map Memory.fixed :=
            ih.append_right _

theorem Placed.of_fixed {s s' : Mind} (placed : s.Placed)
    (h : ∀ t, ∀ m ∈ s'.store.fixed t, m ∈ s.store.fixed t ∨ m.tier = t) : s'.Placed := by
  intro t m hm
  rcases h t m.fixed (List.mem_map_of_mem hm) with hold | hnew
  · obtain ⟨old, hold, hsame⟩ := List.mem_map.mp hold
    rw [← Memory.fixed_tier m, ← hsame]
    exact placed t old hold
  · exact hnew

theorem Change.placed {s s' : Mind} {new : List Memory} {log : List ArchiveEntry}
    (change : Change allowed s new log s') (placed : s.Placed) : s'.Placed := by
  apply placed.of_fixed
  intro t m hm
  cases change with
  | rest quiet =>
      rw [quiet.store] at hm
      exact .inl hm
  | stored made frame width store pending backend =>
      rw [store, Store.fixed, Store.memories_add] at hm
      by_cases ht : t = made.tier
      · rw [if_pos ht, List.map_append, List.mem_append] at hm
        rcases hm with hm | hm
        · exact .inl hm
        · right
          simp only [List.map_cons, List.map_nil, List.mem_singleton] at hm
          rw [hm, ht]
          rfl
      · rw [if_neg ht] at hm
        exact .inl hm
  | demoted u moved frame tier others pending backend =>
      by_cases ht : t = u
      · subst ht
        exact .inl (tier.subset (List.mem_append_left _ hm))
      · rw [others t ht] at hm
        exact .inl hm
  | sealed entry frame batch store pending backend =>
      rw [store] at hm
      exact .inl hm
  | saved c frame tiers batch store pending backend =>
      rw [store] at hm
      exact .inl hm

theorem Change.extends {s s' : Mind} {new : List Memory} {log : List ArchiveEntry}
    (change : Change allowed s new log s') : s.backend.Extends log s'.backend := by
  cases change with
  | rest quiet => exact Backend.extends_of_contents quiet.backend
  | stored m frame width store pending backend => exact Backend.extends_of_contents backend
  | demoted t moved frame tier others pending backend => exact Backend.extends_of_contents backend
  | sealed entry frame batch store pending backend => exact Backend.append_extends backend
  | saved c frame tiers batch store pending backend =>
      rw [backend]
      exact (s.backend.saveCheckpoint_spec c).2.1

theorem Evolves.extends {s s' : Mind} {new : List Memory} {log : List ArchiveEntry}
    (evolves : Evolves allowed s new log s') : s.backend.Extends log s'.backend := by
  induction evolves with
  | refl => exact .refl _
  | tail prior last ih => exact ih.trans last.extends

theorem Evolves.placed {s s' : Mind} {new : List Memory} {log : List ArchiveEntry}
    (evolves : Evolves allowed s new log s') (placed : s.Placed) : s'.Placed := by
  induction evolves with
  | refl => exact placed
  | tail prior last ih => exact last.placed ih

theorem live_start (config : Config) (backend : Backend) (source : Source)
    (classifier : Classifier) (extractor : Extractor) :
    ({ start config backend source with classifier, extractor } : Mind).live = [] := by
  simp [live, active, start, Store.memories_empty, ArchiveLog.empty]

/-- From an empty mind on, after any operations and with any writes failing, every memory that was
ever stored is in one place: a tier, the pending batch, or one entry of the archive. An active
memory is in the tier of its tag, and all but the use of a memory is as it was when it was
stored. -/
theorem stored_in_one_place {config : Config} {backend : Backend} {source : Source}
    {fresh : Mind} (created : create config backend source = .ok fresh)
    (classifier : Classifier) (extractor : Extractor) {stored : List Memory} {s : Mind}
    (run : Run (fun _ => True) { fresh with classifier, extractor } stored s)
    (distinct : (stored.map (·.id)).Nodup) :
    ∃ log, backend.Extends log s.backend ∧
      (s.active ++ s.archive.pending ++ archived log).map Memory.fixed ~
        stored.map Memory.fixed ∧
      ((s.active ++ s.archive.pending ++ archived log).map (·.id)).Nodup ∧
      s.Placed := by
  obtain rfl := create_eq_start created
  obtain ⟨log, evolves⟩ := run.grows (fun _ h => by cases h)
  have hperm := evolves.live_perm
  rw [live_start, List.nil_append] at hperm
  refine ⟨log, evolves.extends, hperm, ?_, evolves.placed ?_⟩
  · exact (Memory.ids_perm hperm).nodup_iff.mpr distinct
  · intro t m hm
    simp [start, Store.memories_empty] at hm

/-- Two memories in a tier with room for one, while no write succeeds, and a night after it. -/
theorem stored_in_one_place_sample :
    let s₁ := Sample.empty (.volatile .empty)
    let s₂ := (Sample.process s₁ "alpha").outside Sample.source.clock [] (fun _ => true)
    let s₃ := (Sample.process s₂ "beta").outside Sample.source.clock [] (fun _ => false)
    let stored := Sample.made s₁ "alpha" ++ Sample.made s₂ "beta"
    stored.map (·.content) = ["alpha\nnoted", "beta\nnoted"] ∧
      ∃ s, Run (fun _ => True) s₁ stored s ∧ Step (fun _ => True) s₃ [] s ∧
        ∃ log, s₁.backend.Extends log s.backend ∧
          (s.active ++ s.archive.pending ++ archived log).map Memory.fixed ~
            stored.map Memory.fixed ∧
          ((s.active ++ s.archive.pending ++ archived log).map (·.id)).Nodup ∧ s.Placed := by
  intro s₁ s₂ s₃ stored
  refine ⟨by decide +kernel, ?_⟩
  obtain ⟨s, night⟩ : ∃ s, Step (fun _ => True) s₃ [] s := s₃.exists_nightly
  have run : Run (fun _ => True) s₁ stored s := by
    have first : Run (fun _ => True) s₁ (Sample.made s₁ "alpha") (Sample.process s₁ "alpha") :=
      .single (.call (.process _ _))
    have second : Run (fun _ => True) s₁ (Sample.made s₁ "alpha") s₂ :=
      Trail.still first (.call (.outside _ _ _ trivial))
    have third : Run (fun _ => True) s₁ stored (Sample.process s₂ "beta") :=
      Trail.tail second (.call (.process _ _))
    exact Trail.still (Trail.still third (.call (.outside _ _ _ trivial))) night
  have created : create Sample.config (.ofStorage (.volatile .empty)) Sample.source = .ok s₁ := rfl
  refine ⟨s, run, night, ?_⟩
  exact stored_in_one_place created s₁.classifier s₁.extractor run (by decide +kernel)

end Engram.Mind
