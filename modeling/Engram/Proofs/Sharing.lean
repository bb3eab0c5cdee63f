import Engram.Proofs.Fitness

/-! Memories that stand at several places of a store. Whatever a store was used for, all places of
one number hold the same memory, and the associations of a memory are a set. -/
namespace Engram.Store

/-- One number is one memory, and the associations of a memory are a set. -/
structure Sound (s : Store) : Prop where
  single : ∀ a ∈ s.all, ∀ b ∈ s.all, a.number = b.number → a.memory = b.memory
  sets : ∀ a ∈ s.all, Names.Strict a.memory.associations

/-- A trace that was enrolled here, as it now stands. -/
def Stands (s : Store) (a : Trace) : Prop :=
  (s.all ++ s.former).find? (·.number == a.number) = some a

/-- The stores that come from the empty one by what is done with stores. -/
inductive Built : Store → Prop where
  | empty : Built .empty
  | add {s : Store} {m : Memory} (built : Built s) (set : Names.Strict m.associations) :
      Built (s.add m)
  | replace {s : Store} {memories : List Memory} (built : Built s) (t : Tier)
      (sets : ∀ m ∈ memories, Names.Strict m.associations) : Built (s.replace t memories)
  | commit {s : Store} {kept : List Trace} (built : Built s) (t : Tier) (base : List Trace)
      (stands : ∀ a ∈ kept, s.Stands a) : Built (s.commit t base kept).1
  | map {s : Store} {f : Trace → Memory} (built : Built s)
      (sets : ∀ a ∈ s.all, Names.Strict (f a).associations) : Built (s.map f)

/-- A sound store whose former traces can come back. -/
structure Steady (s : Store) : Prop extends Sound s where
  formerSets : ∀ a ∈ s.former, Names.Strict a.memory.associations
  below : ∀ a ∈ s.all ++ s.former, a.number < s.enrolled

variable {s : Store}

theorem Stands.mem {a : Trace} (stands : s.Stands a) : a ∈ s.all ++ s.former :=
  List.mem_of_find?_eq_some stands

theorem Stands.eq {a b : Trace} (ha : s.Stands a) (hb : s.Stands b)
    (same : a.number = b.number) : a = b := by
  unfold Stands at ha hb
  rw [same, hb] at ha
  exact (Option.some.inj ha).symm

theorem Sound.stands (sound : s.Sound) {a : Trace} (ha : a ∈ s.all) : s.Stands a := by
  unfold Stands
  rw [List.find?_append]
  cases hfind : s.all.find? (·.number == a.number) with
  | none => exact absurd (List.find?_eq_none.mp hfind a ha) (by simp)
  | some b =>
      have hnumber : b.number = a.number := by simpa using List.find?_some hfind
      have hmemory := sound.single b (List.mem_of_find?_eq_some hfind) a ha hnumber
      cases a
      cases b
      simp_all

theorem memory_mem_of_enroll {memories : List Memory} {a : Trace}
    (ha : a ∈ (s.enroll memories).1) : a.memory ∈ memories := by
  obtain ⟨i, hi, rfl⟩ := List.mem_mapIdx.mp ha
  exact List.getElem_mem hi

theorem number_of_enroll {memories : List Memory} {a : Trace} (ha : a ∈ (s.enroll memories).1) :
    s.enrolled ≤ a.number ∧ a.number < s.enrolled + memories.length := by
  have hmem := List.mem_map_of_mem (f := (·.number)) ha
  rwa [numbers_enroll, List.mem_range'_1] at hmem

/-- Traces that stand and newly enrolled ones, in place of a tier. -/
theorem Steady.place (steady : s.Steady) {t : Tier} {traces former : List Trace}
    (memories : List Memory) (sets : ∀ m ∈ memories, Names.Strict m.associations)
    (origin : ∀ a ∈ traces, s.Stands a ∨ a ∈ (s.enroll memories).1)
    (left : former ⊆ s.all ++ s.former) :
    (⟨s.tiers.set t traces, former, s.enrolled + memories.length⟩ : Store).Steady := by
  have horigin : ∀ a ∈ (⟨s.tiers.set t traces, former, s.enrolled + memories.length⟩ : Store).all,
      s.Stands a ∨ a ∈ (s.enroll memories).1 := by
    intro a ha
    rcases List.mem_append.mp ((all_set_perm s t _ _ _).subset ha) with ha | ha
    · exact origin a ha
    · exact .inl (steady.toSound.stands (mem_all_of_mem_others ha))
  have hold : ∀ a ∈ s.all ++ s.former, Names.Strict a.memory.associations := by
    intro a ha
    exact (List.mem_append.mp ha).elim (steady.sets a) (steady.formerSets a)
  have hapart : ∀ a b : Trace, s.Stands a → b ∈ (s.enroll memories).1 → a.number ≠ b.number := by
    intro a b ha hb
    have hbelow := steady.below a ha.mem
    have habove := (number_of_enroll hb).1
    omega
  have hfresh : ((s.enroll memories).1.map (·.number)).Nodup := by
    rw [numbers_enroll]
    exact List.nodup_range'
  refine ⟨⟨?_, ?_⟩, fun a ha => hold a (left ha), ?_⟩
  · intro a ha b hb same
    rcases horigin a ha with ha | ha <;> rcases horigin b hb with hb | hb
    · rw [ha.eq hb same]
    · exact absurd same (hapart a b ha hb)
    · exact absurd same.symm (hapart b a hb ha)
    · rw [List.inj_on_of_nodup_map hfresh ha hb same]
  · intro a ha
    rcases horigin a ha with ha | ha
    · exact hold a ha.mem
    · exact sets _ (memory_mem_of_enroll ha)
  · have hbelow : ∀ a ∈ s.all ++ s.former, a.number < s.enrolled + memories.length :=
      fun a ha => Nat.lt_add_right _ (steady.below a ha)
    intro a ha
    rcases List.mem_append.mp ha with ha | ha
    · rcases horigin a ha with ha | ha
      · exact hbelow a ha.mem
      · exact (number_of_enroll ha).2
    · exact hbelow a (left ha)

theorem former_put_subset (s : Store) (t : Tier) (traces : List Trace) :
    (s.put t traces).former ⊆ s.all ++ s.former := by
  intro a ha
  rcases List.mem_append.mp ha with ha | ha
  · exact List.mem_append_left _ (mem_all_of_mem_traces (List.mem_of_mem_filter ha))
  · exact List.mem_append_right _ ha

theorem Sound.map (sound : s.Sound) {f : Trace → Memory}
    (sets : ∀ a ∈ s.all, Names.Strict (f a).associations) : (s.map f).Sound := by
  constructor
  · rw [all_map]
    intro a ha b hb same
    obtain ⟨a', ha', rfl⟩ := List.mem_map.mp ha
    obtain ⟨b', hb', rfl⟩ := List.mem_map.mp hb
    exact congrArg f ((sound.stands ha').eq (sound.stands hb') same)
  · rw [all_map]
    intro a ha
    obtain ⟨b, hb, rfl⟩ := List.mem_map.mp ha
    exact sets b hb

theorem Steady.map (steady : s.Steady) {f : Trace → Memory}
    (sets : ∀ a ∈ s.all, Names.Strict (f a).associations) : (s.map f).Steady := by
  refine ⟨steady.toSound.map sets, steady.formerSets, ?_⟩
  intro a ha
  rw [all_map] at ha
  rcases List.mem_append.mp ha with ha | ha
  · obtain ⟨b, hb, rfl⟩ := List.mem_map.mp ha
    exact steady.below b (List.mem_append_left _ hb)
  · exact steady.below a (List.mem_append_right _ ha)

theorem Built.steady (built : s.Built) : s.Steady := by
  induction built with
  | empty =>
      have hall : Store.empty.all = [] := rfl
      have hformer : Store.empty.former = [] := rfl
      refine ⟨⟨?_, ?_⟩, ?_, ?_⟩ <;> simp [hall, hformer]
  | @add s m _ set ih =>
      refine ih.place [m] ?_ ?_ (List.subset_append_right _ _)
      · intro m' hm'
        rwa [List.mem_singleton.mp hm']
      · intro a ha
        exact (List.mem_append.mp ha).imp_left fun h => ih.toSound.stands (mem_all_of_mem_traces h)
  | @replace s memories _ t sets ih =>
      exact ih.place memories sets (fun a => .inr) (former_put_subset (s.enroll memories).2 t _)
  | @commit s kept _ t base stands ih =>
      refine ih.place [] (by simp) ?_ (former_put_subset s t _)
      intro a ha
      rcases List.mem_append.mp ha with ha | ha
      · exact .inl (stands a ha)
      · exact .inl (ih.toSound.stands (mem_all_of_mem_traces (List.mem_of_mem_filter ha)))
  | map _ sets ih => exact ih.map sets

theorem Built.sound (built : s.Built) : s.Sound := built.steady.toSound

end Engram.Store
