import Engram.Nightly.Phases
import Mathlib.Data.List.Basic

/-! The store as one list of memories for each tier. Every operation is described by what it does
to these lists; the numbers of traces and the traces that have left play no part in it. What a
retrieval changes is the use of a memory and nothing else. -/
namespace Engram

namespace Memory

/-- A memory without its use: what stays as it is from the time the memory is made. -/
def fixed (m : Memory) : Memory := { m with associations := [], retrievals := 0 }

@[simp]
theorem fixed_id (m : Memory) : m.fixed.id = m.id := rfl

@[simp]
theorem fixed_tier (m : Memory) : m.fixed.tier = m.tier := rfl

@[simp]
theorem fixed_embedding (m : Memory) : m.fixed.embedding = m.embedding := rfl

theorem fixed_retrieve (m : Memory) : m.retrieve.fixed = m.fixed := rfl

theorem map_id_fixed (memories : List Memory) :
    (memories.map fixed).map (·.id) = memories.map (·.id) := by
  simp [Function.comp_def]

/-- Memories that are the same but for their use and order have the same identifiers. -/
theorem ids_perm {memories others : List Memory}
    (h : (memories.map fixed).Perm (others.map fixed)) :
    (memories.map (·.id)).Perm (others.map (·.id)) := by
  have hids := h.map (·.id)
  rw [map_id_fixed, map_id_fixed] at hids
  exact hids

end Memory

namespace Store

/-- The memories of a tier without their use. -/
def fixed (s : Store) (t : Tier) : List Memory := (s.memories t).map Memory.fixed

theorem memories_empty (t : Tier) : empty.memories t = [] := by
  simp [memories, traces, empty]

theorem memories_set (s : Store) (t u : Tier) (traces : List Trace) (former : List Trace)
    (enrolled : Nat) :
    (⟨s.tiers.set t traces, former, enrolled⟩ : Store).memories u =
      if u = t then traces.map (·.memory) else s.memories u := by
  by_cases h : u = t
  · subst h
    simp [memories, Store.traces]
  · simp [memories, Store.traces, h]

theorem memories_add (s : Store) (m : Memory) (t : Tier) :
    (s.add m).memories t = if t = m.tier then s.memories t ++ [m] else s.memories t := by
  unfold add
  simp only [enroll]
  rw [memories_set]
  by_cases h : t = m.tier
  · subst h
    simp [memories, traces]
  · simp [h, memories, traces]

theorem memories_put (s : Store) (t u : Tier) (traces : List Trace) :
    (s.put t traces).memories u =
      if u = t then traces.map (·.memory) else s.memories u := by
  unfold put
  exact memories_set s t u traces _ _

theorem memories_replace (s : Store) (t u : Tier) (memories : List Memory) :
    (s.replace t memories).memories u = if u = t then memories else s.memories u := by
  unfold replace
  simp only [enroll]
  rw [memories_put]
  have hnew : (memories.mapIdx fun i m => (⟨s.enrolled + i, m⟩ : Trace)).map (·.memory) =
      memories := by
    apply List.ext_getElem
    · simp
    · intro i _ _
      simp
  rw [hnew]
  rfl

/-- What was read is no late arrival. -/
theorem filter_read (traces : List Trace) :
    (traces.filter fun a => !(traces.map (·.memory.id)).contains a.memory.id) = [] := by
  rw [List.filter_eq_nil_iff]
  intro a ha
  simp only [Bool.not_eq_true', Bool.not_eq_false, List.contains_iff_mem]
  exact List.mem_map_of_mem ha

/-- A consolidation that nothing has disturbed finds no late arrival. -/
theorem commit_traces (s : Store) (t : Tier) (kept : List Trace) :
    s.commit t (s.traces t) kept = (s.put t kept, 0) := by
  unfold commit
  simp only
  rw [filter_read, List.append_nil, List.length_nil]

/-- Whatever arrived after the tier was read stays behind what was kept. -/
theorem fixed_commit {s : Store} {t : Tier} {base kept : List Trace} {late : List Memory}
    (arrived : s.fixed t = base.map (·.memory.fixed) ++ late)
    (distinct : ((s.fixed t).map (·.id)).Nodup) :
    (s.commit t base kept).1.fixed t = kept.map (·.memory.fixed) ++ late := by
  unfold fixed memories at arrived
  rw [List.map_map] at arrived
  obtain ⟨front, back, htraces, hfront, hback⟩ := List.map_eq_append_iff.mp arrived
  have hknown : front.map (·.memory.id) = base.map (·.memory.id) := by
    have hids := congrArg (List.map fun m : Memory => m.id) hfront
    rw [List.map_map, List.map_map] at hids
    exact hids
  have hapart : ∀ a ∈ front, ∀ b ∈ back, a.memory.id ≠ b.memory.id := by
    unfold fixed memories at distinct
    rw [List.map_map, List.map_map, htraces, List.map_append, List.nodup_append] at distinct
    intro a ha b hb
    exact distinct.2.2 _ (List.mem_map_of_mem ha) _ (List.mem_map_of_mem hb)
  have hlate : ((s.traces t).filter fun a =>
      !(base.map (·.memory.id)).contains a.memory.id) = back := by
    have hall : (back.filter fun a => !(front.map (·.memory.id)).contains a.memory.id) = back := by
      rw [List.filter_eq_self]
      intro b hb
      simp only [Bool.not_eq_true', List.contains_eq_mem, decide_eq_false_iff_not, List.mem_map,
        not_exists, not_and]
      exact fun a ha => hapart a ha b hb
    rw [htraces, List.filter_append, ← hknown, filter_read, hall, List.nil_append]
  unfold commit fixed
  simp only
  rw [hlate, memories_put, if_pos rfl, List.map_map, List.map_append, ← hback]
  rfl

theorem fixed_commit_of_ne (s : Store) {t u : Tier} (base kept : List Trace) (h : u ≠ t) :
    (s.commit t base kept).1.fixed u = s.fixed u := by
  unfold commit fixed
  simp only
  rw [memories_put, if_neg h]

theorem mem_all_of_mem_traces {s : Store} {t : Tier} {a : Trace} (h : a ∈ s.traces t) :
    a ∈ s.all :=
  List.mem_flatMap.mpr ⟨t, t.mem_all, h⟩

theorem eq_of_traces {s s' : Store} (traces : ∀ t, s.traces t = s'.traces t)
    (former : s.former = s'.former) (enrolled : s.enrolled = s'.enrolled) : s = s' := by
  obtain ⟨⟨working, episodic, semantic, procedural⟩, _, _⟩ := s'
  obtain ⟨⟨_, _, _, _⟩, _, _⟩ := s
  obtain rfl : _ = working := traces .working
  obtain rfl : _ = episodic := traces .episodic
  obtain rfl : _ = semantic := traces .semantic
  obtain rfl : _ = procedural := traces .procedural
  obtain rfl := former
  obtain rfl := enrolled
  rfl

theorem traces_map (s : Store) (f : Trace → Memory) (t : Tier) :
    (s.map f).traces t = (s.traces t).map fun a => { a with memory := f a } := by
  simp [traces, map]

theorem all_map (s : Store) (f : Trace → Memory) :
    (s.map f).all = s.all.map fun a => { a with memory := f a } := by
  unfold all
  rw [List.map_flatMap]
  exact List.flatMap_congr fun t _ => s.traces_map f t

theorem numbers_map (s : Store) (g : Trace → Memory) :
    (s.map g).all.map (·.number) = s.all.map (·.number) := by
  rw [all_map, List.map_map]
  rfl

theorem map_eq_self {s : Store} {f : Trace → Memory} (same : ∀ a ∈ s.all, f a = a.memory) :
    s.map f = s := by
  refine eq_of_traces (fun t => ?_) rfl rfl
  rw [traces_map]
  refine (List.map_congr_left ?_).trans (List.map_id _)
  intro a ha
  rw [same a (mem_all_of_mem_traces ha)]
  rfl

theorem map_map (s : Store) (f g : Trace → Memory) :
    (s.map f).map g = s.map fun a => g { a with memory := f a } := by
  refine eq_of_traces (fun t => ?_) rfl rfl
  rw [traces_map, traces_map, traces_map, List.map_map]
  rfl

theorem map_congr {s : Store} {f g : Trace → Memory} (same : ∀ a ∈ s.all, f a = g a) :
    s.map f = s.map g := by
  refine eq_of_traces (fun t => ?_) rfl rfl
  rw [traces_map, traces_map]
  refine List.map_congr_left fun a ha => ?_
  rw [same a (mem_all_of_mem_traces ha)]

theorem fixed_map (s : Store) (f : Trace → Memory) (t : Tier)
    (h : ∀ a, (f a).fixed = a.memory.fixed) : (s.map f).fixed t = s.fixed t := by
  simp [fixed, memories, traces, map, Function.comp_def, h]

theorem fixed_countRetrievals (s : Store) (retrieved : List Trace) (t : Tier) :
    (s.countRetrievals retrieved).fixed t = s.fixed t := by
  unfold countRetrievals
  induction retrieved generalizing s with
  | nil => rfl
  | cons a rest ih =>
      rw [List.foldl_cons, ih]
      apply fixed_map
      intro b
      split
      · exact Memory.fixed_retrieve _
      · rfl

/-- A retrieval changes only how often memories were retrieved. -/
theorem fixed_retrieve {s s' : Store} {c : RetrievalConfig} {query : Embedding}
    {found : List Memory} (h : s.retrieve c query = .ok (found, s')) (t : Tier) :
    s'.fixed t = s.fixed t := by
  unfold retrieve at h
  cases hs : s.select c query with
  | error e => simp [hs, bind, Except.bind] at h
  | ok selected =>
      simp only [hs, bind, Except.bind, pure, Except.pure, Except.ok.injEq, Prod.mk.injEq] at h
      rw [← h.2]
      exact fixed_countRetrievals s selected t

end Store

namespace Consolidation

theorem ordered_perm (w : ScoreWeights) (now : Time.Instant) (traces : List Trace) :
    (ordered w now traces).Perm traces := by
  unfold ordered
  have hsort := List.mergeSort_perm (traces.map fun a => (keepScore w now a.memory, a))
    fun a b => (order a b).isLE
  have hmap := hsort.map Prod.snd
  rw [List.map_map] at hmap
  simpa [Function.comp_def] using hmap

/-- What is kept and what is demoted make up what there was. -/
theorem partition_perm (w : ScoreWeights) (now : Time.Instant) (capacity : Nat)
    (traces : List Trace) :
    ((partition w now capacity traces).1 ++ (partition w now capacity traces).2).Perm traces := by
  unfold partition
  rw [List.splitAt_eq, List.take_append_drop]
  exact ordered_perm w now traces

theorem mergeSort_pair {α : Type} (le : α → α → Bool) (a b : α) :
    [a, b].mergeSort le = if le a b then [a, b] else [b, a] := by
  simp [List.mergeSort, List.MergeSort.Internal.splitInTwo, List.merge]

/-- Of two memories the better one stays. -/
theorem partition_pair (w : ScoreWeights) (now : Time.Instant) (a b : Trace) :
    partition w now 1 [a, b] =
      if (order (keepScore w now a.memory, a) (keepScore w now b.memory, b)).isLE then ([a], [b])
      else ([b], [a]) := by
  unfold partition ordered
  simp only [List.map_cons, List.map_nil]
  rw [mergeSort_pair]
  split
  · rfl
  · rfl

/-- Everything beyond the capacity is demoted. -/
theorem length_demoted (w : ScoreWeights) (now : Time.Instant) (capacity : Nat)
    (traces : List Trace) :
    (partition w now capacity traces).2.length = traces.length - capacity := by
  unfold partition
  rw [List.splitAt_eq, List.length_drop, (ordered_perm w now traces).length_eq]

end Consolidation

end Engram
