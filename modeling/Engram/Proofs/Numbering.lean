import Engram.Proofs.Loop
import Engram.Proofs.Store
import Mathlib.Data.List.GetD
import Mathlib.Data.List.Nodup

/-! The numbers of traces. They tell the places of one enrolled memory from those of another, and
have no other use: where every trace has a number of its own, what a store does depends on its
memories alone. -/
namespace Engram

open scoped List

/-- The same memory under another number. -/
def Trace.renumber (f : Nat → Nat) (a : Trace) : Trace := ⟨f a.number, a.memory⟩

/-- The same comparison for a trace with another number. -/
def Ranked.renumber (f : Nat → Nat) (r : Ranked) : Ranked :=
  { r with trace := r.trace.renumber f }

namespace Store

/-- Every trace has a number of its own, below the next one. -/
structure Tidy (s : Store) : Prop where
  distinct : (s.all.map (·.number)).Nodup
  below : ∀ a ∈ s.all, a.number < s.enrolled

/-- The traces of all other tiers. -/
def others (s : Store) (t : Tier) : List Trace := (Tier.all.erase t).flatMap s.traces

theorem all_perm (s : Store) (t : Tier) : s.all ~ s.traces t ++ s.others t :=
  (List.perm_cons_erase t.mem_all).flatMap_right s.traces

/-- Traces in place of a tier stand beside those of the other tiers. -/
theorem all_set_perm (s : Store) (t : Tier) (traces former : List Trace) (enrolled : Nat) :
    (⟨s.tiers.set t traces, former, enrolled⟩ : Store).all ~ traces ++ s.others t := by
  refine (all_perm _ t).trans ?_
  have hothers : (⟨s.tiers.set t traces, former, enrolled⟩ : Store).others t = s.others t := by
    refine List.flatMap_congr ?_
    intro u hu
    have hne : u ≠ t := ((by cases t <;> decide : Tier.all.Nodup).mem_erase_iff.mp hu).1
    exact Tiers.get_set_of_ne _ _ hne
  rw [hothers]
  simp [Store.traces]

theorem tidy_empty : empty.Tidy := by
  constructor
  · decide
  · intro a ha
    exact absurd ha (by simp [all, Tier.all, traces, empty, Tiers.get, Tiers.replicate])

theorem mem_all_of_mem_others {s : Store} {t : Tier} {a : Trace} (h : a ∈ s.others t) :
    a ∈ s.all :=
  (s.all_perm t).symm.subset (List.mem_append_right _ h)

theorem numbers_enroll (s : Store) (memories : List Memory) :
    (s.enroll memories).1.map (·.number) = List.range' s.enrolled memories.length := by
  apply List.ext_getElem
  · simp [enroll]
  · intro i _ _
    simp [enroll]

/-- Part of a tier and newly enrolled memories behind it, in place of the tier. -/
theorem Tidy.place {s : Store} (tidy : s.Tidy) {t : Tier} {kept rest : List Trace}
    (part : kept ++ rest ~ s.traces t) (memories : List Memory) (former : List Trace) :
    (⟨s.tiers.set t (kept ++ (s.enroll memories).1), former,
      s.enrolled + memories.length⟩ : Store).Tidy := by
  have hold : kept ++ s.others t ⊆ s.all := by
    refine List.append_subset.mpr ⟨fun a ha => ?_, fun a => mem_all_of_mem_others⟩
    exact mem_all_of_mem_traces (part.subset (List.mem_append_left _ ha))
  have hkept : ((kept ++ s.others t).map (·.number)).Nodup := by
    have hall := ((s.all_perm t).trans (part.symm.append_right _)).map (·.number)
    refine List.Nodup.sublist ?_ (hall.nodup_iff.mp tidy.distinct)
    exact ((List.sublist_append_left kept rest).append_right _).map _
  have hnew : ∀ n ∈ (s.enroll memories).1.map (·.number),
      s.enrolled ≤ n ∧ n < s.enrolled + memories.length := by
    intro n hn
    rw [numbers_enroll, List.mem_range'_1] at hn
    exact hn
  have hperm := all_set_perm s t (kept ++ (s.enroll memories).1) former
    (s.enrolled + memories.length)
  have hsplit : kept ++ (s.enroll memories).1 ++ s.others t ~
      kept ++ s.others t ++ (s.enroll memories).1 := by
    rw [List.append_assoc, List.append_assoc]
    exact List.perm_append_comm.append_left kept
  constructor
  · rw [((hperm.trans hsplit).map _).nodup_iff, List.map_append, List.nodup_append]
    refine ⟨hkept, ?_, ?_⟩
    · rw [numbers_enroll]
      exact List.nodup_range'
    · rintro n hn m hm rfl
      obtain ⟨a, ha, rfl⟩ := List.mem_map.mp hn
      have hbelow := tidy.below a (hold ha)
      have habove := (hnew a.number hm).1
      omega
  · intro a ha
    rcases List.mem_append.mp ((hperm.trans hsplit).subset ha) with ha | ha
    · have hbelow := tidy.below a (hold ha)
      exact Nat.lt_add_right _ hbelow
    · exact (hnew a.number (List.mem_map_of_mem ha)).2

theorem Tidy.add {s : Store} (tidy : s.Tidy) (m : Memory) : (s.add m).Tidy := by
  have whole : s.traces m.tier ++ [] ~ s.traces m.tier := by simp
  exact tidy.place whole [m] s.former

/-- What a consolidation keeps of a tier. -/
theorem Tidy.put {s : Store} (tidy : s.Tidy) {t : Tier} {kept rest : List Trace}
    (part : kept ++ rest ~ s.traces t) : (s.put t kept).Tidy := by
  have placed := tidy.place part [] (s.put t kept).former
  rw [show (s.enroll []).1 = [] from rfl, List.append_nil] at placed
  exact placed

theorem Tidy.replace {s : Store} (tidy : s.Tidy) (t : Tier) (memories : List Memory) :
    (s.replace t memories).Tidy := by
  have none : [] ++ s.traces t ~ s.traces t := by simp
  exact tidy.place none memories _

theorem Tidy.map {s : Store} (tidy : s.Tidy) (f : Trace → Memory) : (s.map f).Tidy := by
  constructor
  · rw [all_map, List.map_map]
    exact tidy.distinct
  · intro a ha
    rw [all_map] at ha
    obtain ⟨b, hb, rfl⟩ := List.mem_map.mp ha
    exact tidy.below b hb

theorem Tidy.countRetrievals {s : Store} (tidy : s.Tidy) (retrieved : List Trace) :
    (s.countRetrievals retrieved).Tidy := by
  unfold Store.countRetrievals
  induction retrieved generalizing s with
  | nil => exact tidy
  | cons a rest ih => exact ih (tidy.map _)

/-- `s'` holds what `s` holds under other numbers, which tell the same traces apart. -/
structure Renumbered (f : Nat → Nat) (s s' : Store) : Prop where
  traces : ∀ t, s'.traces t = (s.traces t).map (Trace.renumber f)
  apart : ∀ n ∈ s.all.map (·.number), ∀ m ∈ s.all.map (·.number), f n = f m → n = m

theorem Renumbered.memories {f : Nat → Nat} {s s' : Store} (h : Renumbered f s s') (t : Tier) :
    s'.memories t = s.memories t := by
  unfold Store.memories
  rw [h.traces, List.map_map]
  rfl

theorem map_memory_all (s : Store) : s.all.map (·.memory) = Tier.all.flatMap s.memories := by
  unfold all
  rw [List.map_flatMap]
  rfl

/-- Lists that are the same when put together, and of the same lengths, are the same. -/
theorem eq_of_flatMap_eq {α β : Type} {g h : α → List β} {items : List α}
    (whole : items.flatMap g = items.flatMap h)
    (lengths : ∀ a ∈ items, (g a).length = (h a).length) : ∀ a ∈ items, g a = h a := by
  induction items with
  | nil => simp
  | cons first items ih =>
      rw [List.flatMap_cons, List.flatMap_cons] at whole
      obtain ⟨hfirst, hrest⟩ := List.append_inj whole (lengths first List.mem_cons_self)
      intro a ha
      rcases List.mem_cons.mp ha with rfl | ha
      · exact hfirst
      · exact ih hrest (fun b hb => lengths b (List.mem_cons_of_mem _ hb)) a ha

/-- Two stores with the same memories differ only in the numbers of their traces. -/
theorem Tidy.exists_renumbered {s s' : Store} (tidy : s.Tidy) (tidy' : s'.Tidy)
    (same : ∀ t, s'.memories t = s.memories t) : ∃ f, Renumbered f s s' := by
  let numbers := s.all.map (·.number)
  let numbers' := s'.all.map (·.number)
  let f (n : Nat) : Nat := numbers'.getD (numbers.idxOf n) 0
  have hmemories : s'.all.map (·.memory) = s.all.map (·.memory) := by
    rw [map_memory_all, map_memory_all]
    exact List.flatMap_congr fun t _ => same t
  have hlength : s'.all.length = s.all.length := by
    simpa using congrArg List.length hmemories
  have hall : s'.all = s.all.map (Trace.renumber f) := by
    apply List.ext_getElem
    · simp [hlength]
    · intro i h' h
      have hi : i < s.all.length := by simpa using h
      have hplace : numbers.idxOf s.all[i].number = i := by
        have hin : i < numbers.length := by simpa [numbers] using hi
        have hget : numbers[i] = s.all[i].number := by simp [numbers]
        rw [← hget]
        exact List.Nodup.idxOf_getElem tidy.distinct i hin
      have hnumber : f s.all[i].number = s'.all[i].number := by
        simp only [f, hplace]
        rw [List.getD_eq_getElem _ _ (by simpa [numbers'] using h')]
        simp [numbers']
      have hmemory : s'.all[i].memory = s.all[i].memory := by
        have hget := List.getElem_of_eq hmemories (by simpa using h')
        simpa using hget
      rw [List.getElem_map, Trace.renumber, hnumber, ← hmemory]
  refine ⟨f, ?_, ?_⟩
  · have hflat : Tier.all.flatMap s'.traces =
        Tier.all.flatMap fun t => (s.traces t).map (Trace.renumber f) := by
      rw [← List.map_flatMap]
      exact hall
    intro t
    refine eq_of_flatMap_eq hflat ?_ t t.mem_all
    intro u _
    simpa [Store.memories] using congrArg List.length (same u)
  · intro n hn m hm h
    have himage : (numbers.map f).Nodup := by
      have : numbers.map f = numbers' := by
        simp only [numbers, numbers', hall, List.map_map]
        rfl
      rw [this]
      exact tidy'.distinct
    exact List.inj_on_of_nodup_map himage hn hm h

end Store

/-- A change of every answer is a change of their list. -/
theorem mapM_map_answers {α β γ ε : Type} (g : α → Except ε β) (h : β → γ) (items : List α) :
    items.mapM (fun a => (g a).map h) = (items.mapM g).map (List.map h) := by
  induction items with
  | nil => rfl
  | cons a items ih =>
      rw [List.mapM_cons, List.mapM_cons, ih]
      cases g a with
      | error e => rfl
      | ok b =>
          cases items.mapM g with
          | error e => rfl
          | ok bs => rfl

theorem rank_renumber (f : Nat → Nat) (traces : List Trace) (query : Embedding) :
    rank (traces.map (Trace.renumber f)) query =
      (rank traces query).map (List.map (Ranked.renumber f)) := by
  have hcompare : (compareWith query) ∘ (Trace.renumber f) =
      fun a => (compareWith query a).map (Ranked.renumber f) := by
    funext a
    simp only [Function.comp_apply, compareWith, Trace.renumber]
    cases cosineSimilarity query a.memory.embedding with
    | error e => rfl
    | ok similarity => rfl
  unfold rank
  rw [List.mapM_map, hcompare, mapM_map_answers]
  cases traces.mapM (compareWith query) with
  | error e => rfl
  | ok ranked =>
      have hsort := List.map_mergeSort (r := Ranked.precedes) (s := Ranked.precedes)
        (f := Ranked.renumber f) (l := ranked) fun a _ b _ => rfl
      simp only [Except.map, bind, Except.bind, pure, Except.pure, hsort]

theorem trace_mem_of_rank {traces : List Trace} {query : Embedding} {ranked : List Ranked}
    (h : rank traces query = .ok ranked) {r : Ranked} (hr : r ∈ ranked) : r.trace ∈ traces := by
  unfold rank at h
  cases hcompared : traces.mapM (compareWith query) with
  | error e => simp [hcompared, bind, Except.bind] at h
  | ok compared =>
      simp only [hcompared, bind, Except.bind, pure, Except.pure] at h
      obtain rfl := Except.ok.inj h
      obtain ⟨a, ha, hcompare⟩ := mem_of_mapM_ok hcompared (List.mem_mergeSort.mp hr)
      unfold compareWith at hcompare
      cases hsimilarity : cosineSimilarity query a.memory.embedding with
      | error e => simp [hsimilarity, bind, Except.bind] at hcompare
      | ok similarity =>
          simp only [hsimilarity, bind, Except.bind, pure, Except.pure] at hcompare
          obtain rfl := Except.ok.inj hcompare
          exact ha

namespace Store

variable {f : Nat → Nat} {s s' : Store}

/-- The most relevant memories of a tier. -/
def best (s : Store) (c : RetrievalConfig) (query : Embedding) (t : Tier) :
    Except Error (List Trace) :=
  (rank (s.traces t) query).map fun ranked => (ranked.take (c.top t)).map (·.trace)

theorem select_eq (s : Store) (c : RetrievalConfig) (query : Embedding) :
    s.select c query = (Tier.all.mapM (s.best c query)).map List.flatten := by
  have hbest : s.best c query = fun t => do
      let ranked ← rank (s.traces t) query
      return (ranked.take (c.top t)).map (·.trace) := by
    funext t
    unfold best
    cases rank (s.traces t) query with
    | error e => rfl
    | ok ranked => rfl
  unfold select
  rw [hbest]
  generalize (Tier.all.mapM _ : Except Error (List (List Trace))) = selected
  cases selected with
  | error e => rfl
  | ok selected => rfl

theorem Renumbered.select (h : Renumbered f s s') (c : RetrievalConfig) (query : Embedding) :
    s'.select c query = (s.select c query).map (List.map (Trace.renumber f)) := by
  have hbest : s'.best c query =
      fun t => (s.best c query t).map (List.map (Trace.renumber f)) := by
    funext t
    unfold best
    rw [h.traces, rank_renumber]
    cases rank (s.traces t) query with
    | error e => rfl
    | ok ranked =>
        simp only [Except.map]
        rw [← List.map_take, List.map_map, List.map_map]
        rfl
  rw [select_eq, select_eq, hbest, mapM_map_answers]
  cases Tier.all.mapM (s.best c query) with
  | error e => rfl
  | ok selected => simp [Except.map, List.map_flatten]

theorem mem_all_of_mem_select {c : RetrievalConfig} {query : Embedding} {selected : List Trace}
    (h : s.select c query = .ok selected) {a : Trace} (ha : a ∈ selected) : a ∈ s.all := by
  rw [select_eq] at h
  cases hbest : Tier.all.mapM (s.best c query) with
  | error e => simp [hbest, Except.map] at h
  | ok lists =>
      rw [hbest] at h
      obtain rfl := Except.ok.inj h
      obtain ⟨best, hin, ha⟩ := List.mem_flatten.mp ha
      obtain ⟨t, _, hbest⟩ := mem_of_mapM_ok hbest hin
      unfold Store.best at hbest
      cases hrank : rank (s.traces t) query with
      | error e => simp [hrank, Except.map] at hbest
      | ok ranked =>
          rw [hrank] at hbest
          obtain rfl := Except.ok.inj hbest
          obtain ⟨r, hr, rfl⟩ := List.mem_map.mp ha
          exact mem_all_of_mem_traces (trace_mem_of_rank hrank (List.mem_of_mem_take hr))

theorem Renumbered.modify (h : Renumbered f s s') {n : Nat} (hn : n ∈ s.all.map (·.number))
    (change : Memory → Memory) : Renumbered f (s.modify n change) (s'.modify (f n) change) := by
  constructor
  · intro t
    unfold Store.modify
    rw [traces_map, traces_map, h.traces, List.map_map, List.map_map]
    refine List.map_congr_left ?_
    intro a ha
    have hnumber : f a.number = f n ↔ a.number = n := by
      refine ⟨h.apart _ ?_ n hn, congrArg f⟩
      exact List.mem_map_of_mem (mem_all_of_mem_traces ha)
    simp [Trace.renumber, hnumber]
  · unfold Store.modify
    rw [numbers_map]
    exact h.apart

theorem Renumbered.countRetrievals (h : Renumbered f s s') {retrieved : List Trace}
    (known : ∀ a ∈ retrieved, a.number ∈ s.all.map (·.number)) :
    Renumbered f (s.countRetrievals retrieved)
      (s'.countRetrievals (retrieved.map (Trace.renumber f))) := by
  unfold Store.countRetrievals
  induction retrieved generalizing s s' with
  | nil => exact h
  | cons a retrieved ih =>
      refine ih (h.modify (known a List.mem_cons_self) Memory.retrieve) ?_
      intro b hb
      unfold Store.modify
      rw [numbers_map]
      exact known b (List.mem_cons_of_mem _ hb)

/-- Stores with the same memories retrieve the same, and count it for the same memories. -/
theorem Tidy.retrieve (tidy : s.Tidy) (tidy' : s'.Tidy)
    (same : ∀ t, s'.memories t = s.memories t) (c : RetrievalConfig) (query : Embedding) :
    (∃ e, s.retrieve c query = .error e ∧ s'.retrieve c query = .error e) ∨
      ∃ found r r', s.retrieve c query = .ok (found, r) ∧ s'.retrieve c query = .ok (found, r') ∧
        r.Tidy ∧ r'.Tidy ∧ ∀ t, r'.memories t = r.memories t := by
  obtain ⟨f, h⟩ := tidy.exists_renumbered tidy' same
  unfold Store.retrieve
  rw [h.select]
  cases hselect : s.select c query with
  | error e => exact .inl ⟨e, rfl, rfl⟩
  | ok selected =>
      have known : ∀ a ∈ selected, a.number ∈ s.all.map (·.number) :=
        fun a ha => List.mem_map_of_mem (mem_all_of_mem_select hselect ha)
      refine .inr ⟨_, _, _, rfl, ?_, tidy.countRetrievals selected,
        tidy'.countRetrievals (selected.map (Trace.renumber f)),
        (h.countRetrievals known).memories⟩
      simp only [Except.map, bind, Except.bind, pure, Except.pure, List.map_map]
      rfl

/-- The memories that are similar to an embedding are found in the tiers as they stand. -/
theorem similar_congr (same : ∀ t, s'.memories t = s.memories t) (embedding : Embedding)
    (threshold : Float32) : s'.similar embedding threshold = s.similar embedding threshold := by
  let compared (m : Memory) : Except Error (Memory × Float32) := do
    return (m, ← cosineSimilarity embedding m.embedding)
  have hsimilar : ∀ r : Store, r.similar embedding threshold =
      ((r.all.map (·.memory)).mapM compared).map
        fun pairs => (pairs.filter fun p => threshold < p.2).map (·.1) := by
    intro r
    rw [List.mapM_map]
    change (r.all.mapM (compared ∘ fun a => a.memory) >>= fun pairs =>
      .ok ((pairs.filter fun p => threshold < p.2).map (·.1))) = _
    cases r.all.mapM (compared ∘ fun a => a.memory) with
    | error e => rfl
    | ok pairs => rfl
  have hmemories : s'.memories = s.memories := funext same
  rw [hsimilar, hsimilar, map_memory_all, map_memory_all, hmemories]

end Store

namespace Consolidation

theorem ordered_renumber (f : Nat → Nat) (w : ScoreWeights) (now : Time.Instant)
    (traces : List Trace) :
    ordered w now (traces.map (Trace.renumber f)) =
      (ordered w now traces).map (Trace.renumber f) := by
  let score (a : Trace) : Float × Trace := (keepScore w now a.memory, a)
  let renumber (p : Float × Trace) : Float × Trace := (p.1, p.2.renumber f)
  have hscore : (traces.map (Trace.renumber f)).map score = (traces.map score).map renumber := by
    rw [List.map_map, List.map_map]
    rfl
  have hsort : ((traces.map score).mergeSort fun a b => (order a b).isLE).map renumber =
      ((traces.map score).map renumber).mergeSort fun a b => (order a b).isLE :=
    List.map_mergeSort fun a _ b _ => rfl
  change (((traces.map (Trace.renumber f)).map score).mergeSort _).map (·.2) =
    (((traces.map score).mergeSort _).map (·.2)).map (Trace.renumber f)
  rw [hscore, ← hsort, List.map_map, List.map_map]
  rfl

/-- Which memories are kept and which are demoted depends on the memories alone. -/
theorem partition_congr {traces traces' : List Trace}
    (same : traces'.map (·.memory) = traces.map (·.memory)) (w : ScoreWeights)
    (now : Time.Instant) (capacity : Nat) :
    (partition w now capacity traces').1.map (·.memory) =
        (partition w now capacity traces).1.map (·.memory) ∧
      (partition w now capacity traces').2.map (·.memory) =
        (partition w now capacity traces).2.map (·.memory) := by
  let blank := Trace.renumber fun _ => 0
  have hblank : ∀ items : List Trace,
      items.map blank = (items.map (·.memory)).map fun m => ⟨0, m⟩ := by
    intro items
    rw [List.map_map]
    rfl
  have hordered : (ordered w now traces').map blank = (ordered w now traces).map blank := by
    rw [← ordered_renumber, ← ordered_renumber]
    exact congrArg (ordered w now) ((hblank traces').trans (same ▸ (hblank traces).symm))
  have hmemories : (ordered w now traces').map (·.memory) =
      (ordered w now traces).map (·.memory) := by
    have h := congrArg (List.map (·.memory)) hordered
    rw [List.map_map, List.map_map] at h
    exact h
  unfold partition
  rw [List.splitAt_eq, List.splitAt_eq]
  simp only [List.map_take, List.map_drop, hmemories, and_self]

end Consolidation

end Engram
