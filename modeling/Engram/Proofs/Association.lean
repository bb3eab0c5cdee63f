import Engram.Proofs.Names
import Engram.Proofs.Store

/-! Associating memories with concepts, and linking them by pairs of concepts. Of a memory nothing
but the associations changes: it has those it had and those it is given, and what is counted is by
how many they have become more. Linking goes through the tiers, and through the memories of each as
they then stand. Since there is nothing to add to a memory that was linked before, every memory ends
as if it had been linked once, at however many places it stands. -/
namespace Engram

namespace Memory

/-- `m'` is `m` with other associations, which are a set if those of `m` are. -/
structure Extended (m m' : Memory) : Prop where
  rest : m' = { m with associations := m'.associations }
  strict : Names.Strict m.associations → Names.Strict m'.associations

variable {m m' m'' : Memory}

theorem Extended.refl (m : Memory) : m.Extended m := ⟨rfl, fun strict => strict⟩

theorem Extended.trans (h : m.Extended m') (h' : m'.Extended m'') : m.Extended m'' where
  rest := by
    rw [h'.rest, h.rest]
  strict strict := h'.strict (h.strict strict)

theorem Extended.content (h : m.Extended m') : m'.content = m.content := by
  rw [h.rest]

theorem Extended.fixed (h : m.Extended m') : m'.fixed = m.fixed := by
  rw [h.rest]
  rfl

theorem associateWith_of_mem {concept : String} (known : concept ∈ m.associations) :
    m.associateWith concept = (m, 0) :=
  if_pos (List.contains_iff_mem.mpr known)

theorem associateWith_of_notMem {concept : String} (new : concept ∉ m.associations) :
    m.associateWith concept =
      ({ m with associations := Names.insert concept m.associations }, 1) :=
  if_neg (mt List.contains_iff_mem.mp new)

theorem extended_associateWith (m : Memory) (concept : String) :
    m.Extended (m.associateWith concept).1 ∧
      (m.associateWith concept).1.associations.length =
        m.associations.length + (m.associateWith concept).2 := by
  by_cases known : concept ∈ m.associations
  · rw [associateWith_of_mem known]
    exact ⟨.refl m, rfl⟩
  · rw [associateWith_of_notMem known]
    exact ⟨⟨rfl, fun strict => strict.insert concept⟩, Names.length_insert known⟩

theorem mem_associateWith {concept name : String} :
    name ∈ (m.associateWith concept).1.associations ↔
      name = concept ∨ name ∈ m.associations := by
  by_cases known : concept ∈ m.associations
  · rw [associateWith_of_mem known]
    exact ⟨.inr, fun h => h.elim (fun same => same ▸ known) fun old => old⟩
  · rw [associateWith_of_notMem known]
    exact Names.mem_insert

/-- What is counted is by how many the associations have become more. -/
theorem extended_associate (m : Memory) (concepts : List String) :
    m.Extended (m.associate concepts).1 ∧
      (m.associate concepts).1.associations.length =
        m.associations.length + (m.associate concepts).2 := by
  refine addUp_grows (P := m.Extended) (f := (·.associations.length)) ?_ (.refl m)
  intro m' concept _ hm'
  obtain ⟨hstep, hgrown⟩ := m'.extended_associateWith concept
  exact ⟨hm'.trans hstep, hgrown⟩

theorem mem_associate {concepts : List String} {name : String} :
    name ∈ (m.associate concepts).1.associations ↔ name ∈ m.associations ∨ name ∈ concepts := by
  unfold associate
  induction concepts generalizing m with
  | nil => simp [addUp_nil]
  | cons concept concepts ih =>
      rw [addUp_cons, ih, mem_associateWith, List.mem_cons, or_assoc, or_left_comm]

/-- What a memory is associated with already is not counted again. -/
theorem associate_of_subset {concepts : List String} (known : concepts ⊆ m.associations) :
    m.associate concepts = (m, 0) := by
  unfold associate
  induction concepts with
  | nil => rfl
  | cons concept concepts ih =>
      obtain ⟨hfirst, hrest⟩ := List.cons_subset.mp known
      rw [addUp_cons, associateWith_of_mem hfirst]
      simp only [ih hrest]

end Memory

namespace Nightly

variable {extractor : Extractor} {pairs : List (String × String)} {s : Store}

/-- The sides of a pair whose other sides are mentioned. -/
def otherSides (mentioned : Std.HashSet String) (pair : String × String) : List String :=
  (if mentioned.contains pair.1 then [pair.2] else []) ++
    (if mentioned.contains pair.2 then [pair.1] else [])

/-- What goes together with some concepts. -/
def partners (pairs : List (String × String)) (concepts : List String) : List String :=
  pairs.flatMap (otherSides (Std.HashSet.ofList concepts))

/-- Linking a memory by one pair after the other is associating it with all their other sides. -/
theorem linkMemory_eq (extractor : Extractor) (pairs : List (String × String)) (m : Memory) :
    linkMemory extractor pairs m = m.associate (partners pairs (extractor m.content)) := by
  have hpair : ∀ mentioned (m : Memory) pair,
      linkPair mentioned m pair = addUp Memory.associateWith m (otherSides mentioned pair) := by
    intro mentioned m pair
    rw [otherSides, addUp_append]
    rfl
  unfold linkMemory Memory.associate partners
  rw [addUp_flatMap]
  congr 1
  funext m pair
  exact hpair _ m pair

/-- A memory after it was linked. -/
def link (extractor : Extractor) (pairs : List (String × String)) (m : Memory) : Memory :=
  (linkMemory extractor pairs m).1

theorem extended_link (m : Memory) :
    m.Extended (link extractor pairs m) ∧
      (link extractor pairs m).associations.length =
        m.associations.length + (linkMemory extractor pairs m).2 := by
  unfold link
  rw [linkMemory_eq]
  exact m.extended_associate _

theorem mem_link {m : Memory} {name : String} :
    name ∈ (link extractor pairs m).associations ↔
      name ∈ m.associations ∨ name ∈ partners pairs (extractor m.content) := by
  unfold link
  rw [linkMemory_eq]
  exact Memory.mem_associate

/-- There is nothing to add to a memory that was linked. -/
theorem linkMemory_link (m : Memory) :
    linkMemory extractor pairs (link extractor pairs m) = (link extractor pairs m, 0) := by
  rw [linkMemory_eq, extended_link m |>.1.content]
  exact Memory.associate_of_subset fun name hname => mem_link.mpr (.inr hname)

theorem link_link (m : Memory) :
    link extractor pairs (link extractor pairs m) = link extractor pairs m :=
  calc
    _ = (linkMemory extractor pairs (link extractor pairs m)).1 := rfl
    _ = _ := by rw [linkMemory_link]

/-- A store after the memories of some numbers were linked. -/
def linkNumbers (extractor : Extractor) (pairs : List (String × String)) (numbers : List Nat)
    (s : Store) : Store :=
  s.map fun a => if a.number ∈ numbers then link extractor pairs a.memory else a.memory

/-- A memory whose number comes up again stays as it is. -/
theorem linkNumbers_linkNumbers (numbers others : List Nat) :
    linkNumbers extractor pairs others (linkNumbers extractor pairs numbers s) =
      linkNumbers extractor pairs (numbers ++ others) s := by
  unfold linkNumbers
  rw [Store.map_map]
  congr 1
  funext a
  by_cases first : a.number ∈ numbers
  · simp [first, link_link]
  · simp [first]

theorem numbers_linkNumbers (numbers : List Nat) (t : Tier) :
    ((linkNumbers extractor pairs numbers s).traces t).map (·.number) =
      (s.traces t).map (·.number) := by
  unfold linkNumbers
  rw [Store.traces_map, List.map_map]
  rfl

theorem linkNumbers_nil : linkNumbers extractor pairs [] s = s :=
  Store.map_eq_self fun _ _ => if_neg List.not_mem_nil

theorem store_linkTrace (s : Store) (a : Trace) :
    (linkTrace extractor pairs s a).1 = linkNumbers extractor pairs [a.number] s := by
  unfold linkTrace linkNumbers
  simp only [List.mem_singleton]
  rfl

theorem store_addUp_linkTrace (s : Store) (traces : List Trace) :
    (addUp (linkTrace extractor pairs) s traces).1 =
      linkNumbers extractor pairs (traces.map (·.number)) s := by
  induction traces generalizing s with
  | nil => exact linkNumbers_nil.symm
  | cons a traces ih =>
      rw [addUp_cons, ih, store_linkTrace, linkNumbers_linkNumbers]
      rfl

theorem store_addUp_linkTier (s : Store) (tiers : List Tier) :
    (addUp (linkTier extractor pairs) s tiers).1 =
      linkNumbers extractor pairs (tiers.flatMap fun t => (s.traces t).map (·.number)) s := by
  induction tiers generalizing s with
  | nil => exact linkNumbers_nil.symm
  | cons t tiers ih =>
      rw [addUp_cons, ih, linkTier, store_addUp_linkTrace, linkNumbers_linkNumbers]
      simp only [numbers_linkNumbers, List.flatMap_cons]

/-- A store with all its memories linked. -/
def linkAll (extractor : Extractor) (patterns : List Pattern) (s : Store) : Store :=
  s.map fun a => link extractor (pairsOf patterns) a.memory

/-- Whatever the order and however often a memory stands in the store, each is linked once. -/
theorem store_linkMemories (extractor : Extractor) (s : Store) (patterns : List Pattern) :
    (linkMemories extractor s patterns).1 = linkAll extractor patterns s := by
  unfold linkMemories linkAll
  by_cases hnone : pairsOf patterns = []
  · simp only [hnone, List.isEmpty_nil, if_true]
    exact (Store.map_eq_self fun _ _ => rfl).symm
  · simp only [List.isEmpty_iff, hnone, if_false]
    rw [store_addUp_linkTier]
    refine Store.map_congr fun a ha => if_pos ?_
    obtain ⟨t, ht, ha⟩ := List.mem_flatMap.mp ha
    exact List.mem_flatMap.mpr ⟨t, ht, List.mem_map_of_mem ha⟩

/-- Links change only the associations of memories. -/
theorem fixed_linkMemories (extractor : Extractor) (s : Store) (patterns : List Pattern)
    (t : Tier) : (linkMemories extractor s patterns).1.fixed t = s.fixed t := by
  rw [store_linkMemories]
  exact Store.fixed_map s _ t fun a => (extended_link a.memory).1.fixed

end Nightly

end Engram
