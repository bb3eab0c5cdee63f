import Engram.Proofs.Association
import Engram.Proofs.Sharing
import Mathlib.Algebra.BigOperators.Group.Finset.Basic
import Mathlib.Algebra.Order.BigOperators.Group.Finset

/-! Linking memories to what goes together with what they mention. Afterwards a memory has its old
associations and the partners of the concepts in its content, and what is reported is by how much
the associations have grown, where a memory that stands at several places counts once: whichever
place comes first adds what is new, and at the others nothing is left to add. -/
namespace Engram

namespace Store

/-- The numbers in use. -/
def numbers (s : Store) : Finset Nat := (s.all.map (·.number)).toFinset

/-- The associations of the memory that was enrolled under a number. -/
def associations (s : Store) (n : Nat) : Finset String :=
  ((s.all.filter (·.number = n)).flatMap (·.memory.associations)).toFinset

/-- The number of associations, where a memory counts once at however many places it stands. -/
def associationCount (s : Store) : Nat := ∑ n ∈ s.numbers, (s.associations n).card

variable {s : Store}

theorem mem_associations {n : Nat} {name : String} :
    name ∈ s.associations n ↔ ∃ a ∈ s.all, a.number = n ∧ name ∈ a.memory.associations := by
  simp [associations, and_assoc]

theorem Sound.associations_eq (sound : s.Sound) {a : Trace} (ha : a ∈ s.all) :
    s.associations a.number = a.memory.associations.toFinset := by
  ext name
  rw [mem_associations, List.mem_toFinset]
  constructor
  · rintro ⟨b, hb, hnumber, hname⟩
    rwa [← sound.single b hb a ha hnumber]
  · intro hname
    exact ⟨a, ha, rfl, hname⟩

theorem Sound.card_associations (sound : s.Sound) {a : Trace} (ha : a ∈ s.all) :
    (s.associations a.number).card = a.memory.associations.length := by
  rw [sound.associations_eq ha, List.toFinset_card_of_nodup (sound.sets a ha).nodup]

theorem mem_numbers {a : Trace} (ha : a ∈ s.all) : a.number ∈ s.numbers :=
  List.mem_toFinset.mpr (List.mem_map_of_mem ha)

theorem numbers_of_map (s : Store) (f : Trace → Memory) : (s.map f).numbers = s.numbers := by
  unfold numbers
  rw [numbers_map]

theorem associations_modify_of_ne (f : Memory → Memory) {n number : Nat} (other : n ≠ number) :
    (s.modify number f).associations n = s.associations n := by
  unfold associations modify
  rw [all_map, List.filter_map, List.flatMap_map]
  congr 1
  refine List.flatMap_congr fun a ha => ?_
  have hnumber : a.number = n := by simpa using (List.mem_filter.mp ha).2
  rw [if_neg (hnumber ▸ other)]

/-- A change of one memory by which its associations become more by `count`. -/
theorem Sound.associationCount_modify (sound : s.Sound) {a : Trace} (ha : a ∈ s.all)
    {f : Memory → Memory} {count : Nat} (changed : (s.modify a.number f).Sound)
    (grown : (f a.memory).associations.length = a.memory.associations.length + count) :
    (s.modify a.number f).associationCount = s.associationCount + count := by
  have hplace : ⟨a.number, f a.memory⟩ ∈ (s.modify a.number f).all := by
    unfold modify
    rw [all_map]
    exact List.mem_map.mpr ⟨a, ha, by rw [if_pos rfl]⟩
  have hthere : ((s.modify a.number f).associations a.number).card =
      (s.associations a.number).card + count := by
    rw [sound.card_associations ha, ← grown]
    exact changed.card_associations hplace
  have helsewhere : ∀ n ∈ s.numbers.erase a.number,
      ((s.modify a.number f).associations n).card = (s.associations n).card := by
    intro n hn
    rw [associations_modify_of_ne f (Finset.ne_of_mem_erase hn)]
  unfold associationCount
  rw [show (s.modify a.number f).numbers = s.numbers from numbers_of_map _ _,
    ← Finset.add_sum_erase _ _ (mem_numbers ha), ← Finset.add_sum_erase _ _ (mem_numbers ha),
    hthere, Finset.sum_congr rfl helsewhere]
  omega

end Store

namespace Nightly

/-- Two concepts that go together by one of the patterns. -/
def Paired (patterns : List Pattern) (a b : String) : Prop :=
  ∃ p ∈ patterns, p.kind = .coOccurrence ∧ (p.concepts = [a, b] ∨ p.concepts = [b, a])

/-- What linking by some patterns makes of a trace: its memory also has the partners of the concepts
that its content mentions, and nothing else of it changes. -/
structure Linked (extractor : Extractor) (patterns : List Pattern) (old new : Trace) : Prop where
  number : new.number = old.number
  rest : new.memory = { old.memory with associations := new.memory.associations }
  set : Names.Strict new.memory.associations
  members : ∀ name, name ∈ new.memory.associations ↔ name ∈ old.memory.associations ∨
    ∃ concept ∈ extractor old.memory.content, Paired patterns concept name

variable {extractor : Extractor} {pairs : List (String × String)} {patterns : List Pattern}

theorem mem_pairsOf {a b : String} :
    (a, b) ∈ pairsOf patterns ↔ ∃ p ∈ patterns, p.kind = .coOccurrence ∧ p.concepts = [a, b] := by
  unfold pairsOf
  rw [List.mem_filterMap]
  refine exists_congr fun p => and_congr_right fun _ => ?_
  split
  · rename_i hkind hconcepts
    simp [hkind, hconcepts]
  · rename_i hother
    refine ⟨fun h => absurd h (by simp), fun h => ?_⟩
    exact absurd h.2 (hother a b h.1)

theorem mem_partners {concepts : List String} {name : String} :
    name ∈ partners (pairsOf patterns) concepts ↔
      ∃ concept ∈ concepts, Paired patterns concept name := by
  have hside : ∀ a b : String, name ∈ (if (Std.HashSet.ofList concepts).contains a then [b] else [])
      ↔ a ∈ concepts ∧ name = b := by
    intro a b
    by_cases ha : a ∈ concepts <;> simp [Std.HashSet.contains_ofList, ha]
  unfold partners
  rw [List.mem_flatMap]
  constructor
  · rintro ⟨⟨a, b⟩, hpair, hname⟩
    obtain ⟨p, hp, hkind, hconcepts⟩ := mem_pairsOf.mp hpair
    rcases List.mem_append.mp hname with hname | hname
    · obtain ⟨ha, rfl⟩ := (hside a b).mp hname
      exact ⟨a, ha, p, hp, hkind, .inl hconcepts⟩
    · obtain ⟨hb, rfl⟩ := (hside b a).mp hname
      exact ⟨b, hb, p, hp, hkind, .inr hconcepts⟩
  · rintro ⟨concept, hconcept, p, hp, hkind, hconcepts | hconcepts⟩
    · exact ⟨(concept, name), mem_pairsOf.mpr ⟨p, hp, hkind, hconcepts⟩,
        List.mem_append_left _ ((hside concept name).mpr ⟨hconcept, rfl⟩)⟩
    · exact ⟨(name, concept), mem_pairsOf.mpr ⟨p, hp, hkind, hconcepts⟩,
        List.mem_append_right _ ((hside concept name).mpr ⟨hconcept, rfl⟩)⟩

theorem linked_link {a : Trace} (strict : Names.Strict a.memory.associations) :
    Linked extractor patterns a ⟨a.number, link extractor (pairsOf patterns) a.memory⟩ where
  number := rfl
  rest := (extended_link a.memory).1.rest
  set := (extended_link a.memory).1.strict strict
  members name := by
    rw [mem_link, mem_partners]

/-- Of the patterns, linking keeps nothing but which concepts go together. -/
theorem link_perm {others : List Pattern} (perm : patterns.Perm others) {m : Memory}
    (strict : Names.Strict m.associations) :
    link extractor (pairsOf others) m = link extractor (pairsOf patterns) m := by
  have hpaired : ∀ concept name, Paired others concept name ↔ Paired patterns concept name :=
    fun _ _ => exists_congr fun p => and_congr_left fun _ => perm.mem_iff.symm
  have hset : (link extractor (pairsOf others) m).associations =
      (link extractor (pairsOf patterns) m).associations := by
    refine ((extended_link m).1.strict strict).ext ((extended_link m).1.strict strict) ?_
    intro name
    simp only [mem_link, mem_partners, hpaired]
  rw [(extended_link m).1.rest, hset, ← (extended_link m).1.rest]

variable {s : Store}

theorem sound_linkAll (sound : s.Sound) : (linkAll extractor patterns s).Sound :=
  sound.map fun a ha => (extended_link a.memory).1.strict (sound.sets a ha)

theorem linkAll_perm (sound : s.Sound) {others : List Pattern} (perm : patterns.Perm others) :
    linkAll extractor others s = linkAll extractor patterns s :=
  Store.map_congr fun a ha => link_perm perm (sound.sets a ha)

/-- Linking a memory at all its places counts by how much the associations grow, and at the places
that come later there is nothing left to count. -/
theorem sound_linkTrace (sound : s.Sound) {a : Trace} (known : a.number ∈ s.numbers) :
    (linkTrace extractor pairs s a).1.Sound ∧
      (linkTrace extractor pairs s a).1.associationCount =
        s.associationCount + (linkTrace extractor pairs s a).2 := by
  obtain ⟨b, hb, hnumber⟩ := List.mem_map.mp (List.mem_toFinset.mp known)
  have hcurrent : s.current a = b := by
    unfold Store.current
    rw [← hnumber, sound.stands hb]
    rfl
  have hsound : (s.modify b.number fun m => link extractor pairs m).Sound := by
    refine sound.map fun c hc => ?_
    split
    · exact (extended_link c.memory).1.strict (sound.sets c hc)
    · exact sound.sets c hc
  have hgrown := sound.associationCount_modify hb hsound (extended_link b.memory).2
  unfold linkTrace
  rw [hcurrent, ← hnumber]
  exact ⟨hsound, hgrown⟩

/-- A store with the numbers it had, whose memories may have been linked. -/
structure Underway (s s' : Store) : Prop extends s'.Sound where
  numbers : s'.numbers = s.numbers

theorem underway_linkTrace {s' : Store} (underway : Underway s s') {a : Trace}
    (known : a.number ∈ s.numbers) :
    Underway s (linkTrace extractor pairs s' a).1 ∧
      (linkTrace extractor pairs s' a).1.associationCount =
        s'.associationCount + (linkTrace extractor pairs s' a).2 := by
  obtain ⟨hsound, hgrown⟩ := sound_linkTrace underway.toSound (underway.numbers ▸ known)
  exact ⟨⟨hsound, (Store.numbers_of_map _ _).trans underway.numbers⟩, hgrown⟩

theorem underway_linkTier {s' : Store} (underway : Underway s s') (t : Tier) :
    Underway s (linkTier extractor pairs s' t).1 ∧
      (linkTier extractor pairs s' t).1.associationCount =
        s'.associationCount + (linkTier extractor pairs s' t).2 := by
  refine addUp_grows ?_ underway
  intro s'' a ha underway'
  refine underway_linkTrace underway' ?_
  rw [← underway.numbers]
  exact Store.mem_numbers (Store.mem_all_of_mem_traces ha)

/-- What the passes add up is by how much the associations grow. -/
theorem associationCount_linkMemories (sound : s.Sound) :
    (linkMemories extractor s patterns).1.associationCount =
      s.associationCount + (linkMemories extractor s patterns).2 := by
  unfold linkMemories
  by_cases hnone : pairsOf patterns = []
  · simp [hnone]
  · simp only [List.isEmpty_iff, hnone, if_false]
    exact (addUp_grows (P := Underway s) (f := Store.associationCount)
      (fun s' t _ underway => underway_linkTier underway t) ⟨sound, rfl⟩).2

/-- Associations are not lost. -/
theorem associations_subset_linkAll (n : Nat) :
    s.associations n ⊆ (linkAll extractor patterns s).associations n := by
  intro name hname
  obtain ⟨a, ha, hnumber, hname⟩ := Store.mem_associations.mp hname
  have hlinked : ⟨a.number, link extractor (pairsOf patterns) a.memory⟩ ∈
      (linkAll extractor patterns s).all := by
    rw [linkAll, Store.all_map]
    exact List.mem_map.mpr ⟨a, ha, rfl⟩
  exact Store.mem_associations.mpr ⟨_, hlinked, hnumber, mem_link.mpr (.inl hname)⟩

theorem count_linkMemories (sound : s.Sound) :
    (linkMemories extractor s patterns).2 =
      ∑ n ∈ s.numbers, ((linkAll extractor patterns s).associations n \ s.associations n).card := by
  have hnumbers : (linkAll extractor patterns s).numbers = s.numbers := s.numbers_of_map _
  have hsubset := @associations_subset_linkAll extractor patterns s
  have hcount : (linkAll extractor patterns s).associationCount =
      s.associationCount + (linkMemories extractor s patterns).2 := by
    rw [← store_linkMemories]
    exact associationCount_linkMemories sound
  simp only [Finset.card_sdiff_of_subset (hsubset _)]
  rw [Finset.sum_tsub_distrib _ fun n _ => Finset.card_le_card (hsubset n)]
  unfold Store.associationCount at hcount
  rw [hnumbers] at hcount
  omega

theorem linkMemories_perm (sound : s.Sound) {others : List Pattern}
    (perm : patterns.Perm others) :
    linkMemories extractor s others = linkMemories extractor s patterns := by
  refine Prod.ext ?_ ?_
  · rw [store_linkMemories, store_linkMemories, linkAll_perm sound perm]
  · rw [count_linkMemories sound, count_linkMemories sound, linkAll_perm sound perm]

theorem linkMemories_linkAll (sound : s.Sound) :
    linkMemories extractor (linkAll extractor patterns s) patterns =
      (linkAll extractor patterns s, 0) := by
  have hagain : linkAll extractor patterns (linkAll extractor patterns s) =
      linkAll extractor patterns s := by
    unfold linkAll
    rw [Store.map_map]
    exact Store.map_congr fun a _ => link_link a.memory
  refine Prod.ext ?_ ?_
  · rw [store_linkMemories, hagain]
  · rw [count_linkMemories (sound_linkAll sound), hagain]
    simp

/-- Linking gives every memory, at all its places, the partners of the concepts it mentions and
changes nothing else, and it returns by how much the associations have grown. The order of the
patterns has no influence, and linking once more has nothing to add. -/
theorem linking_exact (extractor : Extractor) (sound : s.Sound) (patterns : List Pattern) :
    let linked := linkMemories extractor s patterns
    (∀ t, List.Forall₂ (Linked extractor patterns) (s.traces t) (linked.1.traces t)) ∧
    linked.1.former = s.former ∧ linked.1.enrolled = s.enrolled ∧ linked.1.Sound ∧
    linked.2 = ∑ n ∈ s.numbers, (linked.1.associations n \ s.associations n).card ∧
    (∀ others, patterns.Perm others → linkMemories extractor s others = linked) ∧
    linkMemories extractor linked.1 patterns = (linked.1, 0) := by
  have hstore := store_linkMemories extractor s patterns
  refine ⟨?_, ?_, ?_, ?_, ?_, fun others => linkMemories_perm sound, ?_⟩ <;> rw [hstore]
  · intro t
    rw [linkAll, Store.traces_map, List.forall₂_map_right_iff, List.forall₂_same]
    exact fun a ha => linked_link (sound.sets a (Store.mem_all_of_mem_traces ha))
  · rfl
  · rfl
  · exact sound_linkAll sound
  · exact count_linkMemories sound
  · exact linkMemories_linkAll sound

namespace Sample

def rain : Memory := ⟨⟨1⟩, "rain", .working, ⟨0, 0⟩, [], 0.5, [], 0⟩

def alone : Store := Store.empty.add rain

/-- The memory of one tier stands in another as well. -/
def shared : Store := (alone.commit .episodic [] (alone.traces .working)).1

def pattern (kind : PatternKind) (concepts : List String) : Pattern :=
  .ofSightings kind ⟨0, 0⟩ concepts [] 0.5

/-- Two patterns pair the same concepts, one pairs a concept with itself, and the rest are of
another kind or no pairs. -/
def weather : List Pattern := [
  pattern .coOccurrence ["rain", "umbrella"], pattern .coOccurrence ["umbrella", "rain"],
  pattern .coOccurrence ["rain", "rain"], pattern .sequential ["rain", "snow"],
  pattern .coOccurrence ["rain", "snow", "wind"]]

/-- What becomes of the memory. -/
def wet : Trace := ⟨0, { rain with associations := ["rain", "umbrella"] }⟩

theorem sound_shared : shared.Sound := by
  have built : alone.Built := Store.Built.empty.add List.Pairwise.nil
  refine (built.commit .episodic [] ?_).sound
  intro a ha
  exact built.sound.stands (Store.mem_all_of_mem_traces ha)

theorem paired_rain {name : String} :
    Paired weather "rain" name ↔ name = "rain" ∨ name = "umbrella" := by
  constructor
  · rintro ⟨p, hp, hkind, hconcepts⟩
    simp only [weather, List.mem_cons, List.not_mem_nil, or_false] at hp
    rcases hp with rfl | rfl | rfl | rfl | rfl <;>
      simp_all [pattern, Pattern.ofSightings, eq_comm]
  · rintro (rfl | rfl)
    · exact ⟨pattern .coOccurrence ["rain", "rain"], by simp [weather], rfl, .inl rfl⟩
    · exact ⟨pattern .coOccurrence ["rain", "umbrella"], List.mem_cons_self, rfl, .inl rfl⟩

theorem eq_wet {a : Trace} (linked : Linked (fun text => [text]) weather ⟨0, rain⟩ a) :
    a = wet := by
  have hset : Names.Strict ["rain", "umbrella"] := by
    unfold Names.Strict
    decide
  have hassociations : a.memory.associations = ["rain", "umbrella"] := by
    refine linked.set.ext hset fun name => ?_
    simpa [rain, paired_rain] using linked.members name
  have hmemory := linked.rest
  rw [hassociations] at hmemory
  obtain ⟨number, memory⟩ := a
  obtain rfl : number = 0 := linked.number
  exact congrArg (Trace.mk 0) hmemory

end Sample

open Sample in
theorem linking_exact_sample :
    shared.Sound ∧
    ∃ linked, linkMemories (fun text => [text]) shared weather = (linked, 2) ∧
      linked.traces .working = [wet] ∧ linked.traces .episodic = [wet] ∧
      linkMemories (fun text => [text]) shared weather.reverse = (linked, 2) ∧
      linkMemories (fun text => [text]) linked weather = (linked, 0) := by
  obtain ⟨htraces, _, _, hsound, hgrowth, hperm, hagain⟩ :=
    linking_exact (fun text => [text]) sound_shared weather
  have hreverse := hperm weather.reverse weather.reverse_perm.symm
  generalize linkMemories (fun text => [text]) shared weather = result at *
  obtain ⟨linked, growth⟩ := result
  have hwet : ∀ t, shared.traces t = [⟨0, rain⟩] → linked.traces t = [wet] := by
    intro t ht
    have hlinked := htraces t
    rw [ht] at hlinked
    obtain ⟨a, _, ha, hnil, heq⟩ := List.forall₂_cons_left_iff.mp hlinked
    rw [heq, List.forall₂_nil_left_iff.mp hnil, eq_wet ha]
  have hworking := hwet .working rfl
  have hafter : linked.associations 0 = {"rain", "umbrella"} := by
    have hmem : wet ∈ linked.all :=
      Store.mem_all_of_mem_traces (hworking ▸ List.mem_singleton_self _)
    exact hsound.associations_eq hmem
  have hgrown : growth = 2 := by
    have hbefore : shared.associations 0 = ∅ := rfl
    have hnumbers : shared.numbers = {0} := rfl
    rw [show growth = _ from hgrowth, hnumbers, Finset.sum_singleton, hafter, hbefore]
    rfl
  subst hgrown
  exact ⟨sound_shared, linked, rfl, hworking, hwet .episodic rfl, hreverse, hagain⟩

end Nightly

end Engram
