import Engram.Proofs.Background
import Engram.Proofs.Sign
import Engram.Proofs.Words
import Mathlib.Data.List.Nodup

/-! Searching recent interactions. The window holds the last items that were added, and a search
goes through it for the words of a query. An item is searched part by part, which comes to the same
as one text in which blanks stand between the parts. What is found comes with the greatest share of
the query's words first, and among equal shares the latest arrival first. -/
namespace Engram

/-- A stable sort leaves equals as they stood to each other. -/
theorem pairwise_sort_stable {α : Type} {cmp : α → α → Ordering} [Std.TransCmp cmp]
    {before : α → α → Prop} {items : List α} (standing : items.Pairwise before) :
    (items.mergeSort fun a b => (cmp a b).isLE).Pairwise fun a b =>
      cmp a b = .lt ∨ cmp a b = .eq ∧ before a b := by
  rw [← List.mergeSort_zipIdx, List.pairwise_map]
  refine (pairwise_sort_places items).imp_of_mem ?_
  rintro ⟨a, i⟩ ⟨b, j⟩ ha hb (hlt | ⟨heq, hplaces⟩)
  · exact .inl hlt
  · obtain ⟨hi, hfirst⟩ := List.mem_zipIdx' (List.mem_mergeSort.mp ha)
    obtain ⟨hj, hsecond⟩ := List.mem_zipIdx' (List.mem_mergeSort.mp hb)
    have hbefore := List.pairwise_iff_getElem.mp standing i j hi hj hplaces
    rw [← hfirst, ← hsecond] at hbefore
    exact .inr ⟨heq, hbefore⟩

theorem isNegative_shareOf (query words : List String) :
    Number.isNegative (shareOf query words) = false :=
  Number.isNegative_div (Number.isNegative_toFloat _) (Number.isNegative_toFloat _)

/-- A share depends only on which words there are. -/
theorem shareOf_congr {query words words' : List String}
    (h : ∀ word, word ∈ words ↔ word ∈ words') : shareOf query words = shareOf query words' := by
  have hcontains : words.contains = words'.contains := by
    funext word
    rw [List.contains_eq_mem, List.contains_eq_mem, decide_eq_decide]
    exact h word
  unfold shareOf
  rw [hcontains]

namespace ContextItem

/-- The parts of an item that are searched: what went in and out, and the metadata. -/
def texts (i : ContextItem) : List String :=
  i.input :: i.output :: i.metadata.flatMap fun field => [field.1, valueText field.2]

/-- The item as one text, with a separator between its parts. -/
def joined (separator : String) (i : ContextItem) : String := separator.intercalate i.texts

/-- The share of a query's words that the item has as one text. -/
def overlap (query separator : String) (i : ContextItem) : Float :=
  wordOverlap query (i.joined separator)

theorem words_eq (i : ContextItem) : i.words = (i.texts.flatMap Text.vocabulary).eraseDups := by
  unfold words texts
  rw [List.flatMap_cons, List.flatMap_cons, List.flatMap_assoc, List.append_assoc]
  simp only [List.flatMap_cons, List.flatMap_nil, List.append_nil]

theorem mem_words {i : ContextItem} {word : String} :
    word ∈ i.words ↔ ∃ text ∈ i.texts, word ∈ Text.vocabulary text := by
  rw [words_eq, List.mem_eraseDups, List.mem_flatMap]

/-- Part by part an item has the words that it has as one text. -/
theorem mem_words_iff_joined {separator : String} (separates : Text.Separates separator)
    (i : ContextItem) (word : String) :
    word ∈ i.words ↔ word ∈ Text.vocabulary (i.joined separator) := by
  rw [mem_words, joined, Text.mem_vocabulary, Text.bareWords_intercalate separates,
    List.mem_flatMap]
  simp only [Text.mem_vocabulary, ← and_assoc, exists_and_right]

theorem shareOf_words {separator query : String} (separates : Text.Separates separator)
    (asked : Text.vocabulary query ≠ []) (i : ContextItem) :
    shareOf (Text.vocabulary query) i.words = i.overlap query separator := by
  unfold overlap wordOverlap
  simp only
  rw [if_neg (by simpa using asked), shareOf_congr (i.mem_words_iff_joined separates)]

theorem isNegative_overlap {separator query : String} (separates : Text.Separates separator)
    (asked : Text.vocabulary query ≠ []) (i : ContextItem) :
    Number.isNegative (i.overlap query separator) = false := by
  rw [← i.shareOf_words separates asked]
  exact isNegative_shareOf _ _

end ContextItem

namespace ContextBuffer

theorem length_append {b : ContextBuffer} (fits : b.items.length ≤ b.capacity)
    (item : ContextItem) :
    (b.append item).1.items.length = min b.capacity (b.items.length + 1) := by
  unfold append
  simp only
  split
  · rename_i hover
    rw [List.length_append, List.length_singleton] at hover
    rw [List.length_tail, List.length_append, List.length_singleton]
    omega
  · rename_i hover
    rw [List.length_append, List.length_singleton] at hover ⊢
    omega

theorem capacity_append (b : ContextBuffer) (item : ContextItem) :
    (b.append item).1.capacity = b.capacity := by
  unfold append
  simp only
  split
  · rfl
  · rfl

theorem length_appendAll {b : ContextBuffer} (fits : b.items.length ≤ b.capacity)
    (items : List ContextItem) :
    (b.appendAll items).items.length = min b.capacity (b.items.length + items.length) := by
  induction items generalizing b with
  | nil =>
      rw [appendAll_nil, List.length_nil]
      omega
  | cons item items ih =>
      have hlength := length_append fits item
      have hcapacity := b.capacity_append item
      have hrest := ih (b := (b.append item).1) (by omega)
      rw [hlength, hcapacity] at hrest
      change ((b.append item).1.appendAll items).items.length = _
      rw [hrest, List.length_cons]
      omega

/-- The window holds the last items that were added, as many as it has room for. -/
theorem items_appendAll (capacity : Nat) (items : List ContextItem) :
    ((empty capacity).appendAll items).items = items.drop (items.length - max capacity 1) := by
  have hsuffix := (empty capacity).appendAll_suffix items
  have hlength := length_appendAll (b := empty capacity) (Nat.zero_le _) items
  change _ <:+ [] ++ items at hsuffix
  change _ = min (max capacity 1) (0 + items.length) at hlength
  rw [List.nil_append] at hsuffix
  rw [List.suffix_iff_eq_drop.mp hsuffix, hlength]
  congr 1
  omega

/-- The items of the window with their places among all that were added, the last one first. -/
def arrivals (capacity : Nat) (items : List ContextItem) : List (ContextItem × Nat) :=
  let gone := items.length - max capacity 1
  ((items.drop gone).zipIdx gone).reverse

theorem mem_arrivals {capacity : Nat} {items : List ContextItem} {p : ContextItem × Nat} :
    p ∈ arrivals capacity items ↔
      items[p.2]? = some p.1 ∧ items.length ≤ p.2 + max capacity 1 := by
  obtain ⟨item, place⟩ := p
  rw [arrivals, List.mem_reverse, List.mk_mem_zipIdx_iff_le_and_getElem?_sub, List.getElem?_drop]
  constructor
  · rintro ⟨hgone, hitem⟩
    rw [Nat.add_sub_of_le hgone] at hitem
    exact ⟨hitem, by omega⟩
  · rintro ⟨hitem, hrecent⟩
    have hgone : items.length - max capacity 1 ≤ place := by omega
    rw [Nat.add_sub_of_le hgone]
    exact ⟨hgone, hitem⟩

theorem pairwise_arrivals (capacity : Nat) (items : List ContextItem) :
    (arrivals capacity items).Pairwise fun p q => q.2 < p.2 := by
  rw [arrivals, List.pairwise_reverse]
  refine List.pairwise_map.mp ?_
  rw [List.zipIdx_map_snd]
  exact List.pairwise_lt_range'

theorem map_fst_arrivals (capacity : Nat) (items : List ContextItem) :
    (arrivals capacity items).map (·.1) = ((empty capacity).appendAll items).items.reverse := by
  rw [arrivals, items_appendAll, List.map_reverse, List.zipIdx_map_fst]

/-- The comparison of two items by the share of a query's words that they have. -/
def byOverlap (query separator : String) (p q : ContextItem × Nat) : Ordering :=
  Number.compareTotal (q.1.overlap query separator) (p.1.overlap query separator)

instance (query separator : String) : Std.TransCmp (byOverlap query separator) :=
  inferInstanceAs (Std.TransCmp fun p q : ContextItem × Nat =>
    compareOn (fun p : ContextItem × Nat => Number.rank (p.1.overlap query separator)) q p)

section Search

variable {separator query : String} (capacity : Nat) (items : List ContextItem) (threshold : Float)

/-- The arrivals whose overlap is above the threshold, the last one first. -/
def passing (query separator : String) : List (ContextItem × Nat) :=
  (arrivals capacity items).filter fun p => threshold < p.1.overlap query separator

/-- A search sorts what passes by the overlap. -/
theorem relevant_eq (separates : Text.Separates separator) (asked : Text.vocabulary query ≠ []) :
    ((empty capacity).appendAll items).relevant query threshold =
      ((passing capacity items threshold query separator).mergeSort
        fun p q => (byOverlap query separator p q).isLE).map
          fun p => ⟨p.1.overlap query separator, p.1⟩ := by
  have hscored : (((empty capacity).appendAll items).items.map fun item =>
      (⟨shareOf (Text.vocabulary query) item.words, item⟩ : ScoredItem)).reverse =
      (arrivals capacity items).map fun p => ⟨p.1.overlap query separator, p.1⟩ := by
    rw [← List.map_reverse, ← map_fst_arrivals, List.map_map]
    refine List.map_congr_left ?_
    intro p _
    rw [Function.comp_apply, p.1.shareOf_words separates asked]
  unfold relevant
  simp only
  rw [if_neg (by simpa using asked), hscored, List.filter_map, List.map_mergeSort]
  · rfl
  · intro p _ q _
    rw [Bool.eq_iff_iff, decide_eq_true_iff]
    exact Nat.isLE_compare

theorem pairwise_passing :
    (passing capacity items threshold query separator).Pairwise fun p q => q.2 < p.2 :=
  (pairwise_arrivals capacity items).sublist List.filter_sublist

/-- What passes is above the threshold, so it is a number; and a share has no sign. -/
theorem pairwise_sorted (separates : Text.Separates separator)
    (asked : Text.vocabulary query ≠ []) :
    ((passing capacity items threshold query separator).mergeSort
        fun p q => (byOverlap query separator p q).isLE).Pairwise fun p q =>
      q.1.overlap query separator < p.1.overlap query separator ∨
        p.1.overlap query separator = q.1.overlap query separator ∧ q.2 < p.2 := by
  refine (pairwise_sort_stable (pairwise_passing capacity items threshold)).imp_of_mem ?_
  rintro p q hp _ (hlt | ⟨heq, hlater⟩)
  · rw [List.mem_mergeSort] at hp
    have habove := of_decide_eq_true (List.mem_filter.mp hp).2
    have hdefined : ¬ (p.1.overlap query separator).isNaN := fun hnan =>
      Number.not_lt_of_isNaN (.inr hnan) habove
    rw [byOverlap, Number.compareTotal, Nat.compare_eq_lt] at hlt
    exact .inl (Number.lt_of_rank_lt (q.1.isNegative_overlap separates asked) hdefined hlt)
  · exact .inr ⟨(Number.compareTotal_eq_eq.mp heq).symm, hlater⟩

/-- A search is exact. It finds those of the last items whose overlap with the query is above the
threshold, each of them once, the greater overlap first and among equals the later arrival first.
The overlap that is told for an item is that of the query and the item as one text, whatever blanks
stand between its parts. A query without words finds nothing. -/
theorem search_exact (separates : Text.Separates separator) (query : String) :
    (Text.vocabulary query = [] →
      ((empty capacity).appendAll items).relevant query threshold = []) ∧
    (Text.vocabulary query ≠ [] → ∃ found : List (ContextItem × Nat),
      ((empty capacity).appendAll items).relevant query threshold =
        found.map (fun p => ⟨p.1.overlap query separator, p.1⟩) ∧
      (found.map (·.2)).Nodup ∧
      (∀ p, p ∈ found ↔ items[p.2]? = some p.1 ∧ items.length ≤ p.2 + max capacity 1 ∧
        threshold < p.1.overlap query separator) ∧
      found.Pairwise fun p q => q.1.overlap query separator < p.1.overlap query separator ∨
        p.1.overlap query separator = q.1.overlap query separator ∧ q.2 < p.2) := by
  constructor
  · intro hnone
    unfold relevant
    simp only
    rw [hnone, List.isEmpty_nil, if_pos rfl]
  · intro asked
    refine ⟨_, relevant_eq capacity items threshold separates asked, ?_, ?_,
      pairwise_sorted capacity items threshold separates asked⟩
    · rw [((List.mergeSort_perm _ _).map _).nodup_iff]
      exact List.pairwise_map.mpr ((pairwise_passing capacity items threshold).imp Nat.ne_of_gt)
    · intro p
      rw [List.mem_mergeSort, passing, List.mem_filter, mem_arrivals, decide_eq_true_iff, and_assoc]

end Search

namespace Sample

/-- An item that has all words of the query, but falls out of the window. -/
def gone : ContextItem := ⟨"rent due", "noted", [], ⟨0, 0⟩⟩

def first : ContextItem := ⟨"pay", "noted", [("what", .str "Rent!")], ⟨0, 0⟩⟩

def second : ContextItem := ⟨"the rent", "", [("paid", .bool true)], ⟨0, 0⟩⟩

theorem separates_newline : Text.Separates "\n" where
  some := by decide
  blank c hc := by
    obtain rfl : c = '\n' := List.mem_singleton.mp hc
    rfl

end Sample

open Sample in
theorem search_exact_sample :
    Text.Separates "\n" ∧ Text.vocabulary "Rent, due?" ≠ [] ∧
    ((empty 2).appendAll [gone, first, second]).relevant "Rent, due?" 0.4 =
      [⟨0.5, second⟩, ⟨0.5, first⟩] := by
  have asked : Text.vocabulary "Rent, due?" ≠ [] := by decide +kernel
  have hfirst : first.overlap "Rent, due?" "\n" = 0.5 := by decide +kernel
  have hsecond : second.overlap "Rent, due?" "\n" = 0.5 := by decide +kernel
  obtain ⟨found, hfound, hnodup, hmem, hordered⟩ :=
    (search_exact 2 [gone, first, second] 0.4 separates_newline "Rent, due?").2 asked
  refine ⟨separates_newline, asked, ?_⟩
  have hpassing : (0.4 : Float) < 0.5 := by decide +kernel
  have hlevel : ¬ (0.5 : Float) < 0.5 := by decide +kernel
  have hperm : found.Perm [(second, 2), (first, 1)] := by
    have hdistinct : [(second, 2), (first, 1)].Nodup :=
      List.Nodup.of_map Prod.snd (by decide)
    refine (List.perm_ext_iff_of_nodup (List.Nodup.of_map _ hnodup) hdistinct).mpr ?_
    rintro ⟨item, place⟩
    rw [hmem, List.mem_pair]
    constructor
    · rintro ⟨hitem, hrecent, _⟩
      rcases place with _ | _ | _ | place
      · change 3 ≤ 2 at hrecent
        omega
      · exact .inr (congrArg (·, 1) (Option.some.inj hitem).symm)
      · exact .inl (congrArg (·, 2) (Option.some.inj hitem).symm)
      · cases hitem
    · rintro (h | h)
      · cases h
        refine ⟨rfl, by decide, ?_⟩
        simp only [hsecond]
        exact hpassing
      · cases h
        refine ⟨rfl, by decide, ?_⟩
        simp only [hfirst]
        exact hpassing
  have hhalf : ∀ p ∈ found, p.1.overlap "Rent, due?" "\n" = 0.5 := by
    intro p hp
    rcases List.mem_pair.mp (hperm.mem_iff.mp hp) with rfl | rfl
    · exact hsecond
    · exact hfirst
  -- Both have half of the words, so only the arrival tells them apart.
  have hlater : found.Pairwise fun p q => q.2 < p.2 := by
    refine hordered.imp_of_mem ?_
    rintro p q hp hq (hless | ⟨_, hlater⟩)
    · rw [hhalf p hp, hhalf q hq] at hless
      exact absurd hless hlevel
    · exact hlater
  have hsorted : found = [(second, 2), (first, 1)] :=
    hperm.eq_of_pairwise (fun p q _ _ hpq hqp => absurd hpq (Nat.lt_asymm hqp)) hlater
      (List.pairwise_pair.mpr (by decide))
  rw [hfound, hsorted, List.map_cons, List.map_cons, List.map_nil, hfirst, hsecond]

end ContextBuffer

end Engram
