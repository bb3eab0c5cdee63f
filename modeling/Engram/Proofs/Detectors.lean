import Engram.Proofs.Detection
import Engram.Proofs.Doubles

/-! What the detectors find in a day. Sightings are gathered by their keys without losing the order
of a key's own sightings, and an experience is sighted once under each of its keys. So every key that
was seen often enough has one pattern, which names the experiences that contain it. -/
namespace Engram

theorem compare_string_eq_lt {x y : String} : compare x y = .lt ↔ x < y :=
  compareOfLessAndEq_eq_lt

namespace Sightings

/-- A key stands at one place. -/
theorem Ordered.under_eq {s : Sightings} (ordered : s.Ordered) {p : List String × List Uid}
    (hp : p ∈ s) : s.under p.1 = p.2 := by
  induction s with
  | nil => cases hp
  | cons first s ih =>
      obtain ⟨habove, hrest⟩ := List.pairwise_cons.mp ordered
      have hne : ∀ q ∈ s, q.1 ≠ first.1 := by
        intro q hq hkey
        have hlt := habove q hq
        rw [hkey, Std.ReflOrd.compare_self] at hlt
        cases hlt
      rw [under_cons]
      rcases List.mem_cons.mp hp with rfl | hp
      · have hnone : under s p.1 = [] := by
          unfold under
          rw [List.filter_eq_nil_iff.mpr fun q hq => by simpa using hne q hq]
          rfl
        rw [if_pos rfl, hnone, List.append_nil]
      · rw [if_neg (hne p hp).symm, ih hrest hp, List.nil_append]

/-- Every key that was seen is there with all its sightings, in the order in which they were made. -/
theorem mem_ofList_iff {seen : List (List String × Uid)} {p : List String × List Uid} :
    p ∈ ofList seen ↔
      (∃ q ∈ seen, q.1 = p.1) ∧ p.2 = (seen.filter (·.1 = p.1)).map (·.2) := by
  have hids : ∀ q ∈ ofList seen, q.2 = (seen.filter (·.1 = q.1)).map (·.2) := by
    intro q hq
    rw [← under_ofList]
    exact ((ofList_ordered seen).under_eq hq).symm
  constructor
  · exact fun hp => ⟨key_of_mem_ofList hp, hids p hp⟩
  · rintro ⟨⟨q, hq, hkey⟩, hp⟩
    obtain ⟨r, hr, hrkey⟩ : ∃ r ∈ ofList seen, r.1 = p.1 := by
      have hseen : q.2 ∈ (ofList seen).under p.1 := by
        rw [under_ofList]
        exact List.mem_map_of_mem (List.mem_filter.mpr ⟨hq, by simpa using hkey⟩)
      obtain ⟨r, hr, _⟩ := List.mem_flatMap.mp hseen
      obtain ⟨hr, hrkey⟩ := List.mem_filter.mp hr
      exact ⟨r, hr, of_decide_eq_true hrkey⟩
    have hsame : r = p := Prod.ext hrkey (by rw [hids r hr, hp, hrkey])
    exact hsame ▸ hr

end Sightings

namespace Detect

/-- The experiences of a day that contain all of some concepts. -/
def containing (day : List Experience) (concepts : List String) : List Experience :=
  day.filter fun e => concepts.all e.concepts.contains

/-- The pattern of some concepts, shown by the experiences that contain them. -/
def shownBy (kind : PatternKind) (now : Time.Instant) (day : List Experience)
    (concepts : List String) : Pattern where
  id := Pattern.keyOf kind concepts
  kind
  concepts
  occurrences := (containing day concepts).length.toUInt64
  importance :=
    .ofFloat (Number.clamp 0.0 1.0 ((containing day concepts).length.toFloat / day.length.toFloat))
  experienceIds := (containing day concepts).map (·.id)
  discoveredAt := now

/-- The keys of an experience are the lists of some form that its concepts make, each of them
once. -/
structure Keys (form : List String → Prop) (keys : Experience → List (List String)) : Prop where
  nodup : ∀ e, (keys e).Nodup
  mem_iff : ∀ e key, key ∈ keys e ↔ form key ∧ ∀ x ∈ key, x ∈ e.concepts

/-- The sightings of all keys of a day. -/
def sighted (keys : Experience → List (List String)) (day : List Experience) : Sightings :=
  .ofList (day.flatMap fun e => (keys e).map fun key => (key, e.id))

namespace Keys

variable {form : List String → Prop} {keys : Experience → List (List String)}

theorem filter_seen (h : Keys form keys) {key : List String} (hform : form key)
    (day : List Experience) :
    ((day.flatMap fun e => (keys e).map fun key => (key, e.id)).filter (·.1 = key)).map (·.2) =
      (containing day key).map (·.id) := by
  unfold containing
  induction day with
  | nil => rfl
  | cons e day ih =>
      have hhere : (((keys e).map fun key => (key, e.id)).filter (·.1 = key)).map (·.2) =
          List.replicate ((keys e).count key) e.id := by
        rw [List.filter_map, List.map_map, ← List.map_replicate (f := fun _ => e.id),
          ← List.filter_eq key]
        rfl
      rw [List.flatMap_cons, List.filter_append, List.map_append, ih, hhere]
      by_cases hin : ∀ x ∈ key, x ∈ e.concepts
      · have hone : (keys e).count key = 1 :=
          List.count_eq_one_of_mem (h.nodup e) ((h.mem_iff e key).mpr ⟨hform, hin⟩)
        rw [hone, List.filter_cons_of_pos (by simpa using hin)]
        rfl
      · have hnone : (keys e).count key = 0 :=
          List.count_eq_zero.mpr fun hkey => hin ((h.mem_iff e key).mp hkey).2
        rw [hnone, List.filter_cons_of_neg (by simpa using hin)]
        rfl

theorem mem_sighted_iff (h : Keys form keys) {day : List Experience}
    {p : List String × List Uid} :
    p ∈ sighted keys day ↔
      form p.1 ∧ containing day p.1 ≠ [] ∧ p.2 = (containing day p.1).map (·.id) := by
  have hseen : (∃ q ∈ day.flatMap fun e => (keys e).map fun key => (key, e.id), q.1 = p.1) ↔
      form p.1 ∧ containing day p.1 ≠ [] := by
    constructor
    · rintro ⟨q, hq, hkey⟩
      obtain ⟨e, he, hq⟩ := List.mem_flatMap.mp hq
      obtain ⟨key, hin, rfl⟩ := List.mem_map.mp hq
      obtain ⟨hform, hconcepts⟩ := (h.mem_iff e key).mp hin
      rw [← hkey]
      exact ⟨hform, List.ne_nil_of_mem (List.mem_filter.mpr ⟨he, by simpa using hconcepts⟩)⟩
    · rintro ⟨hform, hsome⟩
      obtain ⟨e, he⟩ := List.exists_mem_of_ne_nil _ hsome
      obtain ⟨he, hconcepts⟩ := List.mem_filter.mp he
      have hkey := (h.mem_iff e p.1).mpr ⟨hform, by simpa using hconcepts⟩
      exact ⟨(p.1, e.id), List.mem_flatMap.mpr ⟨e, he, List.mem_map_of_mem hkey⟩, rfl⟩
  unfold sighted
  rw [Sightings.mem_ofList_iff, hseen, and_assoc]
  refine and_congr_right fun hform => and_congr_right fun _ => ?_
  rw [h.filter_seen hform]

/-- The keys that were seen often enough have one pattern each, in ascending order. -/
theorem detected (h : Keys form keys) (kind : PatternKind) (now : Time.Instant)
    (day : List Experience) (enough : Nat → Bool) :
    ∃ found : List (List String), found.Pairwise (fun a b => compare a b = .lt) ∧
      (∀ key, key ∈ found ↔
        form key ∧ containing day key ≠ [] ∧ enough (containing day key).length) ∧
      (((sighted keys day).filter fun p => enough p.2.length).map fun p =>
          .ofSightings kind now p.1 p.2 (p.2.length.toFloat / day.length.toFloat)) =
        found.map (shownBy kind now day) := by
  refine ⟨((sighted keys day).filter fun p => enough p.2.length).map (·.1), ?_, ?_, ?_⟩
  · exact List.pairwise_map.mpr ((Sightings.ofList_ordered _).sublist List.filter_sublist)
  · intro key
    constructor
    · intro hkey
      obtain ⟨p, hp, rfl⟩ := List.mem_map.mp hkey
      obtain ⟨hp, henough⟩ := List.mem_filter.mp hp
      obtain ⟨hform, hsome, hids⟩ := h.mem_sighted_iff.mp hp
      rw [hids, List.length_map] at henough
      exact ⟨hform, hsome, henough⟩
    · rintro ⟨hform, hsome, henough⟩
      refine List.mem_map.mpr ⟨(key, (containing day key).map (·.id)), ?_, rfl⟩
      refine List.mem_filter.mpr ⟨h.mem_sighted_iff.mpr ⟨hform, hsome, rfl⟩, ?_⟩
      rw [List.length_map]
      exact henough
  · rw [List.map_map]
    refine List.map_congr_left ?_
    intro p hp
    obtain ⟨_, _, hids⟩ := h.mem_sighted_iff.mp (List.mem_of_mem_filter hp)
    simp only [Function.comp_apply, Pattern.ofSightings, shownBy, hids, List.length_map]

end Keys

theorem nodup_distinct (e : Experience) : (distinct e).Nodup := nodup_eraseDups e.concepts

theorem mem_distinct_iff {e : Experience} {x : String} : x ∈ distinct e ↔ x ∈ e.concepts :=
  List.mem_eraseDups

/-- Each concept of an experience is a key. -/
theorem keys_single :
    Keys (fun key => ∃ x, key = [x]) fun e => (distinct e).map fun concept => [concept] where
  nodup e := (nodup_distinct e).map fun _ _ h => List.singleton_inj.mp h
  mem_iff e key := by
    constructor
    · intro hkey
      obtain ⟨x, hx, rfl⟩ := List.mem_map.mp hkey
      exact ⟨⟨x, rfl⟩, by simpa using mem_distinct_iff.mp hx⟩
    · rintro ⟨⟨x, rfl⟩, hx⟩
      exact List.mem_map_of_mem (mem_distinct_iff.mpr (hx x (List.mem_singleton_self x)))

theorem lt_of_not_lt {x y : String} (h : ¬ x < y) (hne : x ≠ y) : y < x := by
  by_contra hnot
  exact hne (String.le_antisymm (String.not_lt.mp hnot) (String.not_lt.mp h))

theorem pairKey_injective (a : String) : Function.Injective (pairKey a) := by
  intro b c h
  unfold pairKey at h
  split at h
  · split at h
    · simpa using h
    · simp only [List.cons.injEq, and_true] at h
      exact h.2.trans h.1
  · split at h
    · simp only [List.cons.injEq, and_true] at h
      exact h.1.trans h.2
    · simpa using h

/-- The pairs of a list without repetition, each in ascending order. -/
theorem mem_pairsOf_iff {items : List String} (nodup : items.Nodup) {key : List String} :
    key ∈ pairsOf items ↔ ∃ x y, x < y ∧ key = [x, y] ∧ x ∈ items ∧ y ∈ items := by
  induction items with
  | nil => simp [pairsOf]
  | cons a rest ih =>
      obtain ⟨hfresh, hrest⟩ := List.nodup_cons.mp nodup
      rw [pairsOf, List.mem_append, ih hrest]
      constructor
      · rintro (hkey | ⟨x, y, hlt, rfl, hx, hy⟩)
        · obtain ⟨b, hb, rfl⟩ := List.mem_map.mp hkey
          unfold pairKey
          split
          · rename_i hlt
            exact ⟨a, b, hlt, rfl, List.mem_cons_self, List.mem_cons_of_mem _ hb⟩
          · rename_i hlt
            have hne : a ≠ b := fun h => hfresh (h ▸ hb)
            exact ⟨b, a, lt_of_not_lt hlt hne, rfl, List.mem_cons_of_mem _ hb,
              List.mem_cons_self⟩
        · exact ⟨x, y, hlt, rfl, List.mem_cons_of_mem _ hx, List.mem_cons_of_mem _ hy⟩
      · rintro ⟨x, y, hlt, rfl, hx, hy⟩
        rcases List.mem_cons.mp hx with rfl | hxrest
        · rcases List.mem_cons.mp hy with rfl | hyrest
          · exact absurd hlt (String.lt_irrefl _)
          · exact .inl (List.mem_map.mpr ⟨y, hyrest, if_pos hlt⟩)
        · rcases List.mem_cons.mp hy with rfl | hyrest
          · exact .inl (List.mem_map.mpr ⟨x, hxrest, if_neg (String.lt_asymm hlt)⟩)
          · exact .inr ⟨x, y, hlt, rfl, hxrest, hyrest⟩

theorem nodup_pairsOf {items : List String} (nodup : items.Nodup) : (pairsOf items).Nodup := by
  induction items with
  | nil => exact List.nodup_nil
  | cons a rest ih =>
      obtain ⟨hfresh, hrest⟩ := List.nodup_cons.mp nodup
      rw [pairsOf, List.nodup_append]
      refine ⟨hrest.map (pairKey_injective a), ih hrest, ?_⟩
      -- The pairs of `a` contain it, and no pair of the others does.
      rintro key hfirst _ hlater rfl
      obtain ⟨b, _, hkey⟩ := List.mem_map.mp hfirst
      obtain ⟨x, y, _, rfl, hx, hy⟩ := (mem_pairsOf_iff hrest).mp hlater
      have ha : a ∈ [x, y] := by
        rw [← hkey]
        unfold pairKey
        split
        · exact List.mem_cons_self
        · exact List.mem_cons_of_mem _ List.mem_cons_self
      simp only [List.mem_cons, List.not_mem_nil, or_false] at ha
      rcases ha with rfl | rfl
      · exact hfresh hx
      · exact hfresh hy

/-- Each pair of different concepts of an experience is a key. -/
theorem keys_pair :
    Keys (fun key => ∃ x y, x < y ∧ key = [x, y]) fun e => pairsOf (distinct e) where
  nodup e := nodup_pairsOf (nodup_distinct e)
  mem_iff e key := by
    rw [mem_pairsOf_iff (nodup_distinct e)]
    constructor
    · rintro ⟨x, y, hlt, rfl, hx, hy⟩
      refine ⟨⟨x, y, hlt, rfl⟩, ?_⟩
      simpa using ⟨mem_distinct_iff.mp hx, mem_distinct_iff.mp hy⟩
    · rintro ⟨⟨x, y, hlt, rfl⟩, hin⟩
      refine ⟨x, y, hlt, rfl, mem_distinct_iff.mpr (hin x ?_), mem_distinct_iff.mpr (hin y ?_)⟩
      · exact List.mem_cons_self
      · exact List.mem_cons_of_mem _ List.mem_cons_self

theorem compare_single_eq_lt {x y : String} (h : compare [x] [y] = .lt) : x < y := by
  change List.compareLex compare [x] [y] = .lt at h
  rw [List.compareLex_cons_cons, List.compareLex_nil_nil, Ordering.then_eq_lt] at h
  rcases h with h | ⟨_, h⟩
  · exact compare_string_eq_lt.mp h
  · cases h

theorem compare_pair_eq_lt {x y x' y' : String} (h : compare [x, y] [x', y'] = .lt) :
    x < x' ∨ x = x' ∧ y < y' := by
  change List.compareLex compare (x :: [y]) (x' :: [y']) = .lt at h
  rw [List.compareLex_cons_cons, Ordering.then_eq_lt] at h
  rcases h with h | ⟨hsame, h⟩
  · exact .inl (compare_string_eq_lt.mp h)
  · exact .inr ⟨Std.LawfulEqOrd.eq_of_compare hsame, compare_single_eq_lt h⟩

/-- The recurring concepts are those that enough experiences contain. -/
theorem recurring_eq (c : NightlyConfig) (now : Time.Instant) (day : List Experience) :
    ∃ names : List String, names.Pairwise (· < ·) ∧
      (∀ x, x ∈ names ↔ max c.minOccurrences 1 ≤ (containing day [x]).length) ∧
      recurring c now day = names.map fun x => shownBy .recurring now day [x] := by
  let single (x : String) : List String := [x]
  obtain ⟨found, hordered, hmem, hfound⟩ := keys_single.detected .recurring now day
    fun n => max c.minOccurrences 1 ≤ n
  obtain ⟨names, rfl⟩ : found ∈ Set.range (List.map single) := by
    rw [Set.range_list_map]
    intro key hkey
    obtain ⟨x, rfl⟩ := ((hmem key).mp hkey).1
    exact ⟨x, rfl⟩
  refine ⟨names, (List.pairwise_map.mp hordered).imp compare_single_eq_lt, ?_, ?_⟩
  · intro x
    rw [← List.mem_map_of_injective (fun _ _ h => List.singleton_inj.mp h : single.Injective), hmem]
    constructor
    · exact fun h => of_decide_eq_true h.2.2
    · intro henough
      have hpos : 0 < (containing day [x]).length := by omega
      exact ⟨⟨x, rfl⟩, List.ne_nil_of_length_pos hpos, decide_eq_true henough⟩
  · have hsighted : sighted (fun e => (distinct e).map fun concept => [concept]) day =
        .ofList (day.flatMap fun e => (distinct e).map fun concept => ([concept], e.id)) := by
      unfold sighted
      simp only [List.map_map, Function.comp_def]
    rw [hsighted, List.map_map] at hfound
    exact hfound

/-- The pairs that go together are those that a large enough part of the day contains. -/
theorem pairs_eq (c : NightlyConfig) (now : Time.Instant) (day : List Experience) :
    ∃ found : List (String × String),
      found.Pairwise (fun p q => p.1 < q.1 ∨ p.1 = q.1 ∧ p.2 < q.2) ∧
      (∀ x y, (x, y) ∈ found ↔ x < y ∧ containing day [x, y] ≠ [] ∧
        c.strongRatio * day.length.toFloat ≤ (containing day [x, y]).length.toFloat) ∧
      pairs c now day = found.map fun p => shownBy .coOccurrence now day [p.1, p.2] := by
  let both (p : String × String) : List String := [p.1, p.2]
  have hboth : both.Injective := by
    intro p q h
    simp only [both, List.cons.injEq, and_true] at h
    exact Prod.ext h.1 h.2
  obtain ⟨found, hordered, hmem, hfound⟩ := keys_pair.detected .coOccurrence now day
    fun n => c.strongRatio * day.length.toFloat ≤ n.toFloat
  obtain ⟨found, rfl⟩ : found ∈ Set.range (List.map both) := by
    rw [Set.range_list_map]
    intro key hkey
    obtain ⟨x, y, _, rfl⟩ := ((hmem key).mp hkey).1
    exact ⟨(x, y), rfl⟩
  refine ⟨found, (List.pairwise_map.mp hordered).imp compare_pair_eq_lt, ?_, ?_⟩
  · intro x y
    rw [← List.mem_map_of_injective hboth, hmem]
    constructor
    · rintro ⟨⟨x', y', hlt, hsame⟩, hsome, henough⟩
      have hpair : (x, y) = (x', y') := hboth hsame
      cases hpair
      exact ⟨hlt, hsome, of_decide_eq_true henough⟩
    · rintro ⟨hlt, hsome, henough⟩
      exact ⟨⟨x, y, hlt, rfl⟩, hsome, decide_eq_true henough⟩
  · rw [List.map_map] at hfound
    exact hfound

/-- The comparison of two patterns. -/
def order (a b : Pattern) : Ordering :=
  (b.importance.compareTotal a.importance).then (compare a.id b.id)

instance : Std.TransCmp order :=
  inferInstanceAs (Std.TransCmp (compareLex
    (fun a b => compareOn (fun p : Pattern => p.importance.rank) b a)
    (compareOn fun p : Pattern => p.id)))

/-- The importance of a pattern of the day is the result of a computation. -/
theorem importance_of_mem_all {c : NightlyConfig} {now : Time.Instant} {day : List Experience}
    {p : Pattern} (h : p ∈ all c now day) : p.importance = .ofFloat p.importance.toFloat := by
  have computed : ∀ (kind : PatternKind) (key : List String) (ids : List Uid) (weight : Float),
      (Pattern.ofSightings kind now key ids weight).importance =
        .ofFloat (Pattern.ofSightings kind now key ids weight).importance.toFloat :=
    fun _ _ _ _ => congrArg Number.Double.ofFloat (Number.Double.toFloat_ofFloat _).symm
  rw [all, (List.mergeSort_perm _ _).mem_iff, List.mem_append, List.mem_append] at h
  rcases h with (h | h) | h
  · obtain ⟨_, _, rfl⟩ := List.mem_map.mp h
    exact computed _ _ _ _
  · obtain ⟨_, _, rfl⟩ := List.mem_map.mp h
    exact computed _ _ _ _
  · obtain ⟨_, _, rfl⟩ := List.mem_map.mp h
    exact computed _ _ _ _

theorem le_of_order {p q : Pattern} {x y : Float} (hp : p.importance = .ofFloat x)
    (hq : q.importance = .ofFloat y) (h : (order p q).isLE) :
    Number.Less y x ∨ x = y ∧ p.id ≤ q.id := by
  have compared : q.importance.compareTotal p.importance = Number.compareTotal y x := by
    rw [hp, hq]
    rfl
  unfold order at h
  rw [compared, Ordering.isLE_then_iff_or, Number.compareTotal_eq_lt,
    Number.compareTotal_eq_eq] at h
  rcases h with h | ⟨hsame, h⟩
  · exact .inl h
  · refine .inr ⟨hsame.symm, String.not_lt.mp fun hlt => ?_⟩
    have hswap : compare p.id q.id = (compare q.id p.id).swap := Std.OrientedCmp.eq_swap
    rw [hswap, compare_string_eq_lt.mpr hlt] at h
    cases h

/-- The detectors are exact. There is one recurring pattern for each concept that enough experiences
contain, and one pattern for each pair of different concepts that occur together and do so in a large
enough part of the day; both name the experiences in order, and come in ascending order of their
concepts. All patterns together are the ones of the three detectors, the most important first, and
by identifier among equals. -/
theorem detectors_exact (c : NightlyConfig) (now : Time.Instant) (day : List Experience) :
    (∃ names : List String, names.Pairwise (· < ·) ∧
      (∀ x, x ∈ names ↔ max c.minOccurrences 1 ≤ (containing day [x]).length) ∧
      recurring c now day = names.map fun x => shownBy .recurring now day [x]) ∧
    (∃ found : List (String × String),
      found.Pairwise (fun p q => p.1 < q.1 ∨ p.1 = q.1 ∧ p.2 < q.2) ∧
      (∀ x y, (x, y) ∈ found ↔ x < y ∧ containing day [x, y] ≠ [] ∧
        c.strongRatio * day.length.toFloat ≤ (containing day [x, y]).length.toFloat) ∧
      pairs c now day = found.map fun p => shownBy .coOccurrence now day [p.1, p.2]) ∧
    (all c now day).Perm (recurring c now day ++ sequences c now day ++ pairs c now day) ∧
    (all c now day).Pairwise fun p q =>
      Number.Less q.importance.toFloat p.importance.toFloat ∨
        p.importance.toFloat = q.importance.toFloat ∧ p.id ≤ q.id := by
  have hsorted : (all c now day).Pairwise fun p q => (order p q).isLE := pairwise_sort _
  refine ⟨recurring_eq c now day, pairs_eq c now day, List.mergeSort_perm _ _, ?_⟩
  refine hsorted.imp_of_mem ?_
  intro p q hp hq hle
  exact le_of_order (importance_of_mem_all hp) (importance_of_mem_all hq) hle

end Detect

end Engram
