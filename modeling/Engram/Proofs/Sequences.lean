import Engram.Proofs.Detectors
import Mathlib.Algebra.GroupWithZero.Nat
import Mathlib.Algebra.Order.BigOperators.Group.List

/-! The sequences of a day. A sequence stands at a place if the experiences from there on have its
concepts as their primary ones; an experience without concepts breaks every sequence over it. The
detector finds the sequences that stand at two places or more, and a sequence may overlap with
itself. Every place counts for one sequence at most. -/
namespace Engram

theorem compare_strings_eq_lt {a b : List String} : compare a b = .lt ↔ a < b := by
  induction a generalizing b with
  | nil =>
      cases b with
      | nil => exact iff_of_false (by decide) (List.lt_irrefl [])
      | cons y b => exact iff_of_true rfl (List.nil_lt_cons y b)
  | cons x a ih =>
      cases b with
      | nil => exact iff_of_false (fun h : Ordering.gt = .lt => by cases h) (List.not_lt_nil _)
      | cons y b =>
          change List.compareLex compare (x :: a) (y :: b) = .lt ↔ _
          rw [List.compareLex_cons_cons, Ordering.then_eq_lt, compare_string_eq_lt,
            Std.compare_eq_iff_eq, List.cons_lt_cons_iff]
          exact or_congr_right (and_congr_right fun _ => ih)

theorem mapM_eq_some_iff {α β : Type} {f : α → Option β} {items : List α} {results : List β} :
    items.mapM f = some results ↔ items.map f = results.map some := by
  induction items generalizing results with
  | nil => cases results <;> simp
  | cons a items ih =>
      rw [List.mapM_cons, List.map_cons]
      cases results with
      | nil =>
          cases f a <;> cases items.mapM f <;> simp
      | cons b results =>
          rw [List.map_cons, List.cons.injEq, ← ih]
          cases f a <;> cases items.mapM f <;> simp

namespace Sightings

theorem length_note (seen : List String × Uid) (s : Sightings) :
    ((note seen s).map (·.2.length)).sum = (s.map (·.2.length)).sum + 1 := by
  cases s with
  | nil => rfl
  | cons p s =>
      rw [note_cons]
      split
      · simp only [List.map_cons, List.sum_cons, List.length_cons]
        omega
      · simp only [List.map_cons, List.sum_cons, List.length_singleton]
        omega

/-- No sighting is lost. -/
theorem length_ofList (seen : List (List String × Uid)) :
    ((ofList seen).map (·.2.length)).sum = seen.length := by
  have hlength : (seen.mergeSort fun a b => (compare a.1 b.1).isLE).length = seen.length :=
    List.length_mergeSort seen
  rw [← hlength, ofList]
  generalize seen.mergeSort _ = sorted
  induction sorted with
  | nil => rfl
  | cons first sorted ih => rw [List.foldr_cons, length_note, ih, List.length_cons]

end Sightings

namespace Detect

variable {day : List Experience} {sequence : List String} {place width : Nat}

/-- The sequence stands at a place of the day: its concepts are the primary ones of the experiences
from there on. -/
def StandsAt (day : List Experience) (sequence : List String) (place : Nat) : Prop :=
  ∀ k < sequence.length, day[place + k]?.bind Experience.primary = sequence[k]?

instance : Decidable (StandsAt day sequence place) :=
  inferInstanceAs (Decidable (∀ k < sequence.length, _))

/-- The places at which a sequence stands and does not go beyond the day. -/
def placesOf (day : List Experience) (sequence : List String) : List Nat :=
  (List.range (day.length + 1 - sequence.length)).filter (StandsAt day sequence ·)

theorem mem_placesOf : place ∈ placesOf day sequence ↔
    place + sequence.length ≤ day.length ∧ StandsAt day sequence place := by
  rw [placesOf, List.mem_filter, List.mem_range, decide_eq_true_iff]
  exact and_congr_left fun _ => by omega

/-- The pattern of a sequence, shown by the experiences at its places. -/
def repeating (now : Time.Instant) (day : List Experience) (sequence : List String) : Pattern where
  id := Pattern.keyOf .sequential sequence
  kind := .sequential
  concepts := sequence
  occurrences := (placesOf day sequence).length.toUInt64
  importance := .ofFloat (Number.clamp 0.0 1.0
    (((placesOf day sequence).length * sequence.length).toFloat / day.length.toFloat))
  experienceIds := (placesOf day sequence).filterMap fun place => day[place]?.map (·.id)
  discoveredAt := now

/-- There is one stretch for each place that has enough behind it. -/
theorem windows_eq {α : Type} (pos : 0 < width) (items : List α) :
    windows width items =
      (List.range (items.length + 1 - width)).map fun place => (items.drop place).take width := by
  induction items with
  | nil =>
      have hnone : ([] : List α).length + 1 - width = 0 := by
        rw [List.length_nil]
        omega
      rw [hnone]
      rfl
  | cons a rest ih =>
      rw [windows, List.length_take]
      by_cases hfits : width ≤ (a :: rest).length
      · have hplaces : (a :: rest).length + 1 - width = (rest.length + 1 - width) + 1 := by
          rw [List.length_cons] at hfits ⊢
          omega
        rw [if_pos (Nat.min_eq_left hfits), ih, hplaces, List.range_succ_eq_map, List.map_cons,
          List.map_map]
        rfl
      · have hnone : (a :: rest).length + 1 - width = 0 := by omega
        rw [if_neg (by omega), hnone]
        rfl

/-- The concepts of a stretch are a sequence that stands where the stretch begins. -/
theorem concepts_stretch (fits : place + sequence.length ≤ day.length) :
    ((day.drop place).take sequence.length).mapM Experience.primary = some sequence ↔
      StandsAt day sequence place := by
  rw [mapM_eq_some_iff, List.ext_getElem?_iff]
  have hhere : ∀ k < sequence.length, ∃ e, day[place + k]? = some e := fun k hk =>
    ⟨_, List.getElem?_eq_getElem (by omega)⟩
  constructor
  · intro h k hk
    obtain ⟨e, he⟩ := hhere k hk
    have hkey := h k
    rw [List.getElem?_map, List.getElem?_map, List.getElem?_take_of_lt hk, List.getElem?_drop, he,
      List.getElem?_eq_getElem hk] at hkey
    rw [he, List.getElem?_eq_getElem hk]
    exact Option.some.inj hkey
  · intro h k
    rw [List.getElem?_map, List.getElem?_map]
    by_cases hk : k < sequence.length
    · obtain ⟨e, he⟩ := hhere k hk
      have hkey := h k hk
      rw [he, List.getElem?_eq_getElem hk] at hkey
      rw [List.getElem?_take_of_lt hk, List.getElem?_drop, he, List.getElem?_eq_getElem hk]
      exact congrArg some hkey
    · rw [List.getElem?_eq_none (by rw [List.length_take]; omega),
        List.getElem?_eq_none (Nat.le_of_not_lt hk)]
      rfl

/-- What is seen at a place: the primary concepts from there on, and the experience there. -/
def seenAt (width : Nat) (day : List Experience) (place : Nat) : Option (List String × Uid) := do
  let first ← day[place]?
  let key ← ((day.drop place).take width).mapM Experience.primary
  return (key, first.id)

theorem seen_eq (pos : 0 < width) (day : List Experience) :
    ((windows width day).filterMap fun stretch => do
      let first ← stretch.head?
      let key ← stretch.mapM Experience.primary
      return (key, first.id)) =
    (List.range (day.length + 1 - width)).filterMap (seenAt width day) := by
  rw [windows_eq pos, List.filterMap_map]
  refine List.filterMap_congr ?_
  intro place _
  have hfirst : ((day.drop place).take width).head? = day[place]? := by
    rw [List.head?_take, if_neg (Nat.ne_of_gt pos), List.head?_drop]
  simp only [Function.comp_apply, hfirst]
  rfl

theorem seenAt_of_standsAt (fits : place + sequence.length ≤ day.length)
    (stands : StandsAt day sequence place) :
    seenAt sequence.length day place = day[place]?.map fun e => (sequence, e.id) := by
  unfold seenAt
  rw [(concepts_stretch fits).mpr stands]
  cases day[place]? <;> rfl

theorem seenAt_eq_some {key : List String} {id : Uid} (fits : place + width ≤ day.length)
    (h : seenAt width day place = some (key, id)) :
    key.length = width ∧ StandsAt day key place := by
  unfold seenAt at h
  simp only [Option.bind_eq_bind, Option.bind_eq_some_iff, Option.pure_def, Option.some.injEq,
    Prod.mk.injEq] at h
  obtain ⟨_, _, found, hkey, hfound, _⟩ := h
  rw [hfound] at hkey
  have hlength : key.length = width := by
    have hsame := congrArg List.length (mapM_eq_some_iff.mp hkey)
    rw [List.length_map, List.length_map, List.length_take, List.length_drop] at hsame
    omega
  subst hlength
  exact ⟨rfl, (concepts_stretch fits).mp hkey⟩

/-- The sightings of a sequence are the experiences at its places. -/
theorem sightings_of (day : List Experience) (sequence : List String) :
    (((List.range (day.length + 1 - sequence.length)).filterMap
        (seenAt sequence.length day)).filter (·.1 = sequence)).map (·.2) =
      (placesOf day sequence).filterMap fun place => day[place]?.map (·.id) := by
  rw [List.filter_filterMap, List.map_filterMap, placesOf, List.filterMap_filter]
  refine List.filterMap_congr ?_
  intro place hplace
  have fits : place + sequence.length ≤ day.length := by
    rw [List.mem_range] at hplace
    omega
  by_cases stands : StandsAt day sequence place
  · rw [seenAt_of_standsAt fits stands, if_pos (decide_eq_true stands)]
    cases day[place]? <;> simp
  · rw [if_neg (by simpa using stands), Option.map_eq_none_iff, Option.filter_eq_none_iff]
    rintro ⟨key, id⟩ hseen hkey
    exact stands (of_decide_eq_true hkey ▸ (seenAt_eq_some fits hseen).2)

theorem length_sightings (pos : 0 < sequence.length) :
    ((placesOf day sequence).filterMap fun place => day[place]?.map (·.id)).length =
      (placesOf day sequence).length := by
  rw [List.filterMap_length_eq_length]
  intro place hplace
  have fits := (mem_placesOf.mp hplace).1
  rw [List.getElem?_eq_getElem (by omega)]
  rfl

/-- All that is seen in a day. -/
def seen (width : Nat) (day : List Experience) : List (List String × Uid) :=
  (List.range (day.length + 1 - width)).filterMap (seenAt width day)

/-- A sequence is seen if it stands somewhere, and then with all its places. -/
theorem mem_ofList_seen_iff (pos : 0 < width) {p : List String × List Uid} :
    p ∈ Sightings.ofList (seen width day) ↔
      p.1.length = width ∧ placesOf day p.1 ≠ [] ∧
        p.2 = (placesOf day p.1).filterMap fun place => day[place]?.map (·.id) := by
  rw [Sightings.mem_ofList_iff]
  constructor
  · rintro ⟨⟨⟨key, id⟩, hseen, rfl⟩, hids⟩
    obtain ⟨place, hplace, hseen⟩ := List.mem_filterMap.mp hseen
    have fits : place + width ≤ day.length := by
      rw [List.mem_range] at hplace
      omega
    obtain ⟨hlength, stands⟩ := seenAt_eq_some fits hseen
    rw [seen, ← hlength, sightings_of] at hids
    exact ⟨hlength, List.ne_nil_of_mem (mem_placesOf.mpr ⟨hlength ▸ fits, stands⟩), hids⟩
  · rintro ⟨rfl, hsome, hids⟩
    rw [seen, sightings_of]
    refine ⟨?_, hids⟩
    obtain ⟨place, hplace⟩ := List.exists_mem_of_ne_nil _ hsome
    obtain ⟨fits, stands⟩ := mem_placesOf.mp hplace
    refine ⟨(p.1, day[place].id), List.mem_filterMap.mpr ⟨place, ?_, ?_⟩, rfl⟩
    · rw [List.mem_range]
      omega
    · rw [seenAt_of_standsAt fits stands, List.getElem?_eq_getElem (by omega)]
      rfl

theorem length_of_mem_seen (pos : 0 < width) {p : List String × List Uid}
    (hp : p ∈ Sightings.ofList (seen width day)) :
    p.1.length = width ∧ p.2.length = (placesOf day p.1).length := by
  obtain ⟨hlength, _, hids⟩ := (mem_ofList_seen_iff pos).mp hp
  exact ⟨hlength, by rw [hids, length_sightings (hlength ▸ pos)]⟩

/-- The sightings of the sequences that repeat. -/
def repeated (width : Nat) (day : List Experience) : Sightings :=
  (Sightings.ofList (seen width day)).filter fun p => minRepeats ≤ p.2.length

theorem mem_repeated_iff (pos : 0 < width) :
    sequence ∈ (repeated width day).map (·.1) ↔
      sequence.length = width ∧ 2 ≤ (placesOf day sequence).length := by
  constructor
  · intro hfound
    obtain ⟨p, hp, rfl⟩ := List.mem_map.mp hfound
    obtain ⟨hp, htwice⟩ := List.mem_filter.mp hp
    obtain ⟨hlength, hplaces⟩ := length_of_mem_seen pos hp
    exact ⟨hlength, hplaces ▸ of_decide_eq_true htwice⟩
  · rintro ⟨hlength, htwice⟩
    have hsome : 0 < (placesOf day sequence).length := by omega
    refine List.mem_map.mpr ⟨(sequence, (placesOf day sequence).filterMap
      fun place => day[place]?.map (·.id)), List.mem_filter.mpr ⟨?_, ?_⟩, rfl⟩
    · exact (mem_ofList_seen_iff pos).mpr ⟨hlength, List.ne_nil_of_length_pos hsome, rfl⟩
    · rw [length_sightings (hlength ▸ pos)]
      exact decide_eq_true htwice

theorem sequences_eq (c : NightlyConfig) (now : Time.Instant) (day : List Experience) :
    sequences c now day =
      (repeated (max c.sequenceWindow 2) day).map fun p => repeating now day p.1 := by
  have pos : 0 < max c.sequenceWindow 2 := by omega
  unfold sequences
  simp only
  rw [seen_eq pos, ← seen]
  refine List.map_congr_left ?_
  intro p hp
  obtain ⟨hlength, _, hids⟩ := (mem_ofList_seen_iff pos).mp (List.mem_of_mem_filter hp)
  simp only [Pattern.ofSightings, repeating, hlength, hids, length_sightings (hlength ▸ pos)]

/-- Every place is a sighting of one sequence at most. -/
theorem sum_places_le (pos : 0 < width) (day : List Experience) :
    ((repeated width day).map fun p => (placesOf day p.1).length).sum ≤ day.length + 1 - width := by
  have hplaces : ((repeated width day).map fun p => (placesOf day p.1).length) =
      (repeated width day).map (·.2.length) :=
    List.map_congr_left fun p hp => (length_of_mem_seen pos (List.mem_of_mem_filter hp)).2.symm
  have hpart : ((repeated width day).map (·.2.length)).Sublist
      ((Sightings.ofList (seen width day)).map (·.2.length)) := List.filter_sublist.map _
  calc ((repeated width day).map fun p => (placesOf day p.1).length).sum
      = ((repeated width day).map (·.2.length)).sum := by rw [hplaces]
    _ ≤ ((Sightings.ofList (seen width day)).map (·.2.length)).sum :=
        hpart.sum_le_sum fun _ _ => Nat.zero_le _
    _ = (seen width day).length := Sightings.length_ofList _
    _ ≤ (List.range (day.length + 1 - width)).length := List.length_filterMap_le _ _
    _ = day.length + 1 - width := List.length_range

/-- The detector of sequences is exact. There is one pattern for each sequence of the width that
stands at two places or more; it counts these places, those that overlap included, and names the
experiences at them in order. The patterns come in lexicographic order, and together they count no
more places than there are. -/
theorem sequences_exact (c : NightlyConfig) (now : Time.Instant) (day : List Experience) :
    (∃ found : List (List String), found.Pairwise (· < ·) ∧
      (∀ sequence, sequence ∈ found ↔
        sequence.length = max c.sequenceWindow 2 ∧ 2 ≤ (placesOf day sequence).length) ∧
      sequences c now day = found.map (repeating now day)) ∧
    ((sequences c now day).map (·.occurrences.toNat)).sum ≤
      day.length + 1 - max c.sequenceWindow 2 := by
  have pos : 0 < max c.sequenceWindow 2 := by omega
  have hordered := (Sightings.ofList_ordered (seen (max c.sequenceWindow 2) day)).sublist
    (List.filter_sublist (p := fun p => minRepeats ≤ p.2.length))
  refine ⟨⟨(repeated (max c.sequenceWindow 2) day).map (·.1), ?_, ?_, ?_⟩, ?_⟩
  · exact List.pairwise_map.mpr (hordered.imp compare_strings_eq_lt.mp)
  · exact fun sequence => mem_repeated_iff pos
  · rw [sequences_eq, List.map_map]
    rfl
  · rw [sequences_eq, List.map_map]
    refine le_trans (List.sum_le_sum ?_) (sum_places_le pos day)
    intro p _
    exact Nat.mod_le _ _

end Detect

end Engram
