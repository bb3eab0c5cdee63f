import Engram.Proofs.Knowledge
import Engram.Proofs.TotalOrder
import Mathlib.Data.List.Nodup

/-! What the patterns of a day count. Sightings of one key are gathered in one place, so a concept
has at most one recurring pattern, and that counts the experiences of the day which mention it,
modulo the size of a word. -/
namespace Engram

namespace Sightings

/-- The keys are in strictly ascending order. -/
def Ordered (s : Sightings) : Prop := s.Pairwise fun a b => compare a.1 b.1 = .lt

/-- How often a key was seen. -/
def times (s : Sightings) (key : List String) : Nat :=
  (s.map fun p => if p.1 = key then p.2.length else 0).sum

theorem times_cons (p : List String × List Uid) (s : Sightings) (key : List String) :
    times (p :: s) key = (if p.1 = key then p.2.length else 0) + s.times key := rfl

theorem times_eq_zero {s : Sightings} {key : List String} (h : ∀ p ∈ s, p.1 ≠ key) :
    s.times key = 0 := by
  refine List.sum_eq_zero ?_
  intro n hn
  obtain ⟨p, hp, rfl⟩ := List.mem_map.mp hn
  exact if_neg (h p hp)

theorem note_cons (seen : List String × Uid) (p : List String × List Uid) (s : Sightings) :
    note seen (p :: s) =
      if seen.1 = p.1 then (p.1, seen.2 :: p.2) :: s else (seen.1, [seen.2]) :: p :: s := rfl

/-- The experiences of a key. -/
def under (s : Sightings) (key : List String) : List Uid := (s.filter (·.1 = key)).flatMap (·.2)

theorem under_cons (p : List String × List Uid) (s : Sightings) (key : List String) :
    under (p :: s) key = (if p.1 = key then p.2 else []) ++ s.under key := by
  unfold under
  by_cases h : p.1 = key
  · rw [List.filter_cons_of_pos (by simpa using h), List.flatMap_cons, if_pos h]
  · rw [List.filter_cons_of_neg (by simpa using h), if_neg h, List.nil_append]

theorem under_note (seen : List String × Uid) (s : Sightings) (key : List String) :
    (note seen s).under key = (if seen.1 = key then [seen.2] else []) ++ s.under key := by
  cases s with
  | nil => exact under_cons _ _ _
  | cons p s =>
      rw [note_cons]
      by_cases hsame : seen.1 = p.1
      · rw [if_pos hsame, under_cons, under_cons, hsame]
        by_cases h : p.1 = key
        · rw [if_pos h, if_pos h, if_pos h, List.cons_append, List.singleton_append]
        · rw [if_neg h, if_neg h, if_neg h]
          rfl
      · rw [if_neg hsame, under_cons]

theorem times_eq_length (s : Sightings) (key : List String) :
    s.times key = (s.under key).length := by
  induction s with
  | nil => rfl
  | cons p s ih =>
      rw [times_cons, under_cons, List.length_append, ih]
      split
      · rfl
      · rfl

/-- A note goes to the first key or stands before it. -/
theorem key_of_mem_note {seen : List String × Uid} {s : Sightings} {p : List String × List Uid}
    (h : p ∈ note seen s) : p.1 = seen.1 ∨ ∃ q ∈ s, q.1 = p.1 := by
  cases s with
  | nil =>
      obtain rfl := List.mem_singleton.mp h
      exact .inl rfl
  | cons q s =>
      rw [note_cons] at h
      split at h
      · rename_i hsame
        rcases List.mem_cons.mp h with rfl | h
        · exact .inl hsame.symm
        · exact .inr ⟨p, List.mem_cons_of_mem _ h, rfl⟩
      · rcases List.mem_cons.mp h with rfl | h
        · exact .inl rfl
        · exact .inr ⟨p, h, rfl⟩

theorem key_of_mem_foldr {seen : List (List String × Uid)} {p : List String × List Uid}
    (h : p ∈ seen.foldr note []) : ∃ q ∈ seen, q.1 = p.1 := by
  induction seen generalizing p with
  | nil => cases h
  | cons first seen ih =>
      rcases key_of_mem_note h with h | ⟨q, hq, hkey⟩
      · exact ⟨first, List.mem_cons_self, h.symm⟩
      · obtain ⟨r, hr, hrkey⟩ := ih hq
        exact ⟨r, List.mem_cons_of_mem _ hr, hrkey.trans hkey⟩

/-- Notes of keys that do not descend, taken from the last to the first, leave the keys in order. -/
theorem ordered_foldr {seen : List (List String × Uid)}
    (sorted : seen.Pairwise fun a b => (compare a.1 b.1).isLE) : (seen.foldr note []).Ordered := by
  induction seen with
  | nil => exact .nil
  | cons first seen ih =>
      rw [List.pairwise_cons] at sorted
      have hordered := ih sorted.2
      have hbelow : ∀ p ∈ seen.foldr note [], (compare first.1 p.1).isLE := by
        intro p hp
        obtain ⟨q, hq, hkey⟩ := key_of_mem_foldr hp
        rw [← hkey]
        exact sorted.1 q hq
      rw [List.foldr_cons]
      generalize seen.foldr note [] = s at hordered hbelow
      cases s with
      | nil => exact List.pairwise_singleton _ _
      | cons p s =>
          obtain ⟨habove, hrest⟩ := List.pairwise_cons.mp hordered
          rw [note_cons]
          by_cases hsame : first.1 = p.1
          · rw [if_pos hsame]
            exact List.pairwise_cons.mpr ⟨habove, hrest⟩
          · rw [if_neg hsame]
            refine List.pairwise_cons.mpr ⟨?_, hordered⟩
            have hlt : compare first.1 p.1 = .lt := by
              have hle := hbelow p List.mem_cons_self
              cases hcompare : compare first.1 p.1 with
              | lt => rfl
              | eq => exact absurd (Std.LawfulEqOrd.eq_of_compare hcompare) hsame
              | gt => simp [hcompare] at hle
            intro q hq
            rcases List.mem_cons.mp hq with rfl | hq
            · exact hlt
            · exact Std.TransCmp.lt_trans hlt (habove q hq)

theorem ofList_ordered (seen : List (List String × Uid)) : (ofList seen).Ordered :=
  ordered_foldr (List.pairwise_mergeSort (fun _ _ _ => Std.TransCmp.isLE_trans)
    (fun a b => isLE_total a.1 b.1) seen)

/-- Sorting by keys keeps the sightings of one key in order. -/
theorem filter_sorted (seen : List (List String × Uid)) (key : List String) :
    (seen.mergeSort fun a b => (compare a.1 b.1).isLE).filter (·.1 = key) =
      seen.filter (·.1 = key) := by
  have hlevel : (seen.filter (·.1 = key)).Pairwise fun a b => (compare a.1 b.1).isLE := by
    refine List.Pairwise.imp_of_mem ?_ (List.pairwise_of_forall fun _ _ => trivial)
    intro a b ha hb _
    have hkey : a.1 = b.1 := by
      rw [of_decide_eq_true (List.mem_filter.mp ha).2, of_decide_eq_true (List.mem_filter.mp hb).2]
    rw [hkey, Std.ReflOrd.compare_self]
    rfl
  have hkept : (seen.filter (·.1 = key)).Sublist
      (seen.mergeSort fun a b => (compare a.1 b.1).isLE) :=
    List.sublist_mergeSort (fun _ _ _ => Std.TransCmp.isLE_trans)
      (fun a b => isLE_total a.1 b.1) hlevel List.filter_sublist
  have hsub := hkept.filter (·.1 = key)
  rw [List.filter_filter] at hsub
  simp only [Bool.and_self] at hsub
  refine (hsub.eq_of_length ?_).symm
  exact ((List.mergeSort_perm seen _).filter _).length_eq.symm

theorem under_ofList (seen : List (List String × Uid)) (key : List String) :
    (ofList seen).under key = (seen.filter (·.1 = key)).map (·.2) := by
  rw [← filter_sorted, ofList]
  generalize seen.mergeSort _ = sorted
  induction sorted with
  | nil => rfl
  | cons first sorted ih =>
      rw [List.foldr_cons, under_note, ih]
      by_cases h : first.1 = key
      · rw [if_pos h, List.filter_cons_of_pos (by simpa using h), List.map_cons,
          List.singleton_append]
      · rw [if_neg h, List.filter_cons_of_neg (by simpa using h), List.nil_append]

theorem times_ofList (seen : List (List String × Uid)) (key : List String) :
    (ofList seen).times key = seen.countP (·.1 = key) := by
  rw [times_eq_length, under_ofList, List.length_map, List.countP_eq_length_filter]

theorem key_of_mem_ofList {seen : List (List String × Uid)} {p : List String × List Uid}
    (h : p ∈ ofList seen) : ∃ q ∈ seen, q.1 = p.1 := by
  obtain ⟨q, hq, hkey⟩ := key_of_mem_foldr h
  exact ⟨q, List.mem_mergeSort.mp hq, hkey⟩

/-- Of the keys that were seen often enough, a key counts with all its sightings or not at all. -/
theorem Ordered.sum_frequent {s : Sightings} (ordered : s.Ordered) (least : Nat)
    (key : List String) :
    times (s.filter fun p => least ≤ p.2.length) key =
      if least ≤ s.times key then s.times key else 0 := by
  induction s with
  | nil => simp [times]
  | cons p s ih =>
      obtain ⟨habove, hrest⟩ := List.pairwise_cons.mp ordered
      by_cases hkey : p.1 = key
      · have hothers : ∀ q ∈ s, q.1 ≠ key := by
          intro q hq hqkey
          have hlt := habove q hq
          rw [hkey, hqkey] at hlt
          simp at hlt
        have hnone := times_eq_zero hothers
        have hnone' : times (s.filter fun p => least ≤ p.2.length) key = 0 :=
          times_eq_zero fun q hq => hothers q (List.mem_of_mem_filter hq)
        rw [times_cons, hnone, if_pos hkey, Nat.add_zero]
        by_cases hleast : least ≤ p.2.length
        · rw [List.filter_cons_of_pos (by simpa using hleast), times_cons, hnone', if_pos hkey,
            if_pos hleast, Nat.add_zero]
        · rw [List.filter_cons_of_neg (by simpa using hleast), hnone', if_neg hleast]
      · rw [times_cons, if_neg hkey, Nat.zero_add, ← ih hrest]
        by_cases hleast : least ≤ p.2.length
        · rw [List.filter_cons_of_pos (by simpa using hleast), times_cons, if_neg hkey, Nat.zero_add]
        · rw [List.filter_cons_of_neg (by simpa using hleast)]

end Sightings

namespace Detect

theorem nodup_eraseDups {α : Type} [DecidableEq α] (items : List α) : items.eraseDups.Nodup := by
  match items with
  | [] => exact List.nodup_nil
  | a :: rest =>
      rw [List.eraseDups_cons, List.nodup_cons]
      refine ⟨?_, nodup_eraseDups _⟩
      simp [List.mem_eraseDups]
termination_by items.length
decreasing_by exact Nat.lt_succ_of_le (List.length_filter_le _ _)

/-- The number of experiences that mention a concept. -/
def mentions (day : List Experience) (concept : String) : Nat :=
  day.countP (·.concepts.contains concept)

theorem mentions_append (day later : List Experience) (concept : String) :
    mentions (day ++ later) concept = mentions day concept + mentions later concept :=
  List.countP_append

/-- What a day adds to the frequency of a concept: the experiences that mention it, if there are
enough of them for a pattern. -/
def share (c : NightlyConfig) (day : List Experience) (concept : String) : Nat :=
  if max c.minOccurrences 1 ≤ mentions day concept then mentions day concept else 0

theorem share_le_mentions (c : NightlyConfig) (day : List Experience) (concept : String) :
    share c day concept ≤ mentions day concept := by
  unfold share
  split
  · exact Nat.le_refl _
  · exact Nat.zero_le _

/-- An experience is seen once under each of its concepts, however often it names it. -/
theorem countP_seen (day : List Experience) (concept : String) :
    (day.flatMap fun e => (distinct e).map fun name => ([name], e.id)).countP (·.1 = [concept]) =
      mentions day concept := by
  unfold mentions
  induction day with
  | nil => rfl
  | cons e day ih =>
      rw [List.flatMap_cons, List.countP_append, List.countP_cons, ih, Nat.add_comm,
        List.countP_map]
      have hcount : (distinct e).countP
          ((fun p : List String × Uid => decide (p.1 = [concept])) ∘ fun name => ([name], e.id)) =
            (distinct e).count concept := by
        rw [List.count_eq_countP]
        apply List.countP_congr
        intro name _
        simp
      rw [hcount]
      by_cases h : concept ∈ e.concepts
      · have hone := List.count_eq_one_of_mem (nodup_eraseDups e.concepts)
          (List.mem_eraseDups.mpr h)
        simp [distinct, hone, h]
      · have hnone : (distinct e).count concept = 0 :=
          List.count_eq_zero.mpr fun hin => h (List.mem_eraseDups.mp hin)
        simp [hnone, h]

theorem recurrences_ofSightings (now : Time.Instant) (names : List String) (ids : List Uid)
    (weight : Float) (concept : String) :
    (Pattern.ofSightings .recurring now names ids weight).recurrences concept =
      (if names.head? = some concept then ids.length else 0) % UInt64.size := by
  by_cases h : names.head? = some concept
  · simp [Pattern.recurrences, Pattern.ofSightings, h]
  · simp [Pattern.recurrences, Pattern.ofSightings, h]

theorem sum_recurring (c : NightlyConfig) (now : Time.Instant) (day : List Experience)
    (concept : String) :
    ((recurring c now day).map (·.recurrences concept)).sum % UInt64.size =
      share c day concept % UInt64.size := by
  let seen := day.flatMap fun e => (distinct e).map fun name => ([name], e.id)
  have hfrequent := (Sightings.ofList_ordered seen).sum_frequent (max c.minOccurrences 1) [concept]
  rw [Sightings.times_ofList, countP_seen] at hfrequent
  unfold share
  rw [← hfrequent, recurring, List.map_map, Sightings.times, List.sum_nat_mod (List.map _ _),
    List.map_map]
  conv_rhs => rw [List.sum_nat_mod, List.map_map]
  refine congrArg (·.sum % UInt64.size) (List.map_congr_left ?_)
  intro p hp
  -- Every key is a single concept, so that its head tells which.
  obtain ⟨q, hq, hkey⟩ := Sightings.key_of_mem_ofList (List.mem_of_mem_filter hp)
  obtain ⟨e, _, hq⟩ := List.mem_flatMap.mp hq
  obtain ⟨name, _, rfl⟩ := List.mem_map.mp hq
  simp only [Function.comp_apply, recurrences_ofSightings, ← hkey, Nat.mod_mod]
  simp

/-- The patterns of a day count its share for each concept. -/
theorem sum_all (c : NightlyConfig) (now : Time.Instant) (day : List Experience)
    (concept : String) :
    ((all c now day).map (·.recurrences concept)).sum % UInt64.size =
      share c day concept % UInt64.size := by
  have hperm : (all c now day).Perm (recurring c now day ++ sequences c now day ++ pairs c now day) :=
    List.mergeSort_perm _ _
  have hnone : ∀ patterns : List Pattern, (∀ p ∈ patterns, p.kind ≠ .recurring) →
      (patterns.map (·.recurrences concept)).sum = 0 := by
    intro patterns hkinds
    refine List.sum_eq_zero ?_
    intro n hn
    obtain ⟨p, hp, rfl⟩ := List.mem_map.mp hn
    exact if_neg fun h => hkinds p hp h.1
  have hsequences := hnone (sequences c now day) (by
    intro p hp
    obtain ⟨q, _, rfl⟩ := List.mem_map.mp hp
    simp [Pattern.ofSightings])
  have hpairs := hnone (pairs c now day) (by
    intro p hp
    obtain ⟨q, _, rfl⟩ := List.mem_map.mp hp
    simp [Pattern.ofSightings])
  rw [(hperm.map _).sum_eq, List.map_append, List.map_append, List.sum_append, List.sum_append,
    hsequences, hpairs, Nat.add_zero, sum_recurring]

end Detect

end Engram
