import Engram.Names
import Mathlib.Data.List.Induction
import Mathlib.Data.String.Basic

/-! Sets of names, and passes over a list that count what is new. A set of names is a list in
strictly ascending order: it is determined by its members, and a name that is added to it makes it
longer by one if it was not there. Where every step of a pass counts by how much something grows,
the sum of the pass is by how much it has grown in the end. -/
namespace Engram

section Pass

variable {σ α β : Type} {step : σ → α → σ × Nat}

theorem addUp_nil (s : σ) : addUp step s [] = (s, 0) := rfl

theorem addUp_append (s : σ) (items others : List α) :
    addUp step s (items ++ others) = ((addUp step (addUp step s items).1 others).1,
      (addUp step s items).2 + (addUp step (addUp step s items).1 others).2) := by
  -- The pass carries its sum along, so the induction takes the last step off, not the first.
  induction others using List.reverseRecOn with
  | nil => rw [List.append_nil, addUp_nil, Nat.add_zero]
  | append_singleton others last ih =>
      unfold addUp at ih ⊢
      rw [← List.append_assoc, List.foldl_concat, List.foldl_concat, ih]
      exact congrArg (Prod.mk _) (Nat.add_assoc _ _ _)

theorem addUp_singleton (s : σ) (a : α) : addUp step s [a] = step s a :=
  congrArg (Prod.mk _) (Nat.zero_add _)

theorem addUp_cons (s : σ) (a : α) (items : List α) :
    addUp step s (a :: items) = ((addUp step (step s a).1 items).1,
      (step s a).2 + (addUp step (step s a).1 items).2) := by
  rw [← List.singleton_append, addUp_append, addUp_singleton]

/-- A pass whose steps are passes themselves is one pass. -/
theorem addUp_flatMap (s : σ) (f : β → List α) (items : List β) :
    addUp step s (items.flatMap f) = addUp (fun s b => addUp step s (f b)) s items := by
  induction items generalizing s with
  | nil => rfl
  | cons b items ih => rw [List.flatMap_cons, addUp_append, addUp_cons, ih]

/-- What every step keeps, the pass keeps; and if every step counts by how much a size grows, so
does the pass. -/
theorem addUp_grows {P : σ → Prop} {f : σ → Nat} {items : List α}
    (steps : ∀ s, ∀ a ∈ items, P s → P (step s a).1 ∧ f (step s a).1 = f s + (step s a).2)
    {s : σ} (start : P s) :
    P (addUp step s items).1 ∧
      f (addUp step s items).1 = f s + (addUp step s items).2 := by
  induction items generalizing s with
  | nil => exact ⟨start, rfl⟩
  | cons a items ih =>
      obtain ⟨hkept, hgrown⟩ := steps s a List.mem_cons_self start
      obtain ⟨hkept', hgrown'⟩ := ih (fun s b hb => steps s b (List.mem_cons_of_mem _ hb)) hkept
      rw [addUp_cons]
      refine ⟨hkept', ?_⟩
      rw [hgrown', hgrown, Nat.add_assoc]

end Pass

namespace Names

/-- In strictly ascending order. -/
def Strict (names : List String) : Prop := names.Pairwise (· < ·)

variable {name other : String} {names others : List String}

theorem mem_insert : name ∈ insert other names ↔ name = other ∨ name ∈ names := by
  induction names with
  | nil => simp [insert]
  | cons first rest ih =>
      simp only [insert]
      split
      · simp [ih, or_left_comm]
      · split
        · rename_i hsame
          simp [hsame]
        · simp

theorem length_insert (new : name ∉ names) : (insert name names).length = names.length + 1 := by
  induction names with
  | nil => rfl
  | cons first rest ih =>
      obtain ⟨hne, hrest⟩ := not_or.mp (mt List.mem_cons.mpr new)
      simp only [insert]
      split
      · rw [List.length_cons, ih hrest, List.length_cons]
      · rw [if_neg (Ne.symm hne), List.length_cons]

/-- A set of names stays one. -/
theorem Strict.insert (strict : Strict names) (name : String) : Strict (insert name names) := by
  induction names with
  | nil => simp [Names.insert, Strict]
  | cons first names ih =>
      obtain ⟨above, rest⟩ := List.pairwise_cons.mp strict
      simp only [Names.insert]
      by_cases hbefore : first < name
      · rw [if_pos hbefore]
        refine List.pairwise_cons.mpr ⟨?_, ih rest⟩
        intro other hother
        rcases mem_insert.mp hother with rfl | hother
        · exact hbefore
        · exact above other hother
      · by_cases hsame : first = name
        · rw [if_neg hbefore, if_pos hsame]
          exact strict
        · have hlt : name < first := lt_of_le_of_ne (not_lt.mp hbefore) (Ne.symm hsame)
          rw [if_neg hbefore, if_neg hsame]
          refine List.pairwise_cons.mpr ⟨?_, strict⟩
          intro other hother
          rcases List.mem_cons.mp hother with rfl | hother
          · exact hlt
          · exact hlt.trans (above other hother)

theorem Strict.nodup (strict : Strict names) : names.Nodup := strict.imp ne_of_lt

/-- A set is determined by its members. -/
theorem Strict.ext (strict : Strict names) (strict' : Strict others)
    (same : ∀ name, name ∈ names ↔ name ∈ others) : names = others := by
  have hperm : names.Perm others :=
    (List.perm_ext_iff_of_nodup strict.nodup strict'.nodup).mpr same
  exact hperm.eq_of_pairwise (fun _ _ _ _ hab hba => absurd hab hba.asymm) strict strict'

theorem mem_place : name ∈ place other names ↔ name = other ∨ name ∈ names := by
  cases names with
  | nil => simp [place]
  | cons first rest =>
      simp only [place]
      split
      · rename_i hsame
        simp [hsame]
      · exact List.mem_cons

theorem mem_foldr_place : name ∈ names.foldr place [] ↔ name ∈ names := by
  induction names with
  | nil => exact Iff.rfl
  | cons first names ih => rw [List.foldr_cons, mem_place, ih, List.mem_cons]

theorem strict_foldr_place (ascending : names.Pairwise (· ≤ ·)) :
    Strict (names.foldr place []) := by
  induction names with
  | nil => exact .nil
  | cons first names ih =>
      rw [List.pairwise_cons] at ascending
      have rest := ih ascending.2
      have above : ∀ name ∈ names.foldr place [], first ≤ name :=
        fun name hname => ascending.1 name (mem_foldr_place.mp hname)
      rw [List.foldr_cons]
      cases hrest : names.foldr place [] with
      | nil => simp [place, Strict]
      | cons other tail =>
          rw [hrest] at rest above
          simp only [place]
          split
          · exact rest
          · rename_i hne
            have hlt : first < other := lt_of_le_of_ne (above other List.mem_cons_self) hne
            refine List.pairwise_cons.mpr ⟨?_, rest⟩
            intro name hname
            rcases List.mem_cons.mp hname with rfl | hname
            · exact hlt
            · exact hlt.trans ((List.pairwise_cons.mp rest).1 name hname)

theorem strict_ofList (names : List String) : Strict (ofList names) := by
  apply strict_foldr_place
  have hsorted := @List.pairwise_mergeSort String (fun a b => (compare a b).isLE)
    (fun a b c hab hbc => Std.LawfulBCmp.isLE_iff_le.mpr
      ((Std.LawfulBCmp.isLE_iff_le.mp hab).trans (Std.LawfulBCmp.isLE_iff_le.mp hbc)))
    (fun a b => by
      rw [Bool.or_eq_true]
      exact (le_total a b).imp Std.LawfulBCmp.isLE_iff_le.mpr Std.LawfulBCmp.isLE_iff_le.mpr)
    names
  exact hsorted.imp Std.LawfulBCmp.isLE_iff_le.mp

theorem foldr_place_of_strict (strict : Strict names) : names.foldr place [] = names := by
  induction names with
  | nil => rfl
  | cons first names ih =>
      obtain ⟨above, rest⟩ := List.pairwise_cons.mp strict
      rw [List.foldr_cons, ih rest]
      cases names with
      | nil => rfl
      | cons other names => exact if_neg (above other List.mem_cons_self).ne

/-- Names that are a set already stay as they are. -/
theorem ofList_of_strict (strict : Strict names) : ofList names = names := by
  unfold ofList
  rw [List.mergeSort_of_pairwise]
  · exact foldr_place_of_strict strict
  · exact strict.imp fun hlt => Std.LawfulBCmp.isLE_iff_le.mpr hlt.le

end Names

end Engram
