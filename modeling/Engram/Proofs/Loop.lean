import Mathlib.Data.List.Forall2

/-! Passes over a list that may fail. A pass succeeds if every element does, and otherwise stops at the
first one that does not, with its error. -/
namespace Engram

variable {ε α β : Type} {f : α → Except ε β} {a : α} {items : List α} {e : ε}

theorem bind_error_iff {x : Except ε α} {next : α → Except ε β} :
    (x >>= next) = .error e ↔ x = .error e ∨ ∃ a, x = .ok a ∧ next a = .error e := by
  cases x with
  | error e' => simp [bind, Except.bind]
  | ok a => simp [bind, Except.bind]

theorem map_error_iff {x : Except ε α} {change : α → β} :
    x.map change = .error e ↔ x = .error e := by
  cases x with
  | error e' => simp [Except.map]
  | ok a => simp [Except.map]

/-- A pass makes its results one by one. -/
theorem mapM_ok_iff {results : List β} :
    items.mapM f = .ok results ↔ List.Forall₂ (fun a b => f a = .ok b) items results := by
  induction items generalizing results with
  | nil =>
      constructor
      · rintro ⟨⟩
        exact .nil
      · rintro ⟨⟩
        rfl
  | cons a items ih =>
      rw [List.mapM_cons]
      constructor
      · intro h
        cases ha : f a with
        | error e => simp [ha, bind, Except.bind] at h
        | ok b =>
            cases hrest : items.mapM f with
            | error e => simp [ha, hrest, bind, Except.bind] at h
            | ok rest =>
                simp only [ha, hrest, bind, Except.bind, pure, Except.pure] at h
                cases h
                exact .cons ha (ih.mp hrest)
      · rintro (_ | ⟨ha, hrest⟩)
        rw [ha, ih.mpr hrest]
        rfl

/-- Every result is made of one of the elements. -/
theorem mem_of_mapM_ok {results : List β} (h : items.mapM f = .ok results) {b : β}
    (hb : b ∈ results) : ∃ a ∈ items, f a = .ok b := by
  induction mapM_ok_iff.mp h with
  | nil => cases hb
  | cons ha hrest ih =>
      rcases List.mem_cons.mp hb with rfl | hb
      · exact ⟨_, List.mem_cons_self, ha⟩
      · obtain ⟨c, hc, hmade⟩ := ih (mapM_ok_iff.mpr hrest) hb
        exact ⟨c, List.mem_cons_of_mem _ hc, hmade⟩

theorem ok_of_mapM_ok {results : List β} (h : items.mapM f = .ok results) :
    ∀ a ∈ items, ∃ b, f a = .ok b := by
  induction mapM_ok_iff.mp h with
  | nil => exact fun _ ha => absurd ha List.not_mem_nil
  | cons ha hrest ih => exact List.forall_mem_cons.mpr ⟨⟨_, ha⟩, ih (mapM_ok_iff.mpr hrest)⟩

/-- The first element that fails does so with the given error. -/
def FirstFails (f : α → Except ε β) (items : List α) (e : ε) : Prop :=
  ∃ before a after, items = before ++ a :: after ∧ (∀ x ∈ before, ∃ b, f x = .ok b) ∧
    f a = .error e

theorem not_firstFails_nil : ¬ FirstFails f [] e := by
  rintro ⟨before, a, after, h, _⟩
  cases before with
  | nil => cases h
  | cons x before => cases h

theorem firstFails_cons_error {e' : ε} (ha : f a = .error e') :
    FirstFails f (a :: items) e ↔ e' = e := by
  constructor
  · rintro ⟨before, x, after, h, passed, hx⟩
    cases before with
    | nil =>
        cases h
        exact Except.error.inj (ha.symm.trans hx)
    | cons y before =>
        cases h
        obtain ⟨b, hb⟩ := passed a List.mem_cons_self
        rw [ha] at hb
        cases hb
  · rintro rfl
    exact ⟨[], a, items, rfl, fun _ hx => absurd hx List.not_mem_nil, ha⟩

theorem firstFails_cons_ok {b : β} (ha : f a = .ok b) :
    FirstFails f (a :: items) e ↔ FirstFails f items e := by
  constructor
  · rintro ⟨before, x, after, h, passed, hx⟩
    cases before with
    | nil =>
        cases h
        rw [ha] at hx
        cases hx
    | cons y before =>
        cases h
        exact ⟨before, x, after, rfl, (List.forall_mem_cons.mp passed).2, hx⟩
  · rintro ⟨before, x, after, rfl, passed, hx⟩
    exact ⟨a :: before, x, after, rfl, List.forall_mem_cons.mpr ⟨⟨b, ha⟩, passed⟩, hx⟩

theorem mapM_error_iff : items.mapM f = .error e ↔ FirstFails f items e := by
  induction items with
  | nil => exact iff_of_false (fun h => nomatch h) not_firstFails_nil
  | cons a items ih =>
      rw [List.mapM_cons]
      cases ha : f a with
      | error e' =>
          rw [firstFails_cons_error ha]
          exact Except.error.injEq e' e ▸ Iff.rfl
      | ok b =>
          rw [firstFails_cons_ok ha, ← ih]
          cases items.mapM f with
          | error e' => exact Iff.rfl
          | ok results => exact iff_of_false (fun h => nomatch h) (fun h => nomatch h)

/-- A pass over a list succeeds if it does so at every element. -/
theorem mapM_ok (h : ∀ a ∈ items, ∃ b, f a = .ok b) : ∃ results, items.mapM f = .ok results := by
  cases hall : items.mapM f with
  | ok results => exact ⟨results, rfl⟩
  | error e =>
      obtain ⟨before, a, after, rfl, _, ha⟩ := mapM_error_iff.mp hall
      obtain ⟨b, hb⟩ := h a (List.mem_append_right _ List.mem_cons_self)
      rw [ha] at hb
      cases hb

theorem firstFails_append {rest : List α} :
    FirstFails f (items ++ rest) e ↔
      FirstFails f items e ∨ (∀ a ∈ items, ∃ b, f a = .ok b) ∧ FirstFails f rest e := by
  rw [← mapM_error_iff, ← mapM_error_iff, ← mapM_error_iff, List.mapM_append, bind_error_iff]
  refine or_congr_right ?_
  constructor
  · rintro ⟨results, hitems, hrest⟩
    rcases bind_error_iff.mp hrest with hrest | ⟨_, _, hdone⟩
    · exact ⟨ok_of_mapM_ok hitems, hrest⟩
    · cases hdone
  · rintro ⟨hitems, hrest⟩
    obtain ⟨results, hresults⟩ := mapM_ok hitems
    exact ⟨results, hresults, bind_error_iff.mpr (.inl hrest)⟩

/-- A pass over groups fails where the pass over all that is in them does. -/
theorem firstFails_flatMap {γ δ : Type} {group : γ → List α} {pass : γ → Except ε δ}
    (fails : ∀ c e, pass c = .error e ↔ FirstFails f (group c) e) (groups : List γ) :
    FirstFails f (groups.flatMap group) e ↔ FirstFails pass groups e := by
  induction groups with
  | nil => exact iff_of_false not_firstFails_nil not_firstFails_nil
  | cons c groups ih =>
      rw [List.flatMap_cons, firstFails_append, ih]
      cases hc : pass c with
      | error e' =>
          have hfirst : ∀ e, FirstFails f (group c) e ↔ e' = e := by
            intro e
            rw [← fails, hc, Except.error.injEq]
          have hstops : ¬ ∀ a ∈ group c, ∃ b, f a = .ok b := by
            intro hall
            obtain ⟨results, hresults⟩ := mapM_ok hall
            rw [mapM_error_iff.mpr ((hfirst e').mpr rfl)] at hresults
            cases hresults
          rw [firstFails_cons_error hc, hfirst, or_iff_left (fun h => hstops h.1)]
      | ok d =>
          have hnone : ∀ e, ¬ FirstFails f (group c) e := by
            intro e hfails
            rw [← fails, hc] at hfails
            cases hfails
          have hpasses : ∀ a ∈ group c, ∃ b, f a = .ok b := by
            cases hall : (group c).mapM f with
            | error e' => exact absurd (mapM_error_iff.mp hall) (hnone e')
            | ok results => exact ok_of_mapM_ok hall
          rw [firstFails_cons_ok hc, or_iff_right (hnone e), and_iff_right hpasses]

theorem forM_error_iff {f : α → Except ε Unit} : items.forM f = .error e ↔ FirstFails f items e := by
  induction items with
  | nil => exact iff_of_false (fun h => nomatch h) not_firstFails_nil
  | cons a items ih =>
      change (f a).bind (fun _ => items.forM f) = .error e ↔ _
      cases ha : f a with
      | error e' =>
          rw [firstFails_cons_error ha]
          exact Except.error.injEq e' e ▸ Iff.rfl
      | ok b =>
          rw [firstFails_cons_ok ha, ← ih]
          rfl

theorem forM_ok_iff {f : α → Except ε Unit} :
    items.forM f = .ok () ↔ ∀ a ∈ items, f a = .ok () := by
  induction items with
  | nil => exact iff_of_true rfl fun _ ha => absurd ha List.not_mem_nil
  | cons a items ih =>
      rw [List.forall_mem_cons, ← ih]
      change (f a).bind (fun _ => items.forM f) = .ok () ↔ _
      cases f a with
      | error e => exact iff_of_false (fun h => nomatch h) (fun h => nomatch h.1)
      | ok _ => exact ⟨fun h => ⟨rfl, h⟩, And.right⟩

end Engram
