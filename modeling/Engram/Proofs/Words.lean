import Engram.Concept

/-! The words of a text that is put together from parts. Blanks between two parts keep their words
apart, whatever the parts are, so that the words of the whole are those of the parts in order. -/
namespace Engram.Text

section Runs

variable {p : Char → Bool}

theorem splitAtClass_eq_splitOnP (cs : List Char) : splitAtClass p cs = cs.splitOnP p := by
  induction cs with
  | nil => rfl
  | cons c rest ih =>
      obtain ⟨piece, pieces, hrest⟩ := List.exists_cons_of_ne_nil (List.splitOnP_ne_nil p rest)
      rw [splitAtClass, List.splitOnP_cons_eq_if_modifyHead, ih, hrest]
      rfl

theorem runsOutside_nil : runsOutside p [] = [] := rfl

theorem runsOutside_append_cons {c : Char} (hc : p c) (front back : List Char) :
    runsOutside p (front ++ c :: back) = runsOutside p front ++ runsOutside p back := by
  unfold runsOutside
  rw [splitAtClass_eq_splitOnP, splitAtClass_eq_splitOnP, splitAtClass_eq_splitOnP,
    List.splitOnP_append_cons front back hc, List.filter_append]

/-- Characters of the class in front of a text leave its runs as they are. -/
theorem runsOutside_append_of_all {gap : List Char} (hgap : ∀ c ∈ gap, p c) (back : List Char) :
    runsOutside p (gap ++ back) = runsOutside p back := by
  induction gap with
  | nil => rfl
  | cons c gap ih =>
      have hrun := runsOutside_append_cons (hgap c List.mem_cons_self) [] (gap ++ back)
      rw [runsOutside_nil, List.nil_append, List.nil_append] at hrun
      rw [List.cons_append, hrun, ih fun d hd => hgap d (List.mem_cons_of_mem _ hd)]

end Runs

/-- What may stand between two parts of a text: blanks, and at least one. -/
structure Separates (separator : String) : Prop where
  some : separator ≠ ""
  blank : ∀ c ∈ separator.toList, isBlank c

/-- The words of two parts with blanks between them are the words of both. -/
theorem bareWords_append {separator : String} (separates : Separates separator)
    (front back : String) :
    bareWords (front ++ separator ++ back) = bareWords front ++ bareWords back := by
  unfold bareWords
  rw [String.toList_append, String.toList_append, ← List.map_append]
  congr 1
  cases hchars : separator.toList with
  | nil => exact absurd (String.toList_eq_nil_iff.mp hchars) separates.some
  | cons c gap =>
      have hblank := separates.blank
      rw [hchars] at hblank
      rw [List.append_assoc, List.cons_append,
        runsOutside_append_cons (hblank c List.mem_cons_self),
        runsOutside_append_of_all fun d hd => hblank d (List.mem_cons_of_mem _ hd)]

theorem bareWords_intercalate {separator : String} (separates : Separates separator)
    (texts : List String) : bareWords (separator.intercalate texts) = texts.flatMap bareWords := by
  induction texts with
  | nil => rfl
  | cons first rest ih =>
      cases rest with
      | nil => simp
      | cons second rest =>
          rw [String.intercalate_cons_cons, bareWords_append separates, ih]
          rfl

theorem mem_vocabulary {word text : String} :
    word ∈ vocabulary text ↔ word ∈ bareWords text ∧ word ≠ "" := by
  unfold vocabulary
  rw [List.mem_eraseDups, List.mem_filter, decide_eq_true_iff]

end Engram.Text
