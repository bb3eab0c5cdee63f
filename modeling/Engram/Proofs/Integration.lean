import Engram.Proofs.Doubles
import Engram.Proofs.Revision

/-! What the patterns of a night mean for each concept. They are merged in one pass over all of them,
in which the kinds are mixed and one step of a sequence overrides another. Told apart, each kind has a
meaning of its own: recurring patterns add up, pairs are united with what is associated already, and
of the steps of all sequences the last one from a concept decides what follows it. -/
namespace Engram

/-- Some patterns by descending importance. Among equally important ones the order is as given. -/
structure Pattern.ByImportance (patterns order : List Pattern) : Prop where
  perm : order.Perm patterns
  descending : order.Pairwise fun p q => ¬ p.importance.Before q.importance
  stable (importance : Number.Double) :
    order.filter (·.importance = importance) = patterns.filter (·.importance = importance)

/-- The order of merging is the stable one. -/
theorem KnowledgeBase.byImportance_mergeOrder (patterns : List Pattern) :
    Pattern.ByImportance patterns (mergeOrder patterns) := by
  have trans : ∀ p q r : Pattern,
      decide (q.importance.rank ≤ p.importance.rank) →
      decide (r.importance.rank ≤ q.importance.rank) →
      decide (r.importance.rank ≤ p.importance.rank) := by
    intro p q r
    simp only [decide_eq_true_eq]
    exact fun hfirst hsecond => hsecond.trans hfirst
  have total : ∀ p q : Pattern,
      decide (q.importance.rank ≤ p.importance.rank) ||
        decide (p.importance.rank ≤ q.importance.rank) := by
    intro p q
    simp only [Bool.or_eq_true, decide_eq_true_eq]
    exact Nat.le_total _ _
  have perm : (mergeOrder patterns).Perm patterns := List.mergeSort_perm _ _
  refine ⟨perm, ?_, ?_⟩
  · refine (List.pairwise_mergeSort trans total patterns).imp ?_
    intro p q hle
    rw [← Number.Double.compareTotal_eq_lt, Number.Double.compareTotal, Nat.compare_eq_lt, not_lt]
    exact of_decide_eq_true hle
  · intro importance
    -- What is equally important is in order as it stands, so sorting keeps it as a sublist; and there
    -- is no more of it than before.
    let same (p : Pattern) : Bool := p.importance = importance
    have level : (patterns.filter same).Pairwise fun p q =>
        decide (q.importance.rank ≤ p.importance.rank) := by
      refine List.pairwise_of_forall_mem_list ?_
      intro p hp q hq
      have hfirst : p.importance = importance := of_decide_eq_true (List.mem_filter.mp hp).2
      have hsecond : q.importance = importance := of_decide_eq_true (List.mem_filter.mp hq).2
      simp [hfirst, hsecond]
    have kept : (patterns.filter same).Sublist (mergeOrder patterns) :=
      List.sublist_mergeSort trans total level List.filter_sublist
    have inside := kept.filter same
    simp only [List.filter_filter, Bool.and_self] at inside
    exact (inside.eq_of_length (perm.filter same).length_eq.symm).symm

namespace Pattern

theorem mem_pairs {p : Pattern} {a b : String} :
    (a, b) ∈ p.pairs ↔
      p.kind = .coOccurrence ∧ (p.concepts = [a, b] ∨ p.concepts = [b, a]) := by
  unfold pairs
  split
  · rename_i c d hkind hconcepts
    simp [hkind, hconcepts, eq_comm, and_comm]
  · rename_i hnone
    simp only [List.not_mem_nil, false_iff]
    rintro ⟨hkind, hconcepts | hconcepts⟩
    · exact hnone _ _ hkind hconcepts
    · exact hnone _ _ hkind hconcepts

/-- A step from one concept to the next in a sequence. -/
structure Step where
  concept : String
  next : String
  patternId : String

/-- The steps of a pattern: the neighbours in a sequence that are not the same. -/
def steps (p : Pattern) : List Step :=
  if p.kind = .sequential then
    ((p.concepts.zip p.concepts.tail).filter fun s => s.1 ≠ s.2).map fun s => ⟨s.1, s.2, p.id⟩
  else []

/-- The conflict of a step with what was known to follow its concept. -/
def Step.conflict? (s : Step) (known : Option String) : Option Conflict :=
  (known.filter (· ≠ s.next)).map fun replaced => ⟨s.concept, replaced, s.next, s.patternId⟩

/-- What follows a concept after some steps: the target of the last one from it, or what was known
to follow it if there is none. -/
def followerAfter (known : String → Option String) (steps : List Step) (concept : String) :
    Option String :=
  ((steps.filter (·.concept = concept)).getLast?.map (·.next)).or (known concept)

/-- The conflicts of some steps in order, each with what follows its concept after the steps before
it. -/
def conflictsOf (known : String → Option String) (steps : List Step) : List Conflict :=
  steps.zipIdx.filterMap fun s => s.1.conflict? (followerAfter known (steps.take s.2) s.1.concept)

variable (known : String → Option String)

theorem followerAfter_nil : followerAfter known [] = known := by
  funext concept
  simp [followerAfter]

theorem followerAfter_singleton (s : Step) (concept : String) :
    followerAfter known [s] concept = if concept = s.concept then some s.next else known concept := by
  by_cases h : concept = s.concept
  · simp [followerAfter, h]
  · simp [followerAfter, h, Ne.symm h]

theorem followerAfter_append (steps more : List Step) :
    followerAfter known (steps ++ more) = followerAfter (followerAfter known steps) more := by
  funext concept
  simp only [followerAfter, List.filter_append, List.getLast?_append, Option.map_or, Option.or_assoc]

theorem conflictsOf_append (steps more : List Step) :
    conflictsOf known (steps ++ more) =
      conflictsOf known steps ++ conflictsOf (followerAfter known steps) more := by
  unfold conflictsOf
  rw [List.zipIdx_append, List.filterMap_append]
  congr 1
  · refine List.filterMap_congr ?_
    intro s hs
    have hbound : s.2 ≤ steps.length := (List.snd_lt_of_mem_zipIdx hs).le
    rw [List.take_append_of_le_length hbound]
  · have shifted : more.zipIdx (0 + steps.length) =
        more.zipIdx.map fun s => (s.1, s.2 + steps.length) := by
      rw [Nat.zero_add]
      exact (List.map_snd_add_zipIdx_eq_zipIdx (l := more) (n := steps.length) (k := 0)).symm
    rw [shifted, List.filterMap_map]
    refine List.filterMap_congr ?_
    intro s _
    simp only [Function.comp_apply]
    rw [Nat.add_comm, List.take_length_add_append, followerAfter_append]

end Pattern

namespace KnowledgeBase

/-- What is known to follow a concept. -/
def follower (b : KnowledgeBase) (concept : String) : Option String :=
  (b.get? concept).bind (·.follows)

/-- What a concept is associated with, which is nothing if nothing is known of it. -/
def associations (b : KnowledgeBase) (concept : String) : List String :=
  ((b.get? concept).map (·.associations)).getD []

theorem mem_associations {b : KnowledgeBase} {concept other : String} :
    other ∈ b.associations concept ↔ b.Links concept other := by
  unfold associations Links
  cases b.get? concept with
  | none => simp
  | some e => simp

end KnowledgeBase

namespace Merging

open KnowledgeBase Pattern

variable {m m' m'' : Merging} (p : Pattern)

/-- A merge has gone along some steps, and has reported their conflicts. Associations are still
sets. -/
structure Leads (m m' : Merging) (steps : List Step) : Prop where
  ordered : m'.base.Ordered
  follower : m'.base.follower = followerAfter m.base.follower steps
  conflicts : m'.report.conflicts = m.report.conflicts ++ conflictsOf m.base.follower steps
  strict (concept : String) : (m.base.associations concept).Pairwise (· < ·) →
    (m'.base.associations concept).Pairwise (· < ·)

/-- The base and the conflicts are as they were. -/
theorem Leads.of_eq (ordered : m.base.Ordered) (base : m'.base = m.base)
    (conflicts : m'.report.conflicts = m.report.conflicts) : Leads m m' [] where
  ordered := base ▸ ordered
  follower := by rw [base, followerAfter_nil]
  conflicts := by simp [conflicts, conflictsOf]
  strict concept h := by rwa [base]

theorem Leads.trans {steps more : List Step} (first : Leads m m' steps)
    (second : Leads m' m'' more) : Leads m m'' (steps ++ more) where
  ordered := second.ordered
  follower := by rw [second.follower, first.follower, followerAfter_append]
  conflicts := by
    rw [second.conflicts, first.conflicts, first.follower, conflictsOf_append, List.append_assoc]
  strict concept h := second.strict concept (first.strict concept h)

section Change

variable {concept : String} {f : KnowledgeEntry → KnowledgeEntry}

theorem strict_change (ordered : m.base.Ordered) (keeps : ∀ e, (f e).concept = e.concept)
    (strict : ∀ e, e.associations.Pairwise (· < ·) → (f e).associations.Pairwise (· < ·))
    (other : String) (h : (m.base.associations other).Pairwise (· < ·)) :
    ((m.change p concept f).base.associations other).Pairwise (· < ·) := by
  unfold associations at h ⊢
  rw [get?_change p ordered keeps]
  by_cases hother : other = concept
  · rw [if_pos hother]
    refine strict _ ?_
    unfold entry
    rw [← hother]
    cases hknown : m.base.get? other with
    | none => exact .nil
    | some e => simpa [hknown] using h
  · rw [if_neg hother]
    exact h

theorem follower_change (ordered : m.base.Ordered) (keeps : ∀ e, (f e).concept = e.concept)
    (other : String) :
    (m.change p concept f).base.follower other =
      if other = concept then (f (m.entry concept)).follows else m.base.follower other := by
  unfold follower
  rw [get?_change p ordered keeps]
  split
  · rfl
  · rfl

/-- A change that leaves alone what follows. -/
theorem Leads.change (ordered : m.base.Ordered) (keeps : ∀ e, (f e).concept = e.concept)
    (follows : ∀ e, (f e).follows = e.follows)
    (strict : ∀ e, e.associations.Pairwise (· < ·) → (f e).associations.Pairwise (· < ·)) :
    Leads m (m.change p concept f) [] where
  ordered := ordered.alter keeps
  follower := by
    rw [followerAfter_nil]
    funext other
    rw [follower_change p ordered keeps, follows]
    by_cases hother : other = concept
    · rw [if_pos hother, hother]
      unfold KnowledgeBase.follower entry
      cases m.base.get? concept with
      | none => rfl
      | some e => rfl
    · rw [if_neg hother]
  conflicts := (List.append_nil _).symm
  strict := strict_change p ordered keeps strict

end Change

theorem leads_recurring (ordered : m.base.Ordered) : Leads m (m.recurring p) [] := by
  unfold recurring
  cases p.concepts with
  | nil => exact .of_eq ordered rfl rfl
  | cons concept _ =>
      let counted (e : KnowledgeEntry) : KnowledgeEntry :=
        { e with frequency := e.frequency + p.occurrences }
      have changed : Leads m (m.change p concept counted) [] :=
        .change p ordered (fun _ => rfl) (fun _ => rfl) fun _ strict => strict
      exact ⟨changed.ordered, changed.follower, changed.conflicts, changed.strict⟩

theorem leads_link (ordered : m.base.Ordered) (concept other : String) :
    Leads m (m.link p concept other) [] := by
  unfold link
  split
  · exact .of_eq ordered rfl rfl
  · exact .change p ordered (fun _ => rfl) (fun _ => rfl) fun _ strict =>
      Names.Strict.insert strict other

theorem leads_coOccurrence (ordered : m.base.Ordered) : Leads m (m.coOccurrence p) [] := by
  unfold coOccurrence
  split
  · rename_i a b _
    have first := leads_link p ordered a b
    exact first.trans (leads_link p first.ordered b a)
  · exact .of_eq ordered rfl rfl

/-- A step is taken whether its target is new or not, but only a new one is noted. -/
theorem leads_follow (ordered : m.base.Ordered) {concept next : String} (differ : concept ≠ next) :
    Leads m (m.follow p concept next) [⟨concept, next, p.id⟩] := by
  have one : conflictsOf m.base.follower [⟨concept, next, p.id⟩] =
      (Step.conflict? ⟨concept, next, p.id⟩ (m.base.follower concept)).toList := by
    simp only [conflictsOf, List.zipIdx_singleton, List.filterMap_cons, List.filterMap_nil,
      List.take_zero, followerAfter_nil]
    cases Step.conflict? ⟨concept, next, p.id⟩ (m.base.follower concept) with
    | none => rfl
    | some c => rfl
  unfold follow
  simp only
  by_cases hknown : m.base.follower concept = some next
  · rw [if_pos (by simpa using .inr hknown)]
    refine ⟨ordered, ?_, ?_, fun _ => id⟩
    · funext other
      rw [followerAfter_singleton]
      split
      · rename_i hother
        rw [hother, hknown]
      · rfl
    · simp [one, hknown, Step.conflict?]
  · rw [if_neg (by simpa [differ, KnowledgeBase.follower] using hknown)]
    have changed : ∀ other, (m.change p concept fun e =>
        { e with follows := some next }).base.follower other = _ :=
      follower_change p ordered fun _ => rfl
    refine ⟨ordered.alter fun _ => rfl, ?_, ?_, ?_⟩
    · funext other
      rw [followerAfter_singleton]
      exact changed other
    · rw [one]
      change m.report.conflicts ++ (m.base.follower concept).toList.map _ = _
      cases hfollower : m.base.follower concept with
      | none => rfl
      | some old =>
          have hother : old ≠ next := fun h => hknown (hfollower.trans (congrArg some h))
          simp [Step.conflict?, Option.filter, hother]
    · exact strict_change p ordered (fun _ => rfl) fun _ strict => strict

theorem leads_sequence (ordered : m.base.Ordered) :
    Leads m (m.sequence p)
      (((p.concepts.zip p.concepts.tail).filter fun s => s.1 ≠ s.2).map
        fun s => ⟨s.1, s.2, p.id⟩) := by
  unfold sequence
  induction p.concepts.zip p.concepts.tail generalizing m with
  | nil => exact .of_eq ordered rfl rfl
  | cons s pairs ih =>
      rw [List.foldl_cons]
      by_cases hsame : s.1 = s.2
      · have hstay : m.follow p s.1 s.2 = m := by simp [follow, hsame]
        rw [List.filter_cons_of_neg (by simpa using hsame)]
        simp only [hstay]
        exact ih ordered
      · rw [List.filter_cons_of_pos (by simpa using hsame)]
        have first := leads_follow p ordered hsame
        exact first.trans (ih first.ordered)

theorem leads_pattern (ordered : m.base.Ordered) : Leads m (m.pattern p) p.steps := by
  obtain ⟨noted, hbase, _, _, _, _, hconflicts, hpattern⟩ := m.pattern_eq p
  have counted : Leads m noted [] := .of_eq ordered hbase hconflicts
  rw [hpattern]
  cases hkind : p.kind with
  | recurring =>
      simp only [steps, hkind, reduceCtorEq, if_false]
      exact counted.trans (leads_recurring p counted.ordered)
  | sequential =>
      simp only [steps, hkind, if_true]
      exact counted.trans (leads_sequence p counted.ordered)
  | coOccurrence =>
      simp only [steps, hkind, reduceCtorEq, if_false]
      exact counted.trans (leads_coOccurrence p counted.ordered)

theorem leads_patterns (ordered : m.base.Ordered) (patterns : List Pattern) :
    Leads m (patterns.foldl Merging.pattern m) (patterns.flatMap (·.steps)) := by
  induction patterns generalizing m with
  | nil => exact .of_eq ordered rfl rfl
  | cons p patterns ih =>
      have first := leads_pattern p ordered
      exact first.trans (ih first.ordered)

end Merging

namespace KnowledgeBase

open Pattern

/-- What a night makes of each concept, whatever patterns it merges into a base. The frequency grows
by the occurrences of the recurring patterns that begin with the concept: modulo the size of a word,
and by all of them if no frequency has passed its largest value. The associations grow by the
partners of the concept in the pairs, and are a set if they were one. The steps of the sequences are
taken by descending importance, in stable order: what follows a concept is the target of its last
step, and the conflicts are those steps that came upon another follower, in the order in which they
were taken. -/
theorem integration_by_concept {b : KnowledgeBase} (ordered : b.Ordered) (patterns : List Pattern)
    (clock : Clock) :
    let merged := b.integrate patterns clock
    let b' := merged.base
    let steps := (mergeOrder patterns).flatMap (·.steps)
    Pattern.ByImportance patterns (mergeOrder patterns) ∧
      (∀ concept,
        b'.frequency concept = (b.frequency concept +
          (patterns.map fun p => if p.kind = .recurring ∧ p.concepts.head? = some concept then
            p.occurrences.toNat else 0).sum) % UInt64.size ∧
        (merged.frequencyPassed = false → b'.frequency concept = b.frequency concept +
          (patterns.map fun p => if p.kind = .recurring ∧ p.concepts.head? = some concept then
            p.occurrences.toNat else 0).sum) ∧
        (∀ other, other ∈ b'.associations concept ↔ other ∈ b.associations concept ∨
          ∃ p ∈ patterns, p.kind = .coOccurrence ∧
            (p.concepts = [concept, other] ∨ p.concepts = [other, concept])) ∧
        ((b.associations concept).Pairwise (· < ·) →
          (b'.associations concept).Pairwise (· < ·)) ∧
        b'.follower concept = followerAfter b.follower steps concept) ∧
      merged.report.conflicts = conflictsOf b.follower steps := by
  intro merged b' steps
  have leads : Merging.Leads (.start b clock) merged steps :=
    Merging.leads_patterns (m := .start b clock) ordered (mergeOrder patterns)
  have adds := adds_integrate ordered patterns clock
  have order := byImportance_mergeOrder patterns
  refine ⟨order, ?_, leads.conflicts⟩
  intro concept
  refine ⟨adds.frequency concept, adds.exact concept, ?_, leads.strict concept,
    congrFun leads.follower concept⟩
  intro other
  rw [mem_associations, mem_associations, (develops_integrate ordered patterns clock).associated,
    List.mem_flatMap]
  simp only [order.perm.mem_iff, Pattern.mem_pairs]

namespace Sample

def weighed (kind : PatternKind) (concepts : List String) (importance : Number.Double) : Pattern :=
  ⟨"", kind, concepts, 2, importance, [], ⟨0, 0⟩⟩

end Sample

open Sample in
/-- A concept that is followed by another one, and sequences that lead from it to others and back.
The most important one is merged first; of two equally important ones the later one decides, and one
whose importance is undefined, with its sign set, comes after all others. -/
theorem integration_by_concept_sample :
    let b := (KnowledgeBase.empty.integrate [weighed .sequential ["a", "b"] 0.5] clock).base
    let patterns := [weighed .sequential ["a", "f"] .indefinite,
      weighed .sequential ["a", "c"] 0.25, weighed .sequential ["a", "d", "a", "a", "b"] 0.75,
      weighed .sequential ["a", "e"] 0.25, weighed .coOccurrence ["b", "a"] 0.5,
      weighed .recurring ["a"] 0.5]
    let result := b.integrate patterns clock
    b.Ordered ∧ b.follower "a" = some "b" ∧
      ((mergeOrder patterns).flatMap (·.steps)).map (fun s => (s.concept, s.next)) =
        [("a", "d"), ("d", "a"), ("a", "b"), ("a", "c"), ("a", "e"), ("a", "f")] ∧
      result.base.frequency "a" = 2 ∧ "b" ∈ result.base.associations "a" ∧
      result.base.follower "a" = some "f" ∧
      result.report.conflicts.map (fun c => (c.concept, c.replaced, c.kept)) =
        [("a", "b", "d"), ("a", "d", "b"), ("a", "b", "c"), ("a", "c", "e"), ("a", "e", "f")] := by
  intro b patterns result
  have ordered : b.Ordered := ordered_empty.integrate _ _
  obtain ⟨least, low, high⟩ : Number.Double.rank .indefinite < Number.Double.rank 0.25 ∧
      Number.Double.rank 0.25 < Number.Double.rank 0.5 ∧
      Number.Double.rank 0.5 < Number.Double.rank 0.75 := by decide +kernel
  have order : mergeOrder patterns = [weighed .sequential ["a", "d", "a", "a", "b"] 0.75,
      weighed .coOccurrence ["b", "a"] 0.5, weighed .recurring ["a"] 0.5,
      weighed .sequential ["a", "c"] 0.25, weighed .sequential ["a", "e"] 0.25,
      weighed .sequential ["a", "f"] .indefinite] := by
    have higher := low.trans high
    simp [mergeOrder, patterns, weighed, List.mergeSort, List.MergeSort.Internal.splitInTwo,
      least.not_ge, low.not_ge, higher.not_ge, high.le]
  have unpassed : result.frequencyPassed = false := by
    change ((mergeOrder patterns).foldl Merging.pattern (.start b clock)).frequencyPassed = false
    rw [order]
    decide +kernel
  obtain ⟨known, unseen⟩ : b.follower "a" = some "b" ∧ b.frequency "a" = 0 := by decide +kernel
  obtain ⟨_, every, conflicts⟩ := integration_by_concept ordered patterns clock
  obtain ⟨_, frequency, associations, _, follower⟩ := every "a"
  rw [order] at follower conflicts
  rw [order]
  refine ⟨ordered, known, by decide +kernel, ?_, (associations "b").mpr (.inr ?_), ?_, ?_⟩
  · rw [frequency unpassed, unseen]
    decide +kernel
  · exact ⟨weighed .coOccurrence ["b", "a"] 0.5, by simp [patterns], rfl, .inr rfl⟩
  · rw [follower]
    decide +kernel
  · rw [conflicts]
    decide +kernel

open Sample in
/-- Two recurring patterns that occur more often than a counter can tell leave the rest of their sum
as the frequency. -/
theorem frequency_keeps_the_rest :
    let pattern (occurrences : UInt64) : Pattern :=
      { weighed .recurring ["a"] 0.5 with occurrences }
    let result := KnowledgeBase.empty.integrate [pattern 0xffffffffffffffff, pattern 3] clock
    result.frequencyPassed = true ∧ result.base.frequency "a" = 2 := by
  intro pattern result
  have order : mergeOrder [pattern 0xffffffffffffffff, pattern 3] =
      [pattern 0xffffffffffffffff, pattern 3] := by
    simp [mergeOrder, pattern, weighed, List.mergeSort, List.MergeSort.Internal.splitInTwo]
  have merged : result =
      [pattern 0xffffffffffffffff, pattern 3].foldl Merging.pattern (.start .empty clock) :=
    congrArg (List.foldl Merging.pattern (.start .empty clock)) order
  rw [merged]
  decide +kernel

end KnowledgeBase

end Engram
