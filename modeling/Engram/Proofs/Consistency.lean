import Engram.Proofs.Knowledge
import Engram.Proofs.Names

/-! What holds of a knowledge base at any time, whatever patterns were merged into it, whatever was
noted as trained and however often it was restored: associations are mutual, nothing follows itself,
and nothing that is known is lost. As long as no revision has passed its largest value, none was
trained before it existed either, and a counter that has not passed its own is not counted down. -/
namespace Engram

namespace KnowledgeEntry

variable {counted revised counted' revised' : Prop} {e e' e'' : KnowledgeEntry}

/-- An entry does not lead to itself, and what was trained of it exists if its revisions are exact.
-/
structure Sound (revised : Prop) (e : KnowledgeEntry) : Prop where
  trained : revised → e.trainedRevision ≤ e.revision
  follows : e.follows ≠ some e.concept

/-- `e'` says all that `e` says. It is no less frequent if frequencies are exact, and revised no
less if revisions are. -/
structure Grows (counted revised : Prop) (e e' : KnowledgeEntry) : Prop where
  frequency : counted → e.frequency ≤ e'.frequency
  revision : revised → e.revision ≤ e'.revision
  trained : e.trainedRevision ≤ e'.trainedRevision
  associations : e.associations ⊆ e'.associations

theorem Grows.refl (e : KnowledgeEntry) : e.Grows counted revised e :=
  ⟨fun _ => UInt64.le_refl _, fun _ => UInt64.le_refl _, UInt64.le_refl _, fun _ h => h⟩

theorem Grows.mono (grows : e.Grows counted revised e') (counts : counted' → counted)
    (revisions : revised' → revised) : e.Grows counted' revised' e' :=
  ⟨grows.frequency ∘ counts, grows.revision ∘ revisions, grows.trained, grows.associations⟩

theorem Grows.trans (first : e.Grows counted revised e') (second : e'.Grows counted revised e'') :
    e.Grows counted revised e'' where
  frequency h := UInt64.le_trans (first.frequency h) (second.frequency h)
  revision h := UInt64.le_trans (first.revision h) (second.revision h)
  trained := UInt64.le_trans first.trained second.trained
  associations := List.Subset.trans first.associations second.associations

theorem Grows.touch (grows : e.Grows counted revised e')
    (fits : revised → e'.revision.toNat + 1 < UInt64.size) (importance : Number.Double)
    (now : Time.Instant) : e.Grows counted revised (e'.touch importance now) where
  frequency := grows.frequency
  revision h := UInt64.le_trans (grows.revision h) (le_add_of_fits (fits h))
  trained := grows.trained
  associations := grows.associations

theorem Sound.touch (sound : e.Sound revised) (fits : revised → e.revision.toNat + 1 < UInt64.size)
    (importance : Number.Double) (now : Time.Instant) : (e.touch importance now).Sound revised where
  trained h := UInt64.le_trans (sound.trained h) (le_add_of_fits (fits h))
  follows := sound.follows

/-- A revision that has room is at least the first. -/
theorem one_le_revision_touch (fits : e.revision.toNat + 1 < UInt64.size)
    (importance : Number.Double) (now : Time.Instant) : 1 ≤ (e.touch importance now).revision := by
  have hsum : (e.revision + 1).toNat = e.revision.toNat + 1 :=
    (UInt64.toNat_add _ _).trans (Nat.mod_eq_of_lt fits)
  change 1 ≤ e.revision + 1
  rw [UInt64.le_iff_toNat_le, hsum]
  exact Nat.le_add_left _ _

end KnowledgeEntry

namespace KnowledgeBase

variable {b b' b'' : KnowledgeBase}

/-- The first concept has the second among its associations. -/
def Links (b : KnowledgeBase) (concept other : String) : Prop :=
  ∃ e, b.get? concept = some e ∧ other ∈ e.associations

/-- Every entry is sound, and has been revised if revisions are exact. -/
def Sound (revised : Prop) (b : KnowledgeBase) : Prop :=
  ∀ concept e, b.get? concept = some e → (revised → 1 ≤ e.revision) ∧ e.Sound revised

/-- No entry is lost, and none says less than before, or counts less if its counters are exact. -/
def Grown (counted revised : Prop) (b b' : KnowledgeBase) : Prop :=
  ∀ concept e, b.get? concept = some e →
    ∃ e', b'.get? concept = some e' ∧ e.Grows counted revised e'

theorem concept_of_get? {concept : String} {e : KnowledgeEntry} (h : b.get? concept = some e) :
    e.concept = concept := by
  simpa using List.find?_some h

theorem mem_of_get? {concept : String} {e : KnowledgeEntry} (h : b.get? concept = some e) :
    e ∈ b.entries :=
  List.mem_of_find?_eq_some h

theorem contains_eq_isSome (b : KnowledgeBase) (concept : String) :
    b.contains concept = (b.get? concept).isSome := by
  rw [Bool.eq_iff_iff]
  simp [contains, get?]

/-- How one base comes from another: no entry is lost, and none becomes unsound or is counted down
if its counters are exact. Exactly the given pairs are associated in addition. -/
structure Develops (counted revised : Prop) (b b' : KnowledgeBase)
    (pairs : List (String × String)) : Prop where
  ordered : b'.Ordered
  sound (past : Prop) : b.Sound past → b'.Sound (past ∧ revised)
  grown : b.Grown counted revised b'
  associated (concept other : String) :
    b'.Links concept other ↔ b.Links concept other ∨ (concept, other) ∈ pairs

theorem Sound.mono {past past' : Prop} (sound : b.Sound past) (weaker : past' → past) :
    b.Sound past' := by
  intro concept e known
  obtain ⟨revised, trained, follows⟩ := sound concept e known
  exact ⟨revised ∘ weaker, trained ∘ weaker, follows⟩

variable {counted revised counted' revised' : Prop}

theorem Develops.refl (ordered : b.Ordered) : Develops counted revised b b [] where
  ordered := ordered
  sound _ sound := sound.mono And.left
  grown _ e known := ⟨e, known, .refl e⟩
  associated := by simp

theorem Develops.trans {pairs more : List (String × String)}
    (first : Develops counted revised b b' pairs) (second : Develops counted' revised' b' b'' more)
    (counts : counted' → counted) (revisions : revised' → revised) :
    Develops counted' revised' b b'' (pairs ++ more) where
  ordered := second.ordered
  sound past sound := by
    refine (second.sound _ (first.sound past sound)).mono ?_
    exact fun h => ⟨⟨h.1, revisions h.2⟩, h.2⟩
  grown concept e known := by
    obtain ⟨e', known', grows⟩ := first.grown concept e known
    obtain ⟨e'', known'', grows'⟩ := second.grown concept e' known'
    exact ⟨e'', known'', (grows.mono counts revisions).trans grows'⟩
  associated concept other := by
    rw [second.associated, first.associated, List.mem_append, or_assoc]

end KnowledgeBase

namespace Merging

open KnowledgeBase

variable {m m' m'' : Merging} (p : Pattern)

/-- A merge has developed the base and associated the given pairs. A counter is exact as long as
none of its kind has passed its largest value, which none has taken back. -/
structure Learns (m m' : Merging) (pairs : List (String × String)) : Prop where
  base : Develops (m'.frequencyPassed = false) (m'.revisionPassed = false) m.base m'.base pairs
  frequencies : m'.frequencyPassed = false → m.frequencyPassed = false
  revisions : m'.revisionPassed = false → m.revisionPassed = false

theorem Learns.of_eq (ordered : m.base.Ordered) (base : m'.base = m.base)
    (frequencies : m'.frequencyPassed = m.frequencyPassed)
    (revisions : m'.revisionPassed = m.revisionPassed) : Learns m m' [] := by
  refine ⟨?_, (frequencies ▸ ·), (revisions ▸ ·)⟩
  rw [base]
  exact .refl ordered

theorem Learns.trans {pairs more : List (String × String)} (first : Learns m m' pairs)
    (second : Learns m' m'' more) : Learns m m'' (pairs ++ more) where
  base := first.base.trans second.base second.frequencies second.revisions
  frequencies unpassed := first.frequencies (second.frequencies unpassed)
  revisions unpassed := first.revisions (second.revisions unpassed)

/-- A change develops the base if it keeps an entry sound, takes nothing away from it and adds the
given associations to it. Its revision is exact as long as there is room for the next one. -/
theorem Learns.change {concept : String} {f : KnowledgeEntry → KnowledgeEntry}
    (others : List String) (ordered : m.base.Ordered) (keeps : ∀ e, (f e).concept = e.concept)
    (revised : ∀ e, (f e).revision = e.revision) (base : m'.base = (m.change p concept f).base)
    (passed : m'.revisionPassed = (m.change p concept f).revisionPassed)
    (frequencies : m'.frequencyPassed = false → m.frequencyPassed = false)
    (sound : ∀ revised e, e.concept = concept → e.Sound revised → (f e).Sound revised)
    (grows : (m.entry concept).Grows (m'.frequencyPassed = false) (m'.revisionPassed = false)
      (f (m.entry concept)))
    (adds : ∀ e other, other ∈ (f e).associations ↔ other ∈ e.associations ∨ other ∈ others) :
    Learns m m' (others.map (concept, ·)) := by
  have hget := @get?_change m p concept f ordered keeps
  rw [← base] at hget
  have changed := (hget concept).trans (if_pos rfl)
  have unpassed := @unpassed_of_change m p concept f
  rw [← passed] at unpassed
  have room : m'.revisionPassed = false →
      (f (m.entry concept)).revision.toNat + 1 < UInt64.size := by
    rw [revised]
    exact fun h => (unpassed h).2
  refine ⟨⟨base.symm ▸ ordered.alter keeps, ?_, ?_, ?_⟩, frequencies, fun h => (unpassed h).1⟩
  · -- A concept without an entry starts from an empty one, which is sound but not yet revised.
    intro past known concept' e' he'
    by_cases hconcept : concept' = concept
    · rw [hconcept, changed] at he'
      obtain rfl := Option.some.inj he'
      have start : (m.entry concept).concept = concept ∧ (m.entry concept).Sound past := by
        unfold entry
        cases hold : m.base.get? concept with
        | none => exact ⟨rfl, fun _ => UInt64.le_refl _, by simp [KnowledgeEntry.empty]⟩
        | some e => exact ⟨concept_of_get? hold, (known concept e hold).2⟩
      have kept := sound past _ start.1 start.2
      refine ⟨?_, .touch ⟨kept.trained ∘ And.left, kept.follows⟩ (room ∘ And.right) _ _⟩
      exact fun h => KnowledgeEntry.one_le_revision_touch (room h.2) _ _
    · rw [hget, if_neg hconcept] at he'
      exact known.mono And.left concept' e' he'
  · intro concept' e he
    by_cases hconcept : concept' = concept
    · rw [hconcept] at he ⊢
      have hentry : m.entry concept = e := by
        unfold entry
        rw [he]
        rfl
      exact ⟨_, changed, hentry ▸ grows.touch room _ _⟩
    · exact ⟨e, (hget concept').trans ((if_neg hconcept).trans he), .refl e⟩
  · intro concept' other
    rw [Links, hget]
    by_cases hconcept : concept' = concept
    · subst hconcept
      cases hold : m.base.get? concept' with
      | none => simp [Links, hold, entry, KnowledgeEntry.touch, KnowledgeEntry.empty, adds]
      | some e => simp [Links, hold, entry, KnowledgeEntry.touch, adds]
    · have hnone : (concept', other) ∉ others.map (concept, ·) := by
        simp [Ne.symm hconcept]
      simp [Links, hconcept, hnone]

theorem learns_recurring (ordered : m.base.Ordered) : Learns m (m.recurring p) [] := by
  unfold recurring
  cases p.concepts with
  | nil => exact .of_eq ordered rfl rfl rfl
  | cons concept _ =>
      let counted (e : KnowledgeEntry) : KnowledgeEntry :=
        { e with frequency := e.frequency + p.occurrences }
      refine .change (f := counted) p [] ordered (fun _ => rfl) (fun _ => rfl) rfl rfl ?_
        (fun _ _ _ sound => ⟨sound.trained, sound.follows⟩) ?_ (by simp [counted])
      · exact fun unpassed => (Bool.or_eq_false_iff.mp unpassed).1
      · refine ⟨?_, fun _ => UInt64.le_refl _, UInt64.le_refl _, fun _ h => h⟩
        intro unpassed
        exact le_add_of_fits (passes_eq_false.mp (Bool.or_eq_false_iff.mp unpassed).2)

/-- A link is there afterwards, whether it is new or not. -/
theorem learns_link (ordered : m.base.Ordered) (concept other : String) :
    Learns m (m.link p concept other) [(concept, other)] := by
  unfold link
  by_cases hknown : (m.base.get? concept).any (·.associations.contains other)
  · rw [if_pos hknown]
    have associated : m.base.Links concept other := by
      cases hold : m.base.get? concept with
      | none => simp [hold] at hknown
      | some e => exact ⟨e, hold, by simpa [hold] using hknown⟩
    refine ⟨{ Develops.refl ordered with associated := ?_ }, id, id⟩
    intro concept' other'
    refine ⟨.inl, ?_⟩
    rintro (h | h)
    · exact h
    · obtain ⟨rfl, rfl⟩ : concept' = concept ∧ other' = other := by simpa using h
      exact associated
  · rw [if_neg hknown]
    let linked (e : KnowledgeEntry) : KnowledgeEntry :=
      { e with associations := Names.insert other e.associations }
    exact .change (f := linked) p [other] ordered (fun _ => rfl) (fun _ => rfl) rfl rfl id
      (fun _ _ _ sound => ⟨sound.trained, sound.follows⟩)
      { KnowledgeEntry.Grows.refl (m.entry concept) with
        associations := fun _ h => Names.mem_insert.mpr (.inr h) }
      (by simp [linked, Names.mem_insert, or_comm])

theorem learns_follow (ordered : m.base.Ordered) (concept next : String) :
    Learns m (m.follow p concept next) [] := by
  unfold follow
  simp only
  split
  · exact .of_eq ordered rfl rfl rfl
  · rename_i hnew
    have hother : concept ≠ next := fun h => hnew (by simp [h])
    let led (e : KnowledgeEntry) : KnowledgeEntry := { e with follows := some next }
    exact .change (f := led) p [] ordered (fun _ => rfl) (fun _ => rfl) rfl rfl id
      (fun _ e he sound => ⟨sound.trained, by simpa [led, he] using hother.symm⟩)
      { KnowledgeEntry.Grows.refl (m.entry concept) with } (by simp [led])

theorem learns_sequence (ordered : m.base.Ordered) : Learns m (m.sequence p) [] := by
  unfold sequence
  induction p.concepts.zip p.concepts.tail generalizing m with
  | nil => exact .of_eq ordered rfl rfl rfl
  | cons step steps ih =>
      have first := learns_follow p ordered step.1 step.2
      exact first.trans (ih first.base.ordered)

end Merging

/-- The associations that a pattern brings. Only a pair brings any, and it brings both. -/
def Pattern.pairs (p : Pattern) : List (String × String) :=
  match p.kind, p.concepts with
  | .coOccurrence, [a, b] => [(a, b), (b, a)]
  | _, _ => []

theorem Pattern.pairs_symmetric {p : Pattern} {a b : String} (h : (a, b) ∈ p.pairs) :
    (b, a) ∈ p.pairs := by
  unfold pairs at h ⊢
  split at h
  · simpa [and_comm, or_comm] using h
  · cases h

namespace Merging

open KnowledgeBase

variable {m : Merging} (p : Pattern)

theorem learns_coOccurrence (ordered : m.base.Ordered) (pair : p.kind = .coOccurrence) :
    Learns m (m.coOccurrence p) p.pairs := by
  simp only [Pattern.pairs, pair, coOccurrence]
  split
  · rename_i a b hconcepts
    simp only [hconcepts]
    have first := learns_link p ordered a b
    exact first.trans (learns_link p first.base.ordered b a)
  · rename_i hpair
    split
    · rename_i a b _ hconcepts
      exact absurd hconcepts (hpair a b)
    · exact .of_eq ordered rfl rfl rfl

theorem learns_pattern (ordered : m.base.Ordered) : Learns m (m.pattern p) p.pairs := by
  obtain ⟨noted, hbase, hfrequency, hrevision, _, _, _, hpattern⟩ := m.pattern_eq p
  have same : Learns m noted [] := .of_eq ordered hbase hfrequency hrevision
  rw [hpattern]
  cases hkind : p.kind with
  | recurring =>
      simp only [Pattern.pairs, hkind]
      exact same.trans (learns_recurring p same.base.ordered)
  | sequential =>
      simp only [Pattern.pairs, hkind]
      exact same.trans (learns_sequence p same.base.ordered)
  | coOccurrence => exact same.trans (learns_coOccurrence p same.base.ordered hkind)

theorem learns_patterns (ordered : m.base.Ordered) (patterns : List Pattern) :
    Learns m (patterns.foldl Merging.pattern m) (patterns.flatMap (·.pairs)) := by
  induction patterns generalizing m with
  | nil => exact .of_eq ordered rfl rfl rfl
  | cons p patterns ih =>
      have first := learns_pattern p ordered
      exact first.trans (ih first.base.ordered)

end Merging

namespace KnowledgeBase

variable {b b' : KnowledgeBase}

theorem develops_integrate (ordered : b.Ordered) (patterns : List Pattern) (clock : Clock) :
    let merged := b.integrate patterns clock
    Develops (merged.frequencyPassed = false) (merged.revisionPassed = false) b merged.base
      ((mergeOrder patterns).flatMap (·.pairs)) :=
  (Merging.learns_patterns (m := .start b clock) ordered (mergeOrder patterns)).base

theorem get?_modify {f : KnowledgeEntry → KnowledgeEntry} (keeps : ∀ e, (f e).concept = e.concept)
    (concept other : String) :
    (b.modify concept f).get? other =
      (b.get? other).map fun e => if e.concept == concept then f e else e := by
  simp only [modify, get?, List.find?_map]
  congr 2
  funext e
  simp only [Function.comp_apply]
  split
  · rw [keeps]
  · rfl

/-- What is noted as trained is never beyond the revision of the entry. -/
theorem develops_markTrained (ordered : b.Ordered) (concept : String) (revision : UInt64) :
    Develops True True b (b.markTrained concept revision) [] := by
  have hget := fun other => get?_modify (b := b)
    (f := fun e => { e with trainedRevision := max e.trainedRevision (min revision e.revision) })
    (fun _ => rfl) concept other
  refine ⟨ordered.of_counts (counts_markTrained b concept revision), ?_, ?_, ?_⟩
  · intro past known other e' he'
    rw [markTrained, hget] at he'
    obtain ⟨e, he, rfl⟩ := Option.map_eq_some_iff.mp he'
    obtain ⟨revised, sound⟩ := known.mono And.left other e he
    split
    · refine ⟨revised, ?_, sound.follows⟩
      intro h
      have trained := UInt64.le_iff_toNat_le.mp (sound.trained h)
      rw [UInt64.le_iff_toNat_le]
      simp only [UInt64.toNat_max, UInt64.toNat_min]
      omega
    · exact ⟨revised, sound⟩
  · intro other e he
    rw [markTrained, hget, he]
    refine ⟨_, rfl, ?_⟩
    simp only
    split
    · refine { KnowledgeEntry.Grows.refl e with trained := ?_ }
      rw [UInt64.le_iff_toNat_le]
      simp only [UInt64.toNat_max]
      exact Nat.le_max_left _ _
    · exact .refl e
  · intro other third
    simp only [Links, markTrained, hget, List.not_mem_nil, or_false, Option.map_eq_some_iff]
    constructor
    · rintro ⟨_, ⟨e, he, rfl⟩, hthird⟩
      exact ⟨e, he, by split at hthird <;> exact hthird⟩
    · rintro ⟨e, he, hthird⟩
      exact ⟨_, ⟨e, he, rfl⟩, by split <;> exact hthird⟩

/-- An entry that is taken up stands behind what was known of its concept. -/
theorem get?_restore (ordered : b.Ordered) (entries : List KnowledgeEntry) (concept : String) :
    (b.restore entries).1.get? concept =
      (b.get? concept).or (entries.find? (·.concept == concept)) := by
  unfold KnowledgeBase.restore
  generalize (0 : Nat) = count
  induction entries generalizing b count with
  | nil => simp
  | cons e entries ih =>
      rw [List.foldl_cons, find?_cons_eq_ite]
      by_cases hknown : b.contains e.concept
      · simp only [hknown, if_true]
        rw [ih ordered]
        split
        · rename_i hconcept
          rw [contains_eq_isSome, hconcept] at hknown
          obtain ⟨old, hold⟩ := Option.isSome_iff_exists.mp hknown
          rw [hold]
          rfl
        · rfl
      · simp only [hknown]
        have hget := @get?_alter b e id ordered (fun _ => rfl) concept
        have ordered' : (b.alter e id).Ordered := ordered.alter fun _ => rfl
        refine (ih ordered' _).trans ?_
        rw [hget]
        by_cases hconcept : concept = e.concept
        · have hnone : b.get? concept = none := by
            rw [contains_eq_isSome, ← hconcept] at hknown
            simpa using hknown
          rw [if_pos hconcept, if_pos hconcept.symm, hnone]
          rfl
        · rw [if_neg hconcept, if_neg (Ne.symm hconcept)]

/-- The order of the concepts, the soundness of the entries, and mutual associations. -/
structure Consistent (revised : Prop) (b : KnowledgeBase) : Prop where
  ordered : b.Ordered
  sound : b.Sound revised
  symmetric (concept other : String) : b.Links concept other → b.Links other concept

theorem consistent_empty : empty.Consistent True where
  ordered := ordered_empty
  sound _ _ known := by cases known
  symmetric := by
    rintro concept other ⟨e, known, _⟩
    cases known

variable {counted revised past : Prop}

theorem Consistent.develops {pairs : List (String × String)} (consistent : b.Consistent past)
    (develops : Develops counted revised b b' pairs)
    (mutual_ : ∀ a c, (a, c) ∈ pairs → (c, a) ∈ pairs) : b'.Consistent (past ∧ revised) where
  ordered := develops.ordered
  sound := develops.sound past consistent.sound
  symmetric concept other := by
    rw [develops.associated, develops.associated]
    exact Or.imp (consistent.symmetric concept other) (mutual_ concept other)

theorem Consistent.integrate (consistent : b.Consistent past) (patterns : List Pattern)
    (clock : Clock) : (b.integrate patterns clock).base.Consistent
      (past ∧ (b.integrate patterns clock).revisionPassed = false) := by
  refine consistent.develops (develops_integrate consistent.ordered patterns clock) ?_
  intro a c h
  obtain ⟨p, hp, hpair⟩ := List.mem_flatMap.mp h
  exact List.mem_flatMap.mpr ⟨p, hp, p.pairs_symmetric hpair⟩

theorem Consistent.markTrained (consistent : b.Consistent past) (concept : String)
    (revision : UInt64) : (b.markTrained concept revision).Consistent (past ∧ True) :=
  consistent.develops (develops_markTrained consistent.ordered concept revision) (by simp)

/-- A base that takes up the entries of another, in whatever order, knows what the other knows. -/
theorem get?_restore_empty (ordered : b.Ordered) {entries : List KnowledgeEntry}
    (same : ∀ e, e ∈ entries ↔ e ∈ b.entries) (concept : String) :
    (empty.restore entries).1.get? concept = b.get? concept := by
  rw [get?_restore ordered_empty]
  change entries.find? (·.concept == concept) = _
  cases hfound : entries.find? (·.concept == concept) with
  | none =>
      symm
      rw [List.find?_eq_none] at hfound
      rw [get?, List.find?_eq_none]
      exact fun e he => hfound e ((same e).mpr he)
  | some e =>
      have hconcept : e.concept = concept := by simpa using List.find?_some hfound
      rw [← hconcept, ordered.get?_eq ((same e).mp (List.mem_of_find?_eq_some hfound))]

theorem Consistent.restore (consistent : b.Consistent past) {entries : List KnowledgeEntry}
    (same : ∀ e, e ∈ entries ↔ e ∈ b.entries) : (empty.restore entries).1.Consistent past := by
  have hget := get?_restore_empty consistent.ordered same
  refine ⟨ordered_empty.restore entries, ?_, ?_⟩
  · intro concept e known
    exact consistent.sound concept e (hget concept ▸ known)
  · intro concept other
    simp only [Links, hget]
    exact consistent.symmetric concept other

/-- The bases that nights, trainings and restarts lead to, and whether a revision has passed its
largest value on the way. Patterns may be malformed, a training may be of any concept and revision,
and entries may come back in any order. -/
inductive Reached : Bool → KnowledgeBase → Prop where
  | empty : Reached false .empty
  | integrate {passed : Bool} {b : KnowledgeBase} (prior : Reached passed b)
      (patterns : List Pattern) (clock : Clock) :
      Reached (passed || (b.integrate patterns clock).revisionPassed)
        (b.integrate patterns clock).base
  | markTrained {passed : Bool} {b : KnowledgeBase} (prior : Reached passed b)
      (concept : String) (revision : UInt64) : Reached passed (b.markTrained concept revision)
  | restore {passed : Bool} {b : KnowledgeBase} (prior : Reached passed b)
      (entries : List KnowledgeEntry) (same : ∀ e, e ∈ entries ↔ e ∈ b.entries) :
      Reached passed (KnowledgeBase.empty.restore entries).1

theorem Reached.consistent {passed : Bool} (reached : Reached passed b) :
    b.Consistent (passed = false) := by
  induction reached with
  | empty => simpa using consistent_empty
  | integrate _ patterns clock ih => simpa [Bool.or_eq_false_iff] using ih.integrate patterns clock
  | markTrained _ concept revision ih => simpa using ih.markTrained concept revision
  | restore _ entries same ih => exact ih.restore same

/-- At any time an entry is found under its own concept and does not follow itself, and associations
are mutual. Neither a night nor a training takes away an entry or an association, or moves back what
was trained. If no revision has passed its largest value, every entry has been revised and was
trained at most as often as revised. A night lowers a frequency only if one passes its largest value
in it, and likewise a revision. -/
theorem reached_base_is_sound_and_grows {passed : Bool} (reached : Reached passed b) :
    (∀ e ∈ b.entries, b.get? e.concept = some e ∧
      (passed = false → 1 ≤ e.revision ∧ e.trainedRevision ≤ e.revision) ∧
      e.follows ≠ some e.concept ∧
      ∀ other ∈ e.associations, ∃ e' ∈ b.entries, e'.concept = other ∧
        e.concept ∈ e'.associations) ∧
      (∀ patterns clock,
        let merged := b.integrate patterns clock
        b.Grown (merged.frequencyPassed = false) (merged.revisionPassed = false) merged.base) ∧
      ∀ concept revision, b.Grown True True (b.markTrained concept revision) := by
  have consistent := reached.consistent
  refine ⟨?_, ?_, ?_⟩
  · intro e he
    have known := consistent.ordered.get?_eq he
    obtain ⟨revised, sound⟩ := consistent.sound e.concept e known
    refine ⟨known, fun h => ⟨revised h, sound.trained h⟩, sound.follows, ?_⟩
    intro other hother
    obtain ⟨e', known', hback⟩ := consistent.symmetric e.concept other ⟨e, known, hother⟩
    exact ⟨e', mem_of_get? known', concept_of_get? known', hback⟩
  · intro patterns clock
    exact (develops_integrate consistent.ordered patterns clock).grown
  · intro concept revision
    exact (develops_markTrained consistent.ordered concept revision).grown

namespace Sample

def clock : Clock := ⟨⟨0, 0⟩, .fixed 0, 1⟩

/-- One pattern is merged. -/
def night (b : KnowledgeBase) (kind : PatternKind) (concepts : List String)
    (occurrences : UInt64) : Merging :=
  b.integrate [⟨"", kind, concepts, occurrences, 0.5, [], ⟨0, 0⟩⟩] clock

end Sample

open Sample in
/-- A concept that is paired with itself and then with another, a sequence that stays where it is
for a step, a pair of one, a training ahead of all revisions, and a restart that finds the entries
in another order. -/
theorem reached_base_is_sound_and_grows_sample :
    ∃ b, Reached false b ∧
      b.entries.map (fun e => (e.concept, e.associations, e.follows, e.revision)) =
        [("a", ["a", "b"], some "b", 3), ("b", ["a"], none, 1)] ∧
      b.entries.map (·.trainedRevision) = [3, 0] ∧
      ∀ e ∈ b.entries, (1 ≤ e.revision ∧ e.trainedRevision ≤ e.revision) ∧
        ∀ other ∈ e.associations, ∃ e' ∈ b.entries, e'.concept = other ∧
          e.concept ∈ e'.associations := by
  let m₁ := night .empty .coOccurrence ["a", "a"] 1
  let m₂ := night m₁.base .coOccurrence ["a", "b"] 1
  let m₃ := night m₂.base .sequential ["a", "a", "b"] 1
  let m₄ := night m₃.base .coOccurrence ["c"] 1
  let b₄ := m₄.base.markTrained "a" 99
  let b₅ := (KnowledgeBase.empty.restore b₄.entries.reverse).1
  obtain ⟨passed, found, trained⟩ :
      (m₁.revisionPassed || m₂.revisionPassed || m₃.revisionPassed || m₄.revisionPassed) = false ∧
      b₅.entries.map (fun e => (e.concept, e.associations, e.follows, e.revision)) =
        [("a", ["a", "b"], some "b", 3), ("b", ["a"], none, 1)] ∧
      b₅.entries.map (·.trainedRevision) = [3, 0] := by decide +kernel
  have reached : Reached
      (m₁.revisionPassed || m₂.revisionPassed || m₃.revisionPassed || m₄.revisionPassed) b₅ :=
    (((((Reached.empty.integrate _ _).integrate _ _).integrate _ _).integrate _ _).markTrained "a"
      99).restore _ fun _ => List.mem_reverse
  rw [passed] at reached
  refine ⟨b₅, reached, found, trained, ?_⟩
  intro e he
  obtain ⟨_, counted, _, mutual_⟩ := (reached_base_is_sound_and_grows reached).1 e he
  exact ⟨counted rfl, mutual_⟩

open Sample in
/-- A concept that has been counted as often as a counter can tell recurs once more. Its counter
starts over, and the frequency has become less. -/
theorem frequency_starts_over :
    let most := night .empty .recurring ["a"] 0xffffffffffffffff
    let more := night most.base .recurring ["a"] 1
    Reached false most.base ∧ more.frequencyPassed = true ∧
      (most.base.get? "a").map (·.frequency) = some 0xffffffffffffffff ∧
      (more.base.get? "a").map (·.frequency) = some 0 := by
  intro most more
  obtain ⟨unpassed, passed, before, after⟩ :
      most.revisionPassed = false ∧ more.frequencyPassed = true ∧
      (most.base.get? "a").map (·.frequency) = some 0xffffffffffffffff ∧
      (more.base.get? "a").map (·.frequency) = some 0 := by decide +kernel
  have reached : Reached most.revisionPassed most.base := Reached.empty.integrate _ _
  exact ⟨unpassed ▸ reached, passed, before, after⟩

end KnowledgeBase

end Engram
