import Engram.Proofs.Consistency
import Mathlib.Data.List.Nodup

/-! Which concepts a night has touched. Every change that a pattern brings raises the revision of
its concept by one and is reported under it, and nothing else changes. So what a night has taught is
waiting to be trained, and it goes on waiting if a training is noted that began before the night. A
revision that passes its largest value starts over, and what was taught then is not waiting. -/
namespace Engram

/-- What an entry says about its concept, apart from how it was learned. -/
def KnowledgeEntry.content (e : KnowledgeEntry) : UInt64 × List String × Option String :=
  (e.frequency, e.associations, e.follows)

namespace KnowledgeBase

variable {b b' : KnowledgeBase} {concept : String}

/-- The revision of a concept, which is zero if nothing is known of it. -/
def revision (b : KnowledgeBase) (concept : String) : Nat :=
  ((b.get? concept).map (·.revision.toNat)).getD 0

/-- The revision at which a concept was trained, which is zero if nothing is known of it. -/
def trainedRevision (b : KnowledgeBase) (concept : String) : Nat :=
  ((b.get? concept).map (·.trainedRevision.toNat)).getD 0

/-- A concept is known and has to be trained. -/
def Awaits (b : KnowledgeBase) (concept : String) : Prop :=
  ∃ e, b.get? concept = some e ∧ e.needsTraining

theorem awaits_iff : b.Awaits concept ↔ b.trainedRevision concept < b.revision concept := by
  unfold Awaits trainedRevision revision
  cases b.get? concept with
  | none => simp
  | some e => simp [KnowledgeEntry.needsTraining, UInt64.lt_iff_toNat_lt]

theorem revision_congr (same : b'.get? concept = b.get? concept) :
    b'.revision concept = b.revision concept := by
  unfold revision
  rw [same]

theorem trainedRevision_congr (same : b'.get? concept = b.get? concept) :
    b'.trainedRevision concept = b.trainedRevision concept := by
  unfold trainedRevision
  rw [same]

/-- A change adds an entry exactly if its concept has none. -/
theorem length_alter {fresh : KnowledgeEntry} {f : KnowledgeEntry → KnowledgeEntry}
    (ordered : b.Ordered) :
    (b.alter fresh f).entries.length =
      b.entries.length + if b.contains fresh.concept then 0 else 1 := by
  obtain ⟨entries⟩ := b
  unfold Ordered alter contains at *
  simp only at ordered ⊢
  induction entries with
  | nil => rfl
  | cons e entries ih =>
      rw [List.map_cons, List.pairwise_cons] at ordered
      unfold alterEntries
      rw [List.any_cons]
      by_cases hlt : e.concept < fresh.concept
      · rw [if_pos hlt, List.length_cons, ih ordered.2, beq_eq_false_iff_ne.mpr (ne_of_lt hlt),
          Bool.false_or, List.length_cons]
        omega
      · by_cases heq : e.concept = fresh.concept
        · rw [if_neg hlt, if_pos heq]
          simp [heq]
        · -- The concept comes before all that are known.
          have hbefore : fresh.concept < e.concept := lt_of_le_of_ne (not_lt.mp hlt) (Ne.symm heq)
          have hnone : entries.any (·.concept == fresh.concept) = false := by
            rw [List.any_eq_false]
            intro other hother
            have habove := hbefore.trans (ordered.1 _ (List.mem_map_of_mem hother))
            simpa using ne_of_gt habove
          rw [if_neg hlt, if_neg heq, hnone]
          simp [heq]

end KnowledgeBase

namespace Merging

open KnowledgeBase

variable {m m' m'' : Merging} (p : Pattern)

theorem revision_eq_entry (m : Merging) (concept : String) :
    m.base.revision concept = (m.entry concept).revision.toNat := by
  unfold KnowledgeBase.revision entry
  cases m.base.get? concept with
  | none => rfl
  | some e => rfl

/-- A merge has changed the entries of the given concepts, each as often as it is named, and has
reported that. Revisions tell it if none has passed its largest value. -/
structure Notes (m m' : Merging) (changed : List String) : Prop where
  ordered : m'.base.Ordered
  touched (concept : String) :
    concept ∈ m'.report.touched ↔ concept ∈ m.report.touched ∨ concept ∈ changed
  distinct : m.report.touched.Nodup → m'.report.touched.Nodup
  checked : m'.revisionPassed = false → m.revisionPassed = false
  revision (concept : String) : m'.revisionPassed = false →
    m'.base.revision concept = m.base.revision concept + changed.count concept
  trained (concept : String) : m'.base.trainedRevision concept = m.base.trainedRevision concept
  untouched (concept : String) : concept ∉ changed → m'.base.get? concept = m.base.get? concept
  created : m'.base.entries.length + m.report.created =
    m.base.entries.length + m'.report.created

theorem Notes.refl (ordered : m.base.Ordered) : Notes m m [] where
  ordered := ordered
  touched := by simp
  distinct := id
  checked := id
  revision _ _ := rfl
  trained _ := rfl
  untouched _ _ := rfl
  created := rfl

theorem Notes.trans {changed more : List String} (first : Notes m m' changed)
    (second : Notes m' m'' more) : Notes m m'' (changed ++ more) where
  ordered := second.ordered
  touched concept := by rw [second.touched, first.touched, List.mem_append, or_assoc]
  distinct distinct := second.distinct (first.distinct distinct)
  checked unpassed := first.checked (second.checked unpassed)
  revision concept unpassed := by
    rw [second.revision concept unpassed, first.revision concept (second.checked unpassed),
      List.count_append, Nat.add_assoc]
  trained concept := (second.trained concept).trans (first.trained concept)
  untouched concept out := by
    rw [List.mem_append, not_or] at out
    exact (second.untouched concept out.2).trans (first.untouched concept out.1)
  created := by
    have hfirst := first.created
    have hsecond := second.created
    omega

section Change

variable {concept : String} {f : KnowledgeEntry → KnowledgeEntry}

theorem mem_touched_change (other : String) :
    other ∈ (m.change p concept f).report.touched ↔
      other ∈ m.report.touched ∨ other ∈ [concept] := by
  unfold change
  simp only [List.mem_singleton]
  by_cases hknown : m.report.touched.contains concept
  · rw [if_pos hknown]
    refine ⟨.inl, ?_⟩
    rintro (h | rfl)
    · exact h
    · simpa using hknown
  · rw [if_neg hknown]
    simp

theorem nodup_touched_change (distinct : m.report.touched.Nodup) :
    (m.change p concept f).report.touched.Nodup := by
  unfold change
  simp only
  by_cases hknown : m.report.touched.contains concept
  · rw [if_pos hknown]
    exact distinct
  · rw [if_neg hknown]
    have hnew : concept ∉ m.report.touched := by simpa using hknown
    exact distinct.append (List.nodup_singleton _) (by simpa using hnew)

/-- A change of what an entry says touches it once. -/
theorem Notes.change (ordered : m.base.Ordered) (keeps : ∀ e, (f e).concept = e.concept)
    (revised : ∀ e, (f e).revision = e.revision)
    (trained : ∀ e, (f e).trainedRevision = e.trainedRevision) :
    Notes m (m.change p concept f) [concept] := by
  have hget := @get?_change m p concept f ordered keeps
  refine ⟨ordered.alter keeps, mem_touched_change p, nodup_touched_change p,
    fun unpassed => (unpassed_of_change p unpassed).1, ?_, ?_, ?_, ?_⟩
  · intro other unpassed
    by_cases hother : other = concept
    · have fits := (unpassed_of_change p unpassed).2
      have hsum : ((m.entry concept).revision + 1).toNat = (m.entry concept).revision.toNat + 1 :=
        (UInt64.toNat_add _ _).trans (Nat.mod_eq_of_lt fits)
      rw [hother, List.count_singleton_self, revision_eq_entry m, ← hsum, ← revised,
        KnowledgeBase.revision, hget, if_pos rfl]
      rfl
    · rw [revision_congr ((hget other).trans (if_neg hother)),
        List.count_eq_zero.mpr (by simpa using hother)]
      rfl
  · intro other
    by_cases hother : other = concept
    · unfold KnowledgeBase.trainedRevision
      rw [hget, if_pos hother, hother]
      cases hknown : m.base.get? concept with
      | none => simp [KnowledgeEntry.touch, trained, entry, hknown, KnowledgeEntry.empty]
      | some e => simp [KnowledgeEntry.touch, trained, entry, hknown]
    · exact trainedRevision_congr ((hget other).trans (if_neg hother))
  · intro other hother
    exact (hget other).trans (if_neg (by simpa using hother))
  · have hlength : (m.change p concept f).base.entries.length =
        m.base.entries.length + if m.base.contains concept then 0 else 1 := length_alter ordered
    have hcreated : (m.change p concept f).report.created =
        m.report.created + if m.base.contains concept then 0 else 1 := rfl
    omega

end Change

theorem notes_recurring (ordered : m.base.Ordered) :
    ∃ changed, Notes m (m.recurring p) changed := by
  unfold recurring
  cases p.concepts with
  | nil => exact ⟨[], .refl ordered⟩
  | cons concept _ =>
      have changes : Notes m (m.change p concept fun e =>
          { e with frequency := e.frequency + p.occurrences }) [concept] :=
        .change p ordered (fun _ => rfl) (fun _ => rfl) fun _ => rfl
      exact ⟨[concept], { changes with }⟩

theorem notes_link (ordered : m.base.Ordered) (concept other : String) :
    ∃ changed, Notes m (m.link p concept other) changed := by
  unfold link
  split
  · exact ⟨[], .refl ordered⟩
  · exact ⟨[concept], .change p ordered (fun _ => rfl) (fun _ => rfl) fun _ => rfl⟩

theorem notes_coOccurrence (ordered : m.base.Ordered) :
    ∃ changed, Notes m (m.coOccurrence p) changed := by
  unfold coOccurrence
  split
  · rename_i a b _
    obtain ⟨changed, first⟩ := notes_link p ordered a b
    obtain ⟨more, second⟩ := notes_link p first.ordered b a
    exact ⟨changed ++ more, first.trans second⟩
  · exact ⟨[], .refl ordered⟩

theorem notes_follow (ordered : m.base.Ordered) (concept next : String) :
    ∃ changed, Notes m (m.follow p concept next) changed := by
  unfold follow
  simp only
  split
  · exact ⟨[], .refl ordered⟩
  · have changes : Notes m (m.change p concept fun e => { e with follows := some next })
        [concept] := .change p ordered (fun _ => rfl) (fun _ => rfl) fun _ => rfl
    exact ⟨[concept], { changes with }⟩

theorem notes_sequence (ordered : m.base.Ordered) :
    ∃ changed, Notes m (m.sequence p) changed := by
  unfold sequence
  induction p.concepts.zip p.concepts.tail generalizing m with
  | nil => exact ⟨[], .refl ordered⟩
  | cons step steps ih =>
      obtain ⟨changed, first⟩ := notes_follow p ordered step.1 step.2
      obtain ⟨more, rest⟩ := ih first.ordered
      exact ⟨changed ++ more, first.trans rest⟩

theorem notes_pattern (ordered : m.base.Ordered) :
    ∃ changed, Notes m (m.pattern p) changed := by
  -- That a pattern is about something known is counted, but it touches nothing.
  obtain ⟨noted, hbase, _, hpassed, htouched, hcreated, _, hpattern⟩ := m.pattern_eq p
  have counted : Notes m noted [] := by
    refine ⟨hbase ▸ ordered, by simp [htouched], (htouched ▸ ·), (hpassed ▸ ·), ?_, ?_, ?_, ?_⟩
    all_goals simp [hbase, hcreated]
  rw [hpattern]
  cases p.kind with
  | recurring =>
      obtain ⟨changed, merged⟩ := notes_recurring p counted.ordered
      exact ⟨changed, counted.trans merged⟩
  | sequential =>
      obtain ⟨changed, merged⟩ := notes_sequence p counted.ordered
      exact ⟨changed, counted.trans merged⟩
  | coOccurrence =>
      obtain ⟨changed, merged⟩ := notes_coOccurrence p counted.ordered
      exact ⟨changed, counted.trans merged⟩

theorem notes_patterns (ordered : m.base.Ordered) (patterns : List Pattern) :
    ∃ changed, Notes m (patterns.foldl Merging.pattern m) changed := by
  induction patterns generalizing m with
  | nil => exact ⟨[], .refl ordered⟩
  | cons p patterns ih =>
      obtain ⟨changed, first⟩ := notes_pattern p ordered
      obtain ⟨more, rest⟩ := ih first.ordered
      exact ⟨changed ++ more, first.trans rest⟩

end Merging

namespace KnowledgeBase

variable {b b' c : KnowledgeBase} {concept : String}

theorem notes_integrate (ordered : b.Ordered) (patterns : List Pattern) (clock : Clock) :
    ∃ changed, Merging.Notes (.start b clock) (b.integrate patterns clock) changed :=
  Merging.notes_patterns (m := .start b clock) ordered (mergeOrder patterns)

/-- What a night leaves of the revision of a concept and of what was trained of it. -/
theorem revision_integrate (ordered : b.Ordered) {patterns : List Pattern} {clock : Clock}
    (unpassed : (b.integrate patterns clock).revisionPassed = false) (concept : String) :
    b.revision concept ≤ (b.integrate patterns clock).base.revision concept ∧
      (b.integrate patterns clock).base.trainedRevision concept = b.trainedRevision concept := by
  obtain ⟨changed, notes⟩ := notes_integrate ordered patterns clock
  refine ⟨?_, notes.trained concept⟩
  rw [notes.revision concept unpassed]
  exact Nat.le_add_right _ _

/-- A training moves up to the revision it was at, and not beyond the present one. -/
theorem revision_markTrained (concept other : String) (revision : UInt64) :
    (b.markTrained concept revision).revision other = b.revision other ∧
      (b.markTrained concept revision).trainedRevision other ≤
        max (b.trainedRevision other) (if other = concept then revision.toNat else 0) := by
  have hget := get?_modify (b := b)
    (f := fun e => { e with trainedRevision := max e.trainedRevision (min revision e.revision) })
    (fun _ => rfl) concept other
  unfold KnowledgeBase.revision trainedRevision markTrained
  rw [hget]
  cases hknown : b.get? other with
  | none => simp
  | some e =>
      simp only [Option.map_some, Option.getD_some, concept_of_get? hknown, beq_iff_eq]
      by_cases hother : other = concept
      · simp only [if_pos hother, UInt64.toNat_max, UInt64.toNat_min]
        exact ⟨trivial, max_le_max le_rfl (min_le_left _ _)⟩
      · simp only [if_neg hother]
        exact ⟨trivial, le_max_left _ _⟩

theorem get?_restore_of_revised (ordered : b.Ordered) (entries : List KnowledgeEntry)
    (revised : 0 < b.revision concept) :
    (b.restore entries).1.get? concept = b.get? concept := by
  rw [get?_restore ordered]
  cases hknown : b.get? concept with
  | none => simp [revision, hknown] at revised
  | some e => rfl

/-- The bases that come after a night that began with `b` and led to `b'`: by more nights in which
no revision passes its largest value, by entries that are taken up, and by trainings that are noted
late. A training that began before the night is of a revision that its concept had reached by then.
-/
inductive Later (b b' : KnowledgeBase) : KnowledgeBase → Prop where
  | refl : Later b b' b'
  | integrate {c : KnowledgeBase} (prior : Later b b' c) (patterns : List Pattern) (clock : Clock)
      (unpassed : (c.integrate patterns clock).revisionPassed = false) :
      Later b b' (c.integrate patterns clock).base
  | restore {c : KnowledgeBase} (prior : Later b b' c) (entries : List KnowledgeEntry) :
      Later b b' (c.restore entries).1
  | markTrained {c : KnowledgeBase} (prior : Later b b' c) (concept : String) (revision : UInt64)
      (read : revision.toNat ≤ b.revision concept) : Later b b' (c.markTrained concept revision)

/-- A concept that a night has revised stays ahead of what was trained before the night. -/
theorem Later.ahead (later : Later b b' c) (ordered : b'.Ordered)
    (trained : b'.trainedRevision concept ≤ b.revision concept)
    (revised : b.revision concept < b'.revision concept) :
    c.Ordered ∧ c.trainedRevision concept ≤ b.revision concept ∧
      b.revision concept < c.revision concept := by
  induction later with
  | refl => exact ⟨ordered, trained, revised⟩
  | @integrate c prior patterns clock unpassed ih =>
      obtain ⟨hordered, htrained, hrevised⟩ := ih
      obtain ⟨hgrown, hsame⟩ := revision_integrate hordered unpassed concept
      exact ⟨hordered.integrate patterns clock, hsame ▸ htrained, hrevised.trans_le hgrown⟩
  | @restore c prior entries ih =>
      obtain ⟨hordered, htrained, hrevised⟩ := ih
      have hsame := get?_restore_of_revised hordered entries (Nat.zero_lt_of_lt hrevised)
      rw [revision_congr hsame, trainedRevision_congr hsame]
      exact ⟨hordered.restore entries, htrained, hrevised⟩
  | @markTrained c prior other revision read ih =>
      obtain ⟨hordered, htrained, hrevised⟩ := ih
      obtain ⟨hsame, hmarked⟩ := revision_markTrained (b := c) other concept revision
      refine ⟨hordered.of_counts (counts_markTrained c other revision), ?_, hsame ▸ hrevised⟩
      refine hmarked.trans (max_le htrained ?_)
      split
      · rename_i hconcept
        exact hconcept ▸ read
      · exact Nat.zero_le _

/-- Whatever patterns a night merges into a base where nothing was trained ahead of its revision,
whatever is new or says something else is touched, all other entries are as they were, each touched
concept is named once, and the entries created are those by which the base has grown. If no revision
has passed its largest value, no change escapes training: the touched concepts are those whose
revision has risen, and all of them have to be trained, also after more such nights, and after any
trainings of what was read before this one. An entry counts as touched even if it has changed back.
-/
theorem touched_awaits_training (ordered : b.Ordered)
    (behind : ∀ e ∈ b.entries, e.trainedRevision ≤ e.revision) (patterns : List Pattern)
    (clock : Clock) :
    let merged := b.integrate patterns clock
    let b' := merged.base
    let report := merged.report
    (∀ e' ∈ b'.entries, (∀ e, b.get? e'.concept = some e → e.content ≠ e'.content) →
        e'.concept ∈ report.touched ∧ (merged.revisionPassed = false → e'.needsTraining)) ∧
      (∀ concept, concept ∉ report.touched → b'.get? concept = b.get? concept) ∧
      report.touched.Nodup ∧ b'.entries.length = b.entries.length + report.created ∧
      (merged.revisionPassed = false →
        (∀ concept, concept ∈ report.touched ↔ b.revision concept < b'.revision concept) ∧
        ∀ c, Later b b' c → ∀ concept ∈ report.touched, c.Awaits concept) := by
  intro merged b' report
  obtain ⟨changed, notes⟩ := notes_integrate ordered patterns clock
  have touched : ∀ concept, concept ∈ report.touched ↔ concept ∈ changed := by
    intro concept
    have htouched := notes.touched concept
    rwa [Merging.start, or_iff_right List.not_mem_nil] at htouched
  have revised : merged.revisionPassed = false → ∀ concept, concept ∈ report.touched ↔
      b.revision concept < b'.revision concept := by
    intro unpassed concept
    have hcount : b'.revision concept = b.revision concept + changed.count concept :=
      notes.revision concept unpassed
    rw [touched, hcount, ← List.count_pos_iff]
    omega
  have trained : ∀ concept, b'.trainedRevision concept ≤ b.revision concept := by
    intro concept
    rw [show b'.trainedRevision concept = b.trainedRevision concept from notes.trained concept]
    unfold trainedRevision revision
    cases hknown : b.get? concept with
    | none => exact le_rfl
    | some e => exact UInt64.le_iff_toNat_le.mp (behind e (mem_of_get? hknown))
  have awaits : merged.revisionPassed = false →
      ∀ c, Later b b' c → ∀ concept ∈ report.touched, c.Awaits concept := by
    intro unpassed c later concept htouched
    obtain ⟨_, hbehind, hahead⟩ :=
      later.ahead notes.ordered (trained concept) ((revised unpassed concept).mp htouched)
    exact awaits_iff.mpr (hbehind.trans_lt hahead)
  have untouched : ∀ concept, concept ∉ report.touched → b'.get? concept = b.get? concept :=
    fun concept out => notes.untouched concept fun h => out ((touched concept).mpr h)
  refine ⟨?_, untouched, notes.distinct List.nodup_nil, notes.created, ?_⟩
  · intro e' known' differs
    have hknown : b'.get? e'.concept = some e' := Ordered.get?_eq notes.ordered known'
    have htouched : e'.concept ∈ report.touched := by
      by_contra hout
      exact differs e' ((untouched e'.concept hout).symm.trans hknown) rfl
    refine ⟨htouched, ?_⟩
    intro unpassed
    obtain ⟨found, hfound, needs⟩ := awaits unpassed b' .refl e'.concept htouched
    obtain rfl : found = e' := Option.some.inj (hfound.symm.trans hknown)
    exact needs
  · exact fun unpassed => ⟨revised unpassed, awaits unpassed⟩

open Sample in
/-- A concept is trained at its second revision, and a night then associates it with a new one. A
training of the second revision that is noted after the night leaves both to be trained. -/
theorem touched_awaits_training_sample :
    let b₀ := (night (night .empty .recurring ["a"] 1).base .sequential ["a", "b"] 1).base
    let b := b₀.markTrained "a" 2
    let result := night b .coOccurrence ["a", "c"] 1
    (¬ b.Awaits "a") ∧ result.report.touched = ["a", "c"] ∧ result.report.created = 1 ∧
      b.revision "a" < result.base.revision "a" ∧ (result.base.markTrained "a" 2).Awaits "a" ∧
      (result.base.markTrained "a" 2).Awaits "c" := by
  intro b₀ b result
  have ordered : b.Ordered := by
    have hstart : b₀.Ordered := (ordered_empty.integrate _ _).integrate _ _
    exact hstart.of_counts (counts_markTrained b₀ "a" 2)
  obtain ⟨behind, trained, touched, created, reached, unpassed⟩ :
      (∀ e ∈ b.entries, e.trainedRevision ≤ e.revision) ∧
        ¬ b.trainedRevision "a" < b.revision "a" ∧ result.report.touched = ["a", "c"] ∧
        result.report.created = 1 ∧ UInt64.toNat 2 ≤ b.revision "a" ∧
        result.revisionPassed = false := by
    decide +kernel
  obtain ⟨_, _, _, _, exact⟩ := touched_awaits_training ordered behind _ _
  obtain ⟨revised, awaits⟩ := exact unpassed
  have marked := awaits _ (.markTrained .refl "a" 2 reached)
  have named : "a" ∈ result.report.touched ∧ "c" ∈ result.report.touched := by simp [touched]
  exact ⟨fun h => trained (awaits_iff.mp h), touched, created, (revised "a").mp named.1,
    marked "a" named.1, marked "c" named.2⟩

open Sample in
/-- An entry has the largest revision there is, and was trained at it. A night that counts its
concept touches it, but its revision starts over and it does not have to be trained. -/
theorem touched_escapes_training :
    let most : UInt64 := 0xffffffffffffffff
    let b : KnowledgeBase := ⟨[⟨"a", 1, [], none, 0.5, most, most, ⟨0, 0⟩⟩]⟩
    let result := night b .recurring ["a"] 1
    b.Ordered ∧ (∀ e ∈ b.entries, e.trainedRevision ≤ e.revision) ∧
      result.revisionPassed = true ∧ result.report.touched = ["a"] ∧ result.base.frequency "a" = 2 ∧
      result.base.revision "a" < b.revision "a" ∧ ¬ result.base.Awaits "a" := by
  intro most b result
  obtain ⟨behind, passed, touched, counted, fallen, trained⟩ :
      (∀ e ∈ b.entries, e.trainedRevision ≤ e.revision) ∧ result.revisionPassed = true ∧
        result.report.touched = ["a"] ∧ result.base.frequency "a" = 2 ∧
        result.base.revision "a" < b.revision "a" ∧
        ¬ result.base.trainedRevision "a" < result.base.revision "a" := by decide +kernel
  exact ⟨List.pairwise_singleton _ _, behind, passed, touched, counted, fallen,
    fun h => trained (awaits_iff.mp h)⟩

end KnowledgeBase

end Engram
