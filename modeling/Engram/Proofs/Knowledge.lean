import Engram.Knowledge
import Mathlib.Algebra.BigOperators.Group.List.Basic
import Mathlib.Algebra.GroupWithZero.Nat
import Mathlib.Data.String.Basic

/-! The knowledge base as a map from concepts to entries. Its entries stay in ascending order, so a
concept has at most one. What a night merges into it adds to the frequency of a concept exactly the
occurrences of the recurring patterns about it, as far as a counter can hold the sum: counters are
words, and the sum is taken modulo their size. -/
namespace Engram

/-- A word that has room for what is added to it does not become less. -/
theorem le_add_of_fits {count added : UInt64} (fits : count.toNat + added.toNat < UInt64.size) :
    count ≤ count + added := by
  have hsum : (count + added).toNat = count.toNat + added.toNat :=
    (UInt64.toNat_add _ _).trans (Nat.mod_eq_of_lt fits)
  rw [UInt64.le_iff_toNat_le, hsum]
  exact Nat.le_add_right _ _

/-- How often a pattern says that a concept has recurred. -/
def Pattern.recurrences (p : Pattern) (concept : String) : Nat :=
  if p.kind = .recurring ∧ p.concepts.head? = some concept then p.occurrences.toNat else 0

/-- What a clock is after some readings. -/
inductive Clock.Read (c : Clock) : Clock → Prop where
  | refl : Read c c
  | now {c' : Clock} (prior : Read c c') : Read c c'.now.2

theorem Clock.Read.trans {c c' c'' : Clock} (first : c.Read c') (second : c'.Read c'') :
    c.Read c'' := by
  induction second with
  | refl => exact first
  | now _ ih => exact .now ih

theorem Clock.Read.zone {c c' : Clock} (read : c.Read c') : c'.zone = c.zone := by
  induction read with
  | refl => rfl
  | now _ ih => exact ih

namespace KnowledgeBase

/-- The concepts are in strictly ascending order. -/
def Ordered (b : KnowledgeBase) : Prop := (b.entries.map (·.concept)).Pairwise (· < ·)

/-- The frequency of a concept, which is zero if nothing is known of it. -/
def frequency (b : KnowledgeBase) (concept : String) : Nat :=
  ((b.get? concept).map (·.frequency.toNat)).getD 0

/-- The concepts with their frequencies. -/
def counts (b : KnowledgeBase) : List (String × UInt64) :=
  b.entries.map fun e => (e.concept, e.frequency)

theorem ordered_empty : empty.Ordered := .nil

theorem Ordered.of_counts {b b' : KnowledgeBase} (h : b'.counts = b.counts) (ordered : b.Ordered) :
    b'.Ordered := by
  have hconcepts := congrArg (List.map Prod.fst) h
  simp only [counts, List.map_map] at hconcepts
  unfold Ordered
  exact (show b'.entries.map (·.concept) = b.entries.map (·.concept) from hconcepts) ▸ ordered

theorem find?_cons_eq_ite (e : KnowledgeEntry) (entries : List KnowledgeEntry) (concept : String) :
    (e :: entries).find? (·.concept == concept) =
      if e.concept = concept then some e else entries.find? (·.concept == concept) := by
  by_cases h : e.concept = concept
  · simp [h]
  · simp [h]

/-- The frequencies are determined by the counts. -/
theorem frequency_eq_lookup (b : KnowledgeBase) (concept : String) :
    b.frequency concept = ((b.counts.lookup concept).map (·.toNat)).getD 0 := by
  unfold frequency get? counts
  induction b.entries with
  | nil => rfl
  | cons e entries ih =>
      rw [find?_cons_eq_ite, List.map_cons, List.lookup_cons]
      by_cases h : e.concept = concept
      · simp [h]
      · rw [if_neg h, beq_eq_false_iff_ne.mpr (Ne.symm h)]
        exact ih

/-- A concept has at most one entry. -/
theorem Ordered.get?_eq {b : KnowledgeBase} (ordered : b.Ordered) {e : KnowledgeEntry}
    (known : e ∈ b.entries) : b.get? e.concept = some e := by
  unfold Ordered at ordered
  unfold get?
  revert known ordered
  induction b.entries with
  | nil => simp
  | cons first entries ih =>
      intro ordered known
      obtain ⟨smaller, ordered⟩ := List.pairwise_cons.mp ordered
      rw [find?_cons_eq_ite]
      rcases List.mem_cons.mp known with rfl | known
      · exact if_pos rfl
      · rw [if_neg (ne_of_lt (smaller _ (List.mem_map_of_mem known)))]
        exact ih ordered known

theorem Ordered.frequency_eq {b : KnowledgeBase} (ordered : b.Ordered) {e : KnowledgeEntry}
    (known : e ∈ b.entries) : b.frequency e.concept = e.frequency.toNat := by
  unfold frequency
  rw [ordered.get?_eq known]
  rfl

theorem frequency_lt (b : KnowledgeBase) (concept : String) :
    b.frequency concept < UInt64.size := by
  unfold frequency
  cases b.get? concept with
  | none => exact Nat.two_pow_pos 64
  | some e => exact e.frequency.toNat_lt

theorem mem_alterEntries {concept : String} {fresh e : KnowledgeEntry}
    {f : KnowledgeEntry → KnowledgeEntry} {entries : List KnowledgeEntry}
    (h : e ∈ alterEntries concept fresh f entries) :
    e = f fresh ∨ e ∈ entries ∨ ∃ e' ∈ entries, e = f e' := by
  induction entries with
  | nil => exact .inl (List.mem_singleton.mp h)
  | cons first entries ih =>
      unfold alterEntries at h
      split at h
      · rcases List.mem_cons.mp h with rfl | h
        · exact .inr (.inl List.mem_cons_self)
        · rcases ih h with h | h | ⟨e', h, he⟩
          · exact .inl h
          · exact .inr (.inl (List.mem_cons_of_mem _ h))
          · exact .inr (.inr ⟨e', List.mem_cons_of_mem _ h, he⟩)
      · split at h
        · rcases List.mem_cons.mp h with rfl | h
          · exact .inr (.inr ⟨first, List.mem_cons_self, rfl⟩)
          · exact .inr (.inl (List.mem_cons_of_mem _ h))
        · rcases List.mem_cons.mp h with rfl | h
          · exact .inl rfl
          · exact .inr (.inl h)

section Alter

variable {b : KnowledgeBase} {fresh : KnowledgeEntry} {f : KnowledgeEntry → KnowledgeEntry}

/-- The order is kept by a change that keeps the concept of an entry. -/
theorem Ordered.alter (ordered : b.Ordered) (keeps : ∀ e, (f e).concept = e.concept) :
    (b.alter fresh f).Ordered := by
  obtain ⟨entries⟩ := b
  unfold Ordered KnowledgeBase.alter at *
  simp only at ordered ⊢
  induction entries with
  | nil => simp [alterEntries]
  | cons e entries ih =>
      rw [List.map_cons, List.pairwise_cons] at ordered
      unfold alterEntries
      by_cases hlt : e.concept < fresh.concept
      · rw [if_pos hlt, List.map_cons, List.pairwise_cons]
        refine ⟨?_, ih ordered.2⟩
        intro concept hconcept
        obtain ⟨other, hother, rfl⟩ := List.mem_map.mp hconcept
        rcases mem_alterEntries hother with rfl | hin | ⟨old, hold, rfl⟩
        · rw [keeps]
          exact hlt
        · exact ordered.1 _ (List.mem_map_of_mem hin)
        · rw [keeps]
          exact ordered.1 _ (List.mem_map_of_mem hold)
      · by_cases heq : e.concept = fresh.concept
        · rw [if_neg hlt, if_pos heq, List.map_cons, List.pairwise_cons, keeps]
          exact ordered
        · rw [if_neg hlt, if_neg heq, List.map_cons, List.pairwise_cons, keeps]
          have hbefore : fresh.concept < e.concept := lt_of_le_of_ne (not_lt.mp hlt) (Ne.symm heq)
          refine ⟨?_, List.pairwise_cons.mpr ordered⟩
          intro concept hconcept
          rcases List.mem_cons.mp hconcept with rfl | hin
          · exact hbefore
          · exact hbefore.trans (ordered.1 _ hin)

/-- A change reaches the entry of its concept and no other. -/
theorem get?_alter (ordered : b.Ordered) (keeps : ∀ e, (f e).concept = e.concept)
    (concept : String) :
    (b.alter fresh f).get? concept =
      if concept = fresh.concept then some (f ((b.get? concept).getD fresh))
      else b.get? concept := by
  obtain ⟨entries⟩ := b
  unfold Ordered KnowledgeBase.alter get? at *
  simp only at ordered ⊢
  induction entries with
  | nil =>
      by_cases h : concept = fresh.concept
      · simp [alterEntries, keeps, h]
      · simp [alterEntries, keeps, h, Ne.symm h]
  | cons e entries ih =>
      rw [List.map_cons, List.pairwise_cons] at ordered
      unfold alterEntries
      by_cases hlt : e.concept < fresh.concept
      · rw [if_pos hlt, find?_cons_eq_ite, find?_cons_eq_ite, ih ordered.2]
        by_cases h : e.concept = concept
        · have hne : concept ≠ fresh.concept := h ▸ ne_of_lt hlt
          simp [h, hne]
        · simp [h]
      · by_cases heq : e.concept = fresh.concept
        · rw [if_neg hlt, if_pos heq, find?_cons_eq_ite, find?_cons_eq_ite, keeps, heq]
          by_cases h : concept = fresh.concept
          · simp [h]
          · simp [h, Ne.symm h]
        · rw [if_neg hlt, if_neg heq, find?_cons_eq_ite, keeps]
          by_cases h : concept = fresh.concept
          · have hbefore : fresh.concept < e.concept :=
              lt_of_le_of_ne (not_lt.mp hlt) (Ne.symm heq)
            have hnone : (e :: entries).find? (·.concept == concept) = none := by
              rw [List.find?_eq_none]
              intro other hother
              have habove : fresh.concept < other.concept := by
                rcases List.mem_cons.mp hother with rfl | hin
                · exact hbefore
                · exact hbefore.trans (ordered.1 _ (List.mem_map_of_mem hin))
              simpa [h] using ne_of_gt habove
            rw [if_pos h.symm, if_pos h, hnone]
            rfl
          · rw [if_neg (Ne.symm h), if_neg h]

theorem frequency_alter (ordered : b.Ordered) (keeps : ∀ e, (f e).concept = e.concept)
    {added : UInt64} (adds : ∀ e, (f e).frequency = e.frequency + added)
    (unseen : fresh.frequency = 0) (concept : String) :
    (b.alter fresh f).frequency concept =
      (b.frequency concept + if concept = fresh.concept then added.toNat else 0) % UInt64.size := by
  have bound := b.frequency_lt concept
  unfold frequency at *
  rw [get?_alter ordered keeps]
  by_cases h : concept = fresh.concept
  · rw [if_pos h, if_pos h]
    cases b.get? concept with
    | none => simp [adds, unseen]
    | some e => simp [adds, UInt64.toNat_add]
  · rw [if_neg h, if_neg h, Nat.add_zero, Nat.mod_eq_of_lt bound]

end Alter

end KnowledgeBase

namespace Merging

open KnowledgeBase

variable {m m' m'' : Merging} (p : Pattern)

theorem passes_eq_false {count added : UInt64} :
    passes count added = false ↔ count.toNat + added.toNat < UInt64.size := by
  simp [passes]

theorem frequency_eq_entry (m : Merging) (concept : String) :
    m.base.frequency concept = (m.entry concept).frequency.toNat := by
  unfold frequency entry
  cases m.base.get? concept with
  | none => rfl
  | some e => rfl

/-- The time that is noted for a change. A new entry is made at the reading before it. -/
def changedAt (m : Merging) (concept : String) : Time.Instant :=
  (if m.base.contains concept then m.clock else m.clock.now.2).now.1

theorem base_change (concept : String) (f : KnowledgeEntry → KnowledgeEntry) :
    (m.change p concept f).base = m.base.alter (.empty concept m.clock.time) fun e =>
      (f e).touch p.importance (m.changedAt concept) :=
  rfl

/-- A change touches the entry of its concept, or a new one, and no other. -/
theorem get?_change {concept : String} {f : KnowledgeEntry → KnowledgeEntry}
    (ordered : m.base.Ordered) (keeps : ∀ e, (f e).concept = e.concept) (other : String) :
    (m.change p concept f).base.get? other =
      if other = concept then
        some ((f (m.entry concept)).touch p.importance (m.changedAt concept))
      else m.base.get? other := by
  let touched (e : KnowledgeEntry) := (f e).touch p.importance (m.changedAt concept)
  have hget : (m.change p concept f).base.get? other =
      if other = concept then
        some (touched ((m.base.get? other).getD (.empty concept m.clock.time)))
      else m.base.get? other :=
    @get?_alter m.base (.empty concept m.clock.time) touched ordered keeps other
  rw [hget]
  by_cases h : other = concept
  · rw [if_pos h, if_pos h, h]
    rfl
  · rw [if_neg h, if_neg h]

/-- The base after a merge is in order. The frequency of each concept has grown by the given number
modulo the size of a word, and by the number itself if none has passed its largest value. -/
structure Adds (m m' : Merging) (added : String → Nat) : Prop where
  ordered : m'.base.Ordered
  frequency (concept : String) :
    m'.base.frequency concept = (m.base.frequency concept + added concept) % UInt64.size
  checked : m'.frequencyPassed = false → m.frequencyPassed = false
  exact (concept : String) : m'.frequencyPassed = false →
    m'.base.frequency concept = m.base.frequency concept + added concept

/-- The base is as it was. -/
theorem Adds.of_eq (ordered : m.base.Ordered) (base : m'.base = m.base)
    (passed : m'.frequencyPassed = m.frequencyPassed) : Adds m m' fun _ => 0 where
  ordered := base ▸ ordered
  frequency concept := by
    rw [base, Nat.add_zero, Nat.mod_eq_of_lt (m.base.frequency_lt concept)]
  checked := (passed ▸ ·)
  exact concept _ := by rw [base, Nat.add_zero]

theorem Adds.trans {added more : String → Nat} (first : Adds m m' added)
    (second : Adds m' m'' more) : Adds m m'' fun concept => added concept + more concept where
  ordered := second.ordered
  frequency concept := by
    rw [second.frequency, first.frequency, Nat.mod_add_mod, Nat.add_assoc]
  checked unpassed := first.checked (second.checked unpassed)
  exact concept unpassed := by
    rw [second.exact concept unpassed, first.exact concept (second.checked unpassed), Nat.add_assoc]

/-- A change of one entry. It is exact as long as the sum fits. -/
theorem Adds.change {concept : String} {f : KnowledgeEntry → KnowledgeEntry} {added : UInt64}
    (ordered : m.base.Ordered) (keeps : ∀ e, (f e).concept = e.concept)
    (adds : ∀ e, (f e).frequency = e.frequency + added)
    (base : m'.base = (m.change p concept f).base)
    (checked : m'.frequencyPassed = false →
      m.frequencyPassed = false ∧ passes (m.entry concept).frequency added = false) :
    Adds m m' fun other => if other = concept then added.toNat else 0 := by
  rw [base_change] at base
  let touched (e : KnowledgeEntry) := (f e).touch p.importance (m.changedAt concept)
  have grown : ∀ other, m'.base.frequency other =
      (m.base.frequency other + if other = concept then added.toNat else 0) % UInt64.size := by
    rw [base]
    exact @frequency_alter m.base (.empty concept m.clock.time) touched ordered keeps added adds rfl
  refine ⟨base ▸ ordered.alter keeps, grown, fun unpassed => (checked unpassed).1, ?_⟩
  intro other unpassed
  rw [grown, Nat.mod_eq_of_lt]
  by_cases hother : other = concept
  · rw [if_pos hother, hother, frequency_eq_entry]
    exact passes_eq_false.mp (checked unpassed).2
  · rw [if_neg hother]
    exact m.base.frequency_lt other

theorem unpassed_of_change {concept : String} {f : KnowledgeEntry → KnowledgeEntry}
    (h : (m.change p concept f).revisionPassed = false) :
    m.revisionPassed = false ∧ (m.entry concept).revision.toNat + 1 < UInt64.size := by
  obtain ⟨before, unpassed⟩ := Bool.or_eq_false_iff.mp h
  exact ⟨before, passes_eq_false.mp unpassed⟩

/-- A change that leaves frequencies alone. -/
theorem Adds.change_zero {concept : String} {f : KnowledgeEntry → KnowledgeEntry}
    (ordered : m.base.Ordered) (keeps : ∀ e, (f e).concept = e.concept)
    (same : ∀ e, (f e).frequency = e.frequency) :
    Adds m (m.change p concept f) fun _ => 0 := by
  have adds : ∀ e, (f e).frequency = e.frequency + 0 :=
    fun e => (same e).trans (UInt64.add_zero _).symm
  have h : Adds m (m.change p concept f) fun other =>
      if other = concept then UInt64.toNat 0 else 0 := by
    refine .change p ordered keeps adds rfl ?_
    intro unpassed
    exact ⟨unpassed, passes_eq_false.mpr (UInt64.toNat_lt _)⟩
  simpa using h

theorem adds_recurring (ordered : m.base.Ordered) : Adds m (m.recurring p) fun concept =>
    if p.concepts.head? = some concept then p.occurrences.toNat else 0 := by
  unfold recurring
  cases p.concepts with
  | nil => simpa using Adds.of_eq ordered rfl rfl
  | cons first rest =>
      let counted (e : KnowledgeEntry) : KnowledgeEntry :=
        { e with frequency := e.frequency + p.occurrences }
      have adds : ∀ e, (counted e).frequency = e.frequency + p.occurrences := fun _ => rfl
      simp only [List.head?_cons, Option.some_inj, eq_comm (a := first)]
      exact Adds.change (f := counted) p ordered (fun _ => rfl) adds rfl Bool.or_eq_false_iff.mp

theorem adds_link (ordered : m.base.Ordered) (concept other : String) :
    Adds m (m.link p concept other) fun _ => 0 := by
  unfold link
  split
  · exact .of_eq ordered rfl rfl
  · exact .change_zero p ordered (fun _ => rfl) fun _ => rfl

theorem adds_coOccurrence (ordered : m.base.Ordered) : Adds m (m.coOccurrence p) fun _ => 0 := by
  unfold coOccurrence
  split
  · rename_i a b _
    have first := adds_link p ordered a b
    exact first.trans (adds_link p first.ordered b a)
  · exact .of_eq ordered rfl rfl

theorem adds_follow (ordered : m.base.Ordered) (concept next : String) :
    Adds m (m.follow p concept next) fun _ => 0 := by
  unfold follow
  simp only
  split
  · exact .of_eq ordered rfl rfl
  · have changed :
        Adds m (m.change p concept fun e => { e with follows := some next }) fun _ => 0 :=
      .change_zero p ordered (fun _ => rfl) fun _ => rfl
    exact { changed with }

theorem adds_sequence (ordered : m.base.Ordered) : Adds m (m.sequence p) fun _ => 0 := by
  unfold sequence
  induction p.concepts.zip p.concepts.tail generalizing m with
  | nil => exact .of_eq ordered rfl rfl
  | cons step steps ih =>
      have first := adds_follow p ordered step.1 step.2
      exact first.trans (ih first.ordered)

/-- That a pattern is about something known is noted in the report alone. -/
theorem pattern_eq (m : Merging) : ∃ noted : Merging, noted.base = m.base ∧
    noted.frequencyPassed = m.frequencyPassed ∧ noted.revisionPassed = m.revisionPassed ∧
    noted.report.touched = m.report.touched ∧ noted.report.created = m.report.created ∧
    noted.report.conflicts = m.report.conflicts ∧
    m.pattern p =
      match p.kind with
      | .recurring => noted.recurring p
      | .coOccurrence => noted.coOccurrence p
      | .sequential => noted.sequence p := by
  unfold pattern
  simp only
  generalize hnoted : (if p.concepts.any m.base.contains then _ else m) = noted
  refine ⟨noted, ?_⟩
  rw [← hnoted]
  split
  · exact ⟨rfl, rfl, rfl, rfl, rfl, rfl, rfl⟩
  · exact ⟨rfl, rfl, rfl, rfl, rfl, rfl, rfl⟩

theorem adds_pattern (ordered : m.base.Ordered) : Adds m (m.pattern p) p.recurrences := by
  obtain ⟨noted, hbase, hpassed, _, _, _, _, hpattern⟩ := m.pattern_eq p
  rw [hpattern]
  have hsame : Adds m noted fun _ => 0 := .of_eq ordered hbase hpassed
  cases hkind : p.kind with
  | recurring =>
      have hadded : p.recurrences = fun concept =>
          if p.concepts.head? = some concept then p.occurrences.toNat else 0 := by
        funext concept
        simp [Pattern.recurrences, hkind]
      rw [hadded]
      simpa using hsame.trans (adds_recurring p hsame.ordered)
  | sequential =>
      have hnothing : p.recurrences = fun _ => 0 := by
        funext concept
        simp [Pattern.recurrences, hkind]
      rw [hnothing]
      exact hsame.trans (adds_sequence p hsame.ordered)
  | coOccurrence =>
      have hnothing : p.recurrences = fun _ => 0 := by
        funext concept
        simp [Pattern.recurrences, hkind]
      rw [hnothing]
      exact hsame.trans (adds_coOccurrence p hsame.ordered)

/-- A merge reads the clock and does nothing else to it. -/
theorem read_change (concept : String) (f : KnowledgeEntry → KnowledgeEntry) :
    m.clock.Read (m.change p concept f).clock := by
  unfold change
  simp only
  split
  · exact .now .refl
  · exact .now (.now .refl)

theorem read_recurring : m.clock.Read (m.recurring p).clock := by
  unfold recurring
  split
  · exact .refl
  · rename_i concept _ _
    exact read_change p concept fun e => { e with frequency := e.frequency + p.occurrences }

theorem read_link (concept other : String) : m.clock.Read (m.link p concept other).clock := by
  unfold link
  split
  · exact .refl
  · exact read_change p _ _

theorem read_coOccurrence : m.clock.Read (m.coOccurrence p).clock := by
  unfold coOccurrence
  split
  · exact (read_link p _ _).trans (read_link p _ _)
  · exact .refl

theorem read_follow (concept next : String) : m.clock.Read (m.follow p concept next).clock := by
  unfold follow
  simp only
  split
  · exact .refl
  · exact read_change p concept fun e => { e with follows := some next }

theorem read_sequence : m.clock.Read (m.sequence p).clock := by
  unfold sequence
  induction p.concepts.zip p.concepts.tail generalizing m with
  | nil => exact .refl
  | cons step steps ih => exact (read_follow p step.1 step.2).trans ih

theorem read_pattern : m.clock.Read (m.pattern p).clock := by
  unfold pattern
  simp only
  generalize hnoted : (if p.concepts.any m.base.contains then _ else m) = noted
  have hclock : noted.clock = m.clock := by
    rw [← hnoted]
    split
    · rfl
    · rfl
  rw [← hclock]
  cases p.kind with
  | recurring => exact read_recurring p
  | coOccurrence => exact read_coOccurrence p
  | sequential => exact read_sequence p

theorem adds_patterns (ordered : m.base.Ordered) (patterns : List Pattern) :
    Adds m (patterns.foldl Merging.pattern m) fun concept =>
      (patterns.map (·.recurrences concept)).sum := by
  induction patterns generalizing m with
  | nil => exact .of_eq ordered rfl rfl
  | cons p patterns ih =>
      have first := adds_pattern p ordered
      exact first.trans (ih first.ordered)

end Merging

namespace KnowledgeBase

/-- What a night adds to the frequencies is what its recurring patterns count. -/
theorem adds_integrate {b : KnowledgeBase} (ordered : b.Ordered) (patterns : List Pattern)
    (clock : Clock) :
    Merging.Adds (.start b clock) (b.integrate patterns clock) fun concept =>
      (patterns.map (·.recurrences concept)).sum := by
  have adds := Merging.adds_patterns (m := .start b clock) ordered (mergeOrder patterns)
  have hperm : (mergeOrder patterns).Perm patterns := List.mergeSort_perm _ _
  have hsum : (fun concept => ((mergeOrder patterns).map (·.recurrences concept)).sum) =
      fun concept => (patterns.map (·.recurrences concept)).sum :=
    funext fun concept => (hperm.map (·.recurrences concept)).sum_eq
  exact hsum ▸ adds

/-- A night's merge moves the clock on by its readings. -/
theorem read_integrate (b : KnowledgeBase) (patterns : List Pattern) (clock : Clock) :
    clock.Read (b.integrate patterns clock).clock := by
  have hread : ∀ m : Merging,
      m.clock.Read ((mergeOrder patterns).foldl Merging.pattern m).clock := by
    induction mergeOrder patterns with
    | nil => exact fun _ => .refl
    | cons p patterns ih => exact fun m => (Merging.read_pattern p).trans (ih (m.pattern p))
  exact hread (.start b clock)

theorem Ordered.integrate {b : KnowledgeBase} (ordered : b.Ordered) (patterns : List Pattern)
    (clock : Clock) : (b.integrate patterns clock).base.Ordered :=
  (adds_integrate ordered patterns clock).ordered

theorem counts_markTrained (b : KnowledgeBase) (concept : String) (revision : UInt64) :
    (b.markTrained concept revision).counts = b.counts := by
  unfold markTrained modify counts
  rw [List.map_map]
  apply List.map_congr_left
  intro e _
  simp only [Function.comp_apply]
  split
  · rfl
  · rfl

/-- The concepts are in order whatever was taken up. -/
theorem Ordered.restore {b : KnowledgeBase} (ordered : b.Ordered) (entries : List KnowledgeEntry) :
    (b.restore entries).1.Ordered := by
  unfold KnowledgeBase.restore
  generalize (0 : Nat) = count
  induction entries generalizing b count with
  | nil => exact ordered
  | cons e entries ih =>
      rw [List.foldl_cons]
      by_cases known : b.contains e.concept
      · simp only [known, if_true]
        exact ih ordered _
      · simp only [known]
        exact ih (ordered.alter fun _ => rfl) _

theorem alterEntries_behind {e : KnowledgeEntry} {entries : List KnowledgeEntry}
    (above : ∀ other ∈ entries, other.concept < e.concept) :
    alterEntries e.concept e id entries = entries ++ [e] := by
  induction entries with
  | nil => rfl
  | cons first entries ih =>
      unfold alterEntries
      rw [if_pos (above first List.mem_cons_self),
        ih fun other h => above other (List.mem_cons_of_mem _ h)]
      rfl

/-- Entries that come behind the known ones in order are all taken up as they are. -/
theorem restore_behind {b : KnowledgeBase} {entries : List KnowledgeEntry}
    (ordered : Ordered ⟨b.entries ++ entries⟩) :
    (b.restore entries).1 = ⟨b.entries ++ entries⟩ := by
  unfold KnowledgeBase.restore
  generalize (0 : Nat) = count
  induction entries generalizing b count with
  | nil => simp
  | cons e entries ih =>
      have above : ∀ other ∈ b.entries, other.concept < e.concept := by
        unfold Ordered at ordered
        rw [List.map_append, List.pairwise_append] at ordered
        exact fun other h => ordered.2.2 _ (List.mem_map_of_mem h) _ List.mem_cons_self
      have unknown : b.contains e.concept = false := by
        unfold KnowledgeBase.contains
        rw [List.any_eq_false]
        exact fun other h => by simpa using (above other h).ne
      have placed : (b.alter e id).entries = b.entries ++ [e] := alterEntries_behind above
      rw [List.foldl_cons]
      simp only [unknown, Bool.false_eq_true, if_false]
      have hsplit : b.entries ++ e :: entries = (b.alter e id).entries ++ entries := by
        rw [placed, List.append_assoc]
        rfl
      rw [hsplit] at ordered ⊢
      exact ih ordered _

end KnowledgeBase

end Engram
