import Engram.Proofs.Association
import Engram.Proofs.Doubles
import Engram.Proofs.Experience
import Engram.Proofs.Knowledge
import Engram.Proofs.Likeness
import Engram.Mind.Checkpoint

/-! What holds of every mind in use, whatever it was used for and however often it was started
again: its memories are such that taking them up again changes nothing, its cache answers for its
embedder if it has had only one, its day fits into the buffer and begins no later than its
experiences in one of the time zones it was in, and its knowledge is in order. -/
namespace Engram

/-- At most `a` satisfies `p`. -/
def Only {α : Type} (p : α → Prop) (a : α) : Prop := ∀ b, p b → b = a

namespace Number

/-- Neither below zero nor above one. -/
def Double.InUnit (d : Double) : Prop := ¬ d.toFloat < 0.0 ∧ ¬ 1.0 < d.toFloat

theorem Double.InUnit.clamp {d : Double} (inside : d.InUnit) : d.clamp 0.0 1.0 = d := by
  unfold Double.clamp
  rw [if_neg inside.1, if_neg inside.2]

theorem Double.inUnit_clamp (d : Double) : (d.clamp 0.0 1.0).InUnit := by
  have hzero : (ofFloat 0.0).InUnit := by
    unfold InUnit
    decide +kernel
  have hone : (ofFloat 1.0).InUnit := by
    unfold InUnit
    decide +kernel
  unfold Double.clamp
  split
  · exact hzero
  · rename_i low
    split
    · exact hone
    · rename_i high
      exact ⟨low, high⟩

theorem Double.inUnit_ofFloat_clamp (x : Float) : (ofFloat (Number.clamp 0.0 1.0 x)).InUnit := by
  have hlow : ¬ (0.0 : Float) < 0.0 := by decide +kernel
  have hhigh : ¬ (1.0 : Float) < 1.0 := by decide +kernel
  have hcross : ¬ (1.0 : Float) < 0.0 := by decide +kernel
  unfold InUnit Number.clamp
  rw [toFloat_ofFloat]
  simp only
  by_cases h : x < 0.0
  · simp only [if_pos h, if_neg hcross]
    exact ⟨hlow, hcross⟩
  · simp only [if_neg h]
    by_cases h' : 1.0 < x
    · simp only [if_pos h']
      exact ⟨hcross, hhigh⟩
    · simp only [if_neg h']
      exact ⟨h, h'⟩

end Number

namespace Memory

/-- Taking up the memory again changes nothing. -/
def IsSettled (m : Memory) : Prop := m.activate = m

variable {m m' : Memory}

theorem isSettled_of (importance : m.importance.InUnit)
    (associations : Names.Strict m.associations) : m.IsSettled := by
  unfold IsSettled activate
  rw [importance.clamp, Names.ofList_of_strict associations]

theorem isSettled_activate (m : Memory) : m.activate.IsSettled :=
  isSettled_of m.importance.inUnit_clamp (Names.strict_ofList m.associations)

theorem IsSettled.inUnit (settled : m.IsSettled) : m.importance.InUnit := by
  rw [← settled]
  exact m.importance.inUnit_clamp

theorem IsSettled.strict (settled : m.IsSettled) : Names.Strict m.associations := by
  rw [← settled]
  exact Names.strict_ofList m.associations

theorem IsSettled.retrieve (settled : m.IsSettled) : m.retrieve.IsSettled :=
  congrArg Memory.retrieve settled

theorem IsSettled.extended (settled : m.IsSettled) (extended : m.Extended m') : m'.IsSettled := by
  refine isSettled_of ?_ (extended.strict settled.strict)
  rw [extended.rest]
  exact settled.inUnit

end Memory

namespace Store

/-- All active memories are settled. -/
def Settled (s : Store) : Prop := ∀ t, ∀ m ∈ s.memories t, m.IsSettled

theorem settled_empty : empty.Settled := by
  intro t m hm
  rw [memories_empty] at hm
  cases hm

theorem Settled.add {s : Store} (settled : s.Settled) {m : Memory} (new : m.IsSettled) :
    (s.add m).Settled := by
  intro t n hn
  rw [memories_add] at hn
  split at hn
  · rcases List.mem_append.mp hn with hn | hn
    · exact settled t n hn
    · exact List.mem_singleton.mp hn ▸ new
  · exact settled t n hn

theorem Settled.put {s : Store} (settled : s.Settled) {t : Tier} {kept : List Trace}
    (part : kept ⊆ s.traces t) : (s.put t kept).Settled := by
  intro u m hm
  rw [memories_put] at hm
  split at hm
  · rename_i hu
    subst hu
    exact settled _ m (List.map_subset _ part hm)
  · exact settled u m hm

theorem Settled.replace {s : Store} (settled : s.Settled) (t : Tier) (memories : List Memory) :
    (s.replace t (memories.map Memory.activate)).Settled := by
  intro u m hm
  rw [memories_replace] at hm
  split at hm
  · obtain ⟨n, _, rfl⟩ := List.mem_map.mp hm
    exact n.isSettled_activate
  · exact settled u m hm

theorem Settled.map {s : Store} (settled : s.Settled) {f : Trace → Memory}
    (keeps : ∀ a : Trace, a.memory.IsSettled → (f a).IsSettled) : (s.map f).Settled := by
  intro t m hm
  simp only [memories, traces, Store.map, Tiers.get_map, List.map_map] at hm
  obtain ⟨a, ha, rfl⟩ := List.mem_map.mp hm
  exact keeps a (settled t a.memory (List.mem_map_of_mem ha))

theorem Settled.countRetrievals {s : Store} (settled : s.Settled) (retrieved : List Trace) :
    (s.countRetrievals retrieved).Settled := by
  unfold Store.countRetrievals
  induction retrieved generalizing s with
  | nil => exact settled
  | cons a retrieved ih =>
      refine ih (settled.map ?_)
      intro b hb
      split
      · exact hb.retrieve
      · exact hb

theorem retrieve_ok_eq {s s' : Store} {c : RetrievalConfig} {query : Embedding}
    {found : List Memory} (h : s.retrieve c query = .ok (found, s')) :
    ∃ selected, s' = s.countRetrievals selected := by
  unfold retrieve at h
  cases hs : s.select c query with
  | error e => simp [hs, bind, Except.bind] at h
  | ok selected =>
      simp only [hs, bind, Except.bind, pure, Except.pure, Except.ok.injEq, Prod.mk.injEq] at h
      exact ⟨selected, h.2.symm⟩

end Store

namespace DayBuffer

/-- The day of the first experience, or an earlier one if that day exists. -/
def Begins (zone : Time.Zone) (day : Time.Date) (first : Experience) : Prop :=
  day = zone.date first.timestamp ∨
    (zone.date first.timestamp).isValid ∧ day.days < (zone.date first.timestamp).days

/-- The buffer has room for `capacity` experiences and holds no more, and its day is one on which
they may begin in one of some zones. -/
structure Dated (b : DayBuffer) (zones : Time.Zone → Prop) (capacity : Nat) : Prop where
  room : b.capacity = capacity
  positive : 0 < capacity
  fits : b.experiences.length ≤ capacity
  begins : ∀ first ∈ b.experiences.head?, ∃ zone, zones zone ∧ Begins zone b.day first

variable {b : DayBuffer} {zones : Time.Zone → Prop} {zone : Time.Zone} {capacity : Nat}

theorem length_bound (n : Nat) (experiences : List Experience) :
    (bound n experiences).length = min experiences.length n := by
  unfold bound
  rw [List.length_drop]
  omega

theorem bound_of_length_le {n : Nat} {experiences : List Experience}
    (h : experiences.length ≤ n) : bound n experiences = experiences := by
  unfold bound
  rw [Nat.sub_eq_zero_of_le h, List.drop_zero]

theorem firstDay_eq (zone : Time.Zone) (today : Time.Date) {experiences : List Experience}
    {first : Experience} (h : first ∈ experiences.head?) :
    firstDay zone today experiences = zone.date first.timestamp := by
  cases experiences with
  | nil => cases h
  | cons e rest =>
      obtain rfl : e = first := Option.some.inj h
      rfl

theorem dated_empty (n : Nat) (today : Time.Date) (zones : Time.Zone → Prop) :
    (empty n today).Dated zones (max n 1) where
  room := rfl
  positive := by omega
  fits := Nat.zero_le _
  begins := by simp [empty]

/-- A buffer with one more experience begins with its first experience, or as it did before if that
one was first then, too. -/
theorem day_record (b : DayBuffer) (zone : Time.Zone) (e : Experience) {first : Experience}
    (hfirst : first ∈ (b.record zone e).experiences.head?) :
    (b.record zone e).day = zone.date first.timestamp ∨
      (b.record zone e).day = b.day ∧ first ∈ b.experiences.head? := by
  have hlength := length_bound (b.capacity - 1) b.experiences
  simp only [DayBuffer.record] at hfirst ⊢
  cases hkept : bound (b.capacity - 1) b.experiences with
  | nil =>
      rw [hkept] at hfirst
      obtain rfl : e = first := Option.some.inj hfirst
      exact .inl rfl
  | cons oldest rest =>
      rw [hkept] at hfirst
      obtain rfl : oldest = first := Option.some.inj hfirst
      by_cases hover : 0 < b.experiences.length - (oldest :: rest).length
      · simp only [hover, decide_true, Bool.or_true, if_true]
        exact .inl rfl
      · -- Nothing was dropped, so the first experience is the one that was first before.
        rw [hkept] at hlength
        have hall : bound (b.capacity - 1) b.experiences = b.experiences :=
          bound_of_length_le (by omega)
        simp only [hover, decide_false, Bool.or_false, List.isEmpty_cons, Bool.false_eq_true,
          if_false]
        exact .inr ⟨trivial, by rw [← hall, hkept]; rfl⟩

theorem Dated.record (dated : b.Dated zones capacity) (here : zones zone) (e : Experience) :
    (b.record zone e).Dated zones capacity := by
  obtain ⟨room, positive, fits, begins⟩ := dated
  have hlength := length_bound (b.capacity - 1) b.experiences
  refine ⟨room, positive, ?_, ?_⟩
  · simp only [DayBuffer.record, List.length_append, List.length_singleton]
    omega
  · intro first hfirst
    rcases day_record b zone e hfirst with hday | ⟨hday, hbefore⟩
    · exact ⟨zone, here, .inl hday⟩
    · rw [hday]
      exact begins first hbefore

theorem Dated.clear (dated : b.Dated zones capacity) (here : zones zone) (today : Time.Date)
    (consumed : List Uid) : (b.clear zone today consumed).Dated zones capacity where
  room := dated.room
  positive := dated.positive
  fits := (List.length_filter_le _ _).trans dated.fits
  begins _ hfirst := ⟨zone, here, .inl (firstDay_eq zone today hfirst)⟩

theorem Dated.restore (dated : b.Dated zones capacity) (here : zones zone) (today day : Time.Date)
    (recovered : List Experience) : (b.restore zone today day recovered).Dated zones capacity := by
  unfold DayBuffer.restore
  by_cases hnone : recovered.isEmpty
  · rw [if_pos hnone]
    exact dated
  · rw [if_neg hnone]
    refine ⟨dated.room, dated.positive, ?_, ?_⟩
    · simp only [length_bound, dated.room]
      omega
    · intro first hfirst
      refine ⟨zone, here, ?_⟩
      simp only [firstDay_eq zone today hfirst]
      split
      · rename_i hearlier
        simp only [Bool.and_eq_true, decide_eq_true_eq] at hearlier
        exact .inr ⟨hearlier.1.2, hearlier.2⟩
      · exact .inl rfl

/-- An empty buffer takes up all experiences of a day. It begins as the day did, exactly if that is
how the day may begin in the zone it is in. -/
theorem restore_empty {n : Nat} (fits : b.experiences.length ≤ max n 1) (zone : Time.Zone)
    (start today : Time.Date) :
    ((empty n start).restore zone today b.day b.experiences).experiences = b.experiences ∧
      ∀ first ∈ b.experiences.head?,
        (((empty n start).restore zone today b.day b.experiences).day = b.day ↔
          Begins zone b.day first) := by
  unfold DayBuffer.restore
  cases hall : b.experiences with
  | nil => exact ⟨rfl, fun first hfirst => by cases hfirst⟩
  | cons first rest =>
      have hfits : (first :: rest).length ≤ (empty n start).capacity := hall ▸ fits
      have hmerged : ((first :: rest).filter fun e =>
          !((empty n start).experiences.map (·.id)).contains e.id) ++ (empty n start).experiences =
          first :: rest := by
        simp [empty]
      have hday : firstDay zone today (first :: rest) = zone.date first.timestamp :=
        firstDay_eq zone today rfl
      rw [if_neg (by simp)]
      simp only [hmerged, bound_of_length_le hfits, Nat.sub_self, decide_true, Bool.true_and, hday]
      refine ⟨trivial, ?_⟩
      rintro _ ⟨⟩
      unfold Begins
      split
      · rename_i hearlier
        rw [Bool.and_eq_true, decide_eq_true_eq] at hearlier
        exact iff_of_true rfl (.inr hearlier)
      · rename_i hearlier
        rw [Bool.and_eq_true, decide_eq_true_eq] at hearlier
        exact ⟨fun hday => .inl hday.symm, fun hbegins => (hbegins.resolve_right hearlier).symm⟩

end DayBuffer

namespace ArchiveLog

/-- Sealing changes neither the bound of a batch nor the zone of the clock. -/
theorem sealBatch_frame (l : ArchiveLog) (source : Source) (date : Time.Date)
    (experiences : List Experience) (patterns : List Pattern) (metrics : DailyMetrics) :
    (l.sealBatch source date experiences patterns metrics).1.1.maxPending = l.maxPending ∧
      (l.sealBatch source date experiences patterns metrics).2.clock.zone =
        source.clock.zone := by
  refine ⟨?_, rfl⟩
  unfold sealBatch takePending write
  simp only
  split
  · rfl
  · rfl

theorem stage_frame (l : ArchiveLog) (source : Source) (memories : List Memory) :
    (l.stage source memories).1.maxPending = l.maxPending ∧
      (l.stage source memories).2.clock.zone = source.clock.zone := by
  unfold stage
  split
  · exact ⟨rfl, rfl⟩
  · simp only
    split
    · exact ⟨rfl, rfl⟩
    · exact sealBatch_frame { l with pending := l.pending ++ memories } _ _ [] [] {}

end ArchiveLog

namespace Mind

open Nightly

/-- A mind in use with one configuration, with known embedders and in some time zones. -/
structure Fit (known : Embedder → Prop) (c : Config) (zones : Time.Zone → Prop) (s : Mind) :
    Prop where
  config : s.config = c
  zone : zones s.zone
  tidy : s.store.Tidy
  settled : s.store.Settled
  cache : ∀ embedder, Only known embedder → s.cache.Faithful c.embeddingDimension embedder
  day : s.day.Dated zones (max c.nightly.maxExperiences 1)
  knowledge : s.knowledge.Ordered
  batch : s.archive.maxPending = max c.nightly.maxPending 1

variable {known : Embedder → Prop} {config : Config} {zones : Time.Zone → Prop} {s s' : Mind}

theorem fit_start (known : Embedder → Prop) (config : Config) (backend : Backend) (source : Source)
    (here : zones source.clock.zone) (classifier : Classifier) (extractor : Extractor) :
    Fit known config zones
      { start config backend source with classifier, extractor } where
  config := rfl
  zone := here
  tidy := Store.tidy_empty
  settled := Store.settled_empty
  cache _ _ := by intro p hp; cases hp
  day := DayBuffer.dated_empty _ _ _
  knowledge := KnowledgeBase.ordered_empty
  batch := rfl

/-- The parts of a mind that fitness is about are as they were. -/
theorem Fit.still (fit : Fit known config zones s) (sameConfig : s'.config = s.config)
    (sameZone : s'.zone = s.zone) (store : s'.store = s.store) (cache : s'.cache = s.cache)
    (day : s'.day = s.day) (knowledge : s'.knowledge = s.knowledge)
    (batch : s'.archive.maxPending = s.archive.maxPending) : Fit known config zones s' := by
  refine ⟨sameConfig.trans fit.config, sameZone ▸ fit.zone, ?_, ?_, ?_, ?_, ?_,
    batch.trans fit.batch⟩
  · exact store ▸ fit.tidy
  · exact store ▸ fit.settled
  · exact cache ▸ fit.cache
  · exact day ▸ fit.day
  · exact knowledge ▸ fit.knowledge

theorem Fit.now (fit : Fit known config zones s) : Fit known config zones s.now.2 :=
  fit.still rfl rfl rfl rfl rfl rfl rfl

theorem Fit.recordActivity (fit : Fit known config zones s) :
    Fit known config zones s.recordActivity := by
  have noted : ∀ activity, Fit known config zones { s.now.2 with activity } := fun _ =>
    fit.now.still rfl rfl rfl rfl rfl rfl rfl
  exact noted _

theorem Fit.setBackend (fit : Fit known config zones s) (backend : Backend) :
    Fit known config zones (s.setBackend backend) :=
  fit.still rfl rfl rfl rfl rfl rfl rfl

theorem Fit.setStore (fit : Fit known config zones s) {store : Store} (tidy : store.Tidy)
    (settled : store.Settled) : Fit known config zones { s with store } :=
  ⟨fit.config, fit.zone, tidy, settled, fit.cache, fit.day, fit.knowledge, fit.batch⟩

theorem Fit.embed (fit : Fit known config zones s) {embedder : Embedder} (given : known embedder)
    (text : String) : Fit known config zones (s.embed embedder text).1 := by
  have cache : ∀ other, Only known other →
      (s.embed embedder text).1.cache.Faithful config.embeddingDimension other := by
    intro other only
    obtain rfl := only embedder given
    rw [← fit.config]
    exact ((fit.config ▸ fit.cache embedder only).embed text).1
  exact ⟨fit.config, fit.zone, fit.tidy, fit.settled, cache, fit.day, fit.knowledge, fit.batch⟩

theorem Fit.retrieve (fit : Fit known config zones s) {c : RetrievalConfig} {query : Embedding}
    {found : List Memory} {store : Store} (h : s.store.retrieve c query = .ok (found, store)) :
    Fit known config zones { s with store } := by
  obtain ⟨selected, rfl⟩ := Store.retrieve_ok_eq h
  exact fit.setStore (fit.tidy.countRetrievals selected) (fit.settled.countRetrievals selected)

theorem Fit.remember (fit : Fit known config zones s) (input : Input) (output : String)
    (embedding : Embedding) (names : List String) :
    Fit known config zones (s.remember input output embedding (Names.ofList names)).1 := by
  have new : (s.remember input output embedding (Names.ofList names)).2.IsSettled :=
    Memory.isSettled_of (Number.Double.inUnit_ofFloat_clamp _) (Names.strict_ofList names)
  refine ⟨fit.config, fit.zone, fit.tidy.add _, fit.settled.add new, fit.cache, ?_, fit.knowledge,
    fit.batch⟩
  exact fit.day.record fit.zone _

theorem Fit.stage (fit : Fit known config zones s) (memories : List Memory) :
    Fit known config zones (s.stage memories) := by
  obtain ⟨batch, clock⟩ := s.archive.stage_frame s.source memories
  exact fit.still rfl clock rfl rfl rfl rfl batch

theorem Fit.consolidationPasses (fit : Fit known config zones s) (t : Tier)
    (now : Time.Instant) (passes : Nat) (result : TierConsolidation) :
    Fit known config zones (Mind.consolidationPasses t now passes s result).1 := by
  cases passes with
  | zero => exact fit
  | succ passes =>
      have part := Consolidation.partition_perm s.config.score now (s.config.capacity t)
        (s.store.traces t)
      rw [consolidationPasses_succ]
      split
      · exact fit
      · refine Fit.stage (fit.setStore (fit.tidy.put part) (fit.settled.put ?_)) _
        exact fun a ha => part.subset (List.mem_append_left _ ha)

theorem Fit.consolidate (fit : Fit known config zones s) (t : Tier) :
    Fit known config zones (s.consolidate t).1 :=
  fit.now.consolidationPasses t s.now.1 Consolidation.maxPasses _

theorem Fit.consolidateIfOver (fit : Fit known config zones s) (t : Tier) :
    Fit known config zones (s.consolidateIfOver t).1 := by
  unfold Mind.consolidateIfOver
  split
  · exact fit.consolidate t
  · exact fit

theorem Fit.settle (fit : Fit known config zones s) (input : Input) (output : String)
    (embedding : Embedding) (retrieved : Nat) :
    Fit known config zones (s.settle input output embedding retrieved).1 := by
  unfold Mind.settle Mind.discoverAssociations
  cases s.store.similar embedding s.config.associationThreshold with
  | error e => exact fit
  | ok similar => exact (fit.remember input output embedding _).consolidateIfOver _

theorem Fit.answer (fit : Fit known config zones s) (generator : Generator) (input : Input)
    (embedding : Embedding) : Fit known config zones (s.answer generator input embedding).1 := by
  unfold Mind.answer
  cases hfound : s.store.retrieve s.config.retrieval embedding with
  | error e => exact fit
  | ok found =>
      have used : Fit known config zones { s with store := found.2 } := fit.retrieve hfound
      simp only
      cases generate generator (Prompt.forInput s.config.retrieval input.text found.1) with
      | error e => exact used
      | ok output => exact used.settle input output embedding _

theorem Fit.process (fit : Fit known config zones s) {embedder : Embedder} (given : known embedder)
    (generator : Generator) (input : Input) :
    Fit known config zones (s.process ⟨embedder, generator⟩ input).1 := by
  have embedded := fit.recordActivity.embed given input.text
  unfold Mind.process
  simp only
  generalize s.recordActivity.embed embedder input.text = r at embedded ⊢
  obtain ⟨t, result⟩ := r
  cases result with
  | error e => exact embedded
  | ok embedding => exact embedded.answer generator input embedding

theorem Fit.persist (fit : Fit known config zones s) : Fit known config zones s.persist.1 := by
  unfold Mind.persist
  simp only
  split
  · exact fit.now.setBackend _
  · exact fit.now.setBackend _

theorem Fit.integratePhase (fit : Fit known config zones s) (patterns : List Pattern) :
    Fit known config zones (s.integratePhase patterns).1 := by
  have linked : (linkMemories s.extractor s.store patterns).1.Tidy ∧
      (linkMemories s.extractor s.store patterns).1.Settled := by
    rw [store_linkMemories]
    exact ⟨fit.tidy.map _, fit.settled.map fun a settled => settled.extended (extended_link _).1⟩
  have zone : zones (s.knowledge.integrate patterns s.source.clock).clock.zone := by
    rw [(s.knowledge.read_integrate patterns s.source.clock).zone]
    exact fit.zone
  exact ⟨fit.config, zone, linked.1, linked.2, fit.cache, fit.day,
    fit.knowledge.integrate patterns s.source.clock, fit.batch⟩

theorem Fit.markTrained (fit : Fit known config zones s) (lessons : List Lesson) :
    Fit known config zones (s.markTrained lessons) := by
  refine ⟨fit.config, fit.zone, fit.tidy, fit.settled, fit.cache, fit.day, ?_, fit.batch⟩
  unfold Mind.markTrained
  simp only
  have ordered := fit.knowledge
  generalize s.knowledge = base at ordered
  induction lessons generalizing base with
  | nil => exact ordered
  | cons l lessons ih =>
      exact ih _ (ordered.of_counts (base.counts_markTrained l.concept l.revision))

theorem Fit.boundTiers (fit : Fit known config zones s) :
    Fit known config zones s.boundTiers.1 :=
  boundTiers_follows (R := fun s s' => Fit known config zones s → Fit known config zones s')
    (fun _ => id) (fun first second fit => second (first fit))
    (fun _ t fit => fit.consolidateIfOver t) s fit

theorem Fit.cleanupPhase (fit : Fit known config zones s) (night : Night) :
    Fit known config zones (s.cleanupPhase night).1 := by
  have bounded := fit.boundTiers
  unfold Mind.cleanupPhase
  simp only
  generalize s.boundTiers.1 = t at bounded
  obtain ⟨batch, clock⟩ := t.archive.sealBatch_frame t.source night.day night.experiences
    night.patterns { night.metrics with tierSizes := ⟨t.store.sizes⟩ }
  generalize t.archive.sealBatch t.source night.day night.experiences night.patterns
    { night.metrics with tierSizes := ⟨t.store.sizes⟩ } = outcome at batch clock ⊢
  obtain ⟨⟨archive, result⟩, source⟩ := outcome
  have closed : Fit known config zones { t with archive, source } :=
    bounded.still rfl clock rfl rfl rfl rfl batch
  cases result with
  | error e => exact closed
  | ok entry =>
      refine ⟨closed.config, closed.zone, closed.tidy, closed.settled, closed.cache, ?_,
        closed.knowledge, closed.batch⟩
      exact closed.day.clear closed.zone _ _

theorem Fit.finishNight (fit : Fit known config zones s) (p : Progress) :
    Fit known config zones (s.finishNight p).1 := by
  obtain ⟨night, _, last, _⟩ := s.finishNight_eq p
  rw [last]
  exact (fit.cleanupPhase night).now

theorem Fit.recordRun (fit : Fit known config zones s) (report : NightlyReport) :
    Fit known config zones (s.recordRun report) := by
  have drawn : Fit known config zones s.freshId.2 := fit.still rfl rfl rfl rfl rfl rfl rfl
  unfold Mind.recordRun
  simp only
  split
  · exact drawn.setBackend _
  · exact drawn

/-- A night leaves a mind fit if all that happens at its questions does. -/
theorem Fit.runNightly {lbl : Type} {meanwhile : Mind → List lbl → Mind → Prop}
    (between : ∀ {s new s'}, meanwhile s new s' → Fit known config zones s →
      Fit known config zones s') (fit : Fit known config zones s) {last : Mind}
    {new : List lbl} {report : NightlyReport}
    (ends : s.runNightly.Ends meanwhile new last report) : Fit known config zones last := by
  have abides : Abides meanwhile fun s _ s' =>
      Fit known config zones s → Fit known config zones s' := {
    refl := fun _ => id
    trans := fun first second fit => second (first fit)
    between := between
    drawn := fun _ fit => fit.still rfl rfl rfl rfl rfl rfl rfl
    learned := fun _ lessons fit => fit.markTrained lessons }
  obtain ⟨front, back, t, report, rfl, phases, rest⟩ := ends.bind_cases
  obtain ⟨rfl, rfl, rfl⟩ := rest.of_done
  obtain ⟨_, _, u, v, w, p, _, first, hv, second, finished, _⟩ := abides.nightlyPhases phases
  have started := first fit.now.now
  have merged : Fit known config zones v := by
    rw [hv]
    split
    · exact started.integratePhase _
    · exact started
  have closed := (second merged).finishNight p
  rw [finished] at closed
  exact (closed.recordRun report).persist

/-- Taking up a checkpoint leaves a mind fit, whatever the checkpoint holds. -/
theorem Fit.adopt (fit : Fit known config zones s) (loaded : Loaded) :
    Fit known config zones (s.adopt loaded) := by
  have tiers : Fit known config zones (s.adoptTiers loaded.tiers) := by
    have placed : (s.adoptTiers loaded.tiers).store.Tidy ∧
        (s.adoptTiers loaded.tiers).store.Settled :=
      List.foldlRecOn (motive := fun store : Store => store.Tidy ∧ store.Settled) loaded.tiers _
        ⟨fit.tidy, fit.settled⟩ fun _ kept _ _ => ⟨kept.1.replace _ _, kept.2.replace _ _⟩
    exact fit.setStore placed.1 placed.2
  unfold Mind.adopt
  simp only
  generalize s.adoptTiers loaded.tiers = t at tiers
  have learned : ∀ {u : Mind}, Fit known config zones u →
      Fit known config zones { u with knowledge := (u.knowledge.restore loaded.knowledge).1 } :=
    fun fit => ⟨fit.config, fit.zone, fit.tidy, fit.settled, fit.cache, fit.day,
      fit.knowledge.restore _, fit.batch⟩
  cases loaded.pendingDay with
  | none => exact learned tiers
  | some day =>
      refine learned ⟨tiers.config, tiers.zone, tiers.tidy, tiers.settled, tiers.cache, ?_,
        tiers.knowledge, tiers.batch⟩
      exact tiers.day.restore tiers.zone _ _ _

theorem Fit.restore (fit : Fit known config zones s) : Fit known config zones s.restore.1 := by
  unfold Mind.restore
  cases s.load with
  | error e => exact fit
  | ok loaded => exact fit.adopt loaded

end Mind

end Engram
