import Engram.Proofs.Cache
import Engram.Proofs.Capacity
import Engram.Proofs.Completeness
import Engram.Proofs.Detectors
import Engram.Proofs.Experience
import Engram.Proofs.Linking
import Engram.Proofs.Words

/-! The concepts of an interaction. They are found word by word, so it has no influence which blank
stands between its two texts: the experience of the day has the concepts that the content of the
memory mentions. What a night finds to go together in the experiences is therefore mentioned by the
memories, and links them. -/
namespace Engram

namespace Concept

variable {separator other : String}

/-- The concepts of two parts are those of the first, and then those of the second that are new. -/
theorem keywords_append (separates : Text.Separates separator) (front back : String) :
    keywords (front ++ separator ++ back) =
      keywords front ++ (keywords back).filter (· ∉ keywords front) := by
  have hnew : (((Text.bareWords back).filter isConcept).removeAll
      ((Text.bareWords front).filter isConcept)).eraseDups =
      (keywords back).filter (· ∉ keywords front) := by
    rw [List.removeAll, eraseDups_filter]
    refine List.filter_congr fun word _ => ?_
    rw [Bool.eq_iff_iff]
    simp [keywords]
  rw [keywords, Text.bareWords_append separates, List.filter_append, List.eraseDups_append, hnew]
  rfl

theorem separates_singleton {c : Char} (blank : Text.isBlank c) :
    Text.Separates (String.singleton c) where
  some h := by simpa using congrArg String.toList h
  blank d hd := by
    rw [String.toList_singleton, List.mem_singleton] at hd
    rwa [hd]

theorem keywords_separated (separates : Text.Separates separator)
    (separates' : Text.Separates other) (front back : String) :
    keywords (front ++ separator ++ back) = keywords (front ++ other ++ back) := by
  rw [keywords_append separates, keywords_append separates']

end Concept

namespace Detect

variable {c : NightlyConfig} {now : Time.Instant} {day : List Experience} {p : Pattern}

theorem kind_of_mem_recurring (found : p ∈ recurring c now day) : p.kind = .recurring := by
  obtain ⟨key, _, rfl⟩ := List.mem_map.mp found
  rfl

theorem kind_of_mem_sequences (found : p ∈ sequences c now day) : p.kind = .sequential := by
  obtain ⟨key, _, rfl⟩ := List.mem_map.mp found
  rfl

/-- What goes together by one of the patterns is a pair, and some experience contains it. -/
theorem shownBy_of_mem_all (found : p ∈ all c now day) (pair : p.kind = .coOccurrence) :
    ∃ x y, p = shownBy .coOccurrence now day [x, y] ∧ containing day [x, y] ≠ [] := by
  have hany : p ∈ recurring c now day ++ sequences c now day ++ pairs c now day :=
    (List.mergeSort_perm _ _).subset found
  rcases List.mem_append.mp hany with hother | hpair
  · rcases List.mem_append.mp hother with hother | hother
    · rw [kind_of_mem_recurring hother] at pair
      cases pair
    · rw [kind_of_mem_sequences hother] at pair
      cases pair
  · obtain ⟨pairs, _, hmem, hpairs⟩ := pairs_eq c now day
    rw [hpairs] at hpair
    obtain ⟨⟨x, y⟩, hxy, rfl⟩ := List.mem_map.mp hpair
    exact ⟨x, y, rfl, ((hmem x y).mp hxy).2.1⟩

end Detect

/-- The memory and the experience of one interaction: they have the same texts, and the experience
has the concepts that the content of the memory mentions. -/
structure Memory.Recalls (m : Memory) (e : Experience) : Prop where
  content : m.content = e.input ++ "\n" ++ e.output
  concepts : e.concepts = Concept.keywords m.content

theorem Memory.Recalls.of_fixed {m m' : Memory} {e : Experience} (recalls : m.Recalls e)
    (same : m'.fixed = m.fixed) : m'.Recalls e := by
  have hcontent : m'.content = m.content := congrArg (·.content) same
  exact ⟨hcontent ▸ recalls.content, hcontent ▸ recalls.concepts⟩

namespace Mind

open Nightly

variable {allowed : List String → Prop} {s s' s'' : Mind} {new more : List Memory}

theorem remember_recalls (found : s.extractor = Concept.keywords) (input : Input)
    (output : String) (embedding : Embedding) (associations : List String) :
    ∃ e, (s.remember input output embedding associations).1.day = s.day.record s.zone e ∧
      e.input = input.text ∧ e.output = output ∧
      (s.remember input output embedding associations).2.Recalls e := by
  refine ⟨_, rfl, rfl, rfl, rfl, ?_⟩
  change s.extractor (input.text ++ " " ++ output) = Concept.keywords (input.text ++ "\n" ++ output)
  rw [found]
  exact Concept.keywords_separated (Concept.separates_singleton (c := ' ') (by decide))
    (Concept.separates_singleton (c := '\n') (by decide)) _ _

theorem consolidateIfOver_frame (s : Mind) (t : Tier) :
    (s.consolidateIfOver t).1.day = s.day ∧
      (s.consolidateIfOver t).1.extractor = s.extractor := by
  obtain ⟨source, store, staged, hmind, _⟩ := s.consolidateIfOver_spec t
  rw [hmind]
  exact ⟨rfl, rfl⟩

theorem Processed.recalls {collaborators : Collaborators} {input : Input}
    {outcome : ProcessOutcome} {ready last : Mind} {embedding : Embedding}
    (processed : Processed s collaborators input outcome ready embedding last)
    (found : s.extractor = Concept.keywords) :
    ∃ e, last.day = s.day.record s.zone e ∧ e.input = input.text ∧ e.output = outcome.output ∧
      (ready.remember input outcome.output embedding outcome.associations).2.Recalls e := by
  obtain ⟨e, hday, hinput, houtput, recalls⟩ :=
    remember_recalls (processed.noted.extractor.trans found) input outcome.output embedding
      outcome.associations
  refine ⟨e, ?_, hinput, houtput, recalls⟩
  rw [processed.last, (consolidateIfOver_frame _ _).1, hday, processed.noted.day,
    processed.noted.zone]

/-- A memory that was live or is stored stays live or is archived. -/
theorem Evolves.lives {log : List ArchiveEntry} (evolves : Evolves allowed s new log s')
    {m : Memory} (hm : m ∈ s.live ++ new) :
    ∃ m' ∈ s'.live ++ archived log, m'.fixed = m.fixed :=
  List.mem_map.mp (evolves.live_perm.symm.subset (List.mem_map_of_mem hm))

/-- The memory of an interaction is there when it was processed, or was archived by then. -/
theorem Processed.lives {collaborators : Collaborators} {input : Input}
    {outcome : ProcessOutcome} {ready last : Mind} {embedding : Embedding}
    (processed : Processed s collaborators input outcome ready embedding last) :
    ∃ log, s.backend.Extends log last.backend ∧ ∃ m ∈ last.live ++ archived log,
      m.fixed =
        (ready.remember input outcome.output embedding outcome.associations).2.fixed := by
  have hlast := processed.last
  obtain ⟨store, _, _, archive⟩ :=
    ready.remember_stores input outcome.output embedding outcome.associations
  generalize ready.remember input outcome.output embedding outcome.associations = stored at *
  obtain ⟨t, m⟩ := stored
  obtain ⟨log, evolves⟩ : ∃ log, Evolves (fun _ => True) t [] log _ :=
    t.evolves_consolidateIfOver (ready.classifier input)
  rw [← hlast] at evolves
  have hextends := evolves.extends
  rw [Mind.backend, archive, processed.noted.archive] at hextends
  have hm : m ∈ t.live := by
    refine List.mem_append_left _ (List.mem_flatMap.mpr ⟨m.tier, m.tier.mem_all, ?_⟩)
    rw [show t.store = _ from store, Store.memories_add, if_pos rfl]
    exact List.mem_append_right _ (List.mem_singleton_self m)
  exact ⟨log, hextends, evolves.lives (List.mem_append_left _ hm)⟩

/-- Concepts are found as before, and what is new in the day belongs to a new memory. -/
structure Records (s : Mind) (new : List Memory) (s' : Mind) : Prop where
  extractor : s'.extractor = s.extractor
  day : s.extractor = Concept.keywords →
    ∀ e ∈ s'.day.experiences, e ∈ s.day.experiences ∨ ∃ m ∈ new, m.Recalls e

theorem Records.still (extractor : s'.extractor = s.extractor)
    (day : s'.day.experiences ⊆ s.day.experiences) : Records s [] s' :=
  ⟨extractor, fun _ _ he => .inl (day he)⟩

theorem Records.of_eq (extractor : s'.extractor = s.extractor) (day : s'.day = s.day) :
    Records s [] s' :=
  .still extractor (by rw [day]; exact List.Subset.refl _)

theorem Records.trans (first : Records s new s') (second : Records s' more s'') :
    Records s (new ++ more) s'' where
  extractor := second.extractor.trans first.extractor
  day found e he := by
    rcases second.day (first.extractor.trans found) e he with he | ⟨m, hm, recalls⟩
    · rcases first.day found e he with he | ⟨m, hm, recalls⟩
      · exact .inl he
      · exact .inr ⟨m, List.mem_append_left _ hm, recalls⟩
    · exact .inr ⟨m, List.mem_append_right _ hm, recalls⟩

theorem records_process (s : Mind) (collaborators : Collaborators) (input : Input) :
    Records s (s.made collaborators input) (s.process collaborators input).1 := by
  rcases s.process_cases collaborators input with ⟨e, failed, noted⟩ | ⟨_, ready, _, _, processed⟩
  · have hnone : s.made collaborators input = [] := by
      unfold made
      rw [failed]
      cases (s.embed collaborators.embedder input.text).2 <;> rfl
    rw [hnone]
    exact .of_eq noted.extractor noted.day
  · refine ⟨?_, ?_⟩
    · rw [processed.last, (consolidateIfOver_frame _ _).2]
      exact processed.noted.extractor
    · intro found e he
      obtain ⟨e', hday, _, _, recalls⟩ := processed.recalls found
      rw [hday, DayBuffer.record, List.mem_append, List.mem_singleton] at he
      rcases he with he | rfl
      · exact .inl ((List.drop_sublist _ _).subset he)
      · rw [processed.made]
        exact .inr ⟨_, List.mem_singleton_self _, recalls⟩

theorem records_recordActivity (s : Mind) : Records s [] s.recordActivity := by
  unfold recordActivity
  exact .of_eq rfl rfl

theorem records_consolidateIfOver (s : Mind) (t : Tier) :
    Records s [] (s.consolidateIfOver t).1 :=
  .of_eq (s.consolidateIfOver_frame t).2 (s.consolidateIfOver_frame t).1

theorem records_consolidate (s : Mind) (t : Tier) : Records s [] (s.consolidate t).1 := by
  obtain ⟨store, staged, hmind, _⟩ := s.now.2.consolidateAt_spec t s.now.1
  rw [consolidate, hmind]
  exact .of_eq rfl rfl

theorem records_persist (s : Mind) : Records s [] s.persist.1 := by
  obtain ⟨c, _, _, hpersist, _⟩ := s.persist_cases
  rw [hpersist]
  exact .of_eq rfl rfl

/-- What a night has sealed leaves the day, and nothing comes into it. -/
theorem records_finishNight (s : Mind) (p : Progress) : Records s [] (s.finishNight p).1 := by
  have bounded : Records s [] s.boundTiers.1 :=
    boundTiers_follows (R := fun s s' => Records s [] s') (fun _ => .of_eq rfl rfl) Records.trans
      records_consolidateIfOver s
  obtain ⟨night, _, last, _⟩ := s.finishNight_eq p
  obtain ⟨t, _, _, day, ht, hcleaned, hday⟩ := s.cleanupPhase_frame night
  rw [ht] at bounded
  rw [last, hcleaned]
  exact bounded.trans (.still rfl hday.subset)

theorem stretches_records : Stretches (fun s s' => Records s [] s') where
  refl _ := .of_eq rfl rfl
  trans _ _ _ first second := first.trans second
  ticked _ := .of_eq rfl rfl
  drawn _ := .of_eq rfl rfl
  learned _ _ := .of_eq rfl rfl
  integrated _ _ := .of_eq rfl rfl
  finished := records_finishNight
  closed s report := by
    have recorded : Records s [] (s.recordRun report) := by
      unfold recordRun
      simp only
      split
      · exact .of_eq rfl rfl
      · exact .of_eq rfl rfl
    exact recorded.trans (records_persist _)

theorem Call.records (call : Call allowed s new s') : Records s new s' := by
  cases call with
  | process collaborators input => exact s.records_process collaborators input
  | query generator question => exact s.records_recordActivity
  | addContext item => exact s.records_recordActivity.trans (.of_eq rfl rfl)
  | consolidate t => exact s.records_consolidate t
  | persist => exact s.records_persist
  | outside clock refused unwritable within => exact .of_eq rfl rfl

theorem Trail.records {step : Mind → List Memory → Mind → Prop}
    (records : ∀ {s new s'}, step s new s' → Records s new s') (trail : Trail step s new s') :
    Records s new s' := by
  induction trail with
  | refl => exact .of_eq rfl rfl
  | tail prior last ih => exact ih.trans (records last)

theorem Step.records (step : Step allowed s new s') : Records s new s' := by
  cases step with
  | call call => exact call.records
  | nightly ends =>
      exact ends.follows id (fun calls => Trail.records Call.records calls) Records.trans
        (stretches_records.moves_runNightly s)

/-- From a mind without experiences on, every experience of the day belongs to a memory that was
stored, and the memory is still there or in the log. -/
theorem Run.recalls {config : Config} {backend : Backend} {source : Source} {fresh : Mind}
    (created : create config backend source = .ok fresh) (classifier : Classifier)
    {stored : List Memory} (run : Run allowed { fresh with classifier } stored s) :
    s.extractor = Concept.keywords ∧ ∃ log, backend.Extends log s.backend ∧
      ∀ e ∈ s.day.experiences, ∃ m ∈ s.live ++ archived log, m.Recalls e := by
  obtain rfl := create_eq_start created
  have records : Records _ stored s := Trail.records Step.records run
  obtain ⟨log, evolves⟩ := run.grows (fun _ h => by cases h)
  refine ⟨records.extractor, log, evolves.extends, fun e he => ?_⟩
  rcases records.day rfl e he with hnone | ⟨m, hm, recalls⟩
  · cases hnone
  · obtain ⟨m', hm', hsame⟩ := evolves.lives (List.mem_append_right _ hm)
    exact ⟨m', hm', recalls.of_fixed hsame⟩

/-- A memory that mentions one side of a pair has the other side after the second phase of a
night. -/
theorem mem_associations_integratePhase {patterns : List Pattern} {m : Memory}
    (active : m ∈ (s.integratePhase patterns).1.active) {concept name : String}
    (mentioned : concept ∈ s.extractor m.content) (paired : Paired patterns concept name) :
    name ∈ m.associations := by
  have hstore : (s.integratePhase patterns).1.store = linkAll s.extractor patterns s.store :=
    store_linkMemories s.extractor s.store patterns
  obtain ⟨t, _, hm⟩ := List.mem_flatMap.mp active
  rw [hstore, Store.memories, linkAll, Store.traces_map, List.map_map] at hm
  obtain ⟨a, _, rfl⟩ := List.mem_map.mp hm
  have mentioned' : concept ∈ s.extractor a.memory.content := by
    rw [← (extended_link a.memory).1.content]
    exact mentioned
  exact mem_link.mpr (.inr (mem_partners.mpr ⟨concept, mentioned', paired⟩))

/-- A pair that a night finds is mentioned by the memory of every experience that contains it, and
links this memory as long as it is active. -/
theorem paired_in_memory {p : Pattern} (found : p ∈ s.found) (pair : p.kind = .coOccurrence) :
    Detect.containing s.day.experiences p.concepts ≠ [] ∧
      p.experienceIds = (Detect.containing s.day.experiences p.concepts).map (·.id) ∧
      ∀ e ∈ Detect.containing s.day.experiences p.concepts, ∀ m : Memory, m.Recalls e →
        (∀ x ∈ p.concepts, x ∈ Concept.keywords m.content) ∧
        ∀ t : Mind, t.extractor = Concept.keywords →
          ∀ linked ∈ (t.integratePhase s.found).1.active, linked.content = m.content →
            ∀ x ∈ p.concepts, x ∈ linked.associations := by
  obtain ⟨x, y, rfl, hsome⟩ := Detect.shownBy_of_mem_all found pair
  refine ⟨hsome, rfl, fun e he m recalls => ?_⟩
  have hmentioned : ∀ z ∈ [x, y], z ∈ Concept.keywords m.content := by
    have hall : [x, y].all e.concepts.contains := (List.mem_filter.mp he).2
    rw [← recalls.concepts]
    simpa using hall
  refine ⟨hmentioned, fun t keywords linked active content => ?_⟩
  have hlinked : ∀ a ∈ [x, y], ∀ b, Paired s.found a b → b ∈ linked.associations := by
    intro a ha b paired
    refine mem_associations_integratePhase active ?_ paired
    rw [keywords, content]
    exact hmentioned a ha
  have hboth : Paired s.found x y ∧ Paired s.found y x :=
    ⟨⟨_, found, pair, .inl rfl⟩, ⟨_, found, pair, .inr rfl⟩⟩
  change ∀ z ∈ [x, y], z ∈ linked.associations
  simpa using ⟨hlinked y (by simp) x hboth.2, hlinked x (by simp) y hboth.1⟩

/-- Concepts of a text are found part by part, wherever a blank stands. So the experience of every
input that is processed has the concepts that the content of its memory mentions; after any calls
and nights every experience of the day belongs to such a memory; and a pair that a night finds in
experiences is found in the memories that they belong to. -/
theorem experiences_have_concepts_of_memories :
    (∀ (front back : String) (c : Char), Text.isBlank c →
      Concept.keywords (front ++ String.singleton c ++ back) = Concept.keywords front ++
        (Concept.keywords back).filter (· ∉ Concept.keywords front)) ∧
    (∀ (s : Mind) (collaborators : Collaborators) (input : Input) (outcome : ProcessOutcome),
      s.extractor = Concept.keywords → (s.process collaborators input).2 = .ok outcome →
      ∃ e log, (s.process collaborators input).1.day = s.day.record s.zone e ∧
        e.input = input.text ∧ e.output = outcome.output ∧
        s.backend.Extends log (s.process collaborators input).1.backend ∧
        ∃ m ∈ (s.process collaborators input).1.live ++ archived log,
          m.id = outcome.memoryId ∧ m.Recalls e) ∧
    ∀ (config : Config) (backend : Backend) (source : Source) (fresh : Mind)
      (classifier : Classifier) (stored : List Memory) (s : Mind),
      create config backend source = .ok fresh →
      Run (fun _ => True) { fresh with classifier } stored s →
      s.extractor = Concept.keywords ∧
      (∃ log, backend.Extends log s.backend ∧
        ∀ e ∈ s.day.experiences, ∃ m ∈ s.live ++ archived log, m.Recalls e) ∧
      ∀ p ∈ s.found, p.kind = .coOccurrence →
        Detect.containing s.day.experiences p.concepts ≠ [] ∧
        p.experienceIds = (Detect.containing s.day.experiences p.concepts).map (·.id) ∧
        ∀ e ∈ Detect.containing s.day.experiences p.concepts, ∀ m : Memory, m.Recalls e →
          (∀ x ∈ p.concepts, x ∈ Concept.keywords m.content) ∧
          ∀ t : Mind, t.extractor = Concept.keywords →
            ∀ linked ∈ (t.integratePhase s.found).1.active, linked.content = m.content →
              ∀ x ∈ p.concepts, x ∈ linked.associations := by
  refine ⟨fun front back c blank =>
    Concept.keywords_append (Concept.separates_singleton blank) front back, ?_, ?_⟩
  · intro s collaborators input outcome keywords ok
    obtain ⟨ready, embedding, processed⟩ := processed_of_ok ok
    obtain ⟨e, hday, hinput, houtput, recalls⟩ := processed.recalls keywords
    obtain ⟨log, hlog, m, hm, hsame⟩ := processed.lives
    have hid : m.id = outcome.memoryId := (congrArg (·.id) hsame).trans processed.id
    exact ⟨e, log, hday, hinput, houtput, hlog, m, hm, hid, recalls.of_fixed hsame⟩
  · intro config backend source fresh classifier stored s created run
    obtain ⟨keywords, recalled⟩ := Run.recalls created classifier run
    exact ⟨keywords, recalled, fun p found pair => paired_in_memory found pair⟩

namespace Sample

/-- A mind after two inputs, with a checkpoint in between. -/
def drenched : Mind := process (process (empty (.volatile .empty)) "Rain, RAIN").persist.1 "drops"

end Sample

open Sample in
/-- The blank may be one that keeps words on a line. -/
theorem experiences_have_concepts_of_memories_sample :
    Concept.keywords ("Rain drops" ++ String.singleton '\u00a0' ++ "(drops!) ΟΔΟΣ") =
        ["rain", "drops", "οδος"] ∧
      drenched.day.experiences.map (·.concepts) = [["rain", "noted"], ["drops", "noted"]] ∧
      ∃ log, (Backend.ofStorage (.volatile .empty)).Extends log drenched.backend ∧
        ∀ e ∈ drenched.day.experiences, ∃ m ∈ drenched.live ++ archived log, m.Recalls e := by
  obtain ⟨parts, -, calls⟩ := experiences_have_concepts_of_memories
  let s₀ := Sample.empty (.volatile .empty)
  let s₁ := Sample.process s₀ "Rain, RAIN"
  have run : Run (fun _ => True) s₀
      (Sample.made s₀ "Rain, RAIN" ++ Sample.made s₁.persist.1 "drops") drenched := by
    have first : Run (fun _ => True) s₀ (Sample.made s₀ "Rain, RAIN") s₁ :=
      .single (.call (.process _ _))
    have saved : Run (fun _ => True) s₀ (Sample.made s₀ "Rain, RAIN") s₁.persist.1 :=
      Trail.still first (.call .persist)
    exact Trail.tail saved (.call (.process _ _))
  have created : create Sample.config (.ofStorage (.volatile .empty)) Sample.source = .ok s₀ := rfl
  refine ⟨?_, by decide +kernel, (calls _ _ _ _ s₀.classifier _ _ created run).2.1⟩
  rw [parts _ _ _ (by decide)]
  decide +kernel

end Mind

end Engram
