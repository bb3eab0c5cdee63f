import Engram.Proofs.Alignment
import Engram.Proofs.Fitness

/-! Inputs that fail. An input is stored only once it has been answered, so a failure leaves behind
no more than the retrieval that came before the generator was asked. In every state that a mind can
reach each memory stands at one place, and then that retrieval counts once for what it found. -/
namespace Engram

/-- A memory apart from how often it was retrieved. -/
def Memory.uncounted (m : Memory) : Memory := { m with retrievals := 0 }

namespace Store

variable {s s' : Store} {c : RetrievalConfig} {query : Embedding}

theorem Tidy.countP_eq_one (tidy : s.Tidy) {a : Trace} (ha : a ∈ s.all) :
    s.all.countP (·.number == a.number) = 1 := by
  have hcount := List.count_eq_one_of_mem tidy.distinct (List.mem_map_of_mem ha)
  rw [List.count, List.countP_map] at hcount
  exact hcount

theorem Retrieves.uncounted {found : Tier → List (Ranked × Nat)}
    (h : s.Retrieves c query found s') (t : Tier) :
    (s'.memories t).map Memory.uncounted = (s.memories t).map Memory.uncounted := by
  unfold memories
  rw [h.counted, List.map_map, List.map_map, List.map_map]
  rfl

/-- Where every memory stands at one place, exactly what was found is counted, and once. -/
theorem Retrieves.counted_once {found : Tier → List (Ranked × Nat)}
    (h : s.Retrieves c query found s') (tidy : s.Tidy) (t : Tier) :
    s'.traces t = (s.traces t).map fun a =>
      a.retrieved (if a.number ∈ (Tier.all.flatMap found).map (·.1.trace.number) then 1 else 0) := by
  rw [h.counted]
  refine List.map_congr_left ?_
  intro a ha
  have hin : a ∈ s.all := List.mem_flatMap.mpr ⟨t, t.mem_all, ha⟩
  rw [h.timesFound_eq (tidy.countP_eq_one hin)]

end Store

namespace Mind

open Nightly

variable {s s' : Mind} {new stored : List Memory} {width : Nat}

/-- Every memory of the store has a place of its own, if this was so before. -/
def KeepsTidy (s s' : Mind) : Prop := s.store.Tidy → s'.store.Tidy

theorem KeepsTidy.of_eq (h : s'.store = s.store) : KeepsTidy s s' :=
  fun tidy => h ▸ tidy

theorem KeepsTidy.trans ⦃s s' s'' : Mind⦄ (first : KeepsTidy s s') (second : KeepsTidy s' s'') :
    KeepsTidy s s'' :=
  fun tidy => second (first tidy)

theorem keepsTidy_consolidationPasses (t : Tier) (now : Time.Instant) (passes : Nat) (s : Mind)
    (result : TierConsolidation) : KeepsTidy s (consolidationPasses t now passes s result).1 := by
  intro tidy
  cases passes with
  | zero => exact tidy
  | succ passes =>
      rw [consolidationPasses_succ]
      split
      · exact tidy
      · exact tidy.put (Consolidation.partition_perm s.config.score now (s.config.capacity t)
          (s.store.traces t))

theorem keepsTidy_consolidate (s : Mind) (t : Tier) : KeepsTidy s (s.consolidate t).1 :=
  keepsTidy_consolidationPasses t s.now.1 Consolidation.maxPasses s.now.2 _

theorem keepsTidy_consolidateIfOver (s : Mind) (t : Tier) :
    KeepsTidy s (s.consolidateIfOver t).1 := by
  unfold consolidateIfOver
  split
  · exact s.keepsTidy_consolidate t
  · exact .of_eq rfl

theorem keepsTidy_settle (s : Mind) (input : Input) (output : String) (embedding : Embedding)
    (retrieved : Nat) : KeepsTidy s (s.settle input output embedding retrieved).1 := by
  intro tidy
  unfold settle
  cases s.discoverAssociations embedding with
  | error e => exact tidy
  | ok associations =>
      have remembered : (s.remember input output embedding associations).1.store.Tidy := tidy.add _
      exact keepsTidy_consolidateIfOver _ _ remembered

theorem keepsTidy_answer (s : Mind) (generator : Generator) (input : Input)
    (embedding : Embedding) : KeepsTidy s (s.answer generator input embedding).1 := by
  intro tidy
  unfold answer
  cases hfound : s.store.retrieve s.config.retrieval embedding with
  | error e => exact tidy
  | ok found =>
      obtain ⟨selected, hstore⟩ := Store.retrieve_ok_eq hfound
      have used : found.2.Tidy := hstore ▸ tidy.countRetrievals selected
      simp only
      cases generate generator (Prompt.forInput s.config.retrieval input.text found.1) with
      | error e => exact used
      | ok output => exact keepsTidy_settle { s with store := found.2 } _ _ _ _ used

theorem store_recordActivity (s : Mind) : s.recordActivity.store = s.store := by
  unfold recordActivity
  rfl

theorem keepsTidy_process (s : Mind) (collaborators : Collaborators) (input : Input) :
    KeepsTidy s (s.process collaborators input).1 := by
  intro tidy
  have embedded : (s.recordActivity.embed collaborators.embedder input.text).1.store.Tidy := by
    change s.recordActivity.store.Tidy
    rw [store_recordActivity]
    exact tidy
  unfold process
  generalize s.recordActivity.embed collaborators.embedder input.text = r at embedded ⊢
  obtain ⟨t, result⟩ := r
  cases result with
  | error e => exact embedded
  | ok embedding => exact t.keepsTidy_answer collaborators.generator input embedding embedded

theorem store_persist (s : Mind) : s.persist.1.store = s.store := by
  unfold persist
  simp only
  split
  · rfl
  · rfl

theorem store_recordRun (s : Mind) (report : NightlyReport) :
    (s.recordRun report).store = s.store := by
  unfold recordRun
  simp only
  split
  · rfl
  · rfl

theorem keepsTidy_integratePhase (s : Mind) (patterns : List Pattern) :
    KeepsTidy s (s.integratePhase patterns).1 := by
  intro tidy
  have linked : (linkMemories s.extractor s.store patterns).1.Tidy := by
    rw [store_linkMemories]
    exact tidy.map _
  exact linked

theorem keepsTidy_cleanupPhase (s : Mind) (night : Night) :
    KeepsTidy s (s.cleanupPhase night).1 := by
  have bounded : KeepsTidy s s.boundTiers.1 :=
    boundTiers_follows (fun _ => .of_eq rfl) (fun first second => first.trans second)
      keepsTidy_consolidateIfOver s
  obtain ⟨t, _, _, _, ht, hcleaned, _⟩ := s.cleanupPhase_frame night
  rw [ht] at bounded
  rw [hcleaned]
  exact bounded.trans (.of_eq rfl)

theorem keepsTidy_finishNight (s : Mind) (p : Progress) : KeepsTidy s (s.finishNight p).1 := by
  have ticked : ∀ t : Mind, KeepsTidy t t.now.2 := fun _ => .of_eq rfl
  obtain ⟨night, _, last, _⟩ := s.finishNight_eq p
  rw [last]
  exact (s.keepsTidy_cleanupPhase night).trans (ticked _)

theorem stretches_keepsTidy : Stretches KeepsTidy where
  refl _ := .of_eq rfl
  trans := KeepsTidy.trans
  ticked _ := .of_eq rfl
  drawn _ := .of_eq rfl
  learned _ _ := .of_eq rfl
  integrated := keepsTidy_integratePhase
  finished := keepsTidy_finishNight
  closed s report := .of_eq ((s.recordRun report).store_persist.trans (s.store_recordRun report))

/-- A checkpoint's memories are enrolled anew. -/
theorem keepsTidy_restore (s : Mind) : KeepsTidy s s.restore.1 := by
  intro tidy
  unfold restore
  cases s.load with
  | error e => exact tidy
  | ok loaded =>
      have placed : (s.adoptTiers loaded.tiers).store.Tidy :=
        List.foldlRecOn (motive := Store.Tidy) loaded.tiers _ tidy
          fun _ kept _ _ => kept.replace _ _
      unfold adopt
      simp only
      cases loaded.pendingDay with
      | none => exact placed
      | some day => exact placed

theorem Event.keepsTidy (event : Event s new s') : KeepsTidy s s' := by
  cases event with
  | call call =>
      cases call with
      | process collaborators input => exact s.keepsTidy_process collaborators input
      | query generator question => exact .of_eq s.store_recordActivity
      | addContext item => exact .of_eq s.store_recordActivity
      | consolidate t => exact s.keepsTidy_consolidate t
      | persist => exact .of_eq s.store_persist
      | outside clock refused unwritable _ => exact .of_eq rfl
  | contents backend => exact .of_eq rfl
  | restore => exact s.keepsTidy_restore

theorem Trail.keepsTidy {step : Mind → List Memory → Mind → Prop}
    (keeps : ∀ {s new s'}, step s new s' → KeepsTidy s s') (trail : Trail step s new s') :
    KeepsTidy s s' := by
  induction trail with
  | refl => exact .of_eq rfl
  | tail prior last ih => exact ih.trans (keeps last)

theorem Operates.keepsTidy (operates : Operates s new s') : KeepsTidy s s' := by
  cases operates with
  | event event => exact event.keepsTidy
  | nightly ends =>
      let law (s : Mind) (_ : List Memory) (s' : Mind) : Prop := KeepsTidy s s'
      have within : ∀ {s s'}, KeepsTidy s s' → law s [] s' := id
      have between : ∀ {s new s'}, Trail Event s new s' → law s new s' :=
        fun events => Trail.keepsTidy Event.keepsTidy events
      have whole : law s new s' := ends.follows (fun stretch => within stretch)
        (fun events => between events) (fun first second tidy => second (first tidy))
        (stretches_keepsTidy.moves_runNightly s)
      exact whole

/-- What a failed input changes: the cache, the activity and the source, and the use of memories if
it was the generator that failed. -/
theorem Aligned.process_failed (aligned : s.Aligned width) {collaborators : Collaborators}
    {input : Input} {e : Error} (failed : (s.process collaborators input).2 = .error e) :
    ∃ cache activity source store,
      (s.process collaborators input).1 = { s with cache, activity, source, store } ∧
      ((store = s.store ∧
          EmbeddingCache.check width (collaborators.embedder input.text) = .error e) ∨
        ∃ embedding memories prompt,
          (s.embed collaborators.embedder input.text).2 = .ok embedding ∧
          embedding.length = width ∧
          s.store.retrieve s.config.retrieval embedding = .ok (memories, store) ∧
          generate collaborators.generator prompt = .error e) := by
  let asked : Mind :=
    { s with
      cache := (s.embed collaborators.embedder input.text).1.cache
      activity := s.recordActivity.activity
      source := s.recordActivity.source }
  have hembed : s.recordActivity.embed collaborators.embedder input.text =
      (asked, (s.embed collaborators.embedder input.text).2) := by
    unfold Mind.embed Mind.recordActivity
    rfl
  obtain ⟨embedded, hwidth⟩ := aligned.embed collaborators.embedder input.text
  have ready : asked.Aligned width :=
    ⟨aligned.config, aligned.store, aligned.pending, embedded.cache⟩
  unfold process at failed ⊢
  rw [hembed] at failed ⊢
  cases hresult : (s.embed collaborators.embedder input.text).2 with
  | error reason =>
      rw [hresult] at failed
      obtain rfl := Except.error.inj failed
      refine ⟨_, _, _, s.store, rfl, .inl ⟨rfl, ?_⟩⟩
      rw [← aligned.config]
      exact EmbeddingCache.check_of_embed_error hresult
  | ok embedding =>
      rw [hresult] at failed
      have hlength := hwidth embedding hresult
      obtain ⟨memories, store, prompt, hretrieve, silent, hstate⟩ :=
        ready.answer_error hlength failed
      exact ⟨_, _, _, store, hstate,
        .inr ⟨embedding, memories, prompt, rfl, hlength, hretrieve, silent⟩⟩

/-- In every state that a mind can reach, an input that fails stores nothing: the tiers hold the same
memories in the same order with the same associations, and the recent interactions, the day, the
archive with its pending batch and all that is in the backend, and the knowledge are as they were.
The number of retrievals is as it was too, unless it was the generator that failed, and then exactly
the memories that were retrieved for the prompt have one more, as far as their counters go. -/
theorem failed_input_stores_nothing {config : Config} {backend : Backend} {source : Source}
    {fresh : Mind} (created : create config backend source = .ok fresh)
    (classifier : Classifier) (extractor : Extractor)
    (reached : Trail Operates { fresh with classifier, extractor } stored s)
    {collaborators : Collaborators} {input : Input} {e : Error}
    (failed : (s.process collaborators input).2 = .error e) :
    let s' := (s.process collaborators input).1
    (∀ t, (s'.store.memories t).map Memory.uncounted = (s.store.memories t).map Memory.uncounted) ∧
    s'.context = s.context ∧ s'.day = s.day ∧ s'.archive = s.archive ∧
    s'.knowledge = s.knowledge ∧
    ((s'.store = s.store ∧ ∀ reason, e ≠ .generationUnavailable reason) ∨
      (((∃ reason, e = .generationUnavailable reason) ∨
          (e = .undefined ∧ ∃ prompt, collaborators.generator prompt = .error .undefined)) ∧
        (s.store.all.map (·.number)).Nodup ∧
        ∃ embedding found, (s.embed collaborators.embedder input.text).2 = .ok embedding ∧
          s.store.Retrieves s.config.retrieval embedding found s'.store ∧
          ∀ t, s'.store.traces t = (s.store.traces t).map fun a =>
            a.retrieved
              (if a.number ∈ (Tier.all.flatMap found).map (·.1.trace.number) then 1 else 0))) := by
  obtain rfl := create_eq_start created
  have aligned : s.Aligned config.embeddingDimension :=
    Aligned.trail Operates.aligned reached (aligned_start config backend source _ _)
  have tidy : s.store.Tidy := Trail.keepsTidy Operates.keepsTidy reached Store.tidy_empty
  intro s'
  obtain ⟨cache, activity, source, store, hstate, hcause⟩ := aligned.process_failed failed
  have hs' : s' = { s with cache, activity, source, store } := hstate
  clear_value s'
  subst hs'
  rcases hcause with ⟨rfl, refused⟩ | ⟨embedding, memories, prompt, hembed, hwidth, hretrieve, silent⟩
  · refine ⟨fun _ => rfl, rfl, rfl, rfl, rfl, .inl ⟨rfl, ?_⟩⟩
    rintro reason rfl
    rcases EmbeddingCache.check_error_cases refused with ⟨_, _, _, h⟩ | ⟨_, h⟩ | ⟨_, h⟩
    · cases h
    · cases h
    · cases h
  · have widths : ∀ a ∈ s.store.all, a.memory.embedding.length = embedding.length :=
      fun a ha => (aligned.store.of_mem_all ha).trans hwidth.symm
    obtain ⟨found, store', hretrieve', hfound⟩ :=
      Store.retrieve_ok (c := s.config.retrieval) widths
    obtain rfl : store' = store :=
      congrArg Prod.snd (Except.ok.inj (hretrieve'.symm.trans hretrieve))
    refine ⟨hfound.uncounted, rfl, rfl, rfl, rfl, .inr ⟨?_, tidy.distinct, embedding, found, hembed,
      hfound, hfound.counted_once tidy⟩⟩
    rcases generate_error_cases silent with unavailable | ⟨hcall, undefined⟩
    · exact .inl unavailable
    · exact .inr ⟨undefined, prompt, hcall⟩

namespace Sample

/-- A generator that gives no reply. -/
def mute : Collaborators := ⟨fun _ => .ok [1], fun _ => .error (.failed "busy")⟩

def informed : Mind := process (empty (.volatile .empty)) "alpha"

/-- A checkpoint with one memory, which was retrieved as often as can be counted. -/
def wornOut : Storage :=
  let memory := ⟨⟨1⟩, "alpha", .working, ⟨0, 0⟩, [1], 0.5, [], 18446744073709551615⟩
  .volatile ⟨[], [("working", [memory])], [], none, []⟩

end Sample

open Sample in
theorem failed_input_stores_nothing_sample :
    let s' := (informed.process mute (input "beta" 0.5)).1
    (informed.process mute (input "beta" 0.5)).2 =
      .error (.generationUnavailable "collaborator call failed: busy") ∧
    (s'.store.memories .working).map Memory.uncounted =
      (informed.store.memories .working).map Memory.uncounted ∧
    s'.context = informed.context ∧ s'.day = informed.day ∧ s'.archive = informed.archive ∧
    s'.knowledge = informed.knowledge ∧
    (informed.store.memories .working).map (·.retrievals) = [0] ∧
    (s'.store.memories .working).map (·.retrievals) = [1] := by
  intro s'
  have created : create Sample.config (.ofStorage (.volatile .empty)) Sample.source =
      .ok (empty (.volatile .empty)) := rfl
  have reached : Trail Operates (empty (.volatile .empty)) _ informed :=
    Trail.single (.event (.call (.process collaborators (input "alpha" 0.5))))
  have failed : (informed.process mute (input "beta" 0.5)).2 =
      .error (.generationUnavailable "collaborator call failed: busy") := by
    have hmapped : (informed.process mute (input "beta" 0.5)).2.map (fun _ => ()) =
        .error (.generationUnavailable "collaborator call failed: busy") := by
      decide +kernel
    exact map_error_iff.mp hmapped
  obtain ⟨kept, context, day, archive, knowledge, _⟩ := failed_input_stores_nothing created
    (empty (.volatile .empty)).classifier (empty (.volatile .empty)).extractor reached failed
  exact ⟨failed, kept .working, context, day, archive, knowledge, by decide +kernel,
    by decide +kernel⟩

open Sample in
/-- A memory may have been retrieved as often as can be counted. A failed input that retrieves it
then leaves it with no retrieval at all. -/
theorem retrieval_count_starts_over :
    let s := (empty wornOut).restore.1
    let s' := (s.process mute (input "beta" 0.5)).1
    Trail Operates (empty wornOut) [] s ∧
    (s.process mute (input "beta" 0.5)).2.map (fun _ => ()) =
      .error (.generationUnavailable "collaborator call failed: busy") ∧
    (s.store.memories .working).map (·.retrievals) = [18446744073709551615] ∧
    (s'.store.memories .working).map (·.retrievals) = [0] :=
  ⟨.single (.event .restore), by decide +kernel, by decide +kernel, by decide +kernel⟩

end Mind

end Engram
