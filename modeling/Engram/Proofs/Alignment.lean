import Engram.Proofs.Checkpoint
import Engram.Proofs.Relevance

/-! Widths and places. Every embedding that a mind holds has the configured width, and every memory
is in the tier of its tag, whatever the embedders gave and whatever was in the backend when a
checkpoint was taken up: a vector is checked when it is new and when it is read, and a cached one
has been checked before. So a comparison with what is stored never fails. -/
namespace Engram

namespace EmbeddingCache

/-- A text that cannot be embedded was put to the embedder, whose answer did not pass. -/
theorem check_of_embed_error {c : EmbeddingCache} {dimension : Nat} {embedder : Embedder}
    {text : String} {e : Error} (h : (c.embed dimension embedder text).2 = .error e) :
    check dimension (embedder text) = .error e := by
  unfold embed at h
  cases hfound : c.entries.lookup text with
  | some known => simp [hfound] at h
  | none =>
      cases hcheck : check dimension (embedder text) with
      | ok given => simp [hfound, hcheck] at h
      | error reason => simpa [hfound, hcheck] using h

/-- Why an answer does not pass: it has the wrong width, or there is none to speak of. -/
theorem check_error_cases {dimension : Nat} {answer : Except CollaboratorFailure Embedding}
    {e : Error} (h : check dimension answer = .error e) :
    (∃ embedding, answer = .ok embedding ∧ embedding.length ≠ dimension ∧
      e = .dimensionMismatch dimension embedding.length) ∨
    (∃ reason, e = .embeddingUnavailable reason) ∨
    (answer = .error .undefined ∧ e = .undefined) := by
  unfold check at h
  split at h
  · exact .inr (.inr ⟨rfl, (Except.error.inj h).symm⟩)
  · exact .inr (.inl ⟨_, (Except.error.inj h).symm⟩)
  · rename_i embedding
    by_cases hwidth : embedding.length = dimension
    · rw [if_neg (not_not.mpr hwidth)] at h
      split at h
      · cases h
      · exact .inr (.inl ⟨_, (Except.error.inj h).symm⟩)
    · rw [if_pos hwidth] at h
      exact .inl ⟨embedding, rfl, hwidth, (Except.error.inj h).symm⟩

end EmbeddingCache

namespace Store

/-- Every memory is in the tier of its tag and has an embedding of the given width. -/
def Aligned (s : Store) (width : Nat) : Prop :=
  ∀ t, ∀ m ∈ s.memories t, m.tier = t ∧ m.embedding.length = width

theorem Aligned.replace {s : Store} {width : Nat} (aligned : s.Aligned width) {t : Tier}
    {memories : List Memory} (new : ∀ m ∈ memories, m.tier = t ∧ m.embedding.length = width) :
    (s.replace t memories).Aligned width := by
  intro u m hm
  rw [memories_replace] at hm
  split at hm
  · rename_i hu
    subst hu
    exact new m hm
  · exact aligned u m hm

theorem Aligned.of_mem_all {s : Store} {width : Nat} (aligned : s.Aligned width) {a : Trace}
    (h : a ∈ s.all) : a.memory.embedding.length = width := by
  obtain ⟨t, _, hin⟩ := List.mem_flatMap.mp h
  exact (aligned t a.memory (List.mem_map_of_mem hin)).2

/-- Nothing that is stored makes a retrieval fail. -/
theorem Aligned.retrieve_ok {s : Store} {query : Embedding} (aligned : s.Aligned query.length)
    (c : RetrievalConfig) : ∃ found, s.retrieve c query = .ok found := by
  obtain ⟨_, _, hretrieve, _⟩ := Store.retrieve_ok (c := c) fun a ha => aligned.of_mem_all ha
  exact ⟨_, hretrieve⟩

/-- Nothing that is stored makes the search for similar memories fail. -/
theorem Aligned.similar_ok {s : Store} {embedding : Embedding}
    (aligned : s.Aligned embedding.length) (threshold : Float32) :
    ∃ found, s.similar embedding threshold = .ok found := by
  have compared : ∀ a ∈ s.all, ∃ p, (do
      return (a.memory, ← cosineSimilarity embedding a.memory.embedding) :
        Except Error (Memory × Float32)) = .ok p := by
    intro a ha
    obtain ⟨x, hx⟩ := cosineSimilarity_ok (aligned.of_mem_all ha).symm
    exact ⟨(a.memory, x), by simp [hx, bind, Except.bind, pure, Except.pure]⟩
  obtain ⟨pairs, hpairs⟩ := mapM_ok compared
  exact ⟨_, by
    unfold similar
    simp only [bind, Except.bind, pure, Except.pure] at hpairs ⊢
    rw [hpairs]⟩

end Store

namespace Mind

variable {s s' : Mind} {new stored : List Memory} {width : Nat} {allowed : List String → Prop}

/-- The configured width, and everything in a mind that has it: the embeddings of the memories in
their tiers, those of the pending batch and those in the cache. -/
structure Aligned (width : Nat) (s : Mind) : Prop where
  config : s.config.embeddingDimension = width
  store : s.store.Aligned width
  pending : ∀ m ∈ s.archive.pending, m.embedding.length = width
  cache : s.cache.Fits width

theorem aligned_start (config : Config) (backend : Backend) (source : Source)
    (classifier : Classifier) (extractor : Extractor) :
    Aligned config.embeddingDimension
      { start config backend source with classifier, extractor } where
  config := rfl
  store := by simp [Store.Aligned, start, Store.memories_empty]
  pending := by simp [start, ArchiveLog.empty]
  cache := by simp [EmbeddingCache.Fits, start, EmbeddingCache.empty]

theorem Aligned.live (aligned : s.Aligned width) : ∀ m ∈ s.live, m.embedding.length = width := by
  intro m hm
  rcases List.mem_append.mp hm with hactive | hpending
  · obtain ⟨t, _, hin⟩ := List.mem_flatMap.mp hactive
    exact (aligned.store t m hin).2
  · exact aligned.pending m hpending

/-- Memories are made with the configured width, and moving them about does not change it. -/
theorem Aligned.change {log : List ArchiveEntry} (aligned : s.Aligned width)
    (change : Change allowed s new log s') : s'.Aligned width := by
  have placed : s.Placed := fun t m hm => (aligned.store t m hm).1
  have hconfig : s'.config.embeddingDimension = width := by
    rw [change.frame.config]
    exact aligned.config
  have made : ∀ m ∈ new, m.embedding.length = width := by
    rw [← aligned.config]
    exact change.new_width
  have live := change.live_width aligned.live made
  refine ⟨hconfig, ?_, ?_, ?_⟩
  · intro t m hm
    exact ⟨change.placed placed t m hm, live m (mem_live_of_mem_memories hm)⟩
  · intro m hm
    exact live m (List.mem_append_right _ hm)
  · have fits := change.frame.cache
    rw [hconfig, aligned.config] at fits
    exact fits aligned.cache

theorem Aligned.evolves {log : List ArchiveEntry} (aligned : s.Aligned width)
    (evolves : Evolves allowed s new log s') : s'.Aligned width := by
  induction evolves with
  | refl => exact aligned
  | tail prior last ih => exact ih.change last

theorem checkSaved_ok {dimension : Nat} {tag : String} {t : Tier} {m : Memory}
    (h : checkSaved dimension tag t m = .ok ()) : m.tier = t ∧ m.embedding.length = dimension := by
  unfold checkSaved at h
  by_cases hwidth : m.embedding.length = dimension
  · by_cases htier : m.tier = t
    · exact ⟨htier, hwidth⟩
    · simp [hwidth, htier] at h
  · simp [hwidth] at h

/-- What passes the check under a tag belongs to its tier and has the right width. -/
theorem aligned_of_checkSnapshot {dimension : Nat} {saved : String × List Memory}
    {p : Tier × List Memory} (h : checkSnapshot dimension saved = .ok p) :
    ∀ m ∈ p.2, m.tier = p.1 ∧ m.embedding.length = dimension := by
  obtain ⟨hparse, hmemories⟩ := checkSnapshot_ok h
  have passed : saved.2.forM (checkSaved dimension saved.1 p.1) = .ok () := by
    unfold checkSnapshot at h
    simp only [hparse, bind, Except.bind] at h
    cases hcheck : saved.2.forM (checkSaved dimension saved.1 p.1) with
    | error e => simp [hcheck] at h
    | ok _ => rfl
  intro m hm
  rw [hmemories] at hm
  exact checkSaved_ok (forM_ok_iff.mp passed m hm)

/-- Where some memory of a saved day has the wrong width nothing is loaded. -/
theorem width_of_checkPendingDay {dimension : Nat} {day : PendingDay}
    (h : checkPendingDay dimension day = .ok ()) :
    ∀ m ∈ day.memories, m.embedding.length = dimension := by
  unfold checkPendingDay at h
  split at h
  · cases h
  · rename_i hnone
    intro m hm
    simpa using List.find?_eq_none.mp hnone m hm

/-- All that is loaded is in place: the tiers, and the memories of the saved day. -/
theorem load_aligned {loaded : Loaded} (h : s.load = .ok loaded) :
    (∀ p ∈ loaded.tiers, ∀ m ∈ p.2, m.tier = p.1 ∧
      m.embedding.length = s.config.embeddingDimension) ∧
    ∀ day ∈ loaded.pendingDay, ∀ m ∈ day.memories,
      m.embedding.length = s.config.embeddingDimension := by
  obtain ⟨snapshots, _, hchecked, hday, _⟩ := load_ok_cases h
  constructor
  · intro p hp
    obtain ⟨saved, _, hsaved⟩ := mem_of_mapM_ok hchecked hp
    exact aligned_of_checkSnapshot hsaved
  · intro day hpending
    apply width_of_checkPendingDay
    obtain ⟨tiers, pendingDay, knowledge⟩ := loaded
    obtain rfl : pendingDay = some day := hpending
    unfold load at h
    simp only [bind, Except.bind, hday] at h
    split at h
    · cases h
    · split at h
      · cases h
      · cases hcheck : checkPendingDay s.config.embeddingDimension day with
        | error e => simp [Option.forM, hcheck] at h
        | ok _ => rfl

/-- Taking up a checkpoint that has passed its checks keeps all in place, even where several tags
stand for one tier. -/
theorem Aligned.adopt (aligned : s.Aligned width) {loaded : Loaded} (h : s.load = .ok loaded) :
    (s.adopt loaded).Aligned width := by
  obtain ⟨tiers, day⟩ := load_aligned h
  rw [aligned.config] at tiers day
  have placed : (s.adoptTiers loaded.tiers).store.Aligned width := by
    refine List.foldlRecOn (motive := fun store : Store => store.Aligned width) loaded.tiers _
      aligned.store ?_
    intro store kept p hp
    apply kept.replace
    intro m hm
    obtain ⟨old, hold, rfl⟩ := List.mem_map.mp hm
    exact tiers p hp old hold
  unfold Mind.adopt
  cases hday : loaded.pendingDay with
  | none => exact ⟨aligned.config, placed, aligned.pending, aligned.cache⟩
  | some saved =>
      refine ⟨aligned.config, placed, ?_, aligned.cache⟩
      intro m hm
      rcases List.mem_append.mp hm with hback | hpending
      · have hwaiting := List.mem_of_mem_filter (List.mem_of_mem_filter hback)
        exact day saved hday m hwaiting
      · exact aligned.pending m hpending

theorem Aligned.restore (aligned : s.Aligned width) : s.restore.1.Aligned width := by
  unfold Mind.restore
  cases hload : s.load with
  | error e => exact aligned
  | ok loaded => exact aligned.adopt hload

/-- What may happen to a mind at any time, also while a nightly run waits for an answer: a call, new
contents of the backend, whatever they are, and a checkpoint that is taken up from them. -/
inductive Event (s : Mind) : List Memory → Mind → Prop where
  | call {new : List Memory} {s' : Mind} (call : Call (fun _ => True) s new s') : Event s new s'
  | contents (backend : Backend) : Event s [] (s.setBackend backend)
  | restore : Event s [] s.restore.1

/-- An operation: one of these, or a nightly run with any of them at its questions. -/
inductive Operates (s : Mind) : List Memory → Mind → Prop where
  | event {new : List Memory} {s' : Mind} (event : Event s new s') : Operates s new s'
  | nightly {new : List Memory} {s' : Mind} {report : NightlyReport}
      (ends : s.runNightly.Ends (Trail Event) new s' report) : Operates s new s'

theorem Aligned.trail {step : Mind → List Memory → Mind → Prop}
    (keeps : ∀ {s new s'}, step s new s' → s.Aligned width → s'.Aligned width)
    (trail : Trail step s new s') (aligned : s.Aligned width) : s'.Aligned width := by
  induction trail with
  | refl => exact aligned
  | tail prior last ih => exact keeps last ih

theorem Event.aligned (event : Event s new s') (aligned : s.Aligned width) : s'.Aligned width := by
  cases event with
  | call call =>
      have fits : s.cache.Fits s.config.embeddingDimension := by
        rw [aligned.config]
        exact aligned.cache
      obtain ⟨log, evolves⟩ := call.grows fits
      exact aligned.evolves evolves
  | contents backend => exact ⟨aligned.config, aligned.store, aligned.pending, aligned.cache⟩
  | restore => exact aligned.restore

def KeepsAligned (width : Nat) (s : Mind) (_ : List Memory) (s' : Mind) : Prop :=
  s.Aligned width → s'.Aligned width

theorem Operates.aligned (operates : Operates s new s') (aligned : s.Aligned width) :
    s'.Aligned width := by
  cases operates with
  | event event => exact event.aligned aligned
  | nightly ends =>
      have within : ∀ {s s'}, Tends (fun _ => True) s s' → KeepsAligned width s [] s' := by
        rintro s s' ⟨log, evolves⟩ aligned
        exact aligned.evolves evolves
      have between : ∀ {s new s'}, Trail Event s new s' → KeepsAligned width s new s' :=
        fun events => Aligned.trail Event.aligned events
      have whole : KeepsAligned width s new s' := ends.follows (fun stretch => within stretch)
        (fun events => between events) (fun first second aligned => second (first aligned))
        s.moves_runNightly
      exact whole aligned

/-- A generator that gives no reply is to blame. -/
theorem generate_error_cases {generator : Generator} {prompt : String} {e : Error}
    (h : generate generator prompt = .error e) :
    (∃ reason, e = .generationUnavailable reason) ∨
      (generator prompt = .error .undefined ∧ e = .undefined) := by
  unfold generate at h
  split at h
  · cases h
  · rename_i hcall
    exact .inr ⟨hcall, (Except.error.inj h).symm⟩
  · exact .inl ⟨_, (Except.error.inj h).symm⟩

/-- Once an input has an embedding of the right width, only the generator can fail. By then a
retrieval has been counted. -/
theorem Aligned.answer_error (aligned : s.Aligned width) {generator : Generator} {input : Input}
    {embedding : Embedding} (hwidth : embedding.length = width) {e : Error}
    (h : (s.answer generator input embedding).2 = .error e) :
    ∃ memories store prompt, s.store.retrieve s.config.retrieval embedding = .ok (memories, store) ∧
      generate generator prompt = .error e ∧
      (s.answer generator input embedding).1 = { s with store } := by
  subst hwidth
  obtain ⟨⟨memories, store⟩, hretrieve⟩ := aligned.store.retrieve_ok s.config.retrieval
  simp only [answer, hretrieve] at h ⊢
  cases houtput : generate generator (Prompt.forInput s.config.retrieval input.text memories) with
  | error reason =>
      simp only [houtput] at h
      obtain rfl := Except.error.inj h
      exact ⟨memories, store, _, rfl, houtput, rfl⟩
  | ok output =>
      -- A retrieval changes no embedding, so what is stored can be compared again.
      have used : store.Aligned embedding.length := by
        intro t m hm
        have hfixed : m.fixed ∈ s.store.fixed t := by
          rw [← Store.fixed_retrieve hretrieve t]
          exact List.mem_map_of_mem hm
        obtain ⟨old, hold, hsame⟩ := List.mem_map.mp hfixed
        rw [← Memory.fixed_tier m, ← Memory.fixed_embedding m, ← hsame]
        exact aligned.store t old hold
      obtain ⟨similar, hsimilar⟩ := used.similar_ok s.config.associationThreshold
      simp [houtput, settle, discoverAssociations, hsimilar, bind, Except.bind, pure,
        Except.pure] at h

/-- An embedding that is found has the right width, cached or not. -/
theorem Aligned.embed (aligned : s.Aligned width) (embedder : Embedder) (text : String) :
    (s.embed embedder text).1.Aligned width ∧
      ∀ embedding, (s.embed embedder text).2 = .ok embedding → embedding.length = width := by
  have fits := aligned.cache.embed embedder text
  rw [← aligned.config] at fits ⊢
  exact ⟨⟨rfl, aligned.config ▸ aligned.store, aligned.config ▸ aligned.pending, fits.1⟩, fits.2⟩

theorem Aligned.process_error (aligned : s.Aligned width) {collaborators : Collaborators}
    {input : Input} {e : Error} (h : (s.process collaborators input).2 = .error e) :
    EmbeddingCache.check width (collaborators.embedder input.text) = .error e ∨
      ∃ prompt, generate collaborators.generator prompt = .error e := by
  have active : s.recordActivity.Aligned width := by
    unfold Mind.recordActivity
    exact ⟨aligned.config, aligned.store, aligned.pending, aligned.cache⟩
  obtain ⟨embedded, hwidth⟩ := active.embed collaborators.embedder input.text
  unfold process at h
  cases hasked : s.recordActivity.embed collaborators.embedder input.text with
  | mk t result =>
      rw [hasked] at h embedded hwidth
      cases result with
      | error reason =>
          left
          obtain rfl := Except.error.inj h
          rw [← active.config]
          exact EmbeddingCache.check_of_embed_error (congrArg Prod.snd hasked)
      | ok embedding =>
          right
          obtain ⟨_, _, prompt, _, silent, _⟩ := embedded.answer_error (hwidth embedding rfl) h
          exact ⟨prompt, silent⟩

/-- From an empty mind on, after any operations, with any embedders, and with checkpoints that are
taken up from whatever is in the backend, all memories are in the tiers of their tags and all
embeddings of the tiers and of the pending batch have the configured width. So an input is refused
for a wrong width only if the embedder itself gave one for its text. Every other failure is that of
the embedder or of the generator, which includes that a call of theirs has no result at all. -/
theorem stored_embeddings_never_fail {config : Config} {backend : Backend} {source : Source}
    {fresh : Mind} (created : create config backend source = .ok fresh)
    (classifier : Classifier) (extractor : Extractor)
    (reached : Trail Operates { fresh with classifier, extractor } stored s) :
    (∀ t, ∀ m ∈ s.store.memories t,
      m.tier = t ∧ m.embedding.length = config.embeddingDimension) ∧
    (∀ m ∈ s.archive.pending, m.embedding.length = config.embeddingDimension) ∧
    ∀ collaborators input e, (s.process collaborators input).2 = .error e →
      (∃ embedding, collaborators.embedder input.text = .ok embedding ∧
        embedding.length ≠ config.embeddingDimension ∧
        e = .dimensionMismatch config.embeddingDimension embedding.length) ∨
      (∃ reason, e = .embeddingUnavailable reason) ∨
      (∃ reason, e = .generationUnavailable reason) ∨
      (e = .undefined ∧ (collaborators.embedder input.text = .error .undefined ∨
        ∃ prompt, collaborators.generator prompt = .error .undefined)) := by
  obtain rfl := create_eq_start created
  have aligned : s.Aligned config.embeddingDimension :=
    Aligned.trail Operates.aligned reached (aligned_start config backend source _ _)
  refine ⟨aligned.store, aligned.pending, ?_⟩
  intro collaborators input e failed
  rcases aligned.process_error failed with refused | ⟨prompt, silent⟩
  · rcases EmbeddingCache.check_error_cases refused with wrong | unavailable | ⟨hcall, undefined⟩
    · exact .inl wrong
    · exact .inr (.inl unavailable)
    · exact .inr (.inr (.inr ⟨undefined, .inl hcall⟩))
  · rcases generate_error_cases silent with unavailable | ⟨hcall, undefined⟩
    · exact .inr (.inr (.inl unavailable))
    · exact .inr (.inr (.inr ⟨undefined, .inr ⟨prompt, hcall⟩⟩))

namespace Sample

/-- Two tags that stand for one tier. -/
def planted : Backend :=
  .ofStorage (.volatile
    { VolatileArchive.empty with
      snapshots := [(" Working", [memory 5, memory 6]), ("working", [memory 7])] })

def taken : Mind := ((process (empty (.volatile .empty)) "alpha").setBackend planted).restore.1

/-- An embedder of another width. -/
def wide : Collaborators := ⟨fun _ => .ok [1, 2], fun _ => .ok "noted"⟩

end Sample

open Sample in
theorem stored_embeddings_never_fail_sample :
    (taken.store.memories .working).map (·.id) = [Sample.source.ids 7] ∧
    (∀ t, ∀ m ∈ taken.store.memories t, m.tier = t ∧ m.embedding.length = 1) ∧
    (taken.process wide (input "beta" 0.5)).2 = .error (.dimensionMismatch 1 2) ∧
    ∃ embedding, wide.embedder "beta" = .ok embedding ∧ embedding.length ≠ 1 := by
  have created : create Sample.config (.ofStorage (.volatile .empty)) Sample.source =
      .ok (empty (.volatile .empty)) := rfl
  have reached : Trail Operates (empty (.volatile .empty)) _ taken :=
    ((Trail.single (.event (.call (.process collaborators (input "alpha" 0.5))))).still
      (.event (.contents planted))).still (.event .restore)
  have refused : (taken.process wide (input "beta" 0.5)).2 = .error (.dimensionMismatch 1 2) := by
    have failure : (taken.process wide (input "beta" 0.5)).2.map (fun _ => ()) =
        .error (.dimensionMismatch 1 2) := by
      decide +kernel
    cases hresult : (taken.process wide (input "beta" 0.5)).2 with
    | error e =>
        rw [hresult] at failure
        exact congrArg Except.error (Except.error.inj failure)
    | ok outcome =>
        rw [hresult] at failure
        cases failure
  obtain ⟨placed, _, failures⟩ := stored_embeddings_never_fail created
    (empty (.volatile .empty)).classifier (empty (.volatile .empty)).extractor reached
  refine ⟨by decide +kernel, placed, refused, ?_⟩
  rcases failures wide (input "beta" 0.5) _ refused with
    ⟨embedding, given, hwidth, _⟩ | ⟨_, h⟩ | ⟨_, h⟩ | ⟨h, _⟩
  · exact ⟨embedding, given, hwidth⟩
  · cases h
  · cases h
  · cases h

end Mind

end Engram
