import Engram.Mind.Foreground
import Engram.Proofs.Numbering

/-! Minds that answer alike. What becomes of an input depends on the memories, on the pending batch
and on what lies outside. It does not depend on the numbers of traces, on the window of recent
interactions, on what was sealed last, on the day, on the knowledge base or on the activity; and on
the cache only as far as it answers for another embedder. -/
namespace Engram

namespace EmbeddingCache

/-- Every embedding kept is one that the embedder gives. -/
def Faithful (c : EmbeddingCache) (dimension : Nat) (embedder : Embedder) : Prop :=
  ∀ p ∈ c.entries, check dimension (embedder p.1) = .ok p.2

theorem Faithful.put {c : EmbeddingCache} {dimension : Nat} {embedder : Embedder}
    (faithful : c.Faithful dimension embedder) {text : String} {embedding : Embedding}
    (given : check dimension (embedder text) = .ok embedding) :
    (c.put text embedding).Faithful dimension embedder := by
  intro p hp
  rcases List.mem_cons.mp (List.mem_of_mem_take hp) with rfl | hp
  · exact given
  · exact faithful p (List.mem_of_mem_filter hp)

/-- A faithful cache answers as the embedder does. -/
theorem Faithful.embed {c : EmbeddingCache} {dimension : Nat} {embedder : Embedder}
    (faithful : c.Faithful dimension embedder) (text : String) :
    (c.embed dimension embedder text).1.Faithful dimension embedder ∧
      (c.embed dimension embedder text).2 = check dimension (embedder text) := by
  unfold EmbeddingCache.embed
  cases hfound : c.entries.lookup text with
  | some known =>
      obtain ⟨before, after, hsplit, _⟩ := List.lookup_eq_some_iff.mp hfound
      have given : check dimension (embedder text) = .ok known :=
        faithful (text, known) (by rw [hsplit]; simp)
      exact ⟨faithful.put given, given.symm⟩
  | none =>
      cases hgiven : check dimension (embedder text) with
      | error e => exact ⟨faithful, rfl⟩
      | ok given => exact ⟨Faithful.put (c := { c with calls := c.calls + 1 }) faithful hgiven, rfl⟩

end EmbeddingCache

namespace ArchiveLog

variable (l : ArchiveLog) (recent : List Memory) (capacity : Nat)

/-- The same log with another view of what was sealed last. -/
def viewed : ArchiveLog := { l with recent, recentCapacity := capacity }

theorem sealBatch_viewed (source : Source) (date : Time.Date) (experiences : List Experience)
    (patterns : List Pattern) (metrics : DailyMetrics) :
    (∃ later, ((l.viewed recent capacity).sealBatch source date experiences patterns
        metrics).1.1 =
      (l.sealBatch source date experiences patterns metrics).1.1.viewed later capacity) ∧
    ((l.viewed recent capacity).sealBatch source date experiences patterns metrics).2 =
      (l.sealBatch source date experiences patterns metrics).2 := by
  refine ⟨?_, rfl⟩
  unfold sealBatch takePending write viewed
  simp only
  split
  · exact ⟨_, rfl⟩
  · exact ⟨_, rfl⟩

theorem stage_viewed (source : Source) (memories : List Memory) :
    (∃ later, ((l.viewed recent capacity).stage source memories).1 =
      (l.stage source memories).1.viewed later capacity) ∧
    ((l.viewed recent capacity).stage source memories).2 = (l.stage source memories).2 := by
  let staged := { l with pending := l.pending ++ memories }
  have hstage : ∀ r : ArchiveLog, r.pending = l.pending → r.maxPending = l.maxPending →
      r.stage source memories = if memories.isEmpty then (r, source)
        else if staged.pending.length ≤ l.maxPending then
          ({ r with pending := staged.pending }, source)
        else
          let outcome := { r with pending := staged.pending }.sealBatch source.today.2
            source.today.1 [] [] {}
          (outcome.1.1, outcome.2) := by
    rintro r hpending hbound
    unfold stage
    rw [hpending, hbound]
  rw [hstage (l.viewed recent capacity) rfl rfl, hstage l rfl rfl]
  by_cases hempty : memories.isEmpty
  · rw [if_pos hempty, if_pos hempty]
    exact ⟨⟨recent, rfl⟩, rfl⟩
  · rw [if_neg hempty, if_neg hempty]
    by_cases hfits : staged.pending.length ≤ l.maxPending
    · rw [if_pos hfits, if_pos hfits]
      exact ⟨⟨recent, rfl⟩, rfl⟩
    · rw [if_neg hfits, if_neg hfits]
      exact staged.sealBatch_viewed recent capacity _ _ [] [] {}

end ArchiveLog

namespace Mind

open Consolidation

/-- The parts of a mind that its answers do not depend on, or only through what is in them. -/
structure Aside where
  store : Store
  context : ContextBuffer
  recent : List Memory
  recentCapacity : Nat
  cache : EmbeddingCache
  day : DayBuffer
  knowledge : KnowledgeBase
  activity : Activity

/-- These parts of a mind. -/
def parts (s : Mind) : Aside :=
  ⟨s.store, s.context, s.archive.recent, s.archive.recentCapacity, s.cache, s.day, s.knowledge,
    s.activity⟩

/-- The same mind with other parts of this kind. -/
def aside (s : Mind) (a : Aside) : Mind :=
  { s with
    store := a.store
    context := a.context
    archive := s.archive.viewed a.recent a.recentCapacity
    cache := a.cache
    day := a.day
    knowledge := a.knowledge
    activity := a.activity }

/-- The minds hold the same memories and agree on everything else that their answers depend on. -/
structure Alike (embedder : Embedder) (s s' : Mind) : Prop where
  rest : ∃ a, s' = s.aside a
  tidy : s.store.Tidy
  tidy' : s'.store.Tidy
  memories : ∀ t, s'.store.memories t = s.store.memories t
  cache : s.cache.Faithful s.config.embeddingDimension embedder
  cache' : s'.cache.Faithful s.config.embeddingDimension embedder

/-- Two outcomes of an operation: alike afterwards, and with the same answer. -/
def Agree {α : Type} (embedder : Embedder) (r r' : Mind × α) : Prop :=
  Alike embedder r.1 r'.1 ∧ r'.2 = r.2

variable {embedder : Embedder} {s s' : Mind}

theorem Alike.config (alike : Alike embedder s s') : s'.config = s.config := by
  obtain ⟨a, rfl⟩ := alike.rest
  rfl

theorem Alike.source (alike : Alike embedder s s') : s'.source = s.source := by
  obtain ⟨a, rfl⟩ := alike.rest
  rfl

theorem Alike.now (alike : Alike embedder s s') : Alike embedder s.now.2 s'.now.2 := by
  obtain ⟨⟨a, rfl⟩, tidy, tidy', memories, cache, cache'⟩ := alike
  exact ⟨⟨a, rfl⟩, tidy, tidy', memories, cache, cache'⟩

theorem Alike.recordActivity (alike : Alike embedder s s') :
    Alike embedder s.recordActivity s'.recordActivity := by
  obtain ⟨⟨a, rfl⟩, tidy, tidy', memories, cache, cache'⟩ := alike
  unfold Mind.recordActivity
  exact ⟨⟨{ a with activity := a.activity.record s.now.1 }, rfl⟩, tidy, tidy', memories, cache,
    cache'⟩

theorem Alike.embed (alike : Alike embedder s s') (text : String) :
    Agree embedder (s.embed embedder text) (s'.embed embedder text) := by
  obtain ⟨⟨a, rfl⟩, tidy, tidy', memories, cache, cache'⟩ := alike
  obtain ⟨kept, given⟩ := cache.embed text
  obtain ⟨kept', given'⟩ := cache'.embed text
  refine ⟨⟨⟨((s.aside a).embed embedder text).1.parts, rfl⟩, tidy, tidy', memories, kept, kept'⟩,
    ?_⟩
  exact given'.trans given.symm

theorem Alike.discoverAssociations (alike : Alike embedder s s') (embedding : Embedding) :
    s'.discoverAssociations embedding = s.discoverAssociations embedding := by
  obtain ⟨⟨a, rfl⟩, _, _, memories, _⟩ := alike
  unfold Mind.discoverAssociations
  rw [Store.similar_congr memories]
  rfl

theorem Alike.remember (alike : Alike embedder s s') (input : Input) (output : String)
    (embedding : Embedding) (associations : List String) :
    Agree embedder (s.remember input output embedding associations)
      (s'.remember input output embedding associations) := by
  obtain ⟨⟨a, rfl⟩, tidy, tidy', memories, cache, cache'⟩ := alike
  have hsame : ((s.aside a).remember input output embedding associations).2 =
      (s.remember input output embedding associations).2 := rfl
  have hstore : ∀ r : Mind, (r.remember input output embedding associations).1.store =
      r.store.add (r.remember input output embedding associations).2 := fun _ => rfl
  refine ⟨⟨⟨((s.aside a).remember input output embedding associations).1.parts, rfl⟩, tidy.add _,
    tidy'.add _, ?_, cache, cache'⟩, hsame⟩
  intro t
  rw [hstore, hstore, Store.memories_add, Store.memories_add, hsame, memories]

/-- What stays in a tier that is over its capacity, and what does not. -/
def divide (s : Mind) (t : Tier) (now : Time.Instant) : List Trace × List Trace :=
  partition s.config.score now (s.config.capacity t) (s.store.traces t)

/-- Without late arrivals a tier is brought back to its capacity by one pass. -/
theorem consolidationPasses_succ (t : Tier) (now : Time.Instant) (passes : Nat) (s : Mind)
    (result : TierConsolidation) :
    consolidationPasses t now (passes + 1) s result =
      if s.store.size t ≤ s.config.capacity t then (s, result)
      else
        let demoted := (s.divide t now).2.map (·.memory)
        (({ s with store := s.store.put t (s.divide t now).1 } : Mind).stage demoted,
          { result with
            archived := result.archived ++ demoted.map (·.id)
            passes := result.passes + 1 }) := by
  unfold consolidationPasses
  simp only [Store.commit_traces]
  rfl

theorem Alike.size (alike : Alike embedder s s') (t : Tier) :
    s'.store.size t = s.store.size t := by
  have h := congrArg List.length (alike.memories t)
  simpa [Store.memories, Store.size] using h

theorem Alike.divide (alike : Alike embedder s s') (t : Tier) (now : Time.Instant) :
    (s'.divide t now).1.map (·.memory) = (s.divide t now).1.map (·.memory) ∧
      (s'.divide t now).2.map (·.memory) = (s.divide t now).2.map (·.memory) := by
  unfold Mind.divide
  rw [alike.config]
  exact partition_congr (alike.memories t) _ _ _

theorem Alike.put (alike : Alike embedder s s') {t : Tier} {kept rest kept' rest' : List Trace}
    (part : (kept ++ rest).Perm (s.store.traces t))
    (part' : (kept' ++ rest').Perm (s'.store.traces t))
    (same : kept'.map (·.memory) = kept.map (·.memory)) :
    Alike embedder { s with store := s.store.put t kept }
      { s' with store := s'.store.put t kept' } := by
  obtain ⟨⟨a, rfl⟩, tidy, tidy', memories, cache, cache'⟩ := alike
  refine ⟨⟨{ a with store := a.store.put t kept' }, rfl⟩, tidy.put part, tidy'.put part', ?_, cache,
    cache'⟩
  intro u
  simp only [Store.memories_put, same, memories]

theorem Alike.stage (alike : Alike embedder s s') (batch : List Memory) :
    Alike embedder (s.stage batch) (s'.stage batch) := by
  obtain ⟨⟨a, rfl⟩, tidy, tidy', memories, cache, cache'⟩ := alike
  obtain ⟨⟨later, harchive⟩, hsource⟩ :=
    s.archive.stage_viewed a.recent a.recentCapacity s.source batch
  refine ⟨⟨{ a with recent := later }, ?_⟩, tidy, tidy', memories, cache, cache'⟩
  change { s.aside a with
    archive := ((s.archive.viewed a.recent a.recentCapacity).stage s.source batch).1
    source := ((s.archive.viewed a.recent a.recentCapacity).stage s.source batch).2 } = _
  rw [harchive, hsource]
  rfl

theorem Alike.consolidationPasses (alike : Alike embedder s s') (t : Tier) (now : Time.Instant)
    (passes : Nat) (result : TierConsolidation) :
    Agree embedder (Mind.consolidationPasses t now (passes + 1) s result)
      (Mind.consolidationPasses t now (passes + 1) s' result) := by
  have hroom : s'.config.capacity t = s.config.capacity t := by rw [alike.config]
  obtain ⟨hkept, hdemoted⟩ := alike.divide t now
  rw [consolidationPasses_succ, consolidationPasses_succ, alike.size t, hroom]
  by_cases hfits : s.store.size t ≤ s.config.capacity t
  · rw [if_pos hfits, if_pos hfits]
    exact ⟨alike, rfl⟩
  · rw [if_neg hfits, if_neg hfits, hdemoted]
    exact ⟨(alike.put (partition_perm _ _ _ _) (partition_perm _ _ _ _) hkept).stage _, rfl⟩

theorem Alike.consolidateAt (alike : Alike embedder s s') (t : Tier) (now : Time.Instant) :
    Agree embedder (s.consolidateAt t now) (s'.consolidateAt t now) := by
  unfold Mind.consolidateAt
  rw [alike.size t, alike.source]
  generalize hfirst : Mind.consolidationPasses t now maxPasses s _ = r
  generalize hsecond : Mind.consolidationPasses t now maxPasses s' _ = r'
  obtain ⟨after, hresult⟩ : Agree embedder r r' := by
    rw [← hfirst, ← hsecond]
    exact alike.consolidationPasses t now 2 _
  refine ⟨after, ?_⟩
  simp only [hresult, after.size t, after.source]

theorem Alike.consolidate (alike : Alike embedder s s') (t : Tier) :
    Agree embedder (s.consolidate t) (s'.consolidate t) := by
  have hclock : s'.now.1 = s.now.1 := by
    unfold Mind.now
    rw [alike.source]
  unfold Mind.consolidate
  simp only [hclock]
  exact alike.now.consolidateAt t s.now.1

theorem Alike.consolidateIfOver (alike : Alike embedder s s') (t : Tier) :
    Agree embedder (s.consolidateIfOver t) (s'.consolidateIfOver t) := by
  have hroom : s'.config.capacity t = s.config.capacity t := by rw [alike.config]
  unfold Mind.consolidateIfOver
  rw [alike.size t, hroom]
  split
  · obtain ⟨after, hresult⟩ := alike.consolidate t
    exact ⟨after, congrArg some hresult⟩
  · exact ⟨alike, rfl⟩

theorem Alike.settle (alike : Alike embedder s s') (input : Input) (output : String)
    (embedding : Embedding) (retrieved : Nat) :
    Agree embedder (s.settle input output embedding retrieved)
      (s'.settle input output embedding retrieved) := by
  unfold Mind.settle
  rw [alike.discoverAssociations]
  cases s.discoverAssociations embedding with
  | error e => exact ⟨alike, rfl⟩
  | ok associations =>
      simp only
      obtain ⟨stored, hmemory⟩ := alike.remember input output embedding associations
      obtain ⟨bounded, hbounded⟩ := stored.consolidateIfOver
        (s.remember input output embedding associations).2.tier
      rw [hmemory]
      exact ⟨bounded, by rw [hbounded]⟩

theorem Alike.answer (alike : Alike embedder s s') (generator : Generator) (input : Input)
    (embedding : Embedding) :
    Agree embedder (s.answer generator input embedding)
      (s'.answer generator input embedding) := by
  have hretrieval : s'.config.retrieval = s.config.retrieval := by rw [alike.config]
  unfold Mind.answer
  rw [hretrieval]
  rcases alike.tidy.retrieve alike.tidy' alike.memories s.config.retrieval embedding with
    ⟨e, hs, hs'⟩ | ⟨found, store, store', hs, hs', tidy, tidy', memories⟩
  · rw [hs, hs']
    exact ⟨alike, rfl⟩
  · rw [hs, hs']
    have used : Alike embedder { s with store } { s' with store := store' } := by
      obtain ⟨⟨a, rfl⟩, _, _, _, cache, cache'⟩ := alike
      exact ⟨⟨{ a with store := store' }, rfl⟩, tidy, tidy', memories, cache, cache'⟩
    simp only [hretrieval]
    cases generate generator (Prompt.forInput s.config.retrieval input.text found) with
    | error e => exact ⟨used, rfl⟩
    | ok output => exact used.settle input output embedding found.length

/-- Minds that are alike give the same outcome for an input, and are alike after it. -/
theorem Alike.process (alike : Alike embedder s s') (generator : Generator) (input : Input) :
    Agree embedder (s.process ⟨embedder, generator⟩ input)
      (s'.process ⟨embedder, generator⟩ input) := by
  unfold Mind.process
  simp only
  obtain ⟨after, hresult⟩ := alike.recordActivity.embed input.text
  generalize s.recordActivity.embed embedder input.text = r at after hresult ⊢
  generalize s'.recordActivity.embed embedder input.text = r' at after hresult ⊢
  obtain ⟨t, result⟩ := r
  obtain ⟨t', result'⟩ := r'
  obtain rfl : result' = result := hresult
  cases result' with
  | error e => exact ⟨after, rfl⟩
  | ok embedding => exact after.answer generator input embedding

/-- A foreground call as its caller sees it: the clock and the identifiers at that time, what the
backend refuses, the generator and the input. -/
structure Request where
  source : Source
  refused : List String
  unwritable : ArchiveEntry → Bool
  generator : Generator
  input : Input

/-- A mind at the time of a request. -/
def facing (s : Mind) (r : Request) : Mind :=
  { s with
    source := r.source
    archive := { s.archive with
      backend := { s.backend with refused := r.refused, unwritable := r.unwritable } } }

/-- What becomes of requests, one after the other. -/
def outcomes (embedder : Embedder) : Mind → List Request → List (Except Error ProcessOutcome)
  | _, [] => []
  | s, r :: rest =>
    let (s, outcome) := (s.facing r).process ⟨embedder, r.generator⟩ r.input
    outcome :: outcomes embedder s rest

theorem Alike.facing (alike : Alike embedder s s') (r : Request) :
    Alike embedder (s.facing r) (s'.facing r) := by
  obtain ⟨⟨a, rfl⟩, tidy, tidy', memories, cache, cache'⟩ := alike
  exact ⟨⟨a, rfl⟩, tidy, tidy', memories, cache, cache'⟩

/-- Minds that are alike cannot be told apart by what becomes of inputs. -/
theorem Alike.outcomes (alike : Alike embedder s s') (requests : List Request) :
    Mind.outcomes embedder s' requests = Mind.outcomes embedder s requests := by
  induction requests generalizing s s' with
  | nil => rfl
  | cons r rest ih =>
      obtain ⟨after, hresult⟩ := (alike.facing r).process r.generator r.input
      unfold Mind.outcomes
      simp only
      rw [hresult, ih after]

end Mind

end Engram
