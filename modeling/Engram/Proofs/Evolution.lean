import Engram.Nightly.Run
import Engram.Proofs.Backend
import Engram.Proofs.Store

/-! What a call can do to the memories of a mind. Every operation is a sequence of five kinds of
change: the use of memories changes, a memory is stored, memories move from a tier to the pending
batch, the batch is written to the archive, a checkpoint is saved. Laws about the memories of a
mind are proved for these changes, and then hold for every operation. -/
namespace Engram

namespace EmbeddingCache

/-- Every embedding kept has the given width. -/
def Fits (c : EmbeddingCache) (dimension : Nat) : Prop :=
  ∀ p ∈ c.entries, p.2.length = dimension

theorem Fits.put {c : EmbeddingCache} {dimension : Nat} (h : c.Fits dimension) (text : String)
    {embedding : Embedding} (width : embedding.length = dimension) :
    (c.put text embedding).Fits dimension := by
  intro p hp
  rcases List.mem_cons.mp (List.mem_of_mem_take hp) with hp | hp
  · rw [hp]
    exact width
  · exact h p (List.mem_of_mem_filter hp)

theorem check_width {dimension : Nat} {answer : Except CollaboratorFailure Embedding}
    {embedding : Embedding} (h : check dimension answer = .ok embedding) :
    embedding.length = dimension := by
  unfold check at h
  split at h
  · cases h
  · cases h
  · rename_i given
    by_cases hwidth : given.length = dimension
    · rw [if_neg (not_not.mpr hwidth)] at h
      split at h
      · obtain rfl : given = embedding := Except.ok.inj h
        exact hwidth
      · cases h
    · rw [if_pos hwidth] at h
      cases h

/-- Embedding a text keeps the widths in the cache right, and answers with the right width. -/
theorem Fits.embed {c : EmbeddingCache} {dimension : Nat} (h : c.Fits dimension)
    (embedder : Embedder) (text : String) :
    (c.embed dimension embedder text).1.Fits dimension ∧
      ∀ embedding, (c.embed dimension embedder text).2 = .ok embedding →
        embedding.length = dimension := by
  unfold EmbeddingCache.embed
  cases hfound : c.entries.lookup text with
  | some known =>
      obtain ⟨before, after, hsplit, _⟩ := List.lookup_eq_some_iff.mp hfound
      have hwidth : known.length = dimension := h (text, known) (by rw [hsplit]; simp)
      refine ⟨h.put text hwidth, ?_⟩
      intro embedding hok
      obtain rfl : known = embedding := Except.ok.inj hok
      exact hwidth
  | none =>
      cases hcheck : check dimension (embedder text) with
      | error e => exact ⟨h, fun embedding hok => by cases hok⟩
      | ok given =>
          have hwidth := check_width hcheck
          refine ⟨Fits.put (c := { c with calls := c.calls + 1 }) h text hwidth, ?_⟩
          intro embedding hok
          obtain rfl : given = embedding := Except.ok.inj hok
          exact hwidth

end EmbeddingCache

/-- Sealing a batch writes an entry that holds all of it and empties it, or changes nothing. -/
theorem ArchiveLog.sealBatch_cases (l : ArchiveLog) (source : Source) (date : Time.Date)
    (experiences : List Experience) (patterns : List Pattern) (metrics : DailyMetrics) :
    (∃ entry backend, entry.memories = l.pending ∧ entry.date = date ∧
      entry.experiences = experiences ∧ entry.patterns = patterns ∧
      entry.metrics = { metrics with memoriesArchived := l.pending.length } ∧
      l.backend.append entry = .ok backend ∧
      (l.sealBatch source date experiences patterns metrics).1 =
        ({ l with backend, pending := [] }.remember l.pending, .ok entry)) ∨
    ∃ reason, (l.sealBatch source date experiences patterns metrics).1 =
      (l, .error (.archiveWrite reason)) := by
  unfold sealBatch takePending write
  simp only
  split
  · rename_i backend hb
    exact Or.inl ⟨_, backend, rfl, rfl, rfl, rfl, rfl, hb, rfl⟩
  · rename_i e hb
    refine Or.inr ⟨e.message, ?_⟩
    simp [putBack]

namespace Mind

/-- The memories of all tiers, tier by tier. -/
def active (s : Mind) : List Memory := Tier.all.flatMap s.store.memories

/-- What every change keeps: the configuration, the widths of cached embeddings, and the bounds
within which the backend refuses operations. -/
structure Frame (allowed : List String → Prop) (s s' : Mind) : Prop where
  config : s'.config = s.config
  cache : s.cache.Fits s.config.embeddingDimension → s'.cache.Fits s'.config.embeddingDimension
  refused : allowed s.backend.refused → allowed s'.backend.refused

/-- The memories are in their places; at most their use has changed. -/
structure Quiet (allowed : List String → Prop) (s s' : Mind) : Prop where
  frame : Frame allowed s s'
  store : ∀ t, s'.store.fixed t = s.store.fixed t
  pending : s'.archive.pending = s.archive.pending
  backend : s'.backend.contents = s.backend.contents

/-- One change to the memories of a mind, with what is stored and what is written by it. -/
inductive Change (allowed : List String → Prop) (s : Mind) :
    List Memory → List ArchiveEntry → Mind → Prop where
  | rest {s' : Mind} (quiet : Quiet allowed s s') : Change allowed s [] [] s'
  | stored {s' : Mind} (m : Memory) (frame : Frame allowed s s')
      (width : m.embedding.length = s.config.embeddingDimension)
      (store : ∀ t, s'.store.fixed t = (s.store.add m).fixed t)
      (pending : s'.archive.pending = s.archive.pending)
      (backend : s'.backend.contents = s.backend.contents) : Change allowed s [m] [] s'
  | demoted {s' : Mind} (t : Tier) (moved : List Memory) (frame : Frame allowed s s')
      (tier : (s'.store.fixed t ++ moved.map Memory.fixed).Perm (s.store.fixed t))
      (others : ∀ u, u ≠ t → s'.store.fixed u = s.store.fixed u)
      (pending : s'.archive.pending = s.archive.pending ++ moved)
      (backend : s'.backend.contents = s.backend.contents) : Change allowed s [] [] s'
  | sealed {s' : Mind} (entry : ArchiveEntry) (frame : Frame allowed s s')
      (batch : entry.memories = s.archive.pending)
      (store : ∀ t, s'.store.fixed t = s.store.fixed t) (pending : s'.archive.pending = [])
      (backend : s.backend.append entry = .ok s'.backend) : Change allowed s [] [entry] s'
  | saved {s' : Mind} (c : Checkpoint) (frame : Frame allowed s s')
      (tiers : c.tiers = s.readTiers) (batch : c.pendingDay.memories = s.archive.pending)
      (store : ∀ t, s'.store.fixed t = s.store.fixed t)
      (pending : s'.archive.pending = s.archive.pending)
      (backend : s'.backend = (s.backend.saveCheckpoint c).1) : Change allowed s [] [] s'

/-- Changes one after the other, with all that was stored and written on the way. -/
inductive Evolves (allowed : List String → Prop) (s : Mind) :
    List Memory → List ArchiveEntry → Mind → Prop where
  | refl : Evolves allowed s [] [] s
  | tail {s' s'' : Mind} {new more : List Memory} {log later : List ArchiveEntry}
      (prior : Evolves allowed s new log s') (last : Change allowed s' more later s'') :
      Evolves allowed s (new ++ more) (log ++ later) s''

variable {allowed : List String → Prop}

theorem Frame.of_eq {s s' : Mind} (config : s'.config = s.config) (cache : s'.cache = s.cache)
    (refused : s'.backend.refused = s.backend.refused) : Frame allowed s s' where
  config := config
  cache fits := by
    rw [config, cache]
    exact fits
  refused within := by
    rw [refused]
    exact within

theorem Frame.trans {s s' s'' : Mind} (first : Frame allowed s s')
    (second : Frame allowed s' s'') : Frame allowed s s'' where
  config := second.config.trans first.config
  cache fits := second.cache (first.cache fits)
  refused within := second.refused (first.refused within)

/-- A change of anything but the memories, the archive and the cache. -/
theorem Quiet.of_eq {s s' : Mind} (config : s'.config = s.config) (cache : s'.cache = s.cache)
    (store : s'.store = s.store) (archive : s'.archive = s.archive) : Quiet allowed s s' where
  frame := .of_eq config cache (by rw [Mind.backend, Mind.backend, archive])
  store t := by rw [store]
  pending := by rw [archive]
  backend := by
    unfold Mind.backend
    rw [archive]

theorem Quiet.trans {s s' s'' : Mind} (first : Quiet allowed s s')
    (second : Quiet allowed s' s'') : Quiet allowed s s'' where
  frame := first.frame.trans second.frame
  store t := (second.store t).trans (first.store t)
  pending := second.pending.trans first.pending
  backend := second.backend.trans first.backend

namespace Evolves

theorem single {s s' : Mind} {new : List Memory} {log : List ArchiveEntry}
    (change : Change allowed s new log s') : Evolves allowed s new log s' := by
  simpa using Evolves.refl.tail change

theorem rest {s s' : Mind} (quiet : Quiet allowed s s') : Evolves allowed s [] [] s' :=
  single (.rest quiet)

theorem trans {s s' s'' : Mind} {new more : List Memory} {log later : List ArchiveEntry}
    (first : Evolves allowed s new log s') (second : Evolves allowed s' more later s'') :
    Evolves allowed s (new ++ more) (log ++ later) s'' := by
  induction second with
  | refl => simpa using first
  | tail prior last ih => simpa [List.append_assoc] using ih.tail last

theorem frame {s s' : Mind} {new : List Memory} {log : List ArchiveEntry}
    (h : Evolves allowed s new log s') : Frame allowed s s' := by
  induction h with
  | refl => exact .of_eq rfl rfl rfl
  | tail prior last ih =>
      apply ih.trans
      cases last with
      | rest quiet => exact quiet.frame
      | stored m frame => exact frame
      | demoted t moved frame => exact frame
      | sealed entry frame => exact frame
      | saved c frame => exact frame

end Evolves

theorem quiet_recordActivity (s : Mind) : Quiet allowed s s.recordActivity := by
  unfold recordActivity
  exact .of_eq rfl rfl rfl rfl

theorem quiet_embed (s : Mind) (embedder : Embedder) (text : String) :
    Quiet allowed s (s.embed embedder text).1 where
  frame := {
    config := rfl
    cache := fun fits => (fits.embed embedder text).1
    refused := id }
  store _ := rfl
  pending := rfl
  backend := rfl

/-- Sealing the pending batch: the entry is written and the batch is empty, or nothing happens. -/
theorem evolves_sealBatch {s s' : Mind} {source : Source} {date : Time.Date}
    {experiences : List Experience} {patterns : List Pattern} {metrics : DailyMetrics}
    (config : s'.config = s.config) (cache : s'.cache = s.cache) (store : s'.store = s.store)
    (archive : s'.archive =
      (s.archive.sealBatch source date experiences patterns metrics).1.1) :
    ∃ log, Evolves allowed s [] log s' := by
  rcases s.archive.sealBatch_cases source date experiences patterns metrics with
    ⟨entry, backend, batch, _, _, _, _, append, outcome⟩ | ⟨reason, outcome⟩
  · rw [outcome] at archive
    have hbackend : s'.backend = backend := by
      unfold Mind.backend
      rw [archive]
      rfl
    refine ⟨[entry], .single (.sealed entry ?_ batch (fun t => by rw [store]) ?_ ?_)⟩
    · refine .of_eq config cache ?_
      rw [hbackend]
      exact Backend.append_refused append
    · rw [archive]
      rfl
    · rw [hbackend]
      exact append
  · rw [outcome] at archive
    exact ⟨[], .rest (.of_eq config cache store archive)⟩

/-- Staging adds memories to the pending batch, and may then seal it. -/
theorem stage_cases (s : Mind) (memories : List Memory) :
    let staged := { s with
      archive := { s.archive with pending := s.archive.pending ++ memories } }
    s.stage memories = staged ∨
      ∃ source date, s.stage memories = { staged with
        archive := (staged.archive.sealBatch source date [] [] {}).1.1
        source := (staged.archive.sealBatch source date [] [] {}).2 } := by
  intro staged
  unfold stage ArchiveLog.stage
  by_cases hempty : memories.isEmpty
  · left
    have hnil : memories = [] := List.isEmpty_iff.mp hempty
    simp [staged, hnil]
  · rw [if_neg hempty]
    by_cases hfits : (s.archive.pending ++ memories).length ≤ s.archive.maxPending
    · left
      simp only [if_pos hfits]
      rfl
    · right
      simp only [if_neg hfits]
      exact ⟨_, _, rfl⟩

/-- A pass moves the worst memories of a tier to the pending batch, which it may seal. -/
theorem evolves_consolidationPasses (t : Tier) (now : Time.Instant) (passes : Nat) (s : Mind)
    (result : TierConsolidation) :
    ∃ log, Evolves allowed s [] log (consolidationPasses t now passes s result).1 := by
  induction passes generalizing s result with
  | zero => exact ⟨[], .refl⟩
  | succ passes ih =>
      unfold consolidationPasses
      simp only
      by_cases hroom : (s.store.traces t).length ≤ s.config.capacity t
      · rw [if_pos hroom]
        exact ⟨[], .refl⟩
      · rw [if_neg hroom, Store.commit_traces]
        simp only [if_pos]
        generalize hkept : (Consolidation.partition s.config.score now (s.config.capacity t)
          (s.store.traces t)).1 = kept
        generalize hdemoted : (Consolidation.partition s.config.score now (s.config.capacity t)
          (s.store.traces t)).2 = demoted
        have hperm := Consolidation.partition_perm s.config.score now (s.config.capacity t)
          (s.store.traces t)
        rw [hkept, hdemoted] at hperm
        let moved := demoted.map (·.memory)
        let staged := { s with
          store := s.store.put t kept
          archive := { s.archive with pending := s.archive.pending ++ moved } }
        have hmoved : Evolves allowed s [] [] staged := by
          refine .single (.demoted t moved (.of_eq rfl rfl rfl) ?_ ?_ rfl rfl)
          · have hmap := (hperm.map (·.memory)).map Memory.fixed
            rw [List.map_append, List.map_append] at hmap
            simp only [Store.fixed, staged, Store.memories_put, if_pos]
            exact hmap
          · intro u hu
            simp [Store.fixed, staged, Store.memories_put, hu]
        rcases stage_cases { s with store := s.store.put t kept } moved with
          hstage | ⟨source, date, hstage⟩
        · rw [hstage]
          exact ⟨[], hmoved⟩
        · obtain ⟨log, hseal⟩ : ∃ log, Evolves allowed staged [] log { staged with
              archive := (staged.archive.sealBatch source date [] [] {}).1.1
              source := (staged.archive.sealBatch source date [] [] {}).2 } :=
            evolves_sealBatch rfl rfl rfl rfl
          rw [hstage]
          exact ⟨log, hmoved.trans hseal⟩

theorem evolves_consolidateAt (s : Mind) (t : Tier) (now : Time.Instant) :
    ∃ log, Evolves allowed s [] log (s.consolidateAt t now).1 :=
  evolves_consolidationPasses t now Consolidation.maxPasses s _

theorem evolves_consolidate (s : Mind) (t : Tier) :
    ∃ log, Evolves allowed s [] log (s.consolidate t).1 := by
  have hnow : Evolves allowed s [] [] s.now.2 := .rest (.of_eq rfl rfl rfl rfl)
  obtain ⟨log, h⟩ : ∃ log, Evolves allowed s.now.2 [] log _ :=
    evolves_consolidateAt s.now.2 t s.now.1
  exact ⟨log, hnow.trans h⟩

theorem evolves_consolidateIfOver (s : Mind) (t : Tier) :
    ∃ log, Evolves allowed s [] log (s.consolidateIfOver t).1 := by
  unfold consolidateIfOver
  split
  · exact s.evolves_consolidate t
  · exact ⟨[], .refl⟩

/-- All tiers are bounded, one after the other. -/
theorem boundTiers_eq (s : Mind) :
    s.boundTiers.1 = Tier.all.foldl (fun s t => (s.consolidateIfOver t).1) s := by
  refine (List.foldl_hom Prod.fst ?_).symm
  rintro ⟨s, actions⟩ t
  rcases hresult : s.consolidateIfOver t with ⟨s', _ | result⟩
  · simp [hresult]
  · simp [hresult]

theorem boundTiers_follows {R : Mind → Mind → Prop} (refl : ∀ s, R s s)
    (trans : ∀ {s s' s''}, R s s' → R s' s'' → R s s'')
    (bounds : ∀ (s : Mind) (t : Tier), R s (s.consolidateIfOver t).1) (s : Mind) :
    R s s.boundTiers.1 := by
  rw [boundTiers_eq]
  induction Tier.all generalizing s with
  | nil => exact refl s
  | cons t tiers ih => exact trans (bounds s t) (ih _)

theorem evolves_boundTiers (s : Mind) : ∃ log, Evolves allowed s [] log s.boundTiers.1 := by
  refine boundTiers_follows (R := fun s s' => ∃ log, Evolves allowed s [] log s')
    (fun _ => ⟨[], .refl⟩) ?_ evolves_consolidateIfOver s
  rintro s s' s'' ⟨log, first⟩ ⟨later, second⟩
  exact ⟨log ++ later, first.trans second⟩

/-- A checkpoint is made of the tiers and the pending batch as they are. -/
theorem persist_cases (s : Mind) : ∃ c : Checkpoint, c.tiers = s.readTiers ∧
    c.pendingDay.memories = s.archive.pending ∧
    s.persist.1 = s.now.2.setBackend (s.backend.saveCheckpoint c).1 ∧
    ∀ n, s.persist.2 = .ok n → (s.backend.saveCheckpoint c).2 = .ok () := by
  let c : Checkpoint := ⟨s.readTiers, s.now.2.readPendingDay s.now.1, s.now.2.knowledge.entries⟩
  refine ⟨c, rfl, rfl, ?_⟩
  unfold persist
  simp only
  have hsave : s.now.2.backend.saveCheckpoint c = s.backend.saveCheckpoint c := rfl
  split
  · rename_i b e hb
    refine ⟨congrArg s.now.2.setBackend (congrArg Prod.fst hb).symm, ?_⟩
    intro n h
    cases h
  · rename_i b hb
    refine ⟨congrArg s.now.2.setBackend (congrArg Prod.fst hb).symm, ?_⟩
    intro _ _
    exact hsave ▸ congrArg Prod.snd hb

theorem evolves_persist (s : Mind) : Evolves allowed s [] [] s.persist.1 := by
  obtain ⟨c, htiers, hbatch, hpersist, _⟩ := s.persist_cases
  have hrefused := (s.backend.saveCheckpoint_spec c).1
  rw [hpersist]
  exact .single (.saved c (.of_eq rfl rfl hrefused) htiers hbatch (fun _ => rfl) rfl rfl)

/-- The memory that an input leads to, as the outcome of processing it describes it. -/
def memoryOf (input : Input) (embedding : Embedding) (time : Time.Instant)
    (outcome : ProcessOutcome) : Memory where
  id := outcome.memoryId
  content := input.text ++ "\n" ++ outcome.output
  embedding
  tier := outcome.tier
  timestamp := time
  importance := outcome.importance
  retrievals := 0
  associations := outcome.associations

/-- What is stored by processing an input: one memory, or nothing if it fails. -/
def made (s : Mind) (collaborators : Collaborators) (input : Input) : List Memory :=
  match (s.embed collaborators.embedder input.text).2, (s.process collaborators input).2 with
  | .ok embedding, .ok outcome =>
    [memoryOf input embedding s.recordActivity.source.clock.time outcome]
  | _, _ => []

/-- A new memory goes to the end of its tier, and nothing else is stored. -/
theorem remember_stores (s : Mind) (input : Input) (output : String) (embedding : Embedding)
    (associations : List String) :
    (s.remember input output embedding associations).1.store =
        s.store.add (s.remember input output embedding associations).2 ∧
      (s.remember input output embedding associations).1.config = s.config ∧
      (s.remember input output embedding associations).1.cache = s.cache ∧
      (s.remember input output embedding associations).1.archive = s.archive :=
  ⟨rfl, rfl, rfl, rfl⟩

/-- A call was noted in `t`, and the cache and the use of memories may have changed. -/
structure Noted (s t : Mind) : Prop where
  config : t.config = s.config
  extractor : t.extractor = s.extractor
  zone : t.zone = s.zone
  day : t.day = s.day
  archive : t.archive = s.archive

/-- An input that was processed: the generator has answered a prompt for it, and from a state in
which only the call was noted the input is stored and its tier is bounded. -/
structure Processed (s : Mind) (collaborators : Collaborators) (input : Input)
    (outcome : ProcessOutcome) (ready : Mind) (embedding : Embedding) (last : Mind) : Prop where
  noted : Noted s ready
  answer : ∃ memories, generate collaborators.generator
    (Prompt.forInput s.config.retrieval input.text memories) = .ok outcome.output
  made : s.made collaborators input =
    [(ready.remember input outcome.output embedding outcome.associations).2]
  id : (ready.remember input outcome.output embedding outcome.associations).2.id = outcome.memoryId
  last : last =
    ((ready.remember input outcome.output embedding outcome.associations).1.consolidateIfOver
      (ready.classifier input)).1

theorem noted_embed (s : Mind) (embedder : Embedder) (text : String) :
    Noted s (s.recordActivity.embed embedder text).1 := by
  unfold embed recordActivity
  exact ⟨rfl, rfl, rfl, rfl, rfl⟩

/-- An input is processed, or it fails and nothing is stored. -/
theorem process_cases (s : Mind) (collaborators : Collaborators) (input : Input) :
    (∃ e, (s.process collaborators input).2 = .error e ∧
      Noted s (s.process collaborators input).1) ∨
    ∃ outcome ready embedding, (s.process collaborators input).2 = .ok outcome ∧
      Processed s collaborators input outcome ready embedding
        (s.process collaborators input).1 := by
  have noted := s.noted_embed collaborators.embedder input.text
  have hresult : (s.recordActivity.embed collaborators.embedder input.text).2 =
      (s.embed collaborators.embedder input.text).2 := by
    unfold embed recordActivity
    rfl
  cases hasked : s.recordActivity.embed collaborators.embedder input.text with
  | mk t result =>
      rw [hasked] at noted hresult
      have htime : t.source = s.recordActivity.source := congrArg (·.1.source) hasked.symm
      have failed : ∀ {u : Mind} {e : Error}, s.process collaborators input = (u, .error e) →
          Noted s u → ∃ e, (s.process collaborators input).2 = .error e ∧
            Noted s (s.process collaborators input).1 := by
        intro u e hprocess noted
        rw [hprocess]
        exact ⟨e, rfl, noted⟩
      cases result with
      | error e =>
          have hprocess : s.process collaborators input = (t, .error e) := by
            unfold process
            rw [hasked]
          exact .inl (failed hprocess noted)
      | ok embedding =>
          have hprocess : s.process collaborators input =
              t.answer collaborators.generator input embedding := by
            unfold process
            rw [hasked]
          unfold answer at hprocess
          cases hretrieve : t.store.retrieve t.config.retrieval embedding with
          | error e =>
              rw [hretrieve] at hprocess
              exact .inl (failed hprocess noted)
          | ok found =>
              have used : Noted s { t with store := found.2 } :=
                ⟨noted.config, noted.extractor, noted.zone, noted.day, noted.archive⟩
              simp only [hretrieve] at hprocess
              cases hanswer : generate collaborators.generator
                  (Prompt.forInput t.config.retrieval input.text found.1) with
              | error e =>
                  rw [hanswer] at hprocess
                  exact .inl (failed hprocess used)
              | ok output =>
                  simp only [hanswer, settle] at hprocess
                  cases hassociated :
                      discoverAssociations { t with store := found.2 } embedding with
                  | error e =>
                      rw [hassociated] at hprocess
                      exact .inl (failed hprocess used)
                  | ok associations =>
                      rw [hassociated] at hprocess
                      rw [noted.config] at hanswer
                      refine .inr ⟨_, { t with store := found.2 }, embedding,
                        congrArg Prod.snd hprocess, used, ⟨found.1, hanswer⟩, ?_, rfl,
                        congrArg Prod.fst hprocess⟩
                      unfold made
                      rw [← hresult, hprocess, ← htime]
                      rfl

theorem processed_of_ok {s : Mind} {collaborators : Collaborators} {input : Input}
    {outcome : ProcessOutcome} (ok : (s.process collaborators input).2 = .ok outcome) :
    ∃ ready embedding, Processed s collaborators input outcome ready embedding
      (s.process collaborators input).1 := by
  rcases s.process_cases collaborators input with ⟨e, failed, _⟩ | ⟨_, ready, embedding, h, done⟩
  · rw [failed] at ok
    cases ok
  · rw [h] at ok
    obtain rfl := Except.ok.inj ok
    exact ⟨ready, embedding, done⟩

theorem evolves_settle (s : Mind) (input : Input) (output : String) {embedding : Embedding}
    (retrieved : Nat) (width : embedding.length = s.config.embeddingDimension) :
    ∃ log, Evolves allowed s
      ((s.settle input output embedding retrieved).2.toOption.toList.map
        (memoryOf input embedding s.source.clock.time)) log
      (s.settle input output embedding retrieved).1 := by
  unfold settle
  cases s.discoverAssociations embedding with
  | error e => exact ⟨[], .refl⟩
  | ok associations =>
      obtain ⟨store, config, cache, archive⟩ := s.remember_stores input output embedding associations
      have hstored : Evolves allowed s [(s.remember input output embedding associations).2] []
          (s.remember input output embedding associations).1 := by
        refine .single (.stored _ (.of_eq config cache ?_) width ?_ ?_ ?_)
        · rw [Mind.backend, Mind.backend, archive]
        · intro t
          rw [store]
        · rw [archive]
        · rw [Mind.backend, Mind.backend, archive]
      obtain ⟨log, hbounded⟩ : ∃ log, Evolves allowed _ [] log _ :=
        (s.remember input output embedding associations).1.evolves_consolidateIfOver
          (s.remember input output embedding associations).2.tier
      exact ⟨log, hstored.trans hbounded⟩

theorem evolves_answer (s : Mind) (generator : Generator) (input : Input) {embedding : Embedding}
    (width : embedding.length = s.config.embeddingDimension) :
    ∃ log, Evolves allowed s
      ((s.answer generator input embedding).2.toOption.toList.map
        (memoryOf input embedding s.source.clock.time)) log
      (s.answer generator input embedding).1 := by
  unfold answer
  cases hretrieve : s.store.retrieve s.config.retrieval embedding with
  | error e => exact ⟨[], .refl⟩
  | ok found =>
      obtain ⟨memories, store⟩ := found
      have hused : Evolves allowed s [] [] { s with store } := by
        refine .rest ⟨.of_eq rfl rfl rfl, ?_, rfl, rfl⟩
        intro t
        exact Store.fixed_retrieve hretrieve t
      simp only
      cases generate generator
          (Prompt.forInput s.config.retrieval input.text memories) with
      | error e => exact ⟨[], hused⟩
      | ok output =>
          obtain ⟨log, hsettled⟩ : ∃ log, Evolves allowed _ _ log _ :=
            evolves_settle { s with store } input output memories.length width
          exact ⟨log, hused.trans hsettled⟩

/-- Processing an input stores the memory that its outcome describes, and no other. -/
theorem evolves_process (s : Mind) (collaborators : Collaborators) (input : Input)
    (fits : s.cache.Fits s.config.embeddingDimension) :
    ∃ log, Evolves allowed s (s.made collaborators input) log
      (s.process collaborators input).1 := by
  have hembed : Evolves allowed s [] []
      (s.recordActivity.embed collaborators.embedder input.text).1 :=
    .rest (s.quiet_recordActivity.trans (s.recordActivity.quiet_embed _ _))
  have hwidth := (fits.embed collaborators.embedder input.text).2
  have hresult : (s.recordActivity.embed collaborators.embedder input.text).2 =
      (s.embed collaborators.embedder input.text).2 := by
    unfold embed recordActivity
    rfl
  unfold made process
  rw [← hresult]
  cases hasked : s.recordActivity.embed collaborators.embedder input.text with
  | mk embedded result =>
      rw [hasked] at hembed hresult
      have htime : embedded.source = s.recordActivity.source :=
        congrArg (·.1.source) hasked.symm
      cases result with
      | error e => exact ⟨[], hembed⟩
      | ok embedding =>
          have hfits : embedding.length = embedded.config.embeddingDimension := by
            rw [hembed.frame.config]
            exact hwidth embedding hresult.symm
          obtain ⟨log, hanswered⟩ : ∃ log, Evolves allowed embedded _ log _ :=
            embedded.evolves_answer collaborators.generator input hfits
          refine ⟨log, ?_⟩
          have hall := hembed.trans hanswered
          rw [htime] at hall
          simp only
          cases houtcome : (embedded.answer collaborators.generator input embedding).2 with
          | error e => simpa [houtcome, Except.toOption] using hall
          | ok outcome => simpa [houtcome, Except.toOption] using hall

end Mind

end Engram
