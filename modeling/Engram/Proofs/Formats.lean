import Engram.Nightly.Report
import Engram.Proofs.Codec
import Engram.Proofs.Fitness

/-! The persisted formats. Every record is read back from what is written for it, field by field. -/
namespace Engram.Json

namespace Fields

/-- A record takes one level of nesting. -/
theorem room_of? {names : List String} {room : Nat} {document : Document} {f : Fields}
    (h : Fields.of? names room document = some f) : f.room = room - 1 := by
  unfold Fields.of? at h
  split at h
  · simp only [Option.bind_eq_bind, Option.bind_eq_some_iff] at h
    obtain ⟨items, -, h⟩ := h
    obtain rfl := Option.some.inj h
    rfl
  · split at h
    · obtain rfl := Option.some.inj h
      rfl
    · cases h
  · cases h

variable {α : Type} [Codec α] {f : Fields} {name : String}

section

variable [Persistent α] {a : α}

theorem valid_of_need (hroom : Persistent.least α ≤ f.room) (h : f.need name = some a) :
    Persistent.Valid f.room a := by
  simp only [need, Option.bind_eq_bind, Option.bind_eq_some_iff] at h
  obtain ⟨_, _, document, -, hread⟩ := h
  exact Persistent.valid_of_decode hroom hread

theorem valid_of_orDefault {default : α} (hroom : Persistent.least α ≤ f.room)
    (hdefault : Persistent.Valid f.room default) (h : f.orDefault name default = some a) :
    Persistent.Valid f.room a := by
  simp only [orDefault, Option.bind_eq_bind, Option.bind_eq_some_iff] at h
  obtain ⟨found, -, hread⟩ := h
  cases found with
  | none =>
      obtain rfl := Option.some.inj hread
      exact hdefault
  | some document => exact Persistent.valid_of_decode hroom hread

end

/-- Reading through the fields of a record does not stand in the way of its tag. -/
theorem tag_written {room : Nat} {fields : List (String × Value)} (found : String)
    (h : ∀ field ∈ fields, field.2.Valid room ∧ field.2.Legible)
    (hneed : Fields.need ⟨room, fields.map fun p => (p.1, p.2.document), true⟩ name = some found) :
    Fields.tag ⟨room, fields.map fun p => (p.1, p.2.document), true⟩ name = some found := by
  have hvalues : (fields.map fun p => (p.1, p.2.document)).mapM (fun field => field.2.value? room) =
      some (fields.map Prod.snd) := by
    apply mapM_made
    intro field hfield
    obtain ⟨hvalid, hlegible⟩ := h field hfield
    exact hvalid.value?_document hlegible
  simp only [tag, hvalues, Option.bind_eq_bind, Option.bind_some, hneed]

end Fields

/-- A record is read back from its fields. -/
theorem record_written {α : Type} {names : List String} {read : Fields → Option α}
    {fields : List (String × Value)} {room : Nat} {a : α} (hroom : 1 ≤ room)
    (h : read ⟨room - 1, fields.map fun p => (p.1, p.2.document), true⟩ = some a) :
    record names read room (Value.obj fields).document = some a := by
  obtain ⟨room, rfl⟩ : ∃ n, room = n + 1 := ⟨room - 1, by omega⟩
  simp only [record, Value.document, fields_of_written]
  exact h

/-- So is one with a tag. -/
theorem tagged_written {α : Type} {name : String} {parts : String → List String}
    {read : Fields → Option α} {fields : List (String × Value)} {room : Nat} {a : α}
    (hroom : 1 ≤ room)
    (h : read ⟨room - 1, fields.map fun p => (p.1, p.2.document), true⟩ = some a) :
    tagged name parts read room (Value.obj fields).document = some a := by
  have hobject : tagged name parts read room (Value.obj fields).document =
      record [] read room (Value.obj fields).document := by
    simp only [tagged, Value.document, Value.documentIn]
  rw [hobject]
  exact record_written hroom h

/-- What a record is read from. -/
theorem record_eq_some {α : Type} {names : List String} {read : Fields → Option α} {room : Nat}
    {document : Document} {a : α} (h : record names read room document = some a) :
    ∃ f : Fields, f.room = room - 1 ∧ read f = some a := by
  simp only [record, Option.bind_eq_bind, Option.bind_eq_some_iff] at h
  obtain ⟨f, hf, h⟩ := h
  exact ⟨f, Fields.room_of? hf, h⟩

namespace Persistent

variable {α : Type} [Codec α] [Persistent α]

/-- The field of a record is read back where it stands. -/
theorem read {room : Nat} (a : α) (hroom : least α ≤ room) (hvalid : Valid room a)
    (hlegible : Legible a) : Codec.decode room (encode a).document = some a :=
  decode_encode hroom hvalid hlegible

@[simp]
theorem read_string (room : Nat) (s : String) :
    Codec.decode room (encode s).document = some s := rfl

@[simp]
theorem read_bool (room : Nat) (b : Bool) : Codec.decode room (encode b).document = some b := rfl

@[simp]
theorem read_uid (room : Nat) (id : Uid) : Codec.decode room (encode id).document = some id :=
  Uid.decode_encode .spelled room id

@[simp]
theorem read_tier (room : Nat) (t : Tier) : Codec.decode room (encode t).document = some t :=
  Tier.decode_encode .spelled room t

@[simp]
theorem read_word (room : Nat) (n : UInt64) : Codec.decode room (encode n).document = some n :=
  read n (Nat.zero_le _) trivial trivial

theorem read_names {room : Nat} (hroom : 1 ≤ room) (names : List String) :
    Codec.decode room (encode names).document = some names :=
  read names hroom (fun _ _ => trivial) (fun _ _ => trivial)

end Persistent

end Engram.Json

namespace Engram

open Json Persistent

/-- A value whose literal is read back is a number. -/
theorem Json.IsLegible.defined {d : Number.Double} (legible : IsLegible d.toFloat) : ¬ d.isNaN := by
  obtain ⟨_, hreading, _⟩ := legible
  intro undefined
  have hread : d.toFloat = 0.0 / 0.0 :=
    Number.Double.toFloat_of_isNaN undefined (by decide +kernel)
  have hnone : Number.Reading.ofFloat (0.0 / 0.0) = .undefined := by decide +kernel
  rw [hread, hnone] at hreading
  cases hreading

instance : Persistent Number.Double where
  least := 0
  Valid _ _ := True
  Legible d := IsLegible d.toFloat
  decode_encode := by
    intro room d _ _ legible
    have hread := read d.toFloat (Nat.zero_le room) trivial legible
    change (Codec.decode room (encode d.toFloat).document).map _ = some d
    rw [hread]
    exact congrArg some (Number.Double.ofFloat_toFloat legible.defined)
  valid_of_decode _ _ := trivial

instance : Persistent Memory where
  least := 2
  Valid _ m := m.timestamp.IsValid
  Legible m := IsLegible m.importance.toFloat ∧ ∀ x ∈ m.embedding, IsLegibleNarrow x
  decode_encode := by
    rintro room m hroom hvalid ⟨himportance, hembedding⟩
    have hone : 1 ≤ room - 1 := by omega
    apply record_written (by omega)
    simp [Fields.need, Fields.find?, List.filter, read_names hone,
      read m.timestamp (Nat.zero_le _) hvalid trivial,
      read m.embedding hone (fun _ _ => trivial) hembedding,
      read m.importance (Nat.zero_le _) trivial himportance]
  valid_of_decode := by
    intro room document m hroom h
    obtain ⟨f, -, h⟩ := record_eq_some h
    simp only [Option.bind_eq_bind, Option.bind_eq_some_iff] at h
    obtain ⟨id, -, content, -, tier, -, time, htime, embedding, -, importance, -, associations, -,
      retrievals, -, h⟩ := h
    obtain rfl := Option.some.inj h
    exact Fields.valid_of_need (Nat.zero_le _) htime

instance : Persistent Experience where
  least := 2
  Valid _ e := e.timestamp.IsValid
  Legible _ := True
  decode_encode := by
    intro room e hroom hvalid _
    apply record_written (by omega)
    simp [Fields.need, Fields.find?, List.filter, read_names (show 1 ≤ room - 1 by omega),
      read e.timestamp (Nat.zero_le _) hvalid trivial]
  valid_of_decode := by
    intro room document e hroom h
    obtain ⟨f, -, h⟩ := record_eq_some h
    simp only [Option.bind_eq_bind, Option.bind_eq_some_iff] at h
    obtain ⟨id, -, input, -, output, -, concepts, -, tier, -, time, htime, h⟩ := h
    obtain rfl := Option.some.inj h
    exact Fields.valid_of_need (Nat.zero_le _) htime

instance : Persistent PatternKind := ofTotal fun _ kind => by cases kind <;> rfl

instance : Persistent Pattern where
  least := 2
  Valid _ p := p.discoveredAt.IsValid
  Legible p := IsLegible p.importance.toFloat
  decode_encode := by
    intro room p hroom hvalid himportance
    have hone : 1 ≤ room - 1 := by omega
    apply record_written (by omega)
    simp [Fields.need, Fields.find?, List.filter, read_names hone,
      read p.kind (Nat.zero_le _) trivial trivial,
      read p.importance (Nat.zero_le _) trivial himportance,
      read p.experienceIds hone (fun _ _ => trivial) (fun _ _ => trivial),
      read p.discoveredAt (Nat.zero_le _) hvalid trivial]
  valid_of_decode := by
    intro room document p hroom h
    obtain ⟨f, -, h⟩ := record_eq_some h
    simp only [Option.bind_eq_bind, Option.bind_eq_some_iff] at h
    obtain ⟨id, -, kind, -, concepts, -, occurrences, -, importance, -, ids, -, time, htime, h⟩ := h
    obtain rfl := Option.some.inj h
    exact Fields.valid_of_need (Nat.zero_le _) htime

/-- An entry that can be written and read again. Its associations are a set, and are read as one. -/
structure KnowledgeEntry.IsStorable (e : KnowledgeEntry) : Prop where
  associations : Names.Strict e.associations
  updatedAt : e.updatedAt.IsValid

instance : Persistent KnowledgeEntry where
  least := 2
  Valid _ := KnowledgeEntry.IsStorable
  Legible e := IsLegible e.importance
  decode_encode := by
    intro room e hroom hvalid himportance
    have hone : 1 ≤ room - 1 := by omega
    apply record_written (by omega)
    simp [Fields.need, Fields.maybe, Fields.find?, List.filter, read_names hone,
      Names.ofList_of_strict hvalid.associations,
      read e.follows (Nat.zero_le _) (fun _ _ => trivial) (fun _ _ => trivial),
      read e.importance (Nat.zero_le _) trivial himportance,
      read e.updatedAt (Nat.zero_le _) hvalid.updatedAt trivial]
  valid_of_decode := by
    intro room document e hroom h
    obtain ⟨f, -, h⟩ := record_eq_some h
    simp only [Option.bind_eq_bind, Option.bind_eq_some_iff] at h
    obtain ⟨associations, -, concept, -, frequency, -, follows, -, importance, -, revision, -,
      trained, -, time, htime, h⟩ := h
    obtain rfl := Option.some.inj h
    exact ⟨Names.strict_ofList associations, Fields.valid_of_need (Nat.zero_le _) htime⟩

/-- Counters that can be written and read again. -/
structure DailyMetrics.IsStorable (m : DailyMetrics) : Prop where
  experiences : m.experiences ≤ wordMax
  recurringPatterns : m.recurringPatterns ≤ wordMax
  sequentialPatterns : m.sequentialPatterns ≤ wordMax
  coOccurrencePatterns : m.coOccurrencePatterns ≤ wordMax
  knowledgeTouched : m.knowledgeTouched ≤ wordMax
  conflictsResolved : m.conflictsResolved ≤ wordMax
  batchesApplied : m.batchesApplied ≤ wordMax
  batchesRolledBack : m.batchesRolledBack ≤ wordMax
  memoriesArchived : m.memoriesArchived ≤ wordMax
  ordered : (m.tierSizes.items.map Prod.fst).Sublist Tier.all
  tierSizes : ∀ p ∈ m.tierSizes.items, p.2 ≤ wordMax

/-- A counter that is not given is zero. -/
theorem Json.Fields.count_le {f : Fields} {name : String} {n : Nat}
    (h : f.orDefault name 0 = some n) : n ≤ wordMax :=
  Fields.valid_of_orDefault (Nat.zero_le _) (Nat.zero_le _) h

instance : Persistent DailyMetrics where
  least := 2
  Valid _ := DailyMetrics.IsStorable
  Legible _ := True
  decode_encode := by
    intro room m hroom hvalid _
    have hone : 1 ≤ room - 1 := by omega
    apply record_written (by omega)
    simp [Fields.orDefault, Fields.find?, List.filter,
      read m.experiences (Nat.zero_le _) hvalid.experiences trivial,
      read m.recurringPatterns (Nat.zero_le _) hvalid.recurringPatterns trivial,
      read m.sequentialPatterns (Nat.zero_le _) hvalid.sequentialPatterns trivial,
      read m.coOccurrencePatterns (Nat.zero_le _) hvalid.coOccurrencePatterns trivial,
      read m.knowledgeTouched (Nat.zero_le _) hvalid.knowledgeTouched trivial,
      read m.conflictsResolved (Nat.zero_le _) hvalid.conflictsResolved trivial,
      read m.batchesApplied (Nat.zero_le _) hvalid.batchesApplied trivial,
      read m.batchesRolledBack (Nat.zero_le _) hvalid.batchesRolledBack trivial,
      read m.memoriesArchived (Nat.zero_le _) hvalid.memoriesArchived trivial,
      read m.tierSizes hone ⟨hvalid.ordered, hvalid.tierSizes⟩ (fun _ _ => trivial)]
  valid_of_decode := by
    intro room document m hroom h
    obtain ⟨f, hf, h⟩ := record_eq_some h
    have hone : 1 ≤ f.room := by omega
    simp only [Option.bind_eq_bind, Option.bind_eq_some_iff] at h
    obtain ⟨experiences, hexperiences, recurring, hrecurring, sequential, hsequential, paired,
      hpaired, touched, htouched, resolved, hresolved, applied, happlied, rolledBack, hrolledBack,
      archived, harchived, sizes, hsizes, h⟩ := h
    obtain rfl := Option.some.inj h
    have hempty : Valid f.room (⟨[]⟩ : TierMap Nat) := ⟨List.nil_sublist _, by simp⟩
    obtain ⟨ordered, hsizes⟩ := Fields.valid_of_orDefault hone hempty hsizes
    exact ⟨Fields.count_le hexperiences, Fields.count_le hrecurring, Fields.count_le hsequential,
      Fields.count_le hpaired, Fields.count_le htouched, Fields.count_le hresolved,
      Fields.count_le happlied, Fields.count_le hrolledBack, Fields.count_le harchived, ordered,
      hsizes⟩

/-- An entry that can be written and read again. -/
structure ArchiveEntry.IsStorable (e : ArchiveEntry) : Prop where
  date : e.date.isValid = true
  createdAt : e.createdAt.IsValid
  memories : ∀ m ∈ e.memories, m.timestamp.IsValid
  experiences : ∀ x ∈ e.experiences, x.timestamp.IsValid
  patterns : ∀ p ∈ e.patterns, p.discoveredAt.IsValid
  metrics : e.metrics.IsStorable

instance : Persistent ArchiveEntry where
  least := 4
  Valid _ := ArchiveEntry.IsStorable
  Legible e := (∀ m ∈ e.memories, Legible m) ∧ ∀ p ∈ e.patterns, Legible p
  decode_encode := by
    rintro room e hroom hvalid ⟨hmemories, hpatterns⟩
    have hthree : 3 ≤ room - 1 := by omega
    have htwo : 2 ≤ room - 1 := by omega
    apply record_written (by omega)
    simp [Fields.need, Fields.find?, List.filter,
      read e.date (Nat.zero_le _) hvalid.date trivial,
      read e.createdAt (Nat.zero_le _) hvalid.createdAt trivial,
      read e.memories hthree hvalid.memories hmemories,
      read e.experiences hthree hvalid.experiences (fun _ _ => trivial),
      read e.patterns hthree hvalid.patterns hpatterns,
      read e.metrics htwo hvalid.metrics trivial]
  valid_of_decode := by
    intro room document e hroom h
    obtain ⟨f, hf, h⟩ := record_eq_some h
    have hthree : 3 ≤ f.room := by omega
    have htwo : 2 ≤ f.room := by omega
    simp only [Option.bind_eq_bind, Option.bind_eq_some_iff] at h
    obtain ⟨id, -, date, hdate, time, htime, memories, hmemories, experiences, hexperiences,
      patterns, hpatterns, metrics, hmetrics, h⟩ := h
    obtain rfl := Option.some.inj h
    exact ⟨Fields.valid_of_need (Nat.zero_le _) hdate, Fields.valid_of_need (Nat.zero_le _) htime,
      Fields.valid_of_need hthree hmemories, Fields.valid_of_need hthree hexperiences,
      Fields.valid_of_need hthree hpatterns, Fields.valid_of_need htwo hmetrics⟩

/-- A record of a run that can be written and read again. -/
structure RunRecord.IsStorable (r : RunRecord) : Prop where
  startedAt : r.startedAt.IsValid
  completedAt : r.completedAt.IsValid

instance : Persistent RunRecord where
  least := 1
  Valid _ := RunRecord.IsStorable
  Legible _ := True
  decode_encode := by
    intro room r hroom hvalid _
    apply record_written hroom
    simp [Fields.need, Fields.find?, List.filter,
      read r.startedAt (Nat.zero_le _) hvalid.startedAt trivial,
      read r.completedAt (Nat.zero_le _) hvalid.completedAt trivial]
  valid_of_decode := by
    intro room document r hroom h
    obtain ⟨f, -, h⟩ := record_eq_some h
    simp only [Option.bind_eq_bind, Option.bind_eq_some_iff] at h
    obtain ⟨id, -, startedAt, hstartedAt, completedAt, hcompletedAt, completed, -, summary, -,
      h⟩ := h
    obtain rfl := Option.some.inj h
    exact ⟨Fields.valid_of_need (Nat.zero_le _) hstartedAt,
      Fields.valid_of_need (Nat.zero_le _) hcompletedAt⟩

/-- A pending day that can be written and read again. -/
structure PendingDay.IsStorable (d : PendingDay) : Prop where
  savedAt : d.savedAt.IsValid
  day : d.day.isValid = true
  memories : ∀ m ∈ d.memories, m.timestamp.IsValid
  experiences : ∀ x ∈ d.experiences, x.timestamp.IsValid

instance : Persistent PendingDay where
  least := 4
  Valid _ := PendingDay.IsStorable
  Legible d := ∀ m ∈ d.memories, Legible m
  decode_encode := by
    intro room d hroom hvalid hmemories
    have hthree : 3 ≤ room - 1 := by omega
    apply record_written (by omega)
    simp [Fields.need, Fields.find?, List.filter,
      read d.savedAt (Nat.zero_le _) hvalid.savedAt trivial,
      read d.day (Nat.zero_le _) hvalid.day trivial,
      read d.memories hthree hvalid.memories hmemories,
      read d.experiences hthree hvalid.experiences (fun _ _ => trivial)]
  valid_of_decode := by
    intro room document d hroom h
    obtain ⟨f, hf, h⟩ := record_eq_some h
    have hthree : 3 ≤ f.room := by omega
    simp only [Option.bind_eq_bind, Option.bind_eq_some_iff] at h
    obtain ⟨time, htime, day, hday, memories, hmemories, experiences, hexperiences, h⟩ := h
    obtain rfl := Option.some.inj h
    exact ⟨Fields.valid_of_need (Nat.zero_le _) htime, Fields.valid_of_need (Nat.zero_le _) hday,
      Fields.valid_of_need hthree hmemories, Fields.valid_of_need hthree hexperiences⟩

attribute [simp] Value.Valid.str Value.Legible.str

instance : Persistent BatchOutcome where
  least := 1
  Valid _ _ := True
  Legible outcome := ∀ x, outcome = .applied (some x) → IsLegible x
  decode_encode := by
    intro room outcome hroom _ legible
    cases outcome with
    | applied loss =>
        have hloss : ∀ x ∈ loss, IsLegible x := fun x hx => legible x (by rw [hx])
        have hvalue : (encode loss).Valid (room - 1) ∧ (encode loss).Legible := by
          cases loss with
          | none => exact ⟨.null, .null⟩
          | some x => exact ⟨.float x, .float (hloss x rfl)⟩
        apply tagged_written hroom
        rw [Fields.tag_written "applied" (by simpa using hvalue) rfl]
        simp [Fields.maybe, Fields.find?, List.filter,
          read loss (Nat.zero_le _) (fun _ _ => trivial) hloss]
    | rolledBack reason =>
        apply tagged_written hroom
        rw [Fields.tag_written "rolledBack" (by simp) rfl]
        rfl
    | skipped =>
        apply tagged_written hroom
        rw [Fields.tag_written "skipped" (by simp) rfl]
        rfl
  valid_of_decode _ _ := trivial

/-- A report on a batch that can be written and read again. -/
structure BatchReport.IsStorable (r : BatchReport) : Prop where
  index : r.index ≤ wordMax
  examples : r.examples ≤ wordMax

instance : Persistent BatchReport where
  least := 2
  Valid _ := BatchReport.IsStorable
  Legible r := Legible r.outcome
  decode_encode := by
    intro room r hroom hvalid legible
    have hone : 1 ≤ room - 1 := by omega
    apply record_written (by omega)
    simp [Fields.need, Fields.find?, List.filter,
      read r.index (Nat.zero_le _) hvalid.index trivial,
      read r.examples (Nat.zero_le _) hvalid.examples trivial,
      read r.outcome hone trivial legible]
  valid_of_decode := by
    intro room document r hroom h
    obtain ⟨f, -, h⟩ := record_eq_some h
    simp only [Option.bind_eq_bind, Option.bind_eq_some_iff] at h
    obtain ⟨id, -, index, hindex, examples, hexamples, outcome, -, h⟩ := h
    obtain rfl := Option.some.inj h
    exact ⟨Fields.valid_of_need (Nat.zero_le _) hindex,
      Fields.valid_of_need (Nat.zero_le _) hexamples⟩

instance : Persistent NightlyPhase := ofTotal fun _ phase => by cases phase <;> rfl

instance : Persistent PhaseStatus where
  least := 1
  Valid _ _ := True
  Legible _ := True
  decode_encode := by
    intro room status hroom _ _
    cases status
    all_goals
      apply tagged_written hroom
      rw [Fields.tag_written _ (by simp) rfl]
      rfl
  valid_of_decode _ _ := trivial

/-- The result of a phase that can be written and read again. -/
structure PhaseResult.IsStorable (r : PhaseResult) : Prop where
  durationMs : r.durationMs ≤ wordMax
  itemsProcessed : r.itemsProcessed ≤ wordMax

instance : Persistent PhaseResult where
  least := 2
  Valid _ := PhaseResult.IsStorable
  Legible _ := True
  decode_encode := by
    intro room r hroom hvalid _
    have hone : 1 ≤ room - 1 := by omega
    apply record_written (by omega)
    simp [Fields.need, Fields.find?, List.filter, read_names hone,
      read r.phase (Nat.zero_le _) trivial trivial, read r.status hone trivial trivial,
      read r.durationMs (Nat.zero_le _) hvalid.durationMs trivial,
      read r.itemsProcessed (Nat.zero_le _) hvalid.itemsProcessed trivial]
  valid_of_decode := by
    intro room document r hroom h
    obtain ⟨f, -, h⟩ := record_eq_some h
    simp only [Option.bind_eq_bind, Option.bind_eq_some_iff] at h
    obtain ⟨phase, -, status, -, duration, hduration, items, hitems, actions, -, h⟩ := h
    obtain rfl := Option.some.inj h
    exact ⟨Fields.valid_of_need (Nat.zero_le _) hduration,
      Fields.valid_of_need (Nat.zero_le _) hitems⟩

/-- A report on a night that can be written and read again. -/
structure NightlyReport.IsStorable (r : NightlyReport) : Prop where
  startedAt : r.startedAt.IsValid
  completedAt : r.completedAt.IsValid
  phases : ∀ p ∈ r.phases, p.IsStorable
  batches : ∀ b ∈ r.batches, b.IsStorable
  patterns : r.patterns ≤ wordMax
  metrics : r.metrics.IsStorable

instance : Persistent NightlyReport where
  least := 4
  Valid _ := NightlyReport.IsStorable
  Legible r := ∀ b ∈ r.batches, Legible b
  decode_encode := by
    intro room r hroom hvalid hbatches
    have hthree : 3 ≤ room - 1 := by omega
    have htwo : 2 ≤ room - 1 := by omega
    apply record_written (by omega)
    simp [Fields.need, Fields.maybe, Fields.find?, List.filter,
      read r.startedAt (Nat.zero_le _) hvalid.startedAt trivial,
      read r.completedAt (Nat.zero_le _) hvalid.completedAt trivial,
      read r.phases hthree hvalid.phases (fun _ _ => trivial),
      read r.batches hthree hvalid.batches hbatches,
      read r.patterns (Nat.zero_le _) hvalid.patterns trivial,
      read r.archiveEntry (Nat.zero_le _) (fun _ _ => trivial) (fun _ _ => trivial),
      read r.metrics htwo hvalid.metrics trivial]
  valid_of_decode := by
    intro room document r hroom h
    obtain ⟨f, hf, h⟩ := record_eq_some h
    have hthree : 3 ≤ f.room := by omega
    have htwo : 2 ≤ f.room := by omega
    simp only [Option.bind_eq_bind, Option.bind_eq_some_iff] at h
    obtain ⟨startedAt, hstartedAt, completedAt, hcompletedAt, phases, hphases, batches, hbatches,
      patterns, hpatterns, entry, -, metrics, hmetrics, completed, -, h⟩ := h
    obtain rfl := Option.some.inj h
    exact ⟨Fields.valid_of_need (Nat.zero_le _) hstartedAt,
      Fields.valid_of_need (Nat.zero_le _) hcompletedAt, Fields.valid_of_need hthree hphases,
      Fields.valid_of_need hthree hbatches, Fields.valid_of_need (Nat.zero_le _) hpatterns,
      Fields.valid_of_need htwo hmetrics⟩

/-- A map without entries takes one level of nesting. -/
theorem Json.valid_empty {room : Nat} (hroom : 1 ≤ room) : (Value.obj []).Valid room := by
  obtain ⟨room, rfl⟩ : ∃ n, room = n + 1 := ⟨room - 1, by omega⟩
  exact .obj .nil (by simp)

/-- The metadata stand one level below the input. -/
instance : Persistent Input where
  least := 2
  Valid room i := (Value.obj i.metadata).Valid (room - 1)
  Legible i := (∀ x ∈ i.importance, IsLegible x) ∧ (Value.obj i.metadata).Legible
  decode_encode := by
    rintro room ⟨text, kind, importance, metadata⟩ hroom hvalid ⟨himportance, hmetadata⟩
    have hone : 1 ≤ room - 1 := by omega
    apply record_written (by omega)
    -- A kind or an importance that is missing is not written at all.
    have hkind : ∀ k : String, Codec.decode (room - 1) (encode k).document = some (some k) :=
      fun k => read (some k) (Nat.zero_le _) (fun _ _ => trivial) (fun _ _ => trivial)
    have hshare : ∀ x ∈ importance, Codec.decode (room - 1) (encode x).document = some (some x) :=
      fun x hx => read (some x) (Nat.zero_le _) (fun _ _ => trivial) (hx ▸ himportance)
    cases kind <;> cases importance <;>
      simp_all [Fields.need, Fields.orDefault, Fields.find?, List.filter,
        read metadata hone hvalid hmetadata]
  valid_of_decode := by
    intro room document i hroom h
    obtain ⟨f, hf, h⟩ := record_eq_some h
    have hone : 1 ≤ f.room := by omega
    simp only [Option.bind_eq_bind, Option.bind_eq_some_iff] at h
    obtain ⟨text, -, kind, -, importance, -, metadata, hmetadata, h⟩ := h
    obtain rfl := Option.some.inj h
    rw [← hf]
    exact Fields.valid_of_orDefault hone (valid_empty hone) hmetadata

/-- A record of an interaction that can be written and read again in the given room. -/
structure ContextItem.IsStorable (room : Nat) (i : ContextItem) : Prop where
  metadata : (Value.obj i.metadata).Valid (room - 1)
  timestamp : i.timestamp.IsValid

instance : Persistent ContextItem where
  least := 2
  Valid := ContextItem.IsStorable
  Legible i := (Value.obj i.metadata).Legible
  decode_encode := by
    intro room i hroom hvalid hmetadata
    have hone : 1 ≤ room - 1 := by omega
    apply record_written (by omega)
    simp [Fields.need, Fields.orDefault, Fields.find?, List.filter,
      read i.metadata hone hvalid.metadata hmetadata,
      read i.timestamp (Nat.zero_le _) hvalid.timestamp trivial]
  valid_of_decode := by
    intro room document i hroom h
    obtain ⟨f, hf, h⟩ := record_eq_some h
    have hone : 1 ≤ f.room := by omega
    simp only [Option.bind_eq_bind, Option.bind_eq_some_iff] at h
    obtain ⟨input, -, output, -, metadata, hmetadata, time, htime, h⟩ := h
    obtain rfl := Option.some.inj h
    refine ⟨?_, Fields.valid_of_need (Nat.zero_le _) htime⟩
    rw [← hf]
    exact Fields.valid_of_orDefault hone (valid_empty hone) hmetadata

namespace Json

/-- Every value that can be written is read back from its text, whichever text it was read from. -/
structure RoundTrips (α : Type) [Codec α] [Persistent α] : Prop where
  of_value (a : α) : Storable a → decodeText (encode a).compact = some a
  of_text (text : String) (a : α) : decodeText text = some a → Legible a →
    decodeText (encode a).compact = some a

theorem valid_of_decodeText {α : Type} [Codec α] [Persistent α] (hroom : least α ≤ deepest)
    {text : String} {a : α} (h : decodeText text = some a) : Valid deepest a := by
  simp only [decodeText, Option.bind_eq_bind, Option.bind_eq_some_iff] at h
  obtain ⟨document, -, h⟩ := h
  exact valid_of_decode hroom h

theorem roundTrips {α : Type} [Codec α] [Persistent α] (hroom : least α ≤ deepest) :
    RoundTrips α := by
  have hvalue : ∀ a : α, Storable a → decodeText (encode a).compact = some a := by
    rintro a ⟨hvalid, hlegible⟩
    rw [decodeText_compact]
    exact decode_encode hroom hvalid hlegible
  exact ⟨hvalue, fun text a h hlegible => hvalue a ⟨valid_of_decodeText hroom h, hlegible⟩⟩

/-- What is kept or reported is read back from its text. Dates and times of years 0 to 9999 are
among those that can be written. -/
theorem persisted_formats_round_trip :
    (∀ d : Time.Date, d.IsPlain → Valid deepest d) ∧
    (∀ t : Time.Instant, t.date.IsPlain → t.nanos < Time.billion → Valid deepest t) ∧
    RoundTrips Input ∧ RoundTrips ContextItem ∧ RoundTrips Memory ∧ RoundTrips Experience ∧
    RoundTrips Pattern ∧ RoundTrips KnowledgeEntry ∧ RoundTrips DailyMetrics ∧
    RoundTrips ArchiveEntry ∧ RoundTrips PendingDay ∧ RoundTrips RunRecord ∧
    RoundTrips BatchReport ∧ RoundTrips NightlyReport := by
  refine ⟨fun _ => Time.Date.isValid_of_plain, fun _ => Time.Instant.isValid_of_plain, ?_⟩
  refine ⟨?_, ?_, ?_, ?_, ?_, ?_, ?_, ?_, ?_, ?_, ?_, ?_⟩
  all_goals exact roundTrips (by decide)

namespace Sample

/-- An input whose text is escaped and whose metadata nest. -/
def input : Input where
  text := "a \"quoted\"\tline\n\x01 — ünïcode"
  kind := none
  importance := some 0.1
  metadata := [("at", .arr [.float (-2.5), .int (-3), .null]), ("of", .obj [])]

def memory : Memory where
  id := ⟨1⟩
  content := ""
  tier := .semantic
  timestamp := ⟨-62167219200, 1⟩
  embedding := []
  importance := 0.7
  associations := ["b", "a"]
  retrievals := 3

def pattern : Pattern where
  id := "recurring:a"
  kind := .recurring
  concepts := ["a"]
  occurrences := 2
  importance := 1e-7
  experienceIds := [⟨2⟩, ⟨3⟩]
  discoveredAt := ⟨1773039901, 0⟩

def entry : ArchiveEntry where
  id := ⟨7⟩
  date := ⟨20521⟩
  createdAt := ⟨1773039901, 250000000⟩
  memories := [memory]
  experiences := []
  patterns := [pattern]
  metrics := { tierSizes := ⟨[(.working, 1), (.procedural, 0)]⟩ }

theorem storable_input : Storable input := by
  constructor
  · have hitems : (Value.arr [.float (-2.5), .int (-3), .null]).Valid 125 := by
      apply Value.Valid.arr
      simpa using ⟨.float _, .int (by decide) (by decide), .null⟩
    apply Value.Valid.obj
    · change List.Pairwise (· < ·) ["at", "of"]
      decide
    · simpa [input] using ⟨hitems, .obj .nil (by simp)⟩
  · have hitems : (Value.arr [.float (-2.5), .int (-3), .null]).Legible := by
      apply Value.Legible.arr
      simpa using ⟨.float ⟨_, rfl, rfl⟩, .int _, .null⟩
    refine ⟨by simpa [input] using ⟨_, rfl, rfl⟩, .obj ?_⟩
    simpa [input] using ⟨hitems, .obj (by simp)⟩

theorem storable_memory : Storable memory :=
  ⟨⟨by decide, .inl (by decide)⟩, ⟨_, rfl, rfl⟩, by simp [memory]⟩

theorem storable_pattern : Storable pattern :=
  ⟨⟨by decide, .inl (by decide)⟩, _, rfl, rfl⟩

theorem storable_entry : Storable entry := by
  constructor
  · exact ⟨by decide, ⟨by decide, .inl (by decide)⟩,
      List.forall_mem_singleton.mpr storable_memory.1, by simp [entry],
      List.forall_mem_singleton.mpr storable_pattern.1, by constructor <;> decide⟩
  · exact ⟨List.forall_mem_singleton.mpr storable_memory.2,
      List.forall_mem_singleton.mpr storable_pattern.2⟩

end Sample

theorem persisted_formats_round_trip_sample :
    Storable Sample.input ∧ decodeText (encode Sample.input).compact = some Sample.input ∧
    Storable Sample.entry ∧ decodeText (encode Sample.entry).compact = some Sample.entry :=
  ⟨Sample.storable_input, persisted_formats_round_trip.2.2.1.of_value _ Sample.storable_input,
    Sample.storable_entry,
    persisted_formats_round_trip.2.2.2.2.2.2.2.2.2.1.of_value _ Sample.storable_entry⟩

end Json

end Engram
