import Engram.Proofs.Alignment

/-! Which checkpoints are refused. A restore reads the saved tiers, the saved day and the saved
knowledge and checks all of it before anything is put in place, so a refusal leaves the mind as it was,
and the error is about the first fault in this order. -/
namespace Engram.Mind

/-- A saved memory belongs to a tier and has the right width. -/
def Suits (dimension : Nat) (tier : Tier) (m : Memory) : Prop :=
  m.embedding.length = dimension ∧ m.tier = tier

/-- What was saved under a tag can be loaded. -/
def Fitting (dimension : Nat) (saved : String × List Memory) : Prop :=
  ∃ tier, Tier.parse? saved.1 = some tier ∧ ∀ m ∈ saved.2, Suits dimension tier m

/-- The tag stands for no tier, or some memory belongs to another one or has another width. -/
def Faulty (dimension : Nat) (saved : String × List Memory) : Prop :=
  Tier.parse? saved.1 = none ∨
    ∃ m ∈ saved.2, Tier.parse? saved.1 ≠ some m.tier ∨ m.embedding.length ≠ dimension

/-- What is said about the first fault under a tag. -/
inductive Complaint (dimension : Nat) (saved : String × List Memory) : Error → Prop where
  | tag (h : Tier.parse? saved.1 = none) : Complaint dimension saved (.invalidTier saved.1)
  | width {tier : Tier} {before after : List Memory} {m : Memory}
      (named : Tier.parse? saved.1 = some tier) (split : saved.2 = before ++ m :: after)
      (passed : ∀ x ∈ before, Suits dimension tier x) (h : m.embedding.length ≠ dimension) :
      Complaint dimension saved (.dimensionMismatch dimension m.embedding.length)
  | tier {tier : Tier} {before after : List Memory} {m : Memory}
      (named : Tier.parse? saved.1 = some tier) (split : saved.2 = before ++ m :: after)
      (passed : ∀ x ∈ before, Suits dimension tier x) (width : m.embedding.length = dimension)
      (h : m.tier ≠ tier) : Complaint dimension saved
        (.invalidTier (m.tier.name ++ " memory " ++ m.id.text ++ " stored under " ++ saved.1))

section Check

variable {dimension : Nat} {saved : String × List Memory} {e : Error}

theorem not_fitting_iff : ¬ Fitting dimension saved ↔ Faulty dimension saved := by
  unfold Fitting Faulty
  cases htier : Tier.parse? saved.1 with
  | none => simp
  | some tier =>
      simp only [Option.some.injEq, exists_eq_left', reduceCtorEq, false_or, Suits, not_forall,
        not_and_or, exists_prop]
      refine exists_congr fun m => and_congr_right fun _ => ?_
      rw [or_comm, ne_eq, ne_eq, Option.some.injEq, eq_comm (a := tier)]

theorem checkSaved_ok_iff {tag : String} {tier : Tier} {m : Memory} :
    checkSaved dimension tag tier m = .ok () ↔ Suits dimension tier m := by
  refine ⟨fun h => (checkSaved_ok h).symm, fun ⟨hwidth, htier⟩ => ?_⟩
  simp [checkSaved, hwidth, htier]

theorem checkSaved_error_iff {tag : String} {tier : Tier} {m : Memory} :
    checkSaved dimension tag tier m = .error e ↔
      (m.embedding.length ≠ dimension ∧ .dimensionMismatch dimension m.embedding.length = e) ∨
      m.embedding.length = dimension ∧ m.tier ≠ tier ∧
        .invalidTier (m.tier.name ++ " memory " ++ m.id.text ++ " stored under " ++ tag) = e := by
  unfold checkSaved
  by_cases hwidth : m.embedding.length = dimension
  · by_cases htier : m.tier = tier
    · simp [hwidth, htier]
    · simp [hwidth, htier]
  · simp [hwidth]

theorem checkSnapshot_of_tag {tier : Tier} (h : Tier.parse? saved.1 = some tier) :
    checkSnapshot dimension saved =
      (saved.2.forM (checkSaved dimension saved.1 tier)).bind fun _ => .ok (tier, saved.2) := by
  have hparse : Tier.parse saved.1 = .ok tier := by rw [Tier.parse, h]
  rw [checkSnapshot, hparse]
  rfl

theorem checkSnapshot_of_no_tag (h : Tier.parse? saved.1 = none) :
    checkSnapshot dimension saved = .error (.invalidTier saved.1) := by
  have hparse : Tier.parse saved.1 = .error (.invalidTier saved.1) := by rw [Tier.parse, h]
  rw [checkSnapshot, hparse]
  rfl

/-- What passes the check of a snapshot can be loaded, and only that. -/
theorem checkSnapshot_ok_iff :
    (∃ p, checkSnapshot dimension saved = .ok p) ↔ Fitting dimension saved := by
  cases htier : Tier.parse? saved.1 with
  | none => simp [checkSnapshot_of_no_tag htier, Fitting, htier]
  | some tier =>
      have hfits : Fitting dimension saved ↔
          saved.2.forM (checkSaved dimension saved.1 tier) = .ok () := by
        simp only [Fitting, htier, Option.some.injEq, exists_eq_left', forM_ok_iff,
          checkSaved_ok_iff]
      rw [checkSnapshot_of_tag htier, hfits]
      cases saved.2.forM (checkSaved dimension saved.1 tier) with
      | error e => simp [Except.bind]
      | ok _ => simp [Except.bind]

theorem checkSnapshot_error_iff :
    checkSnapshot dimension saved = .error e ↔ Complaint dimension saved e := by
  cases htier : Tier.parse? saved.1 with
  | none =>
      rw [checkSnapshot_of_no_tag htier]
      constructor
      · intro h
        cases h
        exact .tag htier
      · intro h
        cases h with
        | tag _ => rfl
        | width named => rw [htier] at named; cases named
        | tier named => rw [htier] at named; cases named
  | some tier =>
      have hloop : checkSnapshot dimension saved = .error e ↔
          FirstFails (checkSaved dimension saved.1 tier) saved.2 e := by
        rw [checkSnapshot_of_tag htier, ← forM_error_iff]
        cases saved.2.forM (checkSaved dimension saved.1 tier) with
        | error e' => simp [Except.bind]
        | ok _ => simp [Except.bind]
      have hpassed : ∀ {m}, (∃ b, checkSaved dimension saved.1 tier m = .ok b) ↔
          Suits dimension tier m := fun {m} =>
        ⟨fun ⟨_, h⟩ => checkSaved_ok_iff.mp h, fun h => ⟨(), checkSaved_ok_iff.mpr h⟩⟩
      rw [hloop]
      constructor
      · rintro ⟨before, m, after, split, passed, hm⟩
        have passed : ∀ x ∈ before, Suits dimension tier x := fun x hx => hpassed.mp (passed x hx)
        rcases checkSaved_error_iff.mp hm with ⟨hwidth, rfl⟩ | ⟨hwidth, hother, rfl⟩
        · exact .width htier split passed hwidth
        · exact .tier htier split passed hwidth hother
      · intro h
        cases h with
        | tag h => rw [htier] at h; cases h
        | width named split passed h =>
            obtain rfl : _ = tier := Option.some.inj (named.symm.trans htier)
            exact ⟨_, _, _, split, fun x hx => hpassed.mpr (passed x hx),
              checkSaved_error_iff.mpr (.inl ⟨h, rfl⟩)⟩
        | tier named split passed width h =>
            obtain rfl : _ = tier := Option.some.inj (named.symm.trans htier)
            exact ⟨_, _, _, split, fun x hx => hpassed.mpr (passed x hx),
              checkSaved_error_iff.mpr (.inr ⟨width, h, rfl⟩)⟩

theorem checkPendingDay_error_iff {day : PendingDay} :
    checkPendingDay dimension day = .error e ↔ ∃ before m after,
      day.memories = before ++ m :: after ∧ (∀ x ∈ before, x.embedding.length = dimension) ∧
        m.embedding.length ≠ dimension ∧
        .dimensionMismatch dimension m.embedding.length = e := by
  have hfirst : ∀ m, day.memories.find? (fun m => m.embedding.length != dimension) = some m ↔
      ∃ before after, day.memories = before ++ m :: after ∧
        (∀ x ∈ before, x.embedding.length = dimension) ∧ m.embedding.length ≠ dimension := by
    intro m
    rw [List.find?_eq_some_iff_append]
    simp only [bne_iff_ne, Bool.not_eq_true', bne_eq_false_iff_eq]
    constructor
    · rintro ⟨h, before, after, split, passed⟩
      exact ⟨before, after, split, passed, h⟩
    · rintro ⟨before, after, split, passed, h⟩
      exact ⟨h, before, after, split, passed⟩
  unfold checkPendingDay
  cases hfound : day.memories.find? fun m => m.embedding.length != dimension with
  | none =>
      refine iff_of_false (fun h => nomatch h) ?_
      rintro ⟨before, m, after, split, passed, h, _⟩
      have hm := (hfirst m).mpr ⟨before, after, split, passed, h⟩
      rw [hfound] at hm
      cases hm
  | some found =>
      constructor
      · rintro ⟨⟩
        obtain ⟨before, after, split, passed, h⟩ := (hfirst found).mp hfound
        exact ⟨before, found, after, split, passed, h, rfl⟩
      · rintro ⟨before, m, after, split, passed, h, rfl⟩
        have hm := (hfirst m).mpr ⟨before, after, split, passed, h⟩
        rw [hfound] at hm
        cases hm
        rfl

theorem checkPendingDay_ok_iff {day : PendingDay} :
    checkPendingDay dimension day = .ok () ↔ ∀ m ∈ day.memories, m.embedding.length = dimension := by
  refine ⟨width_of_checkPendingDay, fun h => ?_⟩
  cases hcheck : checkPendingDay dimension day with
  | ok _ => rfl
  | error e =>
      obtain ⟨before, m, after, split, _, hm, _⟩ := checkPendingDay_error_iff.mp hcheck
      exact absurd (h m (split ▸ List.mem_append_right _ List.mem_cons_self)) hm

end Check

/-- The width of embeddings, which all that is loaded must have. -/
abbrev dimension (s : Mind) : Nat := s.config.embeddingDimension

/-- What makes a restore fail, with the error it fails with: the first fault in the order in which
the checkpoint is read. -/
inductive Refusal (s : Mind) : Error → Prop where
  | snapshots {e : Error} (h : s.backend.loadSnapshots = .error e) : Refusal s e
  | snapshot {before after : List (String × List Memory)} {saved : String × List Memory} {e : Error}
      (read : s.backend.loadSnapshots = .ok (before ++ saved :: after))
      (passed : ∀ x ∈ before, Fitting s.dimension x) (h : Complaint s.dimension saved e) :
      Refusal s e
  | day {snapshots : List (String × List Memory)} {e : Error}
      (read : s.backend.loadSnapshots = .ok snapshots) (passed : ∀ x ∈ snapshots, Fitting s.dimension x)
      (h : s.backend.loadPendingDay = .error e) : Refusal s e
  | memory {snapshots : List (String × List Memory)} {day : PendingDay} {before after : List Memory}
      {m : Memory} (read : s.backend.loadSnapshots = .ok snapshots)
      (passed : ∀ x ∈ snapshots, Fitting s.dimension x)
      (readDay : s.backend.loadPendingDay = .ok (some day)) (split : day.memories = before ++ m :: after)
      (passedDay : ∀ x ∈ before, x.embedding.length = s.dimension)
      (h : m.embedding.length ≠ s.dimension) :
      Refusal s (.dimensionMismatch s.dimension m.embedding.length)
  | knowledge {snapshots : List (String × List Memory)} {day : Option PendingDay} {e : Error}
      (read : s.backend.loadSnapshots = .ok snapshots)
      (passed : ∀ x ∈ snapshots, Fitting s.dimension x)
      (readDay : s.backend.loadPendingDay = .ok day)
      (passedDay : ∀ d ∈ day, ∀ m ∈ d.memories, m.embedding.length = s.dimension)
      (h : s.backend.loadKnowledge = .error e) : Refusal s e

section Load

variable {s : Mind} {e : Error}

theorem fitting_of_mapM {snapshots : List (String × List Memory)} {tiers : List (Tier × List Memory)}
    (h : snapshots.mapM (checkSnapshot s.dimension) = .ok tiers) :
    ∀ x ∈ snapshots, Fitting s.dimension x :=
  fun x hx => checkSnapshot_ok_iff.mp (ok_of_mapM_ok h x hx)

theorem mapM_of_fitting {snapshots : List (String × List Memory)}
    (h : ∀ x ∈ snapshots, Fitting s.dimension x) :
    ∃ tiers, snapshots.mapM (checkSnapshot s.dimension) = .ok tiers :=
  mapM_ok fun x hx => checkSnapshot_ok_iff.mpr (h x hx)

theorem forM_day_ok_iff {day : Option PendingDay} :
    day.forM (checkPendingDay s.dimension) = .ok () ↔
      ∀ d ∈ day, ∀ m ∈ d.memories, m.embedding.length = s.dimension := by
  cases day with
  | none => exact iff_of_true rfl fun _ h => absurd h (Option.not_mem_none _)
  | some day => simpa [Option.forM] using checkPendingDay_ok_iff

/-- A load fails with the first fault. -/
theorem load_error_iff : s.load = .error e ↔ Refusal s e := by
  unfold load
  simp only [bind_error_iff]
  constructor
  · rintro (h | ⟨snapshots, read, h | ⟨tiers, checked, h | ⟨day, readDay, h | ⟨_, checkedDay, h | h⟩⟩⟩⟩)
    · exact .snapshots h
    · obtain ⟨before, saved, after, rfl, passed, h⟩ := mapM_error_iff.mp h
      exact .snapshot read (fun x hx => checkSnapshot_ok_iff.mp (passed x hx))
        (checkSnapshot_error_iff.mp h)
    · exact .day read (fitting_of_mapM checked) h
    · cases day with
      | none => cases h
      | some day =>
          obtain ⟨before, m, after, split, passedDay, hm, rfl⟩ := checkPendingDay_error_iff.mp h
          exact .memory read (fitting_of_mapM checked) readDay split passedDay hm
    · exact .knowledge read (fitting_of_mapM checked) readDay (forM_day_ok_iff.mp checkedDay) h
    · obtain ⟨_, _, h⟩ := h
      cases h
  · intro refusal
    cases refusal with
    | snapshots h => exact .inl h
    | snapshot read passed h =>
        refine .inr ⟨_, read, .inl (mapM_error_iff.mpr ⟨_, _, _, rfl, ?_, ?_⟩)⟩
        · exact fun x hx => checkSnapshot_ok_iff.mpr (passed x hx)
        · exact checkSnapshot_error_iff.mpr h
    | day read passed h =>
        obtain ⟨tiers, checked⟩ := mapM_of_fitting passed
        exact .inr ⟨_, read, .inr ⟨tiers, checked, .inl h⟩⟩
    | memory read passed readDay split passedDay h =>
        obtain ⟨tiers, checked⟩ := mapM_of_fitting passed
        refine .inr ⟨_, read, .inr ⟨tiers, checked, .inr ⟨_, readDay, .inl ?_⟩⟩⟩
        exact checkPendingDay_error_iff.mpr ⟨_, _, _, split, passedDay, h, rfl⟩
    | knowledge read passed readDay passedDay h =>
        obtain ⟨tiers, checked⟩ := mapM_of_fitting passed
        exact .inr ⟨_, read, .inr ⟨tiers, checked, .inr ⟨_, readDay,
          .inr ⟨(), forM_day_ok_iff.mpr passedDay, .inl h⟩⟩⟩⟩

theorem Complaint.faulty {dimension : Nat} {saved : String × List Memory}
    (complaint : Complaint dimension saved e) : Faulty dimension saved := by
  rw [← not_fitting_iff, ← checkSnapshot_ok_iff, checkSnapshot_error_iff.mpr complaint]
  rintro ⟨_, ⟨⟩⟩

/-- An error that is about a tag or a width. -/
def Tells (dimension : Nat) (e : Error) : Prop :=
  (∃ text, e = .invalidTier text) ∨ ∃ actual, e = .dimensionMismatch dimension actual

theorem Complaint.tells {dimension : Nat} {saved : String × List Memory}
    (complaint : Complaint dimension saved e) : Tells dimension e := by
  cases complaint with
  | tag h => exact .inl ⟨_, rfl⟩
  | width named split passed h => exact .inr ⟨_, rfl⟩
  | tier named split passed width h => exact .inl ⟨_, rfl⟩

theorem restore_error_iff {s' : Mind} : s.restore = (s', .error e) ↔ s' = s ∧ Refusal s e := by
  rw [← load_error_iff]
  unfold restore
  cases s.load with
  | error e' => simp [eq_comm]
  | ok loaded => simp

/-- Some of what was read cannot be loaded. -/
def Unloadable (s : Mind) (snapshots : List (String × List Memory)) (day : Option PendingDay) : Prop :=
  (∃ saved ∈ snapshots, Faulty s.dimension saved) ∨
    ∃ d ∈ day, ∃ m ∈ d.memories, m.embedding.length ≠ s.dimension

variable {snapshots : List (String × List Memory)} {day : Option PendingDay}
  {knowledge : List KnowledgeEntry}

/-- If all can be read, a refusal is about what was read. -/
theorem Refusal.unloadable (refusal : Refusal s e) (read : s.backend.loadSnapshots = .ok snapshots)
    (readDay : s.backend.loadPendingDay = .ok day)
    (readKnowledge : s.backend.loadKnowledge = .ok knowledge) :
    Unloadable s snapshots day ∧ Tells s.dimension e := by
  cases refusal with
  | snapshots h =>
      rw [read] at h
      cases h
  | snapshot h passed complaint =>
      cases read.symm.trans h
      exact ⟨.inl ⟨_, List.mem_append_right _ List.mem_cons_self, complaint.faulty⟩, complaint.tells⟩
  | day _ _ h =>
      rw [readDay] at h
      cases h
  | memory _ _ h split _ hm =>
      cases readDay.symm.trans h
      refine ⟨.inr ⟨_, rfl, _, split ▸ List.mem_append_right _ List.mem_cons_self, hm⟩, ?_⟩
      exact .inr ⟨_, rfl⟩
  | knowledge _ _ _ _ h =>
      rw [readKnowledge] at h
      cases h

theorem loadable_of_load_ok {loaded : Loaded} (h : s.load = .ok loaded)
    (read : s.backend.loadSnapshots = .ok snapshots) (readDay : s.backend.loadPendingDay = .ok day) :
    ¬ Unloadable s snapshots day := by
  obtain ⟨_, hread, checked, hday, _⟩ := load_ok_cases h
  cases read.symm.trans hread
  cases readDay.symm.trans hday
  rintro (⟨saved, hsaved, faulty⟩ | ⟨d, hd, m, hm, hwidth⟩)
  · exact not_fitting_iff.mpr faulty (fitting_of_mapM checked saved hsaved)
  · exact hwidth ((load_aligned h).2 d hd m hm)

end Load

/-- A restore fails exactly with the first fault of the checkpoint, and then nothing has changed. If
all of the checkpoint can be read, it fails exactly if some tag stands for no tier, some memory was
saved under the tag of another tier, or some memory has another width, and the error is about a tag or
a width. -/
theorem restore_is_all_or_nothing (s : Mind) :
    (∀ s' e, s.restore = (s', .error e) ↔ s' = s ∧ Refusal s e) ∧
      ∀ snapshots day knowledge, s.backend.loadSnapshots = .ok snapshots →
        s.backend.loadPendingDay = .ok day → s.backend.loadKnowledge = .ok knowledge →
        (Unloadable s snapshots day ↔ ∃ e, s.restore = (s, .error e) ∧ Tells s.dimension e) ∧
          (¬ Unloadable s snapshots day ↔ ∃ s' n, s.restore = (s', .ok n)) := by
  refine ⟨fun s' e => restore_error_iff, fun snapshots day knowledge read readDay readKnowledge => ?_⟩
  cases hload : s.load with
  | error e =>
      have refusal := load_error_iff.mp hload
      obtain ⟨unloadable, tells⟩ := refusal.unloadable read readDay readKnowledge
      have hrestore : s.restore = (s, .error e) := restore_error_iff.mpr ⟨rfl, refusal⟩
      refine ⟨iff_of_true unloadable ⟨e, hrestore, tells⟩, iff_of_false (not_not_intro unloadable) ?_⟩
      rintro ⟨s', n, h⟩
      cases congrArg Prod.snd (hrestore.symm.trans h)
  | ok loaded =>
      have loadable := loadable_of_load_ok hload read readDay
      have hrestore : s.restore = (s.adopt loaded, .ok (countSaved loaded.tiers)) := by
        rw [restore, hload]
      refine ⟨iff_of_false loadable ?_, iff_of_true loadable ⟨_, _, hrestore⟩⟩
      rintro ⟨e, h, _⟩
      cases congrArg Prod.snd (hrestore.symm.trans h)

namespace Sample

/-- The second tag has a memory of another tier. -/
def misplaced : List (String × List Memory) :=
  [(" Working", [memory 5]), ("episodic", [{ memory 6 with tier := .episodic }, memory 7])]

/-- A mind with a memory of its own that faces these tags. -/
def confronted : Mind :=
  (process (empty (.volatile .empty)) "alpha").setBackend
    (.ofStorage (.volatile { VolatileArchive.empty with snapshots := misplaced }))

end Sample

open Sample in
theorem restore_is_all_or_nothing_sample :
    confronted.backend.loadSnapshots = .ok misplaced ∧
      (confronted.store.memories .working).map (·.content) = ["alpha\nnoted"] ∧
      ∃ e, confronted.restore = (confronted, .error e) ∧ Tells confronted.dimension e := by
  have unloadable : Unloadable confronted misplaced none := by
    refine .inl ⟨("episodic", _), List.mem_cons_of_mem _ List.mem_cons_self, .inr ?_⟩
    refine ⟨memory 7, List.mem_cons_of_mem _ List.mem_cons_self, .inl ?_⟩
    decide +kernel
  refine ⟨rfl, by decide +kernel, ?_⟩
  exact ((restore_is_all_or_nothing confronted).2 misplaced none [] rfl rfl rfl).1.mp unloadable

end Engram.Mind
