import Engram.Proofs.Checkpoint
import Engram.Proofs.Experience

/-! Experiences are sealed at most once. An experience waits in the buffer of the day, in the saved
day and in what a night has read; once it stands in an entry of the log it waits nowhere, so no
later night can read it, whatever fails, and whenever the mind is restored or started again. -/
namespace Engram

/-- Of the experiences that are put back, those that are not in the buffer come in front of it. -/
theorem DayBuffer.ids_restore_sublist (b : DayBuffer) (zone : Time.Zone) (today day : Time.Date)
    (recovered : List Experience) :
    ((b.restore zone today day recovered).experiences.map (·.id)).Sublist
      ((recovered.map (·.id)).filter (!(b.experiences.map (·.id)).contains ·) ++
        b.experiences.map (·.id)) := by
  unfold restore
  split
  · exact List.sublist_append_right _ _
  · rw [List.filter_map, ← List.map_append]
    exact (List.drop_sublist _ _).map _

namespace Mind

/-- Identifiers of experiences that wait: each once, all of them recorded, none of them sealed. -/
structure Waiting (recorded sealed ids : List Uid) : Prop where
  nodup : ids.Nodup
  known : ids ⊆ recorded
  unsealed : ∀ id ∈ ids, id ∉ sealed

namespace Waiting

variable {recorded sealed ids : List Uid}

theorem sublist {fewer : List Uid} (waiting : Waiting recorded sealed ids)
    (h : fewer.Sublist ids) : Waiting recorded sealed fewer :=
  ⟨waiting.nodup.sublist h, fun _ hid => waiting.known (h.subset hid),
    fun id hid => waiting.unsealed id (h.subset hid)⟩

theorem later (waiting : Waiting recorded sealed ids) (new : List Uid) :
    Waiting (recorded ++ new) sealed ids :=
  ⟨waiting.nodup, fun _ hid => List.mem_append_left _ (waiting.known hid), waiting.unsealed⟩

/-- Those that are not among others wait together with them. -/
theorem merge {others : List Uid} (waiting : Waiting recorded sealed ids)
    (also : Waiting recorded sealed others) :
    Waiting recorded sealed (ids.filter (!others.contains ·) ++ others) := by
  refine ⟨?_, ?_, ?_⟩
  · refine List.nodup_append.mpr ⟨waiting.nodup.filter _, also.nodup, ?_⟩
    rintro a ha b hb rfl
    simpa [hb] using (List.mem_filter.mp ha).2
  · exact List.append_subset.mpr
      ⟨fun _ hid => waiting.known (List.mem_of_mem_filter hid), also.known⟩
  · intro id hid
    rcases List.mem_append.mp hid with hid | hid
    · exact waiting.unsealed id (List.mem_of_mem_filter hid)
    · exact also.unsealed id hid

/-- An identifier that was not recorded before waits as well. -/
theorem record {id : Uid} (waiting : Waiting recorded sealed ids) (fresh : id ∉ recorded)
    (known : sealed ⊆ recorded) : Waiting (recorded ++ [id]) sealed (ids ++ [id]) := by
  refine ⟨?_, ?_, ?_⟩
  · refine List.nodup_append.mpr ⟨waiting.nodup, List.nodup_singleton id, ?_⟩
    rintro a ha b hb rfl
    exact fresh (List.mem_singleton.mp hb ▸ waiting.known ha)
  · exact List.append_subset.mpr
      ⟨(waiting.later [id]).known, fun _ hid => List.mem_append_right _ hid⟩
  · intro a ha
    rcases List.mem_append.mp ha with ha | ha
    · exact waiting.unsealed a ha
    · rw [List.mem_singleton.mp ha]
      exact fun h => fresh (known h)

/-- What is sealed does not wait any more. -/
theorem without {read : List Uid} (waiting : Waiting recorded sealed ids) :
    Waiting recorded (sealed ++ read) (ids.filter (!read.contains ·)) := by
  refine ⟨waiting.nodup.filter _, fun _ hid => waiting.known (List.mem_of_mem_filter hid), ?_⟩
  intro id hid hsealed
  obtain ⟨hin, hout⟩ := List.mem_filter.mp hid
  rcases List.mem_append.mp hsealed with hsealed | hsealed
  · exact waiting.unsealed id hin hsealed
  · simp [hsealed] at hout

end Waiting

/-- The experiences of a mind by their identifiers: those of the log are the sealed ones, each
once, and those of the day and of the saved day are waiting. -/
structure Ledger (b₀ : Backend) (recorded sealed : List Uid) (s : Mind) : Prop where
  written : ∃ log, b₀.Extends log s.backend ∧ sealedIds log = sealed
  once : sealed.Nodup
  known : sealed ⊆ recorded
  buffered : Waiting recorded sealed (s.day.experiences.map (·.id))
  listed : ∃ tiers day, s.backend.Saved tiers day ∧ Waiting recorded sealed (PendingDay.idsOf day)

variable {b₀ : Backend} {recorded sealed : List Uid}

/-- A mind with another day over a backend with the same contents. -/
theorem Ledger.quiet {s s' : Mind} (ledger : Ledger b₀ recorded sealed s)
    (backend : s'.backend.contents = s.backend.contents)
    (buffered : Waiting recorded sealed (s'.day.experiences.map (·.id))) :
    Ledger b₀ recorded sealed s' := by
  obtain ⟨log, extends_, ids⟩ := ledger.written
  obtain ⟨tiers, day, saved, listed⟩ := ledger.listed
  refine ⟨⟨log, ?_, ids⟩, ledger.once, ledger.known, buffered, tiers, day,
    saved.of_contents backend, listed⟩
  simpa using extends_.trans (Backend.extends_of_contents backend)

theorem Ledger.later {s : Mind} (ledger : Ledger b₀ recorded sealed s) (new : List Uid) :
    Ledger b₀ (recorded ++ new) sealed s := by
  obtain ⟨tiers, day, saved, listed⟩ := ledger.listed
  exact ⟨ledger.written, ledger.once, fun _ hid => List.mem_append_left _ (ledger.known hid),
    ledger.buffered.later new, tiers, day, saved, listed.later new⟩

/-- The written entry takes its experiences out of the saved day. -/
theorem Ledger.append {s s' : Mind} {entry : ArchiveEntry} (ledger : Ledger b₀ recorded sealed s)
    (read : Waiting recorded sealed (entry.experiences.map (·.id)))
    (backend : s.backend.append entry = .ok s'.backend)
    (day : s'.day.experiences.map (·.id) = (s.day.experiences.map (·.id)).filter
      (!(entry.experiences.map (·.id)).contains ·)) :
    Ledger b₀ recorded (sealed ++ entry.experiences.map (·.id)) s' := by
  obtain ⟨log, extends_, ids⟩ := ledger.written
  obtain ⟨tiers, saved, hsaved, listed⟩ := ledger.listed
  obtain ⟨saved', hsaved', _, pruned⟩ := Backend.append_saved backend hsaved
  refine ⟨⟨log ++ [entry], extends_.trans (Backend.append_extends backend), ?_⟩, ?_, ?_, ?_,
    tiers, saved', hsaved', ?_⟩
  · rw [sealedIds_append, ids]
    simp [sealedIds]
  · refine List.nodup_append.mpr ⟨ledger.once, read.nodup, ?_⟩
    rintro a ha b hb rfl
    exact read.unsealed a hb ha
  · exact List.append_subset.mpr ⟨ledger.known, read.known⟩
  · rw [day]
    exact ledger.buffered.without
  · rw [pruned]
    exact listed.without

/-- What an operation must keep of the experiences, where identifiers are told apart. -/
def Keeps (b₀ : Backend) (s : Mind) (new : List Experience) (s' : Mind) : Prop :=
  ∀ recorded sealed : List Uid, (recorded ++ new.map (·.id)).Nodup →
    Ledger b₀ recorded sealed s → Ledger b₀ (recorded ++ new.map (·.id)) sealed s'

theorem Keeps.refl (s : Mind) : Keeps b₀ s [] s := by
  intro recorded sealed _ ledger
  exact ledger.later _

theorem Keeps.trans {s s' s'' : Mind} {new more : List Experience} (first : Keeps b₀ s new s')
    (second : Keeps b₀ s' more s'') : Keeps b₀ s (new ++ more) s'' := by
  intro recorded sealed distinct ledger
  rw [List.map_append, ← List.append_assoc] at distinct ⊢
  exact second _ _ distinct (first _ _ (List.nodup_append.mp distinct).1 ledger)

/-- Neither the day nor the archive changes. -/
theorem Keeps.quiet {s s' : Mind} (day : s'.day = s.day) (archive : s'.archive = s.archive) :
    Keeps b₀ s [] s' := by
  intro recorded sealed _ ledger
  refine (ledger.quiet ?_ ?_).later _
  · unfold Mind.backend
    rw [archive]
  · rw [day]
    exact ledger.buffered

theorem Keeps.turn {s s' : Mind} {new : List Experience} (turn : Turn s new s') :
    Keeps b₀ s new s' := by
  intro recorded sealed distinct ledger
  have still : s'.day = s.day → Waiting recorded sealed (s'.day.experiences.map (·.id)) := by
    intro day
    rw [day]
    exact ledger.buffered
  cases turn with
  | rest frame day backend => exact (ledger.quiet backend (still day)).later []
  | recorded zone e frame day backend =>
      refine (ledger.later [e.id]).quiet backend ?_
      have fresh : e.id ∉ recorded := fun h =>
        (List.nodup_append.mp distinct).2.2 e.id h e.id List.mem_cons_self rfl
      have kept : Waiting recorded sealed
          ((DayBuffer.bound (s.day.capacity - 1) s.day.experiences).map (·.id)) :=
        ledger.buffered.sublist ((List.drop_sublist _ _).map _)
      rw [day, DayBuffer.record, List.map_append]
      exact kept.record fresh ledger.known
  | sealed entry bare frame day backend =>
      have none : Waiting recorded sealed (entry.experiences.map (·.id)) := by
        rw [bare]
        exact ledger.buffered.sublist (List.nil_sublist _)
      have written := ledger.append none backend (by rw [day, bare]; simp)
      rw [bare] at written
      simpa using written
  | saved c listed frame day backend =>
      obtain ⟨log, extends_, ids⟩ := ledger.written
      obtain ⟨tiers, old, saved, waiting⟩ := ledger.listed
      obtain ⟨_, unwritten, count, _, hall⟩ := s.backend.saveCheckpoint_spec c
      obtain ⟨new, either, _, saved'⟩ := hall tiers old saved
      rw [← backend] at unwritten saved'
      refine Ledger.later ⟨⟨log, by simpa using extends_.trans unwritten, ids⟩, ledger.once,
        ledger.known, still day, _, new, saved', ?_⟩ []
      rcases either with rfl | rfl
      · exact waiting
      · rw [PendingDay.idsOf, Option.elim_some, listed]
        exact ledger.buffered

theorem Keeps.turns {s s' : Mind} {new : List Experience} (turns : Turns s new s') :
    Keeps b₀ s new s' :=
  turns.follows Keeps.refl Keeps.trans Keeps.turn

/-- A checkpoint that is taken up puts back what waits in the saved day. -/
theorem Keeps.restore (s : Mind) : Keeps b₀ s [] s.restore.1 := by
  intro recorded sealed _ ledger
  refine Ledger.later ?_ _
  unfold Mind.restore
  cases hload : s.load with
  | error e => exact ledger
  | ok loaded =>
      obtain ⟨_, _, _, hday, _⟩ := load_ok_cases hload
      obtain ⟨tiers, day, saved, listed⟩ := ledger.listed
      rw [← (Backend.keys_loadPendingDay saved hday).2] at listed
      unfold adopt
      simp only
      cases hpending : loaded.pendingDay with
      | none => exact ledger.quiet rfl ledger.buffered
      | some found =>
          refine ledger.quiet rfl ?_
          rw [hpending] at listed
          exact (listed.merge ledger.buffered).sublist (s.day.ids_restore_sublist _ _ _ _)

/-- A foreground call, a change outside, or the saved checkpoint taken up, with what is recorded. -/
inductive Deed (s : Mind) : List Experience → Mind → Prop where
  | act {new : List Experience} {s' : Mind} (act : Act s new s') : Deed s new s'
  | restore : Deed s [] s.restore.1

/-- A deed, a night with deeds at its questions, a restart, or a night that is cut short by a
restart: at one of its questions, or after its phases and before it is recorded and a checkpoint
is saved. -/
inductive Episode (s : Mind) : List Experience → Mind → Prop where
  | deed {new : List Experience} {s' : Mind} (deed : Deed s new s') : Episode s new s'
  | nightly {new : List Experience} {s' : Mind} {report : NightlyReport}
      (ends : s.runNightly.Ends (Course Deed) new s' report) : Episode s new s'
  | restart {s' : Mind} (config : Config) (restarted : s.restart config = .ok s') :
      Episode s [] s'
  | crash {new : List Experience} {t s' : Mind} (config : Config)
      (halts : s.nightlyPhases.Halts (Course Deed) new t)
      (restarted : t.restart config = .ok s') : Episode s new s'

/-- A moment in the history of a mind: between two episodes or in the course of a night. -/
inductive Moment (s : Mind) : List Experience → Mind → Prop where
  | between {recorded : List Experience} {s' : Mind} (course : Course Episode s recorded s') :
      Moment s recorded s'
  | during {recorded new : List Experience} {s' t : Mind} (course : Course Episode s recorded s')
      (halts : s'.nightlyPhases.Halts (Course Deed) new t) : Moment s (recorded ++ new) t

theorem Deed.keeps {s s' : Mind} {new : List Experience} (deed : Deed s new s') :
    Keeps b₀ s new s' := by
  cases deed with
  | act act => exact .turns act.turns
  | restore => exact .restore s

theorem abides_keeps : Abides (Course Deed) (Keeps b₀) where
  refl := .refl
  trans := .trans
  between course := course.follows Keeps.refl Keeps.trans Deed.keeps
  drawn _ := .quiet rfl rfl
  learned _ _ := .quiet rfl rfl

/-- The end of a night seals what the night has read, or nothing. -/
theorem Ledger.closes {s s' : Mind} {read : List Experience} {entry : Option Uid}
    (ledger : Ledger b₀ recorded sealed s) (waiting : Waiting recorded sealed (read.map (·.id)))
    (closes : Closes read s s' entry) : ∃ sealed', Ledger b₀ recorded sealed' s' := by
  cases closes with
  | sealed entry zone today holds frame day backend =>
      subst holds
      refine ⟨_, ledger.append waiting backend ?_⟩
      rw [day, DayBuffer.clear, List.filter_map]
      rfl
  | failed frame day backend =>
      refine ⟨sealed, ledger.quiet (by rw [backend]) ?_⟩
      rw [day]
      exact ledger.buffered

/-- In a night, wherever it is left, experiences are sealed at most once. -/
theorem Ledger.halts {s t : Mind} {new : List Experience} (ledger : Ledger b₀ recorded sealed s)
    (halts : s.nightlyPhases.Halts (Course Deed) new t)
    (distinct : (recorded ++ new.map (·.id)).Nodup) :
    ∃ sealed', Ledger b₀ (recorded ++ new.map (·.id)) sealed' t := by
  have integrated : ∀ (s : Mind) patterns, Keeps b₀ s [] (s.integratePhase patterns).1 :=
    fun _ _ => .quiet rfl rfl
  rcases abides_keeps.halted (fun _ => .quiet rfl rfl) integrated halts with
    keeps | ⟨u, p, keeps, last, read⟩
  · exact ⟨sealed, keeps _ _ distinct ledger⟩
  · obtain ⟨v, bounded, closes⟩ := u.finishNight_closes p
    rw [← last, read] at closes
    have before := Keeps.turns bounded _ _ (by simpa using distinct) (keeps _ _ distinct ledger)
    rw [List.map_nil, List.append_nil] at before
    exact before.closes (ledger.buffered.later _) closes

theorem Ledger.restart {s s' : Mind} {config : Config} (ledger : Ledger b₀ recorded sealed s)
    (restarted : s.restart config = .ok s') : Ledger b₀ recorded sealed s' := by
  unfold Mind.restart at restarted
  cases hcreate : create config s.backend s.source with
  | error e =>
      rw [hcreate] at restarted
      cases restarted
  | ok fresh =>
      rw [hcreate] at restarted
      obtain rfl := create_eq_start hcreate
      obtain rfl := Except.ok.inj restarted
      exact ledger.quiet rfl (ledger.buffered.sublist (List.nil_sublist _))

theorem Ledger.episode {s s' : Mind} {new : List Experience} (ledger : Ledger b₀ recorded sealed s)
    (episode : Episode s new s') (distinct : (recorded ++ new.map (·.id)).Nodup) :
    ∃ sealed', Ledger b₀ (recorded ++ new.map (·.id)) sealed' s' := by
  cases episode with
  | deed deed => exact ⟨sealed, deed.keeps _ _ distinct ledger⟩
  | nightly ends =>
      obtain ⟨front, back, t, report, rfl, phases, rest⟩ := ends.bind_cases
      obtain ⟨rfl, rfl, _⟩ := rest.of_done
      rw [List.append_nil] at distinct ⊢
      obtain ⟨sealed', halted⟩ := ledger.halts phases.halts distinct
      have ended : Turns t [] (t.recordRun report).persist.1 :=
        (t.turns_recordRun report).after (turns_persist _)
      refine ⟨sealed', ?_⟩
      simpa using Keeps.turns ended _ _ (by simpa using distinct) halted
  | restart config restarted => exact ⟨sealed, (ledger.restart restarted).later []⟩
  | crash config halts restarted =>
      obtain ⟨sealed', halted⟩ := ledger.halts halts distinct
      exact ⟨sealed', halted.restart restarted⟩

theorem Ledger.course {s s' : Mind} {new : List Experience} (ledger : Ledger b₀ recorded sealed s)
    (course : Course Episode s new s') (distinct : (recorded ++ new.map (·.id)).Nodup) :
    ∃ sealed', Ledger b₀ (recorded ++ new.map (·.id)) sealed' s' := by
  induction course with
  | refl => exact ⟨sealed, ledger.later []⟩
  | tail prior last ih =>
      rw [List.map_append, ← List.append_assoc] at distinct ⊢
      obtain ⟨sealed', before⟩ := ih (List.nodup_append.mp distinct).1
      exact before.episode last distinct

theorem ledger_create {config : Config} {backend : Backend} {source : Source} {fresh : Mind}
    (created : create config backend source = .ok fresh) (blank : backend.Blank)
    (classifier : Classifier) (extractor : Extractor) :
    Ledger backend [] [] { fresh with classifier, extractor } := by
  obtain rfl := create_eq_start created
  have nothing : Waiting [] [] [] := ⟨.nil, by simp, by simp⟩
  exact ⟨⟨[], .refl backend, rfl⟩, .nil, by simp, nothing, [], none, blank.saved, nothing⟩

/-- No experience is sealed twice, and none that is sealed waits in the buffer or in the saved day:
at any moment between operations, in a history of inputs, nights with deeds at their questions,
checkpoints, restores, failed writes and crashes, also between a seal and the checkpoint after
it. -/
theorem experiences_sealed_at_most_once {config : Config} {backend : Backend} {source : Source}
    {fresh : Mind} (created : create config backend source = .ok fresh) (blank : backend.Blank)
    (classifier : Classifier) (extractor : Extractor) {recorded : List Experience} {s : Mind}
    (moment : Moment { fresh with classifier, extractor } recorded s)
    (distinct : (recorded.map (·.id)).Nodup) :
    ∃ log, backend.Extends log s.backend ∧ (sealedIds log).Nodup ∧
      sealedIds log ⊆ recorded.map (·.id) ∧ (∀ e ∈ s.day.experiences, e.id ∉ sealedIds log) ∧
      ∃ tiers day, s.backend.Saved tiers day ∧
        ∀ id ∈ PendingDay.idsOf day, id ∉ sealedIds log := by
  have start := ledger_create created blank classifier extractor
  obtain ⟨sealed, ledger⟩ : ∃ sealed, Ledger backend (recorded.map (·.id)) sealed s := by
    cases moment with
    | between course => exact start.course course distinct
    | during course halts =>
        rw [List.map_append] at distinct ⊢
        obtain ⟨sealed, before⟩ := start.course course (List.nodup_append.mp distinct).1
        exact before.halts halts distinct
  obtain ⟨log, written, rfl⟩ := ledger.written
  obtain ⟨tiers, day, saved, listed⟩ := ledger.listed
  refine ⟨log, written, ledger.once, ledger.known, ?_, tiers, day, saved, listed.unsealed⟩
  intro e he
  exact ledger.buffered.unsealed e.id (List.mem_map_of_mem he)

/-- The experiences in the log of a process-local archive. -/
def Sample.written (s : Mind) : List Uid :=
  match s.backend.storage with
  | .volatile a => sealedIds a.entries
  | .durable _ => []

theorem Sample.written_of_extends {log : List ArchiveEntry} {s : Mind}
    (h : (Backend.ofStorage (.volatile .empty)).Extends log s.backend) :
    written s = sealedIds log := by
  unfold Backend.Extends at h
  unfold written
  cases hs : s.backend.storage with
  | volatile a =>
      simp only [hs, Backend.ofStorage] at h ⊢
      rw [h]
      rfl
  | durable a => simp [hs, Backend.ofStorage] at h

/-- An experience is saved with a checkpoint, a night fails to write it, the next night seals it and is
cut short before its checkpoint, and the mind that is started again does not get it back. -/
theorem experiences_sealed_at_most_once_sample :
    let s₀ := Sample.empty (.volatile .empty)
    ∃ recorded s, Moment s₀ recorded s ∧ recorded.length = 1 ∧ s.day.experiences.isEmpty ∧
      ∃ log, s₀.backend.Extends log s.backend ∧ sealedIds log = recorded.map (·.id) ∧
        (sealedIds log).Nodup := by
  intro s₀
  let s₁ := Sample.process s₀ "alpha"
  let s₂ := s₁.persist.1.outside s₁.source.clock [Operation.append.name] fun _ => false
  let t₂ := (Sample.undisturbed false s₂.runNightly).1
  let s₃ := t₂.outside s₁.source.clock [] fun _ => false
  let t₃ := (Sample.undisturbed false s₃.nightlyPhases).1
  let s₄ := t₃.emptied.restore.1
  let recorded := s₀.lived Sample.collaborators (Sample.input "alpha" 0.5)
  obtain ⟨one, retried, valid, empty, written⟩ : recorded.length = 1 ∧
      t₂.day.experiences.length = 1 ∧ t₃.config.validate = .ok () ∧
      s₄.day.experiences.isEmpty ∧ Sample.written s₄ = recorded.map (·.id) := by decide +kernel
  have night : Episode s₂ [] t₂ := .nightly (Sample.ends_undisturbed (fun _ => .refl) _ _)
  have crash : Episode s₃ [] t₃.emptied :=
    .crash t₃.config (Sample.ends_undisturbed (fun _ => .refl) _ _).halts (restart_emptied valid)
  clear_value t₃ t₂
  have course : Course Episode s₀ recorded s₄ := by
    have saved : Course Episode s₀ recorded s₁.persist.1 :=
      (Course.single (.deed (.act (.process _ _)))).still (.deed (.act .persist))
    have failed : Course Episode s₀ recorded s₃ :=
      ((saved.still (.deed (.act (.outside _ _ _)))).still night).still (.deed (.act (.outside _ _ _)))
    exact (failed.still crash).still (.deed .restore)
  have distinct : (recorded.map (·.id)).Nodup := by
    obtain ⟨e, he⟩ := List.length_eq_one_iff.mp one
    simp [he]
  have created : create Sample.config (.ofStorage (.volatile .empty)) Sample.source = .ok s₀ := rfl
  obtain ⟨log, extends_, once, _⟩ := experiences_sealed_at_most_once created (.inl rfl) _ _
    (.between course) distinct
  have same : sealedIds log = recorded.map (·.id) :=
    (Sample.written_of_extends extends_).symm.trans written
  exact ⟨recorded, s₄, .between course, one, empty, log, extends_, same, once⟩

end Mind

end Engram
