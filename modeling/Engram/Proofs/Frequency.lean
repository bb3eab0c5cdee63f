import Engram.Proofs.Detection
import Engram.Proofs.Experience
import Engram.Proofs.Knowledge
import Mathlib.Data.List.Perm.Subperm

/-! How the frequencies in the knowledge base relate to the experiences of a mind. A night merges what
it has read before it seals it. If the write fails, the night is counted all the same, and what it
has read is read again by the next one. So the frequency of a concept is at most the number of
experiences that mention it and what nights without an entry have counted. -/
namespace Engram.Mind

open Nightly

/-- What a night has read, with its report. -/
abbrev PastNight := List Experience × NightlyReport

/-- Operations of a mind, with all that was recorded and with every night. -/
inductive Diary (s : Mind) : List Experience → List PastNight → Mind → Prop where
  | refl : Diary s [] [] s
  | act {recorded new : List Experience} {nights : List PastNight} {s' s'' : Mind}
      (prior : Diary s recorded nights s') (act : Act s' new s'') :
      Diary s (recorded ++ new) nights s''
  | nightly {recorded new : List Experience} {nights : List PastNight} {s' s'' : Mind}
      {report : NightlyReport} (prior : Diary s recorded nights s')
      (ends : s'.runNightly.Ends (Course Act) new s'' report) :
      Diary s (recorded ++ new) (nights ++ [(s'.day.experiences, report)]) s''

/-- The experiences that nights have sealed. -/
def consumed (nights : List PastNight) : List Experience :=
  (nights.filter (·.2.archiveEntry.isSome)).flatMap (·.1)

/-- The sum of the shares of a concept in some nights. -/
def shares (c : NightlyConfig) (nights : List PastNight) (concept : String) : Nat :=
  (nights.map fun n => Detect.share c n.1 concept).sum

/-- The nights that were merged into the knowledge base. -/
def integratedNights (nights : List PastNight) : List PastNight :=
  nights.filter (·.2.isIntegrated)

/-- The nights that were merged into the knowledge base but have no entry. -/
def unsealedNights (nights : List PastNight) : List PastNight :=
  (integratedNights nights).filter (·.2.archiveEntry.isNone)

theorem consumed_concat (nights : List PastNight) (n : PastNight) :
    consumed (nights ++ [n]) =
      consumed nights ++ if n.2.archiveEntry.isSome then n.1 else [] := by
  unfold consumed
  rw [List.filter_append, List.flatMap_append]
  by_cases h : n.2.archiveEntry.isSome
  · simp [h]
  · simp [h]

theorem shares_concat (c : NightlyConfig) (nights : List PastNight) (n : PastNight) :
    shares c (integratedNights (nights ++ [n])) = fun concept =>
      shares c (integratedNights nights) concept +
        if n.2.isIntegrated then Detect.share c n.1 concept else 0 := by
  funext concept
  unfold shares integratedNights
  rw [List.filter_append, List.map_append, List.sum_append]
  by_cases h : n.2.isIntegrated
  · simp [h]
  · simp [h]

/-- What a mind has recorded and what its nights have sealed, with the frequencies that it has as
far as counters go. -/
structure Tally (config : Config) (recorded sealed : List Experience) (total : String → Nat)
    (s : Mind) : Prop where
  config : s.config = config
  ordered : s.knowledge.Ordered
  frequency : ∀ concept, s.knowledge.frequency concept = total concept % UInt64.size
  distinct : ((sealed ++ s.day.experiences).map (·.id)).Nodup
  known : sealed ++ s.day.experiences ⊆ recorded

/-- The configuration and the frequencies are as they were, and the day has gained nothing but what
is new. -/
structure Passive (s : Mind) (new : List Experience) (s' : Mind) : Prop where
  config : s'.config = s.config
  counts : s'.knowledge.counts = s.knowledge.counts
  day : s'.day.experiences.Sublist (s.day.experiences ++ new)

theorem Passive.still {s s' : Mind} (config : s'.config = s.config)
    (counts : s'.knowledge.counts = s.knowledge.counts) (day : s'.day = s.day) :
    Passive s [] s' := by
  refine ⟨config, counts, ?_⟩
  rw [day]
  exact List.sublist_append_left _ _

theorem Passive.trans {s s' s'' : Mind} {new more : List Experience} (first : Passive s new s')
    (second : Passive s' more s'') : Passive s (new ++ more) s'' := by
  refine ⟨second.config.trans first.config, second.counts.trans first.counts, ?_⟩
  rw [← List.append_assoc]
  exact second.day.trans (first.day.append_right more)

theorem Passive.turn {s s' : Mind} {new : List Experience} (turn : Turn s new s') :
    Passive s new s' := by
  have still : Unlearned s s' → s'.day = s.day → Passive s [] s' := fun frame day =>
    .still frame.config (congrArg KnowledgeBase.counts frame.knowledge) day
  cases turn with
  | rest frame day backend => exact still frame day
  | recorded zone e frame day backend =>
      refine ⟨frame.config, congrArg KnowledgeBase.counts frame.knowledge, ?_⟩
      rw [day]
      exact (List.drop_sublist _ _).append_right [e]
  | sealed entry bare frame day backend => exact still frame day
  | saved c listed frame day backend => exact still frame day

theorem Passive.turns {s s' : Mind} {new : List Experience} (turns : Turns s new s') :
    Passive s new s' :=
  turns.follows (fun _ => .still rfl rfl rfl) Passive.trans Passive.turn

theorem counts_markTrained (s : Mind) (lessons : List Lesson) :
    (s.markTrained lessons).knowledge.counts = s.knowledge.counts := by
  unfold markTrained
  simp only
  generalize s.knowledge = base
  induction lessons generalizing base with
  | nil => rfl
  | cons l lessons ih => exact (ih _).trans (base.counts_markTrained l.concept l.revision)

theorem abides_passive : Abides (Course Act) Passive where
  refl _ := .still rfl rfl rfl
  trans := .trans
  between course := .turns (course.flatten Act.turns)
  drawn _ := .still rfl rfl rfl
  learned s lessons := .still rfl (s.counts_markTrained lessons) rfl

variable {config : Config} {recorded sealed : List Experience} {total : String → Nat}

theorem Tally.passive {s s' : Mind} {new : List Experience}
    (tally : Tally config recorded sealed total s) (passive : Passive s new s')
    (fresh : ((recorded ++ new).map (·.id)).Nodup) :
    Tally config (recorded ++ new) sealed total s' := by
  have hsub : (sealed ++ s'.day.experiences).Sublist (sealed ++ s.day.experiences ++ new) := by
    rw [List.append_assoc]
    exact passive.day.append_left sealed
  refine ⟨passive.config.trans tally.config, tally.ordered.of_counts passive.counts, ?_, ?_, ?_⟩
  · intro concept
    rw [KnowledgeBase.frequency_eq_lookup, passive.counts, ← KnowledgeBase.frequency_eq_lookup]
    exact tally.frequency concept
  · refine List.Nodup.sublist (hsub.map _) ?_
    rw [List.map_append, List.nodup_append] at fresh ⊢
    refine ⟨tally.distinct, fresh.2.1, ?_⟩
    intro a ha
    exact fresh.2.2 a (List.map_subset _ tally.known ha)
  · intro e he
    rcases List.mem_append.mp (hsub.subset he) with he | he
    · exact List.mem_append_left _ (tally.known he)
    · exact List.mem_append_right _ he

/-- The second phase counts the share of every concept in what the night has read. -/
theorem Tally.integrated {s t : Mind} (tally : Tally config recorded sealed total t)
    (same : s.config = config) :
    Tally config recorded sealed
      (fun concept => total concept + Detect.share config.nightly s.day.experiences concept)
      (t.integratePhase s.found).1 := by
  have adds := KnowledgeBase.adds_integrate tally.ordered s.found t.source.clock
  refine ⟨tally.config, adds.ordered, ?_, tally.distinct, tally.known⟩
  intro concept
  have hadded : (t.integratePhase s.found).1.knowledge.frequency concept = _ :=
    adds.frequency concept
  have hshare : (s.found.map (·.recurrences concept)).sum % UInt64.size =
      Detect.share config.nightly s.day.experiences concept % UInt64.size :=
    same ▸ Detect.sum_all s.config.nightly s.now.2.now.1 s.day.experiences concept
  calc (t.integratePhase s.found).1.knowledge.frequency concept
      = (total concept % UInt64.size + (s.found.map (·.recurrences concept)).sum) %
          UInt64.size := hadded.trans (by rw [← tally.frequency]; rfl)
    _ = (total concept + Detect.share config.nightly s.day.experiences concept) %
          UInt64.size := by rw [Nat.mod_add_mod, Nat.add_mod, hshare, ← Nat.add_mod]

/-- What is sealed leaves the day. -/
theorem Tally.closes {s s' : Mind} {read : List Experience} {entry : Option Uid}
    (tally : Tally config recorded sealed total s)
    (apart : ((sealed ++ read).map (·.id)).Nodup) (known : read ⊆ recorded)
    (closes : Closes read s s' entry) :
    Tally config recorded (sealed ++ if entry.isSome then read else []) total s' := by
  cases closes with
  | sealed entry zone today holds frame day backend =>
      have left : s'.day.experiences =
          s.day.experiences.filter fun e => !(read.map (·.id)).contains e.id := by
        rw [day]
        rfl
      refine ⟨frame.config.trans tally.config, ?_, ?_, ?_, ?_⟩
      · rw [frame.knowledge]
        exact tally.ordered
      · rw [frame.knowledge]
        exact tally.frequency
      · have hsub : (s'.day.experiences.map (·.id)).Sublist (s.day.experiences.map (·.id)) := by
          rw [left]
          exact List.filter_sublist.map _
        have waiting := tally.distinct
        rw [List.map_append, List.nodup_append] at waiting
        rw [Option.isSome_some, if_pos rfl, List.map_append, List.nodup_append]
        refine ⟨apart, waiting.2.1.sublist hsub, ?_⟩
        rintro a ha b hb rfl
        rw [List.map_append] at ha
        rcases List.mem_append.mp ha with ha | ha
        · exact waiting.2.2 a ha a (hsub.subset hb) rfl
        · rw [left] at hb
          obtain ⟨e, he, rfl⟩ := List.mem_map.mp hb
          simpa [ha] using (List.mem_filter.mp he).2
      · have hday : s'.day.experiences ⊆ recorded := by
          rw [left]
          exact fun e he => tally.known (List.mem_append_right _ (List.mem_of_mem_filter he))
        rw [Option.isSome_some, if_pos rfl]
        refine List.append_subset.mpr ⟨List.append_subset.mpr ⟨?_, known⟩, hday⟩
        exact fun e he => tally.known (List.mem_append_left _ he)
  | failed frame day backend =>
      rw [Option.isSome_none, if_neg Bool.false_ne_true, List.append_nil]
      refine ⟨frame.config.trans tally.config, ?_, ?_, ?_, ?_⟩
      · rw [frame.knowledge]
        exact tally.ordered
      · rw [frame.knowledge]
        exact tally.frequency
      · rw [day]
        exact tally.distinct
      · rw [day]
        exact tally.known

/-- A night adds its share if it is merged, and takes what it has read out of the day if it is
sealed. -/
theorem Tally.night {s last : Mind} {new : List Experience} {report : NightlyReport}
    (tally : Tally config recorded sealed total s)
    (ends : s.nightlyPhases.Ends (Course Act) new last report)
    (fresh : ((recorded ++ new).map (·.id)).Nodup) :
    Tally config (recorded ++ new)
      (sealed ++ if report.archiveEntry.isSome then s.day.experiences else [])
      (fun concept => total concept + if report.isIntegrated then
        Detect.share config.nightly s.day.experiences concept else 0) last := by
  obtain ⟨front, back, t, u, v, p, rfl, first, hu, second, finished, gathered, _⟩ :=
    abides_passive.nightlyPhases ends
  have clock : Passive s [] s.now.2.now.2 := .still rfl rfl rfl
  have extracted : Passive s front t := clock.trans first
  rw [← List.append_assoc] at fresh ⊢
  have started : Tally config (recorded ++ front) sealed total t := by
    refine tally.passive extracted (List.Nodup.sublist ?_ fresh)
    exact (List.sublist_append_left _ _).map _
  have merged : Tally config (recorded ++ front) sealed (fun concept => total concept +
      if report.isIntegrated then Detect.share config.nightly s.day.experiences concept else 0) u := by
    rw [hu]
    cases report.isIntegrated with
    | true => exact started.integrated tally.config
    | false => exact started
  obtain ⟨w, bounded, closes⟩ := v.finishNight_closes p
  rw [finished, gathered.experiences] at closes
  have before := (merged.passive second fresh).passive (.turns bounded) (by simpa using fresh)
  rw [List.append_nil] at before
  refine before.closes tally.distinct ?_ closes
  intro e he
  exact List.mem_append_left _ (List.mem_append_left _ (tally.known (List.mem_append_right _ he)))

theorem Tally.diary {s s' : Mind} {nights : List PastNight} {new : List Experience}
    (tally : Tally config [] [] (fun _ => 0) s) (diary : Diary s new nights s')
    (fresh : (new.map (·.id)).Nodup) :
    Tally config new (consumed nights) (shares config.nightly (integratedNights nights)) s' := by
  induction diary with
  | refl => exact tally
  | act prior act ih =>
      have before := ih (fresh.sublist ((List.sublist_append_left _ _).map _))
      exact before.passive (.turns act.turns) fresh
  | @nightly recorded new nights s' s'' report prior ends ih =>
      have before := ih (fresh.sublist ((List.sublist_append_left _ _).map _))
      obtain ⟨front, back, t, report, rfl, phases, rest⟩ := ends.bind_cases
      obtain ⟨rfl, rfl, rfl⟩ := rest.of_done
      rw [List.append_nil] at fresh ⊢
      have ended : Turns t [] (t.recordRun report).persist.1 :=
        (t.turns_recordRun report).after (turns_persist _)
      have after := (before.night phases fresh).passive (.turns ended) (by simpa using fresh)
      rw [List.append_nil] at after
      rw [consumed_concat, shares_concat]
      exact after

/-- Counted are the experiences that nights have sealed, and what nights without an entry have read. -/
theorem shares_le (c : NightlyConfig) (nights : List PastNight) (concept : String) :
    shares c (integratedNights nights) concept ≤
      Detect.mentions (consumed nights) concept + shares c (unsealedNights nights) concept := by
  induction nights with
  | nil => exact Nat.le_refl _
  | cons n nights ih =>
      have hshare := Detect.share_le_mentions c n.1 concept
      unfold shares unsealedNights integratedNights consumed at *
      cases hsealed : n.2.archiveEntry with
      | some id =>
          by_cases hmerged : n.2.isIntegrated
          · simp [hsealed, hmerged, Detect.mentions_append] at ih ⊢
            omega
          · simp [hsealed, hmerged, Detect.mentions_append] at ih ⊢
            omega
      | none =>
          by_cases hmerged : n.2.isIntegrated
          · simp [hsealed, hmerged] at ih ⊢
            omega
          · simpa [hsealed, hmerged] using ih

/-- What was sealed of the recorded experiences mentions a concept no more often than all of them. -/
theorem Tally.mentions_le {s : Mind} (tally : Tally config recorded sealed total s)
    (concept : String) : Detect.mentions sealed concept ≤ Detect.mentions recorded concept := by
  have distinct : sealed.Nodup := by
    refine List.Nodup.of_map (·.id) (tally.distinct.sublist ?_)
    exact (List.sublist_append_left _ _).map _
  have known : sealed ⊆ recorded := fun e he => tally.known (List.mem_append_left _ he)
  exact (List.subperm_of_subset distinct known).countP_le _

/-- The frequency of a concept is the sum of its shares in the nights that were merged, as far as
counters go. It exceeds the number of experiences that mention the concept by no more than its
shares in those of these nights that have no entry, so it does not exceed it where every merged
night is sealed. -/
theorem frequency_bounded_by_recorded {config : Config} {backend : Backend} {source : Source}
    {fresh : Mind} (created : create config backend source = .ok fresh) (classifier : Classifier)
    (extractor : Extractor) {recorded : List Experience} {nights : List PastNight} {s : Mind}
    (diary : Diary { fresh with classifier, extractor } recorded nights s)
    (distinct : (recorded.map (·.id)).Nodup) {e : KnowledgeEntry} (known : e ∈ s.knowledge.entries) :
    e.frequency.toNat =
        shares config.nightly (integratedNights nights) e.concept % UInt64.size ∧
      e.frequency.toNat ≤ Detect.mentions recorded e.concept +
        shares config.nightly (unsealedNights nights) e.concept ∧
      ((∀ n ∈ nights, n.2.isIntegrated → n.2.archiveEntry.isSome) →
        e.frequency.toNat ≤ Detect.mentions recorded e.concept) := by
  obtain rfl := create_eq_start created
  have start : Tally config [] [] (fun _ => 0) { start config backend source with
      classifier, extractor } := ⟨rfl, .nil, fun _ => rfl, .nil, by simp [Mind.start, DayBuffer.empty]⟩
  have tally := start.diary diary distinct
  have counted : e.frequency.toNat =
      shares config.nightly (integratedNights nights) e.concept % UInt64.size := by
    rw [← tally.ordered.frequency_eq known, tally.frequency]
  have atMost := Nat.mod_le (shares config.nightly (integratedNights nights) e.concept) UInt64.size
  have bound := shares_le config.nightly nights e.concept
  have sealed := tally.mentions_le e.concept
  refine ⟨counted, by omega, ?_⟩
  intro all
  have none : unsealedNights nights = [] := by
    refine List.filter_eq_nil_iff.mpr ?_
    intro n hn
    obtain ⟨hin, hmerged⟩ := List.mem_filter.mp hn
    simpa [Option.isSome_iff_ne_none] using all n hin hmerged
  rw [none] at bound
  have zero : shares config.nightly [] e.concept = 0 := rfl
  omega

/-- One experience that mentions a concept is read by two nights, since the first one cannot be
written, and the frequency of the concept is two. -/
theorem frequency_bounded_by_recorded_sample :
    let config := { Sample.config with nightly := { maxPending := 1, minOccurrences := 1 } }
    let s₀ := { start config (.ofStorage (.volatile .empty)) Sample.source with
      extractor := fun _ => ["rain"] }
    ∃ recorded nights s, Diary s₀ recorded nights s ∧ Detect.mentions recorded "rain" = 1 ∧
      ∃ e ∈ s.knowledge.entries, e.concept = "rain" ∧ e.frequency = 2 ∧
        e.frequency.toNat ≤ Detect.mentions recorded "rain" +
          shares config.nightly (unsealedNights nights) "rain" := by
  intro config s₀
  let s₁ := Sample.process s₀ "alpha"
  let s₂ := s₁.outside s₁.source.clock [Operation.append.name] fun _ => false
  let n₂ := Sample.undisturbed true s₂.runNightly
  let s₃ := n₂.1.outside s₁.source.clock [] fun _ => false
  let n₃ := Sample.undisturbed true s₃.runNightly
  let recorded := s₀.lived Sample.collaborators (Sample.input "alpha" 0.5)
  obtain ⟨one, mentioned, counts⟩ : recorded.length = 1 ∧
      Detect.mentions recorded "rain" = 1 ∧
      n₃.1.knowledge.counts = [("rain", 2)] := by decide +kernel
  have failed : s₂.runNightly.Ends (Course Act) [] n₂.1 n₂.2 :=
    Sample.ends_undisturbed (fun _ => .refl) _ _
  have retried : s₃.runNightly.Ends (Course Act) [] n₃.1 n₃.2 :=
    Sample.ends_undisturbed (fun _ => .refl) _ _
  clear_value n₃ n₂
  have diary : Diary s₀ recorded [(s₂.day.experiences, n₂.2), (s₃.day.experiences, n₃.2)] n₃.1 := by
    have noted : Diary s₀ recorded [] s₁ := Diary.refl.act (.process _ _)
    have first : Diary s₀ recorded [(s₂.day.experiences, n₂.2)] n₂.1 := by
      simpa using (noted.act (.outside _ _ _)).nightly failed
    simpa using (first.act (.outside _ _ _)).nightly retried
  have distinct : (recorded.map (·.id)).Nodup := by
    obtain ⟨e, he⟩ := List.length_eq_one_iff.mp one
    simp [he]
  have created : create config (.ofStorage (.volatile .empty)) Sample.source =
      .ok (start config (.ofStorage (.volatile .empty)) Sample.source) := rfl
  have counted : ("rain", 2) ∈ n₃.1.knowledge.counts := by
    rw [counts]
    exact List.mem_singleton_self _
  obtain ⟨e, known, hcounts⟩ := List.mem_map.mp counted
  obtain ⟨hconcept, hfrequency⟩ := Prod.mk.inj hcounts
  have bound := (frequency_bounded_by_recorded created _ _ diary distinct known).2.1
  rw [hconcept] at bound
  exact ⟨recorded, _, n₃.1, diary, mentioned, e, known, hconcept, hfrequency, bound⟩

end Engram.Mind
