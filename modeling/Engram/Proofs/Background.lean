import Engram.Scheduler
import Engram.Proofs.Capacity

/-! The course of a scheduler. Interactions arrive at any time, also at the questions of a cycle, and
only the newest of them are buffered. A light cycle sends batches of what it has found in the buffer
when it began, in order, and stops somewhere; the watermark moves along with the batches. Nothing
else moves it. Foreground calls, nightly cycles and polling are all covered by this. -/
namespace Engram

namespace ContextBuffer

/-- Add items, one after the other. -/
def appendAll (b : ContextBuffer) (items : List ContextItem) : ContextBuffer :=
  items.foldl (fun b item => (b.append item).1) b

@[simp]
theorem appendAll_nil (b : ContextBuffer) : b.appendAll [] = b := rfl

theorem appendAll_append (b : ContextBuffer) (items more : List ContextItem) :
    b.appendAll (items ++ more) = (b.appendAll items).appendAll more :=
  List.foldl_append

theorem append_suffix (b : ContextBuffer) (item : ContextItem) :
    (b.append item).1.items <:+ b.items ++ [item] := by
  unfold append
  simp only
  split
  · exact List.tail_suffix _
  · exact List.suffix_refl _

/-- The buffer holds the last items that were added. -/
theorem appendAll_suffix (b : ContextBuffer) (items : List ContextItem) :
    (b.appendAll items).items <:+ b.items ++ items := by
  induction items generalizing b with
  | nil => simp
  | cons item items ih =>
      obtain ⟨gone, hgone⟩ := b.append_suffix item
      refine (ih (b.append item).1).trans ⟨gone, ?_⟩
      rw [← List.append_assoc, hgone]
      simp

/-- The position of the oldest item in the buffer, if it holds the last of the given ones. -/
def oldest (b : ContextBuffer) (arrived : List ContextItem) : Nat := arrived.length - b.items.length

theorem appendAll_buffers {b : ContextBuffer} {arrived : List ContextItem}
    (h : b.items <:+ arrived) (items : List ContextItem) :
    (b.appendAll items).items <:+ arrived ++ items := by
  obtain ⟨gone, rfl⟩ := h
  refine (b.appendAll_suffix items).trans ⟨gone, ?_⟩
  rw [List.append_assoc]

theorem oldest_le_appendAll (b : ContextBuffer) (arrived items : List ContextItem) :
    b.oldest arrived ≤ (b.appendAll items).oldest (arrived ++ items) := by
  have hlength := (b.appendAll_suffix items).length_le
  rw [List.length_append] at hlength
  unfold oldest
  rw [List.length_append]
  omega

end ContextBuffer

namespace Mind

variable {allowed : List String → Prop}

theorem context_consolidate (s : Mind) (t : Tier) : (s.consolidate t).1.context = s.context := by
  obtain ⟨_, _, hmind, _⟩ := s.now.2.consolidateAt_spec t s.now.1
  rw [consolidate, hmind]
  rfl

theorem context_consolidateIfOver (s : Mind) (t : Tier) :
    (s.consolidateIfOver t).1.context = s.context := by
  obtain ⟨_, _, _, hmind, _⟩ := s.consolidateIfOver_spec t
  rw [hmind]
  rfl

theorem context_persist (s : Mind) : s.persist.1.context = s.context := by
  obtain ⟨c, _, _, hpersist, _⟩ := s.persist_cases
  rw [hpersist]
  rfl

theorem context_cleanupPhase (s : Mind) (night : Night) :
    (s.cleanupPhase night).1.context = s.context := by
  have bounded : s.boundTiers.1.context = s.context :=
    boundTiers_follows (R := fun s s' => s'.context = s.context) (fun _ => rfl)
      (fun first second => second.trans first) context_consolidateIfOver s
  obtain ⟨t, _, _, _, ht, hcleaned, _⟩ := s.cleanupPhase_frame night
  rw [ht] at bounded
  rw [hcleaned]
  exact bounded

theorem context_finishNight (s : Mind) (p : Progress) : (s.finishNight p).1.context = s.context := by
  unfold finishNight
  simp only
  generalize ({ p.night with metrics := _ } : Night) = night
  have cleaned := s.context_cleanupPhase night
  generalize s.cleanupPhase night = outcome at cleaned
  exact cleaned

/-- A nightly run leaves the buffer alone. -/
theorem stretches_context : Stretches (fun s s' => s'.context = s.context) where
  refl _ := rfl
  trans _ _ _ first second := second.trans first
  ticked _ := rfl
  drawn _ := rfl
  learned _ _ := rfl
  integrated _ _ := rfl
  finished s p := s.context_finishNight p
  closed s report := by
    rw [context_persist]
    unfold recordRun
    simp only
    split <;> rfl

/-- Some items were added to the buffer, and nothing else was done to it. -/
def Logs (s s' : Mind) : Prop := ∃ items, s'.context = s.context.appendAll items

theorem Logs.of_eq {s s' : Mind} (h : s'.context = s.context) : Logs s s' :=
  ⟨[], h.trans s.context.appendAll_nil.symm⟩

theorem Logs.trans {s s' s'' : Mind} (first : Logs s s') (second : Logs s' s'') : Logs s s'' := by
  obtain ⟨items, hitems⟩ := first
  obtain ⟨more, hmore⟩ := second
  refine ⟨items ++ more, ?_⟩
  rw [hmore, hitems, ContextBuffer.appendAll_append]

theorem logs_settle (s : Mind) (input : Input) (output : String) (embedding : Embedding)
    (retrieved : Nat) : Logs s (s.settle input output embedding retrieved).1 := by
  unfold settle
  cases s.discoverAssociations embedding with
  | error e => exact .of_eq rfl
  | ok associations =>
      have added : Logs s (s.remember input output embedding associations).1 := ⟨[_], rfl⟩
      refine added.trans ?_
      apply Logs.of_eq
      exact context_consolidateIfOver _ _

theorem logs_answer (s : Mind) (generator : Generator) (input : Input) (embedding : Embedding) :
    Logs s (s.answer generator input embedding).1 := by
  unfold answer
  cases s.store.retrieve s.config.retrieval embedding with
  | error e => exact .of_eq rfl
  | ok found =>
      have used : Logs s { s with store := found.2 } := .of_eq rfl
      refine used.trans ?_
      simp only
      cases generate generator (Prompt.forInput s.config.retrieval input.text found.1) with
      | error e => exact .of_eq rfl
      | ok output => exact logs_settle { s with store := found.2 } input output embedding _

theorem context_addContext (s : Mind) (item : ContextItem) :
    (s.addContext item).context = s.context.appendAll [item] := by
  unfold addContext recordActivity
  rfl

theorem logs_recordActivity (s : Mind) : Logs s s.recordActivity := by
  unfold recordActivity
  exact .of_eq rfl

theorem logs_process (s : Mind) (collaborators : Collaborators) (input : Input) :
    Logs s (s.process collaborators input).1 := by
  have embedded : Logs s (s.recordActivity.embed collaborators.embedder input.text).1 :=
    s.logs_recordActivity.trans (.of_eq rfl)
  unfold process
  cases hasked : s.recordActivity.embed collaborators.embedder input.text with
  | mk t result =>
      rw [hasked] at embedded
      cases result with
      | error e => exact embedded
      | ok embedding =>
          exact embedded.trans (t.logs_answer collaborators.generator input embedding)

theorem Call.logs {s s' : Mind} {new : List Memory} (call : Call allowed s new s') : Logs s s' := by
  cases call with
  | process collaborators input => exact s.logs_process collaborators input
  | query generator question => exact s.logs_recordActivity
  | addContext item => exact ⟨[item], s.context_addContext item⟩
  | consolidate t =>
      apply Logs.of_eq
      exact s.context_consolidate t
  | persist =>
      apply Logs.of_eq
      exact s.context_persist
  | outside clock refused unwritable within => exact .of_eq rfl

end Mind

namespace Scheduler

variable {s s' s'' : Scheduler} {items more : List ContextItem}

/-- What may happen to a scheduler apart from the steps of its cycles. Some items arrive; everything
else may change as well, but for the watermark. -/
structure Elapses (s : Scheduler) (items : List ContextItem) (s' : Scheduler) : Prop where
  watermark : s'.watermark = s.watermark
  context : s'.mind.context = s.mind.context.appendAll items

theorem Elapses.refl (s : Scheduler) : Elapses s [] s := ⟨rfl, rfl⟩

theorem Elapses.trans (first : Elapses s items s') (second : Elapses s' more s'') :
    Elapses s (items ++ more) s'' where
  watermark := second.watermark.trans first.watermark
  context := by rw [second.context, first.context, ContextBuffer.appendAll_append]

theorem Elapses.still ⦃s s' s'' : Scheduler⦄ (first : Elapses s [] s') (second : Elapses s' [] s'') :
    Elapses s [] s'' :=
  first.trans second

/-- Foreground calls are among what may happen, so what is shown below of cycles with anything at
their questions holds with any calls there. -/
theorem elapses_call {allowed : List String → Prop} {new : List Memory} {mind : Mind}
    (call : Mind.Call allowed s.mind new mind) : ∃ items, Elapses s items { s with mind } := by
  obtain ⟨items, hitems⟩ := call.logs
  exact ⟨items, rfl, hitems⟩

/-- Between its questions a nightly cycle moves neither the watermark nor the buffer. -/
theorem moves_nightlyCycle (s : Scheduler) :
    s.nightlyCycle.Moves (fun s s' => Elapses s [] s') s := by
  unfold nightlyCycle
  refine Cycle.Moves.bind Elapses.still ?_ ?_
  · refine (Mind.stretches_context.moves_runNightly s.mind).within ?_ ?_ s rfl
    · intro t mind same
      exact ⟨rfl, same⟩
    · intro t u next first rest
      unfold keepOn
      split
      · exact .after Elapses.still first (rest u false)
      · exact .device first fun v device => rest v _
  · intro t report
    exact .done ⟨rfl, rfl⟩

/-- A nightly cycle that has come to its end leaves nothing behind here but the items that have
arrived in the meantime. -/
theorem elapses_nightly {outcome : Except Error StartOutcome}
    (ends : (s.runCycle .nightly).Ends Elapses items s' outcome) : Elapses s items s' := by
  have moves : (s.runCycle .nightly).Moves (fun s s' => Elapses s [] s') s := by
    unfold runCycle
    split
    · exact .done (.refl s)
    · refine .device (.refl s) ?_
      intro t device
      split
      · exact .done (.refl t)
      · refine Cycle.Moves.bind Elapses.still ?_ ?_
        · let begun : Scheduler := { t.now.2 with state := .running .nightly t.now.1 }
          have front : Elapses t [] begun := ⟨rfl, rfl⟩
          exact (moves_nightlyCycle begun).after Elapses.still front
        · intro u outcome
          exact .done ⟨rfl, rfl⟩
      · exact .done (.refl t)
  exact ends.follows id id Elapses.trans moves

/-- A batch when it is sent: how many items have arrived, which of them are buffered, and the
watermark. -/
structure Sent where
  arrived : Nat
  buffer : List ContextItem
  watermark : Option Time.Instant
  batch : TrainingBatch

/-- What has come in, and what has gone out since a cycle began. -/
structure Record where
  arrived : List ContextItem
  sent : List Sent

def note (s : Scheduler) (record : Record) (batch : TrainingBatch) : Record :=
  { record with
    sent := record.sent ++
      [⟨record.arrived.length, s.mind.context.items, s.watermark, batch⟩] }

/-- What may happen, with the record of it. -/
structure Recorded (p : Scheduler × Record) (items : List ContextItem) (q : Scheduler × Record) :
    Prop where
  elapses : Elapses p.1 items q.1
  arrived : q.2.arrived = p.2.arrived ++ items
  sent : q.2.sent = p.2.sent

theorem Recorded.trans {p q r : Scheduler × Record} (first : Recorded p items q)
    (second : Recorded q more r) : Recorded p (items ++ more) r where
  elapses := first.elapses.trans second.elapses
  arrived := by rw [second.arrived, first.arrived, List.append_assoc]
  sent := second.sent.trans first.sent

/-- Courses of a scheduler from its start on: all items that have arrived, those in the buffer at the
start included, and for each light cycle the batches that it has sent. -/
inductive Course (mind : Mind) : List ContextItem → List (List Sent) → Scheduler → Prop where
  | start : Course mind mind.context.items [] (start mind)
  | elapses {arrived items : List ContextItem} {cycles : List (List Sent)} {s s' : Scheduler}
      (prior : Course mind arrived cycles s) (between : Elapses s items s') :
      Course mind (arrived ++ items) cycles s'
  | nightly {arrived items : List ContextItem} {cycles : List (List Sent)} {s s' : Scheduler}
      {outcome : Except Error StartOutcome} (prior : Course mind arrived cycles s)
      (ends : (s.runCycle .nightly).Ends Elapses items s' outcome) :
      Course mind (arrived ++ items) cycles s'
  | light {arrived items : List ContextItem} {cycles : List (List Sent)} {s s' : Scheduler}
      {record : Record} {outcome : Except Error StartOutcome} (prior : Course mind arrived cycles s)
      (ends : ((s.runCycle .light).noted note ⟨arrived, []⟩).Ends Recorded items (s', record)
        outcome) :
      Course mind record.arrived (cycles ++ [record.sent]) s'

/-- The watermark after a batch of the given items. -/
def markAfter (watermark : Option Time.Instant) (items : List ContextItem) : Option Time.Instant :=
  (items.getLast?.map (·.timestamp)).or watermark

theorem watermark_advance (s : Scheduler) (items : List ContextItem) :
    (s.advance items).watermark = markAfter s.watermark items := by
  unfold advance markAfter
  cases items.getLast? with
  | none => rfl
  | some last => rfl

theorem mind_advance (s : Scheduler) (items : List ContextItem) :
    (s.advance items).mind = s.mind := by
  unfold advance
  split <;> rfl

/-- Batches are sent in order, up to one of them, and the watermark goes from one value to another
along with them. -/
inductive Sends : Option Time.Instant → List (List ContextItem) → List Sent →
    Option Time.Instant → Prop where
  | stop (watermark : Option Time.Instant) (batches : List (List ContextItem)) :
      Sends watermark batches [] watermark
  | next {watermark last : Option Time.Instant} {items : List ContextItem}
      {batches : List (List ContextItem)} {first : Sent} {sent : List Sent}
      (mark : first.watermark = watermark) (examples : first.batch.examples = items.map contextExample)
      (rest : Sends (markAfter watermark items) batches sent last) :
      Sends watermark (items :: batches) (first :: sent) last

/-- The batches of a light cycle from one of them on, in the state `last` with what was recorded. -/
structure Dispatched (p : Scheduler × Record) (batches : List (List ContextItem))
    (items : List ContextItem) (sent : List Sent) (last : Scheduler × Record) : Prop where
  sends : Sends p.1.watermark batches sent last.1.watermark
  context : last.1.mind.context = p.1.mind.context.appendAll items
  arrived : last.2.arrived = p.2.arrived ++ items
  sent : last.2.sent = p.2.sent ++ sent

/-- The record of a batch that is sent now. -/
theorem Dispatched.cons {p q last : Scheduler × Record} {batch : TrainingBatch}
    {chunk front back : List ContextItem} {batches : List (List ContextItem)} {sent : List Sent}
    (examples : batch.examples = chunk.map contextExample)
    (between : Recorded (p.1, note p.1 p.2 batch) front q)
    (rest : Dispatched (q.1.advance chunk, q.2) batches back sent last) :
    Dispatched p (chunk :: batches) (front ++ back)
      (⟨p.2.arrived.length, p.1.mind.context.items, p.1.watermark, batch⟩ :: sent) last where
  sends := by
    refine .next rfl examples ?_
    have h := rest.sends
    rwa [watermark_advance, between.elapses.watermark] at h
  context := by
    rw [rest.context, mind_advance, between.elapses.context, ContextBuffer.appendAll_append]
  arrived := by
    rw [rest.arrived, between.arrived, List.append_assoc]
    rfl
  sent := by
    rw [rest.sent, between.sent]
    simp [note]

theorem Dispatched.after {p q last : Scheduler × Record} {front back : List ContextItem}
    {batches : List (List ContextItem)} {sent : List Sent}
    (rest : Dispatched q batches back sent last) (between : Recorded p front q) :
    Dispatched p batches (front ++ back) sent last where
  sends := by
    rw [← between.elapses.watermark]
    exact rest.sends
  context := by rw [rest.context, between.elapses.context, ContextBuffer.appendAll_append]
  arrived := by rw [rest.arrived, between.arrived, List.append_assoc]
  sent := by rw [rest.sent, between.sent]

theorem keepOn_cases {α : Type} {kind : CycleKind} {next : Scheduler → Bool → Cycle Scheduler α}
    {p last : Scheduler × Record} {a : α}
    (ends : ((keepOn kind p.1 next).noted note p.2).Ends Recorded items last a) :
    ∃ front back q isOpen, items = front ++ back ∧ Recorded p front q ∧
      ((next q.1 isOpen).noted note q.2).Ends Recorded back last a := by
  unfold keepOn at ends
  split at ends
  · exact ⟨[], items, p, false, rfl, ⟨.refl p.1, by simp, rfl⟩, ends⟩
  · cases ends with
    | device answer between rest => exact ⟨_, _, _, _, rfl, between, rest⟩

/-- What a light cycle does with the verdict on a batch. -/
def goOn (run index : Nat) (chunk : List ContextItem) (batches : List (List ContextItem))
    (s : Scheduler) (verdict : Except BatchFailure (Option Float)) : Cycle Scheduler LightBatches :=
  let report (outcome : BatchOutcome) : BatchReport :=
    ⟨(lightBatch run index chunk).id, index, chunk.length, outcome⟩
  let rest (outcome : BatchOutcome) : Cycle Scheduler LightBatches :=
    (sendBatches run batches (index + 1) (s.advance chunk)).bind fun s later =>
      .done s ⟨report outcome :: later.reports, chunk.length + later.items, later.interrupted⟩
  match verdict with
  | .ok loss => rest (.applied loss)
  | .error failure =>
    let outcome := .rolledBack failure.reason
    if failure.unreachable then .done (s.advance chunk) ⟨[report outcome], chunk.length, true⟩
    else rest outcome

theorem sendBatches_cons (run : Nat) (chunk : List ContextItem)
    (batches : List (List ContextItem)) (index : Nat) (s : Scheduler) :
    sendBatches run (chunk :: batches) index s =
      let send (s : Scheduler) : Cycle Scheduler LightBatches :=
        Cycle.apply s (lightBatch run index chunk) (goOn run index chunk batches)
      if index = 0 then send s
      else
        .pause s (min (1000 * s.mind.config.background.pauseSeconds) Cycle.longestPause) fun s =>
          keepOn .light s fun s isOpen => if isOpen then send s else .done s ⟨[], 0, true⟩ := rfl

/-- Whatever the verdict on a batch is, the watermark moves on. After that the cycle is over, or it
sends the other batches. -/
theorem goOn_cases {run index : Nat} {chunk items : List ContextItem}
    {batches : List (List ContextItem)} {verdict : Except BatchFailure (Option Float)}
    {p last : Scheduler × Record} {result : LightBatches}
    (ends : ((goOn run index chunk batches p.1 verdict).noted note p.2).Ends Recorded items last
      result) :
    (items = [] ∧ last = (p.1.advance chunk, p.2)) ∨ ∃ result',
      ((sendBatches run batches (index + 1) (p.1.advance chunk)).noted note p.2).Ends Recorded items
        last result' := by
  have rest : ∀ {f : LightBatches → LightBatches},
      (((sendBatches run batches (index + 1) (p.1.advance chunk)).bind fun s later =>
        .done s (f later)).noted note p.2).Ends Recorded items last result → ∃ result',
      ((sendBatches run batches (index + 1) (p.1.advance chunk)).noted note p.2).Ends Recorded items
        last result' := by
    intro f ends
    rw [Cycle.noted_bind] at ends
    obtain ⟨front, back, q, later, rfl, first, second⟩ := ends.bind_cases
    obtain ⟨rfl, rfl, _⟩ := second.of_done
    rw [List.append_nil]
    exact ⟨later, first⟩
  unfold goOn at ends
  cases verdict with
  | ok loss => exact .inr (rest ends)
  | error failure =>
      simp only at ends
      split at ends
      · obtain ⟨hitems, hlast, _⟩ := Cycle.Ends.of_done ends
        exact .inl ⟨hitems, hlast⟩
      · exact .inr (rest ends)

/-- A light cycle sends its batches in order, up to one of them, and the first at once. -/
theorem dispatched_sendBatches (run : Nat) (batches : List (List ContextItem)) (index : Nat)
    {p last : Scheduler × Record} {items : List ContextItem} {result : LightBatches}
    (ends : ((sendBatches run batches index p.1).noted note p.2).Ends Recorded items last result) :
    ∃ sent, Dispatched p batches items sent last ∧ (index = 0 → ∀ first ∈ sent.head?,
      first.arrived = p.2.arrived.length ∧ first.buffer = p.1.mind.context.items) := by
  induction batches generalizing index p items result with
  | nil =>
      obtain ⟨rfl, rfl, _⟩ := Cycle.Ends.of_done ends
      exact ⟨[], ⟨.stop _ _, rfl, by simp, by simp⟩, by simp⟩
  | cons chunk batches ih =>
      have send : ∀ {p : Scheduler × Record} {items : List ContextItem},
          ((Cycle.apply p.1 (lightBatch run index chunk) (goOn run index chunk batches)).noted note
            p.2).Ends Recorded items last result →
          ∃ sent, Dispatched p (chunk :: batches) items sent last ∧ ∀ first ∈ sent.head?,
            first.arrived = p.2.arrived.length ∧ first.buffer = p.1.mind.context.items := by
        intro p items ends
        obtain ⟨front, back, q, verdict, rfl, between, judged⟩ :=
          ends.noted_apply note Recorded.trans
        rcases goOn_cases judged with ⟨rfl, rfl⟩ | ⟨result', others⟩
        · exact ⟨_, .cons rfl between ⟨.stop _ _, rfl, by simp, by simp⟩, by simp⟩
        · obtain ⟨sent, dispatched, _⟩ := ih (index + 1) (p := (q.1.advance chunk, q.2)) others
          exact ⟨_, .cons rfl between dispatched, by simp⟩
      rw [sendBatches_cons] at ends
      simp only at ends
      split at ends
      · obtain ⟨sent, dispatched, first⟩ := send ends
        exact ⟨sent, dispatched, fun _ => first⟩
      · rename_i hindex
        -- A later batch is sent after a pause and a look at the gate, during which items arrive.
        cases ends with
        | pause paused rest =>
            obtain ⟨front, back, q, isOpen, rfl, asked, rest⟩ := keepOn_cases rest
            have waited := paused.trans asked
            rw [← List.append_assoc]
            cases isOpen with
            | true =>
                obtain ⟨sent, dispatched, _⟩ := send rest
                exact ⟨sent, dispatched.after waited, fun h => absurd h hindex⟩
            | false =>
                obtain ⟨rfl, rfl, _⟩ := Cycle.Ends.of_done rest
                have stopped : Dispatched q (chunk :: batches) [] [] q :=
                  ⟨.stop _ _, rfl, by simp, by simp⟩
                exact ⟨[], stopped.after waited, by simp⟩

/-- A light cycle from the request on. Some items arrive before it begins; then it sends batches of
what is in the buffer and newer than the watermark, the first of them at once. -/
inductive Passes (p : Scheduler × Record) : List ContextItem → List Sent → Scheduler × Record → Prop
    where
  | intro {q last : Scheduler × Record} {front back : List ContextItem} {sent : List Sent}
      (size most : Nat) (before : Recorded p front q)
      (dispatched : Dispatched q
        ((chunks size (q.1.mind.context.since q.1.watermark)).take most) back sent last)
      (begun : ∀ first ∈ sent.head?,
        first.arrived = q.2.arrived.length ∧ first.buffer = q.1.mind.context.items) :
      Passes p (front ++ back) sent last

theorem Passes.record {p last : Scheduler × Record} {sent : List Sent}
    (passes : Passes p items sent last) :
    last.2.arrived = p.2.arrived ++ items ∧ last.2.sent = p.2.sent ++ sent := by
  cases passes with
  | intro size most before dispatched begun =>
      refine ⟨?_, ?_⟩
      · rw [dispatched.arrived, before.arrived, List.append_assoc]
      · rw [dispatched.sent, before.sent]

/-- A request that comes to nothing. -/
theorem Passes.of_recorded {p q : Scheduler × Record} (between : Recorded p items q) :
    Passes p items [] q := by
  have nothing : Dispatched q ((chunks 0 (q.1.mind.context.since q.1.watermark)).take 0) [] [] q :=
    ⟨.stop _ _, rfl, by simp, by simp⟩
  simpa using Passes.intro 0 0 between nothing (by simp)

/-- What happens between the request and the beginning of a cycle comes first. -/
theorem Passes.after {p q : Scheduler × Record} {s t : Scheduler} {record : Record}
    {front back : List ContextItem} {sent : List Sent} (passes : Passes (s, q.2) back sent (t, record))
    (between : Recorded p front q) (same : Elapses q.1 [] s) {last : Scheduler}
    (ended : Elapses t [] last) : Passes p (front ++ back) sent (last, record) := by
  cases passes with
  | intro size most before dispatched begun =>
      rw [← List.append_assoc]
      refine .intro size most (between.trans ⟨same.trans before.elapses, before.arrived, before.sent⟩)
        ⟨?_, ?_, dispatched.arrived, dispatched.sent⟩ begun
      · rw [ended.watermark]
        exact dispatched.sends
      · rw [ended.context]
        exact dispatched.context

theorem passes_lightCycle {p last : Scheduler × Record} {outcome : StartOutcome}
    (ends : (p.1.lightCycle.noted note p.2).Ends Recorded items last outcome) :
    ∃ sent, Passes p items sent last := by
  let begun : Scheduler := { p.1.now.2 with lightRuns := p.1.lightRuns + 1 }
  have before : Recorded p [] (begun, p.2) := ⟨⟨rfl, rfl⟩, by simp, rfl⟩
  unfold lightCycle at ends
  simp only at ends
  rw [Cycle.noted_bind] at ends
  obtain ⟨front, back, q, result, rfl, first, second⟩ := ends.bind_cases
  obtain ⟨rfl, rfl, _⟩ := second.of_done
  obtain ⟨sent, dispatched, hfirst⟩ := dispatched_sendBatches _ _ 0 (p := (begun, p.2)) first
  rw [List.append_nil]
  exact ⟨sent, .intro _ _ before ⟨dispatched.sends, dispatched.context, dispatched.arrived,
    dispatched.sent⟩ (hfirst rfl)⟩

theorem passes_light {p last : Scheduler × Record} {outcome : Except Error StartOutcome}
    (ends : ((p.1.runCycle .light).noted note p.2).Ends Recorded items last outcome) :
    ∃ sent, Passes p items sent last := by
  unfold runCycle at ends
  split at ends
  · obtain ⟨rfl, rfl, _⟩ := Cycle.Ends.of_done ends
    exact ⟨[], .of_recorded ⟨.refl _, by simp, rfl⟩⟩
  · cases ends with
    | device answer asked rest =>
        rename_i q front back
        simp only at rest
        split at rest
        · obtain ⟨rfl, rfl, _⟩ := Cycle.Ends.of_done rest
          exact ⟨[], .of_recorded (by simpa using asked)⟩
        · rw [Cycle.noted_bind] at rest
          obtain ⟨during, after, r, outcome, rfl, cycle, release⟩ := rest.bind_cases
          obtain ⟨rfl, rfl, _⟩ := release.of_done
          let begun : Scheduler := { q.1.now.2 with state := .running .light q.1.now.1 }
          obtain ⟨sent, passes⟩ := passes_lightCycle (p := (begun, q.2)) cycle
          rw [List.append_nil]
          exact ⟨sent, passes.after asked ⟨rfl, rfl⟩ ⟨rfl, rfl⟩⟩
        · obtain ⟨rfl, rfl, _⟩ := Cycle.Ends.of_done rest
          exact ⟨[], .of_recorded (by simpa using asked)⟩

section Polling

variable {mind : Mind} {arrived : List ContextItem} {cycles : List (List Sent)}

/-- A state that a course leads to, if some items arrive and perhaps some more cycles run. -/
def Leads (mind : Mind) (arrived : List ContextItem) (cycles : List (List Sent))
    (items : List ContextItem) (s : Scheduler) : Prop :=
  ∃ more, Course mind (arrived ++ items) (cycles ++ more) s

theorem Leads.trans {front back : List ContextItem} (first : Leads mind arrived cycles front s)
    (second : ∀ {arrived cycles}, Course mind arrived cycles s → Leads mind arrived cycles back s') :
    Leads mind arrived cycles (front ++ back) s' := by
  obtain ⟨more, course⟩ := first
  obtain ⟨others, course'⟩ := second course
  exact ⟨more ++ others, by rwa [← List.append_assoc, ← List.append_assoc]⟩

theorem Course.leads (course : Course mind arrived cycles s) (elapses : Elapses s items s') :
    Leads mind arrived cycles items s' :=
  ⟨[], by simpa using course.elapses elapses⟩

/-- Every cycle that comes to its end is part of a course. -/
theorem Course.cycle (course : Course mind arrived cycles s) {kind : CycleKind}
    {outcome : Except Error StartOutcome} (ends : (s.runCycle kind).Ends Elapses items s' outcome) :
    Leads mind arrived cycles items s' := by
  cases kind with
  | nightly => exact course.leads (elapses_nightly ends)
  | light =>
      have records : ∀ {s items s'} (record : Record), Elapses s items s' →
          ∃ record', Recorded (s, record) items (s', record') :=
        fun record elapses => ⟨⟨record.arrived ++ _, record.sent⟩, elapses, rfl, rfl⟩
      obtain ⟨record, noted⟩ := ends.noted note records ⟨arrived, []⟩
      obtain ⟨sent, passes⟩ := passes_light (p := (s, ⟨arrived, []⟩)) noted
      have course' := course.light noted
      rw [passes.record.1] at course'
      exact ⟨[record.sent], course'⟩

theorem Course.tick (course : Course mind arrived cycles s) {outcome : Except Error StartOutcome}
    (ends : s.tick.Ends Elapses items s' outcome) : Leads mind arrived cycles items s' := by
  have dated : Leads mind arrived cycles [] s.today.2 := course.leads ⟨rfl, rfl⟩
  refine dated.trans fun course => ?_
  unfold Scheduler.tick at ends
  simp only at ends
  split at ends
  · exact course.cycle ends
  · obtain ⟨front, back, t, result, rfl, first, second⟩ := ends.bind_cases
    refine (course.cycle first).trans fun course => ?_
    split at second
    · exact course.cycle second
    · obtain ⟨rfl, rfl, _⟩ := second.of_done
      exact course.leads (.refl _)

/-- What a scheduler does while it polls is a course of it. -/
theorem Course.poll (interval rounds : Nat) (course : Course mind arrived cycles s)
    {outcome : Except Error Unit} (ends : (poll interval rounds s).Ends Elapses items s' outcome) :
    Leads mind arrived cycles items s' := by
  induction rounds generalizing arrived cycles s items outcome with
  | zero =>
      obtain ⟨rfl, rfl, _⟩ := Cycle.Ends.of_done ends
      exact course.leads (.refl _)
  | succ rounds ih =>
      unfold Scheduler.poll at ends
      cases ends with
      | wait stop waited rest =>
          refine (course.leads waited).trans fun course => ?_
          simp only at rest
          split at rest
          · obtain ⟨rfl, rfl, _⟩ := Cycle.Ends.of_done rest
            exact course.leads (.refl _)
          · obtain ⟨front, back, t, result, rfl, first, second⟩ := rest.bind_cases
            refine (course.tick first).trans fun course => ?_
            split at second
            · obtain ⟨rfl, rfl, _⟩ := Cycle.Ends.of_done second
              exact course.leads (.refl _)
            · split at second
              · obtain ⟨rfl, rfl, _⟩ := Cycle.Ends.of_done second
                exact course.leads (.refl _)
              · exact ih course second

end Polling

end Scheduler

end Engram
