import Engram.Cycle

/-! Laws of background cycles. A cycle is disturbed only at its questions: whatever happens to the
state there is described by one relation, and what the cycle itself does between two questions by
another. A law of both, closed under composition, is a law of every completed cycle. -/
namespace Engram.Cycle

variable {σ α β lbl : Type}

/-- A cycle comes to its end with some answers. At every question the state changes as `meanwhile`
says, and the labels of these changes are collected. -/
inductive Ends (meanwhile : σ → List lbl → σ → Prop) :
    Cycle σ α → List lbl → σ → α → Prop where
  | done (s : σ) (a : α) : Ends meanwhile (.done s a) [] s a
  | gate {s s' last : σ} {resume : σ → Bool → Cycle σ α} {labels more : List lbl} {a : α}
      (answer : Bool) (between : meanwhile s labels s')
      (rest : Ends meanwhile (resume s' answer) more last a) :
      Ends meanwhile (.gate s resume) (labels ++ more) last a
  | device {s s' last : σ} {resume : σ → DeviceState → Cycle σ α} {labels more : List lbl} {a : α}
      (answer : DeviceState) (between : meanwhile s labels s')
      (rest : Ends meanwhile (resume s' answer) more last a) :
      Ends meanwhile (.device s resume) (labels ++ more) last a
  | train {s s' last : σ} {batch : TrainingBatch} {resume : σ → TrainReply → Cycle σ α}
      {labels more : List lbl} {a : α} (reply : TrainReply) (between : meanwhile s labels s')
      (rest : Ends meanwhile (resume s' reply) more last a) :
      Ends meanwhile (.train s batch resume) (labels ++ more) last a
  | rollback {s s' last : σ} {batch : String} {resume : σ → Cycle σ α} {labels more : List lbl}
      {a : α} (between : meanwhile s labels s') (rest : Ends meanwhile (resume s') more last a) :
      Ends meanwhile (.rollback s batch resume) (labels ++ more) last a
  | pause {s s' last : σ} {millis : Nat} {resume : σ → Cycle σ α} {labels more : List lbl}
      {a : α} (between : meanwhile s labels s') (rest : Ends meanwhile (resume s') more last a) :
      Ends meanwhile (.pause s millis resume) (labels ++ more) last a
  | wait {s s' last : σ} {millis : Nat} {resume : σ → Bool → Cycle σ α} {labels more : List lbl}
      {a : α} (stop : Bool) (between : meanwhile s labels s')
      (rest : Ends meanwhile (resume s' stop) more last a) :
      Ends meanwhile (.wait s millis resume) (labels ++ more) last a

/-- The end of a cycle that nothing disturbs, with the same answer to all questions of a kind. -/
def outcome (answer : Bool) (device : DeviceState) (reply : TrainReply) : Cycle σ α → σ × α
  | .done s a => (s, a)
  | .gate s resume => outcome answer device reply (resume s answer)
  | .device s resume => outcome answer device reply (resume s device)
  | .train s _ resume => outcome answer device reply (resume s reply)
  | .rollback s _ resume => outcome answer device reply (resume s)
  | .pause s _ resume => outcome answer device reply (resume s)
  | .wait s _ resume => outcome answer device reply (resume s answer)

theorem ends_outcome {meanwhile : σ → List lbl → σ → Prop} (refl : ∀ s, meanwhile s [] s)
    (answer : Bool) (device : DeviceState) (reply : TrainReply) (c : Cycle σ α) :
    c.Ends meanwhile [] (c.outcome answer device reply).1 (c.outcome answer device reply).2 := by
  induction c with
  | done s a => exact .done s a
  | gate s resume ih => exact .gate answer (refl s) (ih s answer)
  | device s resume ih => exact .device device (refl s) (ih s device)
  | train s batch resume ih => exact .train reply (refl s) (ih s reply)
  | rollback s batch resume ih => exact .rollback (refl s) (ih s)
  | pause s millis resume ih => exact .pause (refl s) (ih s)
  | wait s millis resume ih => exact .wait answer (refl s) (ih s answer)

/-- From the state `s`, up to its next question or its end, a cycle goes along `R`; and so it does
after every question, in whatever state it is resumed. -/
inductive Moves (R : σ → σ → Prop) : Cycle σ α → σ → Prop where
  | done {s s' : σ} {a : α} (first : R s s') : Moves R (.done s' a) s
  | gate {s s' : σ} {resume : σ → Bool → Cycle σ α} (first : R s s')
      (rest : ∀ t answer, Moves R (resume t answer) t) : Moves R (.gate s' resume) s
  | device {s s' : σ} {resume : σ → DeviceState → Cycle σ α} (first : R s s')
      (rest : ∀ t answer, Moves R (resume t answer) t) : Moves R (.device s' resume) s
  | train {s s' : σ} {batch : TrainingBatch} {resume : σ → TrainReply → Cycle σ α}
      (first : R s s') (rest : ∀ t reply, Moves R (resume t reply) t) :
      Moves R (.train s' batch resume) s
  | rollback {s s' : σ} {batch : String} {resume : σ → Cycle σ α} (first : R s s')
      (rest : ∀ t, Moves R (resume t) t) : Moves R (.rollback s' batch resume) s
  | pause {s s' : σ} {millis : Nat} {resume : σ → Cycle σ α} (first : R s s')
      (rest : ∀ t, Moves R (resume t) t) : Moves R (.pause s' millis resume) s
  | wait {s s' : σ} {millis : Nat} {resume : σ → Bool → Cycle σ α} (first : R s s')
      (rest : ∀ t stop, Moves R (resume t stop) t) : Moves R (.wait s' millis resume) s

variable {R : σ → σ → Prop}

/-- A move in front of a cycle is part of its first stretch. -/
theorem Moves.after (trans : ∀ ⦃s s' s''⦄, R s s' → R s' s'' → R s s'') {s s' : σ}
    {c : Cycle σ α} (front : R s s') (moves : c.Moves R s') : c.Moves R s := by
  cases moves with
  | done first => exact .done (trans front first)
  | gate first rest => exact .gate (trans front first) rest
  | device first rest => exact .device (trans front first) rest
  | train first rest => exact .train (trans front first) rest
  | rollback first rest => exact .rollback (trans front first) rest
  | pause first rest => exact .pause (trans front first) rest
  | wait first rest => exact .wait (trans front first) rest

theorem Moves.bind (trans : ∀ ⦃s s' s''⦄, R s s' → R s' s'' → R s s'') {s : σ} {c : Cycle σ α}
    {next : σ → α → Cycle σ β} (moves : c.Moves R s) (after : ∀ s a, (next s a).Moves R s) :
    (c.bind next).Moves R s := by
  induction moves with
  | done first => exact Moves.after trans first (after _ _)
  | gate first _ ih => exact .gate first ih
  | device first _ ih => exact .device first ih
  | train first _ ih => exact .train first ih
  | rollback first _ ih => exact .rollback first ih
  | pause first _ ih => exact .pause first ih
  | wait first _ ih => exact .wait first ih

/-- Training on a batch is one question, or two if the batch is undone. -/
theorem Moves.apply {s s' : σ} {batch : TrainingBatch}
    {next : σ → Except BatchFailure (Option Float) → Cycle σ α} (first : R s s')
    (refl : ∀ s, R s s) (rest : ∀ s verdict, (next s verdict).Moves R s) :
    (Cycle.apply s' batch next).Moves R s := by
  refine .train first ?_
  intro t reply
  cases judge reply with
  | ok loss => exact rest t (.ok loss)
  | error failure => exact .rollback (refl t) fun u => rest u (.error failure)

/-- What holds of every stretch of a cycle and of everything that happens at its questions holds of
the cycle as a whole, if it composes. -/
theorem Ends.follows {meanwhile law : σ → List lbl → σ → Prop}
    (within : ∀ {s s'}, R s s' → law s [] s')
    (between : ∀ {s labels s'}, meanwhile s labels s' → law s labels s')
    (trans : ∀ {s labels s' more s''}, law s labels s' → law s' more s'' →
      law s (labels ++ more) s'')
    {c : Cycle σ α} {labels : List lbl} {last : σ} {a : α} (ends : c.Ends meanwhile labels last a)
    {s : σ} (moves : c.Moves R s) : law s labels last := by
  have stretch : ∀ {s s' s'' final : σ} {labels more : List lbl}, R s s' →
      meanwhile s' labels s'' → law s'' more final → law s (labels ++ more) final := by
    intro s s' s'' final labels more first change rest
    have whole := trans (within first) (trans (between change) rest)
    exact whole
  induction ends generalizing s with
  | done s' a =>
      cases moves with
      | done first => exact within first
  | gate answer change _ ih =>
      cases moves with
      | gate first rest => exact stretch first change (ih (rest _ answer))
  | device answer change _ ih =>
      cases moves with
      | device first rest => exact stretch first change (ih (rest _ answer))
  | train reply change _ ih =>
      cases moves with
      | train first rest => exact stretch first change (ih (rest _ reply))
  | rollback change _ ih =>
      cases moves with
      | rollback first rest => exact stretch first change (ih (rest _))
  | pause change _ ih =>
      cases moves with
      | pause first rest => exact stretch first change (ih (rest _))
  | wait stop change _ ih =>
      cases moves with
      | wait first rest => exact stretch first change (ih (rest _ stop))

theorem Ends.of_done {meanwhile : σ → List lbl → σ → Prop} {s last : σ} {a b : α}
    {labels : List lbl} (ends : (Cycle.done s a).Ends meanwhile labels last b) :
    labels = [] ∧ last = s ∧ b = a := by
  cases ends with
  | done => exact ⟨rfl, rfl, rfl⟩

/-- A cycle that goes on with another one comes to the end of both. -/
theorem Ends.bind_cases {meanwhile : σ → List lbl → σ → Prop} {c : Cycle σ α}
    {next : σ → α → Cycle σ β} {labels : List lbl} {last : σ} {b : β}
    (ends : (c.bind next).Ends meanwhile labels last b) :
    ∃ front back s a, labels = front ++ back ∧ c.Ends meanwhile front s a ∧
      (next s a).Ends meanwhile back last b := by
  induction c generalizing labels with
  | done s a => exact ⟨[], labels, s, a, rfl, .done s a, ends⟩
  | gate s resume ih =>
      cases ends with
      | gate answer between rest =>
          obtain ⟨front, back, t, a, rfl, first, second⟩ := ih _ answer rest
          exact ⟨_, back, t, a, (List.append_assoc _ _ _).symm, .gate answer between first, second⟩
  | device s resume ih =>
      cases ends with
      | device answer between rest =>
          obtain ⟨front, back, t, a, rfl, first, second⟩ := ih _ answer rest
          exact ⟨_, back, t, a, (List.append_assoc _ _ _).symm, .device answer between first, second⟩
  | train s batch resume ih =>
      cases ends with
      | train reply between rest =>
          obtain ⟨front, back, t, a, rfl, first, second⟩ := ih _ reply rest
          exact ⟨_, back, t, a, (List.append_assoc _ _ _).symm, .train reply between first, second⟩
  | rollback s batch resume ih =>
      cases ends with
      | rollback between rest =>
          obtain ⟨front, back, t, a, rfl, first, second⟩ := ih _ rest
          exact ⟨_, back, t, a, (List.append_assoc _ _ _).symm, .rollback between first, second⟩
  | pause s millis resume ih =>
      cases ends with
      | pause between rest =>
          obtain ⟨front, back, t, a, rfl, first, second⟩ := ih _ rest
          exact ⟨_, back, t, a, (List.append_assoc _ _ _).symm, .pause between first, second⟩
  | wait s millis resume ih =>
      cases ends with
      | wait stop between rest =>
          obtain ⟨front, back, t, a, rfl, first, second⟩ := ih _ stop rest
          exact ⟨_, back, t, a, (List.append_assoc _ _ _).symm, .wait stop between first, second⟩

/-- And if both come to their ends, so does the whole. -/
theorem Ends.bind {meanwhile : σ → List lbl → σ → Prop} {c : Cycle σ α}
    {next : σ → α → Cycle σ β} {front back : List lbl} {s last : σ} {a : α} {b : β}
    (first : c.Ends meanwhile front s a) (second : (next s a).Ends meanwhile back last b) :
    (c.bind next).Ends meanwhile (front ++ back) last b := by
  induction first with
  | done s a => exact second
  | gate answer between _ ih => exact List.append_assoc _ _ _ ▸ .gate answer between (ih second)
  | device answer between _ ih =>
      exact List.append_assoc _ _ _ ▸ .device answer between (ih second)
  | train reply between _ ih => exact List.append_assoc _ _ _ ▸ .train reply between (ih second)
  | rollback between _ ih => exact List.append_assoc _ _ _ ▸ .rollback between (ih second)
  | pause between _ ih => exact List.append_assoc _ _ _ ▸ .pause between (ih second)
  | wait stop between _ ih => exact List.append_assoc _ _ _ ▸ .wait stop between (ih second)

/-- What a host may make of a state when it answers, without a label. -/
inductive Host.Alters {ω : Type} (host : Host (StateM ω) σ) (s : σ) : List Unit → σ → Prop where
  | gate (w : ω) : Alters host s [] (host.gate s w).1.1
  | device (w : ω) : Alters host s [] (host.device s w).1.1
  | train (batch : TrainingBatch) (w : ω) : Alters host s [] (host.train s batch w).1.1
  | rollback (batch : String) (w : ω) : Alters host s [] (host.rollback s batch w).1
  | pause (millis : Nat) (w : ω) : Alters host s [] (host.pause s millis w).1
  | wait (millis : Nat) (w : ω) : Alters host s [] (host.wait s millis w).1.1

/-- Whatever a host answers, and whatever else it keeps track of, a cycle comes to its end. -/
theorem ends_run {ω : Type} (host : Host (StateM ω) σ) (c : Cycle σ α) (w : ω) :
    c.Ends host.Alters [] (c.run host w).1.1 (c.run host w).1.2 := by
  induction c generalizing w with
  | done s a => exact .done s a
  | gate s resume ih => exact .gate _ (.gate w) (ih _ _ _)
  | device s resume ih => exact .device _ (.device w) (ih _ _ _)
  | train s batch resume ih => exact .train _ (.train batch w) (ih _ _ _)
  | rollback s batch resume ih => exact .rollback (.rollback batch w) (ih _ _)
  | pause s millis resume ih => exact .pause (.pause millis w) (ih _ _)
  | wait s millis resume ih => exact .wait _ (.wait millis w) (ih _ _ _)

/-- The state that a cycle hands out. -/
def state : Cycle σ α → σ
  | .done s _ => s
  | .gate s _ => s
  | .device s _ => s
  | .train s _ _ => s
  | .rollback s _ _ => s
  | .pause s _ _ => s
  | .wait s _ _ => s

/-- A cycle is left where it stands, at one of its questions or at its end. -/
inductive Halts (meanwhile : σ → List lbl → σ → Prop) : Cycle σ α → List lbl → σ → Prop where
  | here (c : Cycle σ α) : Halts meanwhile c [] c.state
  | gate {s s' last : σ} {resume : σ → Bool → Cycle σ α} {labels more : List lbl}
      (answer : Bool) (between : meanwhile s labels s')
      (rest : Halts meanwhile (resume s' answer) more last) :
      Halts meanwhile (.gate s resume) (labels ++ more) last
  | device {s s' last : σ} {resume : σ → DeviceState → Cycle σ α} {labels more : List lbl}
      (answer : DeviceState) (between : meanwhile s labels s')
      (rest : Halts meanwhile (resume s' answer) more last) :
      Halts meanwhile (.device s resume) (labels ++ more) last
  | train {s s' last : σ} {batch : TrainingBatch} {resume : σ → TrainReply → Cycle σ α}
      {labels more : List lbl} (reply : TrainReply) (between : meanwhile s labels s')
      (rest : Halts meanwhile (resume s' reply) more last) :
      Halts meanwhile (.train s batch resume) (labels ++ more) last
  | rollback {s s' last : σ} {batch : String} {resume : σ → Cycle σ α} {labels more : List lbl}
      (between : meanwhile s labels s') (rest : Halts meanwhile (resume s') more last) :
      Halts meanwhile (.rollback s batch resume) (labels ++ more) last
  | pause {s s' last : σ} {millis : Nat} {resume : σ → Cycle σ α} {labels more : List lbl}
      (between : meanwhile s labels s') (rest : Halts meanwhile (resume s') more last) :
      Halts meanwhile (.pause s millis resume) (labels ++ more) last
  | wait {s s' last : σ} {millis : Nat} {resume : σ → Bool → Cycle σ α} {labels more : List lbl}
      (stop : Bool) (between : meanwhile s labels s')
      (rest : Halts meanwhile (resume s' stop) more last) :
      Halts meanwhile (.wait s millis resume) (labels ++ more) last

theorem Halts.of_done {meanwhile : σ → List lbl → σ → Prop} {s last : σ} {a : α}
    {labels : List lbl} (halts : (Cycle.done s a).Halts meanwhile labels last) :
    labels = [] ∧ last = s := by
  cases halts with
  | here => exact ⟨rfl, rfl⟩

/-- A cycle that has come to its end is left there. -/
theorem Ends.halts {meanwhile : σ → List lbl → σ → Prop} {c : Cycle σ α} {labels : List lbl}
    {last : σ} {a : α} (ends : c.Ends meanwhile labels last a) :
    c.Halts meanwhile labels last := by
  induction ends with
  | done s a => exact .here (.done s a)
  | gate answer between _ ih => exact .gate answer between ih
  | device answer between _ ih => exact .device answer between ih
  | train reply between _ ih => exact .train reply between ih
  | rollback between _ ih => exact .rollback between ih
  | pause between _ ih => exact .pause between ih
  | wait stop between _ ih => exact .wait stop between ih

/-- A cycle that is left while it has another one to go on with is left before its end, or the other
one is left. -/
theorem Halts.bind_cases {meanwhile : σ → List lbl → σ → Prop} {c : Cycle σ α}
    {next : σ → α → Cycle σ β} {labels : List lbl} {last : σ}
    (halts : (c.bind next).Halts meanwhile labels last) :
    c.Halts meanwhile labels last ∨ ∃ front back s a, labels = front ++ back ∧
      c.Ends meanwhile front s a ∧ (next s a).Halts meanwhile back last := by
  induction c generalizing labels with
  | done s a => exact .inr ⟨[], labels, s, a, rfl, .done s a, halts⟩
  | gate s resume ih =>
      cases halts with
      | here => exact .inl (.here (.gate s resume))
      | gate answer between rest =>
          rcases ih _ answer rest with rest | ⟨front, back, t, a, rfl, first, second⟩
          · exact .inl (.gate answer between rest)
          · exact .inr ⟨_, back, t, a, (List.append_assoc _ _ _).symm, .gate answer between first,
              second⟩
  | device s resume ih =>
      cases halts with
      | here => exact .inl (.here (.device s resume))
      | device answer between rest =>
          rcases ih _ answer rest with rest | ⟨front, back, t, a, rfl, first, second⟩
          · exact .inl (.device answer between rest)
          · exact .inr ⟨_, back, t, a, (List.append_assoc _ _ _).symm, .device answer between first,
              second⟩
  | train s batch resume ih =>
      cases halts with
      | here => exact .inl (.here (.train s batch resume))
      | train reply between rest =>
          rcases ih _ reply rest with rest | ⟨front, back, t, a, rfl, first, second⟩
          · exact .inl (.train reply between rest)
          · exact .inr ⟨_, back, t, a, (List.append_assoc _ _ _).symm, .train reply between first,
              second⟩
  | rollback s batch resume ih =>
      cases halts with
      | here => exact .inl (.here (.rollback s batch resume))
      | rollback between rest =>
          rcases ih _ rest with rest | ⟨front, back, t, a, rfl, first, second⟩
          · exact .inl (.rollback between rest)
          · exact .inr ⟨_, back, t, a, (List.append_assoc _ _ _).symm, .rollback between first,
              second⟩
  | pause s millis resume ih =>
      cases halts with
      | here => exact .inl (.here (.pause s millis resume))
      | pause between rest =>
          rcases ih _ rest with rest | ⟨front, back, t, a, rfl, first, second⟩
          · exact .inl (.pause between rest)
          · exact .inr ⟨_, back, t, a, (List.append_assoc _ _ _).symm, .pause between first, second⟩
  | wait s millis resume ih =>
      cases halts with
      | here => exact .inl (.here (.wait s millis resume))
      | wait stop between rest =>
          rcases ih _ stop rest with rest | ⟨front, back, t, a, rfl, first, second⟩
          · exact .inl (.wait stop between rest)
          · exact .inr ⟨_, back, t, a, (List.append_assoc _ _ _).symm, .wait stop between first,
              second⟩

theorem Moves.state {s : σ} {c : Cycle σ α} (moves : c.Moves R s) : R s c.state := by
  cases moves with
  | done first => exact first
  | gate first => exact first
  | device first => exact first
  | train first => exact first
  | rollback first => exact first
  | pause first => exact first
  | wait first => exact first

/-- What holds of every completed cycle holds of one that is left, too. -/
theorem Halts.follows {meanwhile law : σ → List lbl → σ → Prop}
    (within : ∀ {s s'}, R s s' → law s [] s')
    (between : ∀ {s labels s'}, meanwhile s labels s' → law s labels s')
    (trans : ∀ {s labels s' more s''}, law s labels s' → law s' more s'' →
      law s (labels ++ more) s'')
    {c : Cycle σ α} {labels : List lbl} {last : σ} (halts : c.Halts meanwhile labels last)
    {s : σ} (moves : c.Moves R s) : law s labels last := by
  have stretch : ∀ {s s' s'' final : σ} {labels more : List lbl}, R s s' →
      meanwhile s' labels s'' → law s'' more final → law s (labels ++ more) final := by
    intro s s' s'' final labels more first change rest
    have whole := trans (within first) (trans (between change) rest)
    exact whole
  induction halts generalizing s with
  | here c => exact within moves.state
  | gate answer change _ ih =>
      cases moves with
      | gate first rest => exact stretch first change (ih (rest _ answer))
  | device answer change _ ih =>
      cases moves with
      | device first rest => exact stretch first change (ih (rest _ answer))
  | train reply change _ ih =>
      cases moves with
      | train first rest => exact stretch first change (ih (rest _ reply))
  | rollback change _ ih =>
      cases moves with
      | rollback first rest => exact stretch first change (ih (rest _))
  | pause change _ ih =>
      cases moves with
      | pause first rest => exact stretch first change (ih (rest _))
  | wait stop change _ ih =>
      cases moves with
      | wait first rest => exact stretch first change (ih (rest _ stop))

/-- A law of a cycle is a law of the cycle on a part of a larger state, if the larger state keeps it
when the part is put back and when it is asked whether to go on. -/
theorem Moves.within {τ : Type} {Q : τ → τ → Prop} {part : Part τ σ}
    {keepOn : τ → (τ → Bool → Cycle τ α) → Cycle τ α}
    (put : ∀ t s, R (part.get t) s → Q t (part.put s t))
    (asks : ∀ t u next, Q t u → (∀ v answer, (next v answer).Moves Q v) →
      (keepOn u next).Moves Q t)
    {c : Cycle σ α} {s : σ} (moves : c.Moves R s) (t : τ) (same : part.get t = s) :
    (c.within part keepOn t).Moves Q t := by
  induction moves generalizing t with
  | done first => exact .done (put t _ (same ▸ first))
  | gate first _ ih =>
      exact asks t _ _ (put t _ (same ▸ first)) fun u answer => ih (part.get u) answer u rfl
  | device first _ ih =>
      exact .device (put t _ (same ▸ first)) fun u answer => ih (part.get u) answer u rfl
  | train first _ ih =>
      exact .train (put t _ (same ▸ first)) fun u reply => ih (part.get u) reply u rfl
  | rollback first _ ih =>
      exact .rollback (put t _ (same ▸ first)) fun u => ih (part.get u) u rfl
  | pause first _ ih =>
      exact .pause (put t _ (same ▸ first)) fun u => ih (part.get u) u rfl
  | wait first _ ih =>
      exact .wait (put t _ (same ▸ first)) fun u stop => ih (part.get u) stop u rfl

/-- A cycle on a part of a larger state comes to its end as it does on that part alone. -/
theorem Ends.of_within {τ : Type} {part : Part τ σ}
    {keepOn : τ → (τ → Bool → Cycle τ α) → Cycle τ α}
    {meanwhile : τ → List lbl → τ → Prop} {inner : σ → List lbl → σ → Prop}
    (get_put : ∀ s t, part.get (part.put s t) = s)
    (between : ∀ {t labels t'}, meanwhile t labels t' → inner (part.get t) labels (part.get t'))
    (asks : ∀ {t next labels last a}, (keepOn t next).Ends meanwhile labels last a →
      ∃ front back u answer, labels = front ++ back ∧ inner (part.get t) front (part.get u) ∧
        (next u answer).Ends meanwhile back last a)
    {c : Cycle σ α} {outer last : τ} {labels : List lbl} {a : α}
    (ends : (c.within part keepOn outer).Ends meanwhile labels last a) :
    c.Ends inner labels (part.get last) a := by
  induction c generalizing outer labels with
  | done s b =>
      obtain ⟨rfl, rfl, rfl⟩ := ends.of_done
      rw [get_put]
      exact .done s _
  | gate s resume ih =>
      obtain ⟨front, back, u, answer, rfl, change, rest⟩ := asks ends
      rw [get_put] at change
      exact .gate answer change (ih _ answer rest)
  | device s resume ih =>
      cases ends with
      | device answer change rest =>
          have change := between change
          rw [get_put] at change
          exact .device answer change (ih _ answer rest)
  | train s batch resume ih =>
      cases ends with
      | train reply change rest =>
          have change := between change
          rw [get_put] at change
          exact .train reply change (ih _ reply rest)
  | rollback s batch resume ih =>
      cases ends with
      | rollback change rest =>
          have change := between change
          rw [get_put] at change
          exact .rollback change (ih _ rest)
  | pause s millis resume ih =>
      cases ends with
      | pause change rest =>
          have change := between change
          rw [get_put] at change
          exact .pause change (ih _ rest)
  | wait s millis resume ih =>
      cases ends with
      | wait stop change rest =>
          have change := between change
          rw [get_put] at change
          exact .wait stop change (ih _ stop rest)

section Noted

variable {γ : Type} (note : σ → γ → TrainingBatch → γ)

/-- A cycle with a record beside its state, in which it notes every batch that it sends. -/
def noted (record : γ) : Cycle σ α → Cycle (σ × γ) α
  | .done s a => .done (s, record) a
  | .gate s resume => .gate (s, record) fun p answer => (resume p.1 answer).noted p.2
  | .device s resume => .device (s, record) fun p answer => (resume p.1 answer).noted p.2
  | .train s batch resume =>
    .train (s, note s record batch) batch fun p reply => (resume p.1 reply).noted p.2
  | .rollback s batch resume => .rollback (s, record) batch fun p => (resume p.1).noted p.2
  | .pause s millis resume => .pause (s, record) millis fun p => (resume p.1).noted p.2
  | .wait s millis resume => .wait (s, record) millis fun p stop => (resume p.1 stop).noted p.2

theorem noted_bind (record : γ) (c : Cycle σ α) (next : σ → α → Cycle σ β) :
    (c.bind next).noted note record =
      (c.noted note record).bind fun p a => (next p.1 a).noted note p.2 := by
  induction c generalizing record with
  | done s a => rfl
  | gate s resume ih | device s resume ih | wait s millis resume ih =>
      simp only [bind, noted, ih]
  | train s batch resume ih => simp only [bind, noted, ih]
  | rollback s batch resume ih | pause s millis resume ih => simp only [bind, noted, ih]

/-- A batch that is sent is noted before it is judged. -/
theorem Ends.noted_apply {meanwhile : σ × γ → List lbl → σ × γ → Prop}
    (trans : ∀ {p labels q more r}, meanwhile p labels q → meanwhile q more r →
      meanwhile p (labels ++ more) r)
    {s : σ} {record : γ} {batch : TrainingBatch}
    {next : σ → Except BatchFailure (Option Float) → Cycle σ α} {labels : List lbl} {last : σ × γ}
    {a : α}
    (ends : ((Cycle.apply s batch next).noted note record).Ends meanwhile labels last a) :
    ∃ front back p verdict, labels = front ++ back ∧ meanwhile (s, note s record batch) front p ∧
      ((next p.1 verdict).noted note p.2).Ends meanwhile back last a := by
  cases ends with
  | train reply between rest =>
      rename_i p front back
      cases hjudged : judge reply with
      | ok loss =>
          simp only [hjudged] at rest
          exact ⟨front, back, p, .ok loss, rfl, between, rest⟩
      | error failure =>
          simp only [hjudged] at rest
          cases rest with
          | rollback undone rest =>
              exact ⟨_, _, _, .error failure, (List.append_assoc _ _ _).symm, trans between undone,
                rest⟩

/-- Every completed cycle can be recorded, if whatever happens at its questions can. -/
theorem Ends.noted {meanwhile : σ → List lbl → σ → Prop}
    {recorded : σ × γ → List lbl → σ × γ → Prop}
    (records : ∀ {s labels s'} (record : γ), meanwhile s labels s' →
      ∃ record', recorded (s, record) labels (s', record'))
    {c : Cycle σ α} {labels : List lbl} {last : σ} {a : α} (ends : c.Ends meanwhile labels last a)
    (record : γ) : ∃ record', (c.noted note record).Ends recorded labels (last, record') a := by
  induction ends generalizing record with
  | done s a => exact ⟨record, .done (s, record) a⟩
  | gate answer between _ ih =>
      obtain ⟨_, hbetween⟩ := records record between
      obtain ⟨record', hrest⟩ := ih _
      exact ⟨record', .gate answer hbetween hrest⟩
  | device answer between _ ih =>
      obtain ⟨_, hbetween⟩ := records record between
      obtain ⟨record', hrest⟩ := ih _
      exact ⟨record', .device answer hbetween hrest⟩
  | train reply between _ ih =>
      obtain ⟨_, hbetween⟩ := records (note _ record _) between
      obtain ⟨record', hrest⟩ := ih _
      exact ⟨record', .train reply hbetween hrest⟩
  | rollback between _ ih =>
      obtain ⟨_, hbetween⟩ := records record between
      obtain ⟨record', hrest⟩ := ih _
      exact ⟨record', .rollback hbetween hrest⟩
  | pause between _ ih =>
      obtain ⟨_, hbetween⟩ := records record between
      obtain ⟨record', hrest⟩ := ih _
      exact ⟨record', .pause hbetween hrest⟩
  | wait stop between _ ih =>
      obtain ⟨_, hbetween⟩ := records record between
      obtain ⟨record', hrest⟩ := ih _
      exact ⟨record', .wait stop hbetween hrest⟩

end Noted

end Engram.Cycle
