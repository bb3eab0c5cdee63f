import Engram.Proofs.Completeness
import Mathlib.Data.List.DropRight

/-! The order of the archive log. Memories are written in the order in which they were staged, in
however many entries, and whichever writes fail: what has been written, followed by what is pending,
is at any time what was staged. The view of recent memories is the end of what has been written. -/
namespace Engram.ArchiveLog

open Mind (archived archived_append)

/-- What came of the write that staging memories brings about. There is none as long as the batch
is within its bound. -/
def overflow (l : ArchiveLog) (source : Source) (memories : List Memory) :
    List (Except Error ArchiveEntry) :=
  if memories.isEmpty || (l.pending ++ memories).length ≤ l.maxPending then []
  else
    let (today, source) := source.today
    [({ l with pending := l.pending ++ memories }.sealBatch source today [] [] {}).1.2]

/-- The entries of the writes that went through. -/
def written (writes : List (Except Error ArchiveEntry)) : List ArchiveEntry :=
  writes.filterMap Except.toOption

/-- A call on a log, with what it stages and what came of its writes. What the backend refuses may
change between two calls. -/
inductive Call (l : ArchiveLog) :
    List Memory → List (Except Error ArchiveEntry) → ArchiveLog → Prop where
  | stage (source : Source) (memories : List Memory) :
      Call l memories (l.overflow source memories) (l.stage source memories).1
  | sealBatch (source : Source) (date : Time.Date) (experiences : List Experience)
      (patterns : List Pattern) (metrics : DailyMetrics) :
      Call l [] [(l.sealBatch source date experiences patterns metrics).1.2]
        (l.sealBatch source date experiences patterns metrics).1.1
  | outside (refused : List String) (unwritable : ArchiveEntry → Bool) :
      Call l [] [] { l with backend := { l.backend with refused, unwritable } }

/-- Calls one after the other, with all that they stage and with all of their writes. -/
inductive Calls (l : ArchiveLog) :
    List Memory → List (Except Error ArchiveEntry) → ArchiveLog → Prop where
  | refl : Calls l [] [] l
  | tail {l' l'' : ArchiveLog} {staged more : List Memory}
      {writes later : List (Except Error ArchiveEntry)} (prior : Calls l staged writes l')
      (last : Call l' more later l'') : Calls l (staged ++ more) (writes ++ later) l''

theorem written_append (writes later : List (Except Error ArchiveEntry)) :
    written (writes ++ later) = written writes ++ written later :=
  List.filterMap_append

theorem rtake_rtake {α : Type} (n k : Nat) (items : List α) :
    (items.rtake k).rtake n = items.rtake (min n k) := by
  simp only [List.rtake_eq_reverse_take_reverse, List.reverse_reverse, List.take_take]

/-- A view that shows the end of what was written shows it also with one memory more. -/
theorem push_rtake {capacity : Nat} (room : capacity ≠ 0) (past : List Memory) (m : Memory) :
    push capacity (past.rtake capacity) m = (past ++ [m]).rtake capacity := by
  obtain ⟨n, rfl⟩ := Nat.exists_eq_succ_of_ne_zero room
  rw [List.rtake_concat_succ]
  unfold push List.rtake
  congr 1
  split
  · rename_i full
    rw [List.length_drop] at full
    rw [List.tail_drop]
    congr 1
    omega
  · rename_i left
    rw [List.length_drop] at left
    congr 1
    omega

/-- The memories that are kept in view one after the other are the end of all that was written. -/
theorem recent_remember {l : ArchiveLog} {past : List Memory}
    (known : l.recent = past.rtake l.recentCapacity) (batch : List Memory) :
    (l.remember batch).recent = (past ++ batch).rtake l.recentCapacity := by
  unfold remember
  by_cases room : l.recentCapacity = 0
  · simp only [if_pos room]
    rw [known, room, List.rtake_zero, List.rtake_zero]
  · simp only [if_neg room, known]
    clear known
    induction batch generalizing past with
    | nil => rw [List.append_nil, List.foldl_nil]
    | cons m batch ih =>
        rw [List.foldl_cons, push_rtake room, ih, List.append_assoc, List.singleton_append]

/-- A log after memories were staged and entries were written: nothing has overtaken anything. -/
structure Continues (l : ArchiveLog) (staged : List Memory) (log : List ArchiveEntry)
    (l' : ArchiveLog) : Prop where
  recentCapacity : l'.recentCapacity = l.recentCapacity
  maxPending : l'.maxPending = l.maxPending
  backend : l.backend.Extends log l'.backend
  order : archived log ++ l'.pending = l.pending ++ staged
  recent (past : List Memory) : l.recent = past.rtake l.recentCapacity →
    l'.recent = (past ++ archived log).rtake l.recentCapacity
  counted (e : ArchiveEntry) : e ∈ log → e.metrics.memoriesArchived = e.memories.length

namespace Continues

/-- Memories that are staged wait. -/
theorem waits (l : ArchiveLog) (staged : List Memory) :
    Continues l staged [] { l with pending := l.pending ++ staged } where
  recentCapacity := rfl
  maxPending := rfl
  backend := .refl l.backend
  order := rfl
  recent past known := by simpa [archived] using known
  counted e he := by cases he

theorem refl (l : ArchiveLog) : Continues l [] [] l := by
  simpa using waits l []

theorem trans {l l' l'' : ArchiveLog} {staged more : List Memory} {log later : List ArchiveEntry}
    (first : Continues l staged log l') (second : Continues l' more later l'') :
    Continues l (staged ++ more) (log ++ later) l'' where
  recentCapacity := second.recentCapacity.trans first.recentCapacity
  maxPending := second.maxPending.trans first.maxPending
  backend := first.backend.trans second.backend
  order := by
    calc archived (log ++ later) ++ l''.pending
        _ = archived log ++ (archived later ++ l''.pending) := by
          rw [archived_append, List.append_assoc]
        _ = archived log ++ l'.pending ++ more := by rw [second.order, List.append_assoc]
        _ = l.pending ++ (staged ++ more) := by rw [first.order, List.append_assoc]
  recent past known := by
    have hfirst := first.recent past known
    rw [← first.recentCapacity] at hfirst
    have hsecond := second.recent _ hfirst
    rwa [first.recentCapacity, List.append_assoc, ← archived_append] at hsecond
  counted e he := by
    rcases List.mem_append.mp he with he | he
    · exact first.counted e he
    · exact second.counted e he

end Continues

/-- Sealing the batch empties it into one entry, or changes nothing. -/
theorem continues_sealBatch (l : ArchiveLog) (source : Source) (date : Time.Date)
    (experiences : List Experience) (patterns : List Pattern) (metrics : DailyMetrics) :
    Continues l [] (written [(l.sealBatch source date experiences patterns metrics).1.2])
      (l.sealBatch source date experiences patterns metrics).1.1 := by
  rcases l.sealBatch_cases source date experiences patterns metrics with
    ⟨entry, backend, batch, _, _, _, counted, append, outcome⟩ | ⟨reason, outcome⟩
  · rw [outcome]
    change Continues l [] [entry] _
    refine ⟨rfl, rfl, Backend.append_extends append, ?_, ?_, ?_⟩
    · simp [archived, batch, remember]
    · intro past known
      have hview := recent_remember (l := { l with backend, pending := [] }) known l.pending
      simpa [archived, batch] using hview
    · intro e he
      obtain rfl := List.mem_singleton.mp he
      rw [counted, batch]
  · rw [outcome]
    exact .refl l

/-- Staging adds to the batch, and seals it if it is then over its bound. -/
theorem stage_eq (l : ArchiveLog) (source : Source) (memories : List Memory) :
    let added := { l with pending := l.pending ++ memories }
    (l.overflow source memories = [] ∧ (l.stage source memories).1 = added ∧
      (l.pending.length ≤ l.maxPending → added.pending.length ≤ l.maxPending)) ∨
    ∃ source' today, l.overflow source memories = [(added.sealBatch source' today [] [] {}).1.2] ∧
      (l.stage source memories).1 = (added.sealBatch source' today [] [] {}).1.1 := by
  intro added
  by_cases hempty : memories = []
  · subst hempty
    exact .inl ⟨rfl, by simp [stage, added], by simp [added]⟩
  · have hsome : memories.isEmpty = false := by simpa using hempty
    by_cases hfits : (l.pending ++ memories).length ≤ l.maxPending
    · left
      refine ⟨?_, ?_, fun _ => hfits⟩
      · simp only [overflow, hfits, decide_true, Bool.or_true, if_true]
      · simp only [stage, hsome, hfits, Bool.false_eq_true, if_false, if_true, added]
    · right
      refine ⟨source.today.2, source.today.1, ?_, ?_⟩
      · simp only [overflow, hsome, hfits, decide_false, Bool.or_self, Bool.false_eq_true, if_false,
          added]
      · simp only [stage, hsome, hfits, Bool.false_eq_true, if_false, added]

theorem continues_stage (l : ArchiveLog) (source : Source) (memories : List Memory) :
    Continues l memories (written (l.overflow source memories)) (l.stage source memories).1 := by
  have added : Continues l memories [] { l with pending := l.pending ++ memories } :=
    .waits l memories
  rcases l.stage_eq source memories with ⟨hnone, hstage, _⟩ | ⟨source', today, hwrite, hstage⟩
  · rw [hnone, hstage]
    exact added
  · rw [hwrite, hstage]
    simpa using added.trans (continues_sealBatch _ source' today [] [] {})

theorem Call.continues {l l' : ArchiveLog} {staged : List Memory}
    {writes : List (Except Error ArchiveEntry)} (call : Call l staged writes l') :
    Continues l staged (written writes) l' := by
  cases call with
  | stage source => exact l.continues_stage source staged
  | sealBatch source date experiences patterns metrics =>
      exact l.continues_sealBatch source date experiences patterns metrics
  | outside refused unwritable =>
      have same : l.backend.Extends [] { l.backend with refused, unwritable } :=
        Backend.extends_of_contents rfl
      exact { Continues.refl l with backend := same }

theorem Calls.continues {l l' : ArchiveLog} {staged : List Memory}
    {writes : List (Except Error ArchiveEntry)} (calls : Calls l staged writes l') :
    Continues l staged (written writes) l' := by
  induction calls with
  | refl => exact .refl l
  | tail prior last ih =>
      rw [written_append]
      exact ih.trans last.continues

/-- A write that goes through leaves nothing pending. -/
theorem pending_sealBatch {l : ArchiveLog} {source : Source} {date : Time.Date}
    {experiences : List Experience} {patterns : List Pattern} {metrics : DailyMetrics}
    (ok : (l.sealBatch source date experiences patterns metrics).1.2.isOk) :
    (l.sealBatch source date experiences patterns metrics).1.1.pending = [] := by
  rcases l.sealBatch_cases source date experiences patterns metrics with
    ⟨entry, backend, _, _, _, _, _, _, outcome⟩ | ⟨reason, outcome⟩
  · rw [outcome]
    rfl
  · rw [outcome] at ok
    cases ok

/-- A write that fails changes nothing. -/
theorem sealBatch_error {l : ArchiveLog} {source : Source} {date : Time.Date}
    {experiences : List Experience} {patterns : List Pattern} {metrics : DailyMetrics} {e : Error}
    (failed : (l.sealBatch source date experiences patterns metrics).1.2 = .error e) :
    (∃ reason, e = .archiveWrite reason) ∧
      (l.sealBatch source date experiences patterns metrics).1.1 = l := by
  rcases l.sealBatch_cases source date experiences patterns metrics with
    ⟨entry, backend, _, _, _, _, _, _, outcome⟩ | ⟨reason, outcome⟩
  · rw [outcome] at failed
    cases failed
  · rw [outcome] at failed ⊢
    exact ⟨⟨reason, (Except.error.inj failed).symm⟩, rfl⟩

/-- A batch within its bound stays within it unless a write fails. -/
theorem Call.bounded {l l' : ArchiveLog} {staged : List Memory}
    {writes : List (Except Error ArchiveEntry)} (call : Call l staged writes l')
    (ok : ∀ w ∈ writes, w.isOk) (fits : l.pending.length ≤ l.maxPending) :
    l'.pending.length ≤ l.maxPending := by
  cases call with
  | stage source =>
      rcases l.stage_eq source staged with ⟨_, hstage, hfits⟩ | ⟨source', today, hwrite, hstage⟩
      · rw [hstage]
        exact hfits fits
      · rw [hwrite] at ok
        rw [hstage, pending_sealBatch (ok _ List.mem_cons_self)]
        exact Nat.zero_le _
  | sealBatch source date experiences patterns metrics =>
      rw [pending_sealBatch (ok _ List.mem_cons_self)]
      exact Nat.zero_le _
  | outside refused unwritable => exact fits

theorem Calls.bounded {l l' : ArchiveLog} {staged : List Memory}
    {writes : List (Except Error ArchiveEntry)} (calls : Calls l staged writes l')
    (ok : ∀ w ∈ writes, w.isOk) (fits : l.pending.length ≤ l.maxPending) :
    l'.pending.length ≤ l.maxPending := by
  induction calls with
  | refl => exact fits
  | tail prior last ih =>
      have hprior := ih fun w hw => ok w (List.mem_append_left _ hw)
      rw [← prior.continues.maxPending] at hprior ⊢
      exact last.bounded (fun w hw => ok w (List.mem_append_right _ hw)) hprior

/-- For every sequence of calls on a new log, whichever of its writes fail: the memories of the
entries in the order of writing, followed by the pending batch, are what was staged, in the order of
staging; the recent view is the end of what was written; every entry counts its memories; the batch
is within its bound as long as no write has failed; and a seal that fails, also one that staging
brings about, says so and leaves everything as it is. -/
theorem written_in_order_of_staging {backend : Backend} {recentCapacity maxPending : Nat}
    {staged : List Memory} {writes : List (Except Error ArchiveEntry)} {l : ArchiveLog}
    (calls : Calls (empty backend recentCapacity maxPending) staged writes l) :
    backend.Extends (written writes) l.backend ∧
      archived (written writes) ++ l.pending = staged ∧
      (∀ n, l.recentlySealed n = (archived (written writes)).rtake (min n recentCapacity)) ∧
      (∀ e ∈ written writes, e.metrics.memoriesArchived = e.memories.length) ∧
      ((∀ w ∈ writes, w.isOk) → l.pending.length ≤ max maxPending 1) ∧
      (∀ source date experiences patterns metrics e,
        (l.sealBatch source date experiences patterns metrics).1.2 = .error e →
          (∃ reason, e = .archiveWrite reason) ∧
            (l.sealBatch source date experiences patterns metrics).1.1 = l) ∧
      ∀ source memories e, .error e ∈ l.overflow source memories →
        (l.stage source memories).1 = { l with pending := l.pending ++ memories } := by
  have continues := calls.continues
  refine ⟨continues.backend, continues.order, ?_, continues.counted, ?_, ?_, ?_⟩
  · intro n
    have hrecent := continues.recent [] (List.rtake_nil _).symm
    change l.recent.rtake n = _
    rw [hrecent, List.nil_append]
    exact rtake_rtake n recentCapacity _
  · intro ok
    exact calls.bounded ok (Nat.zero_le _)
  · intro source date experiences patterns metrics e
    exact sealBatch_error
  · intro source memories e herror
    rcases l.stage_eq source memories with ⟨hnone, _, _⟩ | ⟨source', today, hwrite, hstage⟩
    · rw [hnone] at herror
      cases herror
    · rw [hwrite, List.mem_singleton] at herror
      rw [hstage]
      exact (sealBatch_error herror.symm).2

open Mind.Sample (source memory)

/-- Two memories are too many for the batch and cannot be written. They are written with the third,
in front of it, and the fourth is pending. -/
theorem written_in_order_of_staging_sample :
    ∃ writes l, Calls (empty (.ofStorage (.volatile .empty)) 1 1)
        [memory 0, memory 1, memory 2, memory 3] writes l ∧
      writes.map Except.isOk = [false, true] ∧
      l.pending.map (·.id) = [source.ids 3] ∧
      (l.recentlySealed 5).map (·.id) = [source.ids 2] ∧
      archived (written writes) ++ l.pending = [memory 0, memory 1, memory 2, memory 3] ∧
      l.recentlySealed 5 = (archived (written writes)).rtake 1 := by
  let l₀ := empty (.ofStorage (.volatile .empty)) 1 1
  let l₁ := { l₀ with backend := { l₀.backend with refused := [], unwritable := fun _ => true } }
  let l₂ := (l₁.stage source [memory 0, memory 1]).1
  let l₃ := { l₂ with backend := { l₂.backend with refused := [], unwritable := fun _ => false } }
  let l₄ := (l₃.stage source [memory 2]).1
  let l₅ := (l₄.stage source [memory 3]).1
  let writes := l₁.overflow source [memory 0, memory 1] ++ l₃.overflow source [memory 2] ++
    l₄.overflow source [memory 3]
  obtain ⟨results, pending, recent⟩ : writes.map Except.isOk = [false, true] ∧
      l₅.pending.map (·.id) = [source.ids 3] ∧
      (l₅.recentlySealed 5).map (·.id) = [source.ids 2] := by decide +kernel
  have calls : Calls l₀ [memory 0, memory 1, memory 2, memory 3] writes l₅ := by
    have failed := (Calls.refl.tail (.outside [] fun _ => true)).tail
      (.stage (l := l₁) source [memory 0, memory 1])
    have retried := (failed.tail (.outside [] fun _ => false)).tail
      (.stage (l := l₃) source [memory 2])
    simpa [writes] using retried.tail (.stage (l := l₄) source [memory 3])
  have law := written_in_order_of_staging calls
  exact ⟨writes, l₅, calls, results, pending, recent, law.2.1, law.2.2.1 5⟩

end Engram.ArchiveLog
