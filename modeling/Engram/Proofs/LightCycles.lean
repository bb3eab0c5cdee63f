import Engram.Proofs.Background
import Engram.Proofs.Chronology

/-! What light cycles send. Items are told apart by their positions among all items that have
arrived. A light cycle takes the items that are newer than the watermark, in order, and the watermark
ends up at the last that it has sent; so nothing is sent twice, and nothing out of order. But an
instant does not tell apart items that have it in common: where a cycle ends between two of them, the
later one is never sent. -/
namespace Engram

theorem prefix_flatten_take {α : Type} (n : Nat) (lists : List (List α)) :
    (lists.take n).flatten <+: lists.flatten := by
  refine ⟨(lists.drop n).flatten, ?_⟩
  rw [← List.flatten_append, List.take_append_drop]

namespace Scheduler

/-- One watermark is no later than another. Before anything was sent there is none. -/
def NoLater (w w' : Option Time.Instant) : Prop := ∀ t ∈ w, ∃ t' ∈ w', ¬ t'.before t

theorem NoLater.refl (w : Option Time.Instant) : NoLater w w :=
  fun t ht => ⟨t, ht, t.not_before_self⟩

theorem NoLater.trans {w w' w'' : Option Time.Instant} (first : NoLater w w')
    (second : NoLater w' w'') : NoLater w w'' := by
  intro t ht
  obtain ⟨t', ht', hfirst⟩ := first t ht
  obtain ⟨t'', ht'', hsecond⟩ := second t' ht'
  exact ⟨t'', ht'', Time.Instant.not_before_trans hfirst hsecond⟩

/-- Items whose timestamps do not decrease. -/
def InOrder (items : List ContextItem) : Prop :=
  items.Pairwise fun a b => ¬ b.timestamp.before a.timestamp

/-- The examples that a light cycle has sent. -/
def examples (cycle : List Sent) : List TrainingExample := cycle.flatMap (·.batch.examples)

/-- The position of the oldest item in the buffer when a light cycle began. -/
def first : List Sent → Nat
  | [] => 0
  | e :: _ => e.arrived - e.buffer.length

/-- The items that a light cycle has found, with their positions: those in the buffer that are newer
than the watermark. -/
def found : List Sent → List (ContextItem × Nat)
  | [] => []
  | e :: cycle => (e.buffer.zipIdx (first (e :: cycle))).filter fun p =>
      e.watermark.all (·.before p.1.timestamp)

/-- The positions of the items that a light cycle has sent: the first that it has found. -/
def positions (cycle : List Sent) : List Nat :=
  ((found cycle).take (examples cycle).length).map (·.2)

section Sends

variable {w w' : Option Time.Instant} {batches : List (List ContextItem)} {sent : List Sent}

theorem Sends.spec (sends : Sends w batches sent w') :
    examples sent = (batches.take sent.length).flatten.map contextExample ∧
      w' = markAfter w (batches.take sent.length).flatten := by
  induction sends with
  | stop w batches => simp [examples, markAfter]
  | next mark hexamples rest ih =>
      obtain ⟨hrest, hlast⟩ := ih
      refine ⟨?_, ?_⟩
      · rw [examples, List.flatMap_cons, hexamples]
        change _ ++ examples _ = _
        rw [hrest]
        simp
      · rw [hlast]
        simp [markAfter, List.getLast?_append, Option.map_or, Option.or_assoc]

theorem Sends.of_nil (sends : Sends w batches [] w') : w' = w := by
  cases sends
  rfl

theorem Sends.head {e : Sent} (sends : Sends w batches (e :: sent) w') : e.watermark = w := by
  cases sends
  assumption

theorem NoLater.markAfter {items : List ContextItem}
    (newer : ∀ item ∈ items, NoLater w (some item.timestamp)) : NoLater w (markAfter w items) := by
  unfold Scheduler.markAfter
  cases hlast : items.getLast? with
  | none => exact .refl w
  | some last => exact newer last (List.mem_of_getLast? hlast)

/-- Along the batches the watermark does not decrease. -/
theorem Sends.noLater (sends : Sends w batches sent w') (ordered : InOrder batches.flatten)
    (newer : ∀ item ∈ batches.flatten, NoLater w (some item.timestamp)) :
    (w :: (sent.map (·.watermark) ++ [w'])).Pairwise NoLater := by
  induction sends with
  | stop w batches => simpa using NoLater.refl w
  | next mark hexamples rest ih =>
      rename_i w last items batches first sent
      rw [List.flatten_cons] at ordered newer
      obtain ⟨_, hordered, hapart⟩ := List.pairwise_append.mp ordered
      have hmoved : NoLater w (Scheduler.markAfter w items) :=
        .markAfter fun item hitem => newer item (List.mem_append_left _ hitem)
      have hrest := ih hordered (by
        intro item hitem
        unfold Scheduler.markAfter
        cases hlast : items.getLast? with
        | none => exact newer item (List.mem_append_right _ hitem)
        | some final =>
            rintro t ⟨⟩
            exact ⟨_, rfl, hapart final (List.mem_of_getLast? hlast) item hitem⟩)
      have habove := (List.pairwise_cons.mp hrest).1
      have hfrom : ∀ v ∈ sent.map (·.watermark) ++ [last], NoLater w v :=
        fun v hv => hmoved.trans (habove v hv)
      rw [List.map_cons, List.cons_append, mark]
      refine List.pairwise_cons.mpr ⟨?_, List.pairwise_cons.mpr ⟨hfrom, hrest.of_cons⟩⟩
      intro v hv
      rcases List.mem_cons.mp hv with rfl | hv
      · exact .refl _
      · exact hfrom v hv

end Sends

/-- The instant of the item at a position. -/
def time (all : List ContextItem) (i : Nat) : Option Time.Instant := all[i]?.map (·.timestamp)

theorem InOrder.not_before {all : List ContextItem} (ordered : InOrder all) {i j : Nat}
    {t u : Time.Instant} (hi : time all i = some t) (hj : time all j = some u) (h : i ≤ j) :
    ¬ u.before t := by
  obtain ⟨a, ha, rfl⟩ := Option.map_eq_some_iff.mp hi
  obtain ⟨b, hb, rfl⟩ := Option.map_eq_some_iff.mp hj
  obtain ⟨hilt, rfl⟩ := List.getElem?_eq_some_iff.mp ha
  obtain ⟨hjlt, rfl⟩ := List.getElem?_eq_some_iff.mp hb
  rcases Nat.lt_or_eq_of_le h with h | rfl
  · exact List.pairwise_iff_getElem.mp ordered i j hilt hjlt h
  · exact Time.Instant.not_before_self _

theorem InOrder.lt_of_before {all : List ContextItem} (ordered : InOrder all) {i j : Nat}
    {t u : Time.Instant} (hi : time all i = some t) (hj : time all j = some u) (h : t.before u) :
    i < j := by
  by_contra hge
  exact ordered.not_before hj hi (Nat.le_of_not_lt hge) h

/-- What a light cycle comes to, from a watermark on and with a buffer from a position on, where
`all` are the items that ever arrive. It sends items that are newer than the watermark, in order,
and leaves out none of these; and the watermark moves to the last. -/
structure Yields (all : List ContextItem) (w : Option Time.Instant) (start : Nat)
    (cycle : List Sent) (w' : Option Time.Instant) : Prop where
  examples : (examples cycle).map some = (positions cycle).map fun i => all[i]?.map contextExample
  newer : ∀ i ∈ positions cycle, ∃ t, time all i = some t ∧ w.all (·.before t)
  ordered : (positions cycle).Pairwise (· < ·)
  gapless : ∀ i ∈ positions cycle, ∀ j t, first cycle ≤ j → j < i → time all j = some t →
    w.all (·.before t) → j ∈ positions cycle
  marked : w' = ((positions cycle).getLast?.bind (time all)).or w
  onward : positions cycle ≠ [] → start ≤ first cycle
  marks : InOrder all → (w :: (cycle.map (·.watermark) ++ [w'])).Pairwise NoLater

theorem Yields.nil (all : List ContextItem) (w : Option Time.Instant) (start : Nat) :
    Yields all w start [] w := by
  refine ⟨rfl, ?_, ?_, ?_, rfl, ?_, ?_⟩
  · simp [positions, found]
  · simp [positions, found]
  · simp [positions, found]
  · simp [positions, found]
  · intro _
    simpa using NoLater.refl w

section Found

variable {all known : List ContextItem}

/-- The buffered items with their positions, where the buffer holds the last of all that is known. -/
theorem mem_zipIdx_iff {buffer : List ContextItem} (suffix : buffer <:+ known)
    (within : known <+: all) (item : ContextItem) (i : Nat) :
    (item, i) ∈ buffer.zipIdx (known.length - buffer.length) ↔
      known.length - buffer.length ≤ i ∧ i < known.length ∧ all[i]? = some item := by
  obtain ⟨gone, rfl⟩ := suffix
  obtain ⟨more, rfl⟩ := within
  have hstart : (gone ++ buffer).length - buffer.length = gone.length := by simp
  rw [hstart, List.mk_mem_zipIdx_iff_le_and_getElem?_sub]
  refine and_congr_right fun hle => ?_
  rw [List.append_assoc, List.getElem?_append_right hle, List.length_append]
  constructor
  · intro h
    have hlt := (List.getElem?_eq_some_iff.mp h).1
    exact ⟨by omega, by rw [List.getElem?_append_left hlt]; exact h⟩
  · rintro ⟨hlt, h⟩
    rwa [List.getElem?_append_left (by omega)] at h

/-- The positions of what is found increase. -/
theorem found_ordered (cycle : List Sent) : ((found cycle).map (·.2)).Pairwise (· < ·) := by
  cases cycle with
  | nil => exact .nil
  | cons e cycle =>
      have hrange := List.pairwise_lt_range' (s := first (e :: cycle)) (n := e.buffer.length) 1
      rw [← List.zipIdx_map_snd] at hrange
      exact hrange.sublist (List.filter_sublist.map _)

theorem found_fst (e : Sent) (cycle : List Sent) : (found (e :: cycle)).map (·.1) =
    e.buffer.filter fun item => e.watermark.all (·.before item.timestamp) := by
  conv => rhs; rw [← List.zipIdx_map_fst (first (e :: cycle)) e.buffer]
  rw [List.filter_map]
  rfl

theorem mem_found_iff {e : Sent} {cycle : List Sent} (suffix : e.buffer <:+ known)
    (within : known <+: all) (hknown : e.arrived = known.length) (item : ContextItem) (i : Nat) :
    (item, i) ∈ found (e :: cycle) ↔
      (first (e :: cycle) ≤ i ∧ i < known.length ∧ all[i]? = some item) ∧
        e.watermark.all (·.before item.timestamp) := by
  have hfirst : first (e :: cycle) = known.length - e.buffer.length := by
    rw [← hknown]
    rfl
  rw [found, List.mem_filter, hfirst, mem_zipIdx_iff suffix within]

theorem positions_eq_take (cycle : List Sent) :
    positions cycle = ((found cycle).map (·.2)).take (examples cycle).length :=
  List.map_take

/-- A position that is found before one that is sent is sent. -/
theorem mem_positions_of_lt {cycle : List Sent} {i j : Nat} (hi : i ∈ positions cycle)
    (hj : j ∈ (found cycle).map (·.2)) (hlt : j < i) : j ∈ positions cycle := by
  rw [positions_eq_take] at *
  have hordered := found_ordered cycle
  generalize (found cycle).map (·.2) = l at *
  rw [← List.take_append_drop (examples cycle).length l] at hj hordered
  rcases List.mem_append.mp hj with hj | hj
  · exact hj
  · have := (List.pairwise_append.mp hordered).2.2 i hi j hj
    omega

/-- The items at the positions that are sent, where what is found is at its positions. -/
theorem map_positions {β : Type} {cycle : List Sent}
    (located : ∀ p ∈ found cycle, all[p.2]? = some p.1) (f : ContextItem → β) :
    (positions cycle).map (fun i => all[i]?.map f) =
      (((found cycle).take (examples cycle).length).map (·.1)).map (some ∘ f) := by
  unfold positions
  rw [List.map_map, List.map_map]
  refine List.map_congr_left fun p hp => ?_
  simp [located p (List.mem_of_mem_take hp)]

/-- What is sent of the batches is the first part of what they were made of. -/
theorem Sends.eq_take {w w' : Option Time.Instant} {batches : List (List ContextItem)}
    {sent : List Sent} {items : List ContextItem} (sends : Sends w batches sent w')
    (made : batches.flatten <+: items) :
    examples sent = (items.take (examples sent).length).map contextExample ∧
      w' = markAfter w (items.take (examples sent).length) := by
  obtain ⟨hexamples, hmark⟩ := sends.spec
  have hprefix := (prefix_flatten_take sent.length batches).trans made
  have htake := List.prefix_iff_eq_take.mp hprefix
  have hlength : (batches.take sent.length).flatten.length = (examples sent).length := by
    rw [hexamples, List.length_map]
  rw [← hlength, ← htake]
  exact ⟨hexamples, hmark⟩

/-- Batches made of what is found hold the items at the positions that are sent. -/
theorem Sends.yields {buffer : ContextBuffer} {w w' : Option Time.Instant}
    {batches : List (List ContextItem)} {sent : List Sent} {start : Nat}
    (sends : Sends w batches sent w') (made : batches.flatten <+: buffer.since w)
    (suffix : buffer.items <:+ known) (within : known <+: all)
    (begun : ∀ e ∈ sent.head?, e.arrived = known.length ∧ e.buffer = buffer.items)
    (onward : start ≤ known.length - buffer.items.length) : Yields all w start sent w' := by
  cases sent with
  | nil =>
      rw [sends.of_nil]
      exact .nil all w start
  | cons e sent =>
      obtain ⟨harrived, hbuffer⟩ := begun e rfl
      have hmark := sends.head
      have hfound : (found (e :: sent)).map (·.1) = buffer.since w := by
        rw [found_fst, hbuffer, hmark]
        rfl
      have hmem : ∀ item i, (item, i) ∈ found (e :: sent) ↔ _ :=
        mem_found_iff (hbuffer ▸ suffix) within harrived
      have hlocated : ∀ p ∈ found (e :: sent), all[p.2]? = some p.1 :=
        fun p hp => ((hmem p.1 p.2).mp hp).1.2.2
      obtain ⟨hexamples, hlast⟩ := sends.eq_take made
      rw [← hfound, ← List.map_take] at hexamples hlast
      refine ⟨?_, ?_, ?_, ?_, ?_, ?_, ?_⟩
      · rw [map_positions hlocated]
        conv => lhs; rw [hexamples]
        rw [List.map_map]
      · intro i hi
        obtain ⟨⟨item, _⟩, hin, rfl⟩ := List.mem_map.mp hi
        obtain ⟨⟨_, _, hget⟩, hnewer⟩ := (hmem item _).mp (List.mem_of_mem_take hin)
        exact ⟨item.timestamp, by simp [time, hget], hmark ▸ hnewer⟩
      · rw [positions_eq_take]
        exact (found_ordered _).sublist (List.take_sublist _ _)
      · intro i hi j t hfirst hlt hj hnewer
        refine mem_positions_of_lt hi ?_ hlt
        obtain ⟨item, hget, rfl⟩ := Option.map_eq_some_iff.mp hj
        obtain ⟨⟨_, k⟩, hin, rfl⟩ := List.mem_map.mp hi
        obtain ⟨⟨_, hbound, _⟩, _⟩ := (hmem _ k).mp (List.mem_of_mem_take hin)
        have hjfound : (item, j) ∈ found (e :: sent) :=
          (hmem item j).mpr ⟨⟨hfirst, hlt.trans hbound, hget⟩, hmark ▸ hnewer⟩
        exact List.mem_map_of_mem hjfound
      · rw [hlast, markAfter, positions, List.getLast?_map, List.getLast?_map]
        cases hfinal : ((found (e :: sent)).take (examples (e :: sent)).length).getLast? with
        | none => rfl
        | some p =>
            have hget := hlocated p (List.mem_of_mem_take (List.mem_of_getLast? hfinal))
            simp [time, hget]
      · intro _
        rw [first, harrived, hbuffer]
        exact onward
      · intro hordered
        have hitems : (buffer.since w).Sublist all :=
          List.filter_sublist.trans (suffix.sublist.trans within.sublist)
        refine sends.noLater ((hordered.sublist hitems).sublist made.sublist) ?_
        intro item hitem
        have hnewer := List.of_mem_filter (made.subset hitem)
        rintro t rfl
        exact ⟨_, rfl, Time.Instant.not_before_of_before (by simpa using hnewer)⟩

end Found

/-- The light cycles of a scheduler one after the other, up to a watermark and a position where the
buffer begins. -/
inductive Told (all : List ContextItem) : List (List Sent) → Option Time.Instant → Nat → Prop where
  | nil (start : Nat) : Told all [] none start
  | light {cycles : List (List Sent)} {cycle : List Sent} {w w' : Option Time.Instant}
      {start start' : Nat} (prior : Told all cycles w start) (yields : Yields all w start cycle w')
      (onward : start ≤ start') (within : positions cycle ≠ [] → first cycle ≤ start') :
      Told all (cycles ++ [cycle]) w' start'

theorem Told.mono {all : List ContextItem} {cycles : List (List Sent)} {w : Option Time.Instant}
    {start start' : Nat} (told : Told all cycles w start) (h : start ≤ start') :
    Told all cycles w start' := by
  cases told with
  | nil => exact .nil start'
  | light prior yields onward within =>
      exact .light prior yields (onward.trans h) fun some => (within some).trans h

/-- A light cycle of a scheduler whose buffer holds the last of all items. -/
theorem Passes.told {all items : List ContextItem} {cycles : List (List Sent)} {sent : List Sent}
    {p last : Scheduler × Record} (passes : Passes p items sent last)
    (buffers : p.1.mind.context.items <:+ p.2.arrived) (within : last.2.arrived <+: all)
    (told : Told all cycles p.1.watermark (p.1.mind.context.oldest p.2.arrived)) :
    last.1.mind.context.items <:+ last.2.arrived ∧
      Told all (cycles ++ [sent]) last.1.watermark (last.1.mind.context.oldest last.2.arrived) := by
  cases passes with
  | @intro q last front back sent size most before dispatched begun =>
      have hbuffers : q.1.mind.context.items <:+ q.2.arrived := by
        rw [before.arrived, before.elapses.context]
        exact ContextBuffer.appendAll_buffers buffers front
      have honward : p.1.mind.context.oldest p.2.arrived ≤ q.1.mind.context.oldest q.2.arrived := by
        rw [before.arrived, before.elapses.context]
        exact ContextBuffer.oldest_le_appendAll _ _ _
      have hlater : q.1.mind.context.oldest q.2.arrived ≤
          last.1.mind.context.oldest last.2.arrived := by
        rw [dispatched.arrived, dispatched.context]
        exact ContextBuffer.oldest_le_appendAll _ _ _
      rw [← before.elapses.watermark] at told
      have hmade : ((chunks size (q.1.mind.context.since q.1.watermark)).take most).flatten <+:
          q.1.mind.context.since q.1.watermark := by
        have h := prefix_flatten_take most (chunks size (q.1.mind.context.since q.1.watermark))
        rwa [flatten_chunks] at h
      have hknown : q.2.arrived <+: all := by
        refine List.IsPrefix.trans ?_ within
        rw [dispatched.arrived]
        exact List.prefix_append _ _
      refine ⟨?_, .light told (dispatched.sends.yields hmade hbuffers hknown begun honward)
        (honward.trans hlater) ?_⟩
      · rw [dispatched.arrived, dispatched.context]
        exact ContextBuffer.appendAll_buffers hbuffers back
      · intro some
        refine Nat.le_trans (Nat.le_of_eq ?_) hlater
        cases sent with
        | nil => exact absurd rfl some
        | cons e sent =>
            obtain ⟨harrived, hbuffer⟩ := begun e rfl
            rw [first, harrived, hbuffer]
            rfl

/-- What is told of the light cycles of a scheduler. -/
theorem Course.told {mind : Mind} {s : Scheduler} {arrived all : List ContextItem}
    {cycles : List (List Sent)} (course : Course mind arrived cycles s) (within : arrived <+: all) :
    s.mind.context.items <:+ arrived ∧
      Told all cycles s.watermark (s.mind.context.oldest arrived) := by
  have onward : ∀ {arrived items : List ContextItem} {cycles : List (List Sent)}
      {s s' : Scheduler}, Elapses s items s' → s.mind.context.items <:+ arrived ∧
      Told all cycles s.watermark (s.mind.context.oldest arrived) →
      s'.mind.context.items <:+ arrived ++ items ∧
        Told all cycles s'.watermark (s'.mind.context.oldest (arrived ++ items)) := by
    rintro arrived items cycles s s' elapses ⟨buffers, told⟩
    rw [elapses.watermark, elapses.context]
    exact ⟨ContextBuffer.appendAll_buffers buffers items,
      told.mono (ContextBuffer.oldest_le_appendAll _ _ _)⟩
  induction course with
  | start => exact ⟨List.suffix_refl _, .nil _⟩
  | elapses prior between ih =>
      exact onward between (ih ((List.prefix_append _ _).trans within))
  | nightly prior ends ih =>
      exact onward (elapses_nightly ends) (ih ((List.prefix_append _ _).trans within))
  | light prior ends ih =>
      rename_i arrived items cycles s s' record outcome
      obtain ⟨sent, passes⟩ := passes_light (p := (s, ⟨arrived, []⟩)) ends
      obtain ⟨harrived, hsent⟩ := passes.record
      obtain rfl : record.sent = sent := hsent
      have hbefore : arrived <+: all := by
        refine List.IsPrefix.trans ?_ within
        rw [harrived]
        exact List.prefix_append _ _
      obtain ⟨buffers, told⟩ := ih hbefore
      exact passes.told buffers within told

section Told

variable {all : List ContextItem} {cycles : List (List Sent)} {cycle : List Sent}
  {w w' : Option Time.Instant} {start : Nat}

theorem le_of_getLast? {l : List Nat} (ordered : l.Pairwise (· < ·)) {i r : Nat}
    (hlast : l.getLast? = some r) (hi : i ∈ l) : i ≤ r := by
  obtain ⟨front, rfl⟩ := List.getLast?_eq_some_iff.mp hlast
  rcases List.mem_append.mp hi with hi | hi
  · exact Nat.le_of_lt ((List.pairwise_append.mp ordered).2.2 i hi r (by simp))
  · exact Nat.le_of_eq (List.mem_singleton.mp hi)

theorem Yields.noLater (yields : Yields all w start cycle w') (ordered : InOrder all) :
    NoLater w w' :=
  (List.pairwise_cons.mp (yields.marks ordered)).1 w' (by simp)

/-- The watermark after a cycle is the instant of the last item that it has sent. -/
theorem Yields.mark_of_last (yields : Yields all w start cycle w') {r : Nat}
    (hlast : (positions cycle).getLast? = some r) : ∃ t, time all r = some t ∧ w' = some t := by
  obtain ⟨t, ht, _⟩ := yields.newer r (List.mem_of_getLast? hlast)
  refine ⟨t, ht, ?_⟩
  rw [yields.marked, hlast, Option.bind_some, ht, Option.some_or]

/-- Nothing that was sent is newer than the watermark. -/
theorem Told.reached (told : Told all cycles w start) (ordered : InOrder all) {i : Nat}
    (hi : i ∈ cycles.flatMap positions) : ∃ t, time all i = some t ∧ NoLater (some t) w := by
  induction told with
  | nil => simp at hi
  | light prior yields onward within ih =>
      rw [List.flatMap_append, List.mem_append, List.flatMap_singleton] at hi
      rcases hi with hi | hi
      · obtain ⟨t, ht, hle⟩ := ih hi
        exact ⟨t, ht, hle.trans (yields.noLater ordered)⟩
      · obtain ⟨t, ht, _⟩ := yields.newer i hi
        refine ⟨t, ht, ?_⟩
        obtain ⟨r, hlast⟩ :=
          Option.isSome_iff_exists.mp (List.getLast?_isSome.mpr (List.ne_nil_of_mem hi))
        obtain ⟨u, hu, rfl⟩ := yields.mark_of_last hlast
        rintro _ ⟨⟩
        exact ⟨u, rfl, ordered.not_before ht hu (le_of_getLast? yields.ordered hlast hi)⟩

/-- What a cycle sends is newer than all that was sent before it. -/
theorem Told.before_of_yields (told : Told all cycles w start) (yields : Yields all w start cycle w')
    (ordered : InOrder all) {i j : Nat} (hi : i ∈ cycles.flatMap positions)
    (hj : j ∈ positions cycle) :
    ∃ t u, time all i = some t ∧ time all j = some u ∧ t.before u := by
  obtain ⟨t, ht, hreached⟩ := told.reached ordered hi
  obtain ⟨u, hu, hnewer⟩ := yields.newer j hj
  obtain ⟨mark, rfl, hle⟩ := hreached t rfl
  exact ⟨t, u, ht, hu, Time.Instant.before_of_not_before hle (by simpa using hnewer)⟩

theorem Told.ordered (told : Told all cycles w start) (ordered : InOrder all) :
    (cycles.flatMap positions).Pairwise (· < ·) := by
  induction told with
  | nil => exact .nil
  | light prior yields onward within ih =>
      rw [List.flatMap_append, List.flatMap_singleton]
      refine List.pairwise_append.mpr ⟨ih, yields.ordered, ?_⟩
      intro i hi j hj
      obtain ⟨t, u, ht, hu, hbefore⟩ := prior.before_of_yields yields ordered hi hj
      exact ordered.lt_of_before ht hu hbefore

theorem Told.noLater (told : Told all cycles w start) (ordered : InOrder all) :
    (cycles.flatMap (fun cycle => cycle.map (·.watermark)) ++ [w]).Pairwise NoLater := by
  induction told with
  | nil => simp
  | light prior yields onward within ih =>
      obtain ⟨hold, _, habove⟩ := List.pairwise_append.mp ih
      obtain ⟨hfrom, hnew⟩ := List.pairwise_cons.mp (yields.marks ordered)
      rw [List.flatMap_append, List.flatMap_singleton, List.append_assoc]
      refine List.pairwise_append.mpr ⟨hold, hnew, ?_⟩
      intro v hv v' hv'
      exact (habove v hv _ (List.mem_singleton.mpr rfl)).trans (hfrom v' hv')

/-- What is sent later than the last item of a cycle is newer than it. -/
theorem Told.before_of_last (told : Told all cycles w start) (ordered : InOrder all)
    (hcycle : cycle ∈ cycles) {r j : Nat} (hlast : (positions cycle).getLast? = some r)
    (hj : j ∈ cycles.flatMap positions) (hlt : r < j) :
    ∃ t u, time all r = some t ∧ time all j = some u ∧ t.before u := by
  induction told with
  | nil => simp at hj
  | light prior yields onward within ih =>
      have hr := List.mem_of_getLast? hlast
      rw [List.flatMap_append, List.flatMap_singleton, List.mem_append] at hj
      rcases List.mem_append.mp hcycle with hcycle | hcycle
      · have hsent := List.mem_flatMap.mpr ⟨cycle, hcycle, hr⟩
        rcases hj with hj | hj
        · exact ih hcycle hj
        · exact prior.before_of_yields yields ordered hsent hj
      · -- Nothing has been sent after the last item of the last cycle.
        obtain rfl := List.mem_singleton.mp hcycle
        rcases hj with hj | hj
        · obtain ⟨t, u, ht, hu, hbefore⟩ := prior.before_of_yields yields ordered hj hr
          have hge := ordered.lt_of_before ht hu hbefore
          omega
        · have hge := le_of_getLast? yields.ordered hlast hj
          omega

/-- An item that a cycle leaves out although it sends a later one is no newer than the watermark. -/
theorem Yields.old_of_skipped (yields : Yields all w start cycle w') {i j : Nat}
    (hi : i ∈ positions cycle) (hlt : j < i) (buffered : first cycle ≤ j)
    (hskipped : j ∉ positions cycle) : ∃ t, time all j = some t ∧ ¬ w.all (·.before t) := by
  obtain ⟨u, hu, _⟩ := yields.newer i hi
  obtain ⟨item, hitem, _⟩ := Option.map_eq_some_iff.mp hu
  have hbound := (List.getElem?_eq_some_iff.mp hitem).1
  have hj : time all j = some all[j].timestamp := by
    rw [time, List.getElem?_eq_getElem (hlt.trans hbound)]
    rfl
  exact ⟨_, hj, fun hnewer => hskipped (yields.gapless i hi j _ buffered hlt hj hnewer)⟩

/-- An item that is left out although a later one is sent has the instant of the last item of an
earlier cycle. -/
theorem Told.last_of_skipped (told : Told all cycles w start)
    (yields : Yields all w start cycle w') (ordered : InOrder all) {i j : Nat}
    (hi : i ∈ positions cycle) (hlt : j < i) (buffered : first cycle ≤ j)
    (hprior : j ∉ cycles.flatMap positions) (hskipped : j ∉ positions cycle) :
    ∃ q ∈ cycles, ∃ r, (positions q).getLast? = some r ∧ r < j ∧ time all r = time all j := by
  -- Backwards over the cycles: the one whose last item comes before the item, or is the first after
  -- it, so that the item was left out there already.
  induction told generalizing cycle w' i with
  | nil =>
      obtain ⟨t, _, hnewer⟩ := yields.old_of_skipped hi hlt buffered hskipped
      exact absurd rfl hnewer
  | light prior before onward within ih =>
      rename_i cycles q w w₁ start start'
      rw [List.flatMap_append, List.flatMap_singleton, List.mem_append, not_or] at hprior
      cases hlast : (positions q).getLast? with
      | none =>
          have hsame : w₁ = w := by rw [before.marked, hlast, Option.bind_none, Option.none_or]
          subst hsame
          have hyields : Yields all w₁ start cycle w' :=
            { yields with onward := fun some => onward.trans (yields.onward some) }
          obtain ⟨p, hp, h⟩ := ih hyields hi hlt buffered hprior.1 hskipped
          exact ⟨p, List.mem_append_left _ hp, h⟩
      | some r =>
          obtain ⟨t, ht, hnewer⟩ := yields.old_of_skipped hi hlt buffered hskipped
          obtain ⟨u, hu, rfl⟩ := before.mark_of_last hlast
          have hr := List.mem_of_getLast? hlast
          rcases Nat.lt_trichotomy r j with hrj | rfl | hjr
          · refine ⟨q, List.mem_append_right _ (List.mem_singleton.mpr rfl), r, hlast, hrj, ?_⟩
            rw [hu, ht]
            exact congrArg some (Time.Instant.eq_of_not_before
              (ordered.not_before hu ht (Nat.le_of_lt hrj)) (by simpa using hnewer))
          · exact absurd hr hprior.2
          · have hstart := yields.onward (List.ne_nil_of_mem hi)
            have hfirst := within (List.ne_nil_of_mem hr)
            obtain ⟨p, hp, h⟩ := ih before hr hjr (by omega) hprior.1 hprior.2
            exact ⟨p, List.mem_append_left _ hp, h⟩

/-- A cycle among others, with what was told before it and with it. -/
theorem Told.split {before after : List (List Sent)}
    (told : Told all (before ++ cycle :: after) w start) :
    ∃ v v' n n', Told all before v n ∧ Yields all v n cycle v' ∧ Told all (before ++ [cycle]) v' n' := by
  generalize hcycles : before ++ cycle :: after = cycles at told
  induction told generalizing after with
  | nil => simp at hcycles
  | light prior yields onward within ih =>
      rename_i cycles last v v' n n'
      rcases List.eq_nil_or_concat after with rfl | ⟨rest, final, rfl⟩
      · obtain ⟨rfl, hlast⟩ := List.append_inj' hcycles rfl
        obtain rfl : cycle = last := by simpa using hlast
        exact ⟨v, v', n, n', prior, yields, .light prior yields onward within⟩
      · rw [List.concat_eq_append, ← List.cons_append, ← List.append_assoc] at hcycles
        exact ih (List.append_inj' hcycles rfl).1

end Told

namespace Sample

/-- Light cycles send one batch of one item. -/
def config : Config := { Mind.Sample.config with background := { batchItems := 1, maxBatches := 1 } }

def mind : Mind := .start config (.ofStorage (.volatile .empty)) Mind.Sample.source

def item (text : String) (second : Int) : ContextItem := ⟨text, "noted", [], ⟨second, 0⟩⟩

/-- Some interactions are logged. -/
def logged (s : Scheduler) (items : List ContextItem) : Scheduler :=
  items.foldl (fun s item => { s with mind := s.mind.addContext item }) s

/-- A light cycle that nothing disturbs, with a trainer that accepts everything. -/
def light (s : Scheduler) (arrived : List ContextItem) : Scheduler × Record :=
  (((s.runCycle .light).noted note ⟨arrived, []⟩).outcome true ⟨true, 1, ⟨1000000000000000⟩, 1, 3⟩
    (.ok ⟨true, none, ""⟩)).1

/-- Two items of the same instant. -/
def early : List ContextItem := [item "one" 0, item "two" 0]

def once : Scheduler × Record := light (logged (start mind) early) early

/-- A third item arrives, and a second cycle follows. -/
def twice : Scheduler × Record :=
  light (logged once.1 [item "three" 1]) (once.2.arrived ++ [item "three" 1])

theorem course_light {s : Scheduler} {arrived : List ContextItem} {cycles : List (List Sent)}
    (prior : Course mind arrived cycles s) :
    Course mind (light s arrived).2.arrived (cycles ++ [(light s arrived).2.sent])
      (light s arrived).1 :=
  prior.light (Cycle.ends_outcome (fun p => ⟨.refl p.1, by simp, rfl⟩) _ _ _ _)

theorem elapses_logged (s : Scheduler) (items : List ContextItem) :
    Elapses s items (logged s items) := by
  induction items generalizing s with
  | nil => exact .refl s
  | cons item items ih =>
      have added : Elapses s [item] { s with mind := s.mind.addContext item } :=
        ⟨rfl, s.mind.context_addContext item⟩
      rw [logged, List.foldl_cons]
      exact added.trans (ih _)

theorem course_twice : Course mind twice.2.arrived [once.2.sent, twice.2.sent] twice.1 := by
  have filled : Course mind early [] (logged (start mind) early) :=
    Course.start.elapses (elapses_logged (start mind) early)
  exact course_light ((course_light filled).elapses (elapses_logged once.1 [item "three" 1]))

end Sample

section Course

variable {mind : Mind} {s : Scheduler} {arrived : List ContextItem} {cycles : List (List Sent)}

/-- Over any course in which the timestamps of arriving items do not decrease, whatever the batch
sizes, the answers of the gate and the replies of the trainer: the batches of each light cycle hold
the items at the positions that it has sent, these positions increase over all cycles, and the
watermark does not decrease from one batch to the next. So no item is sent twice and none out of
order. -/
theorem light_cycles_send_once_in_order (course : Course mind arrived cycles s)
    (ordered : InOrder arrived) :
    (∀ cycle ∈ cycles, (examples cycle).map some =
      (positions cycle).map fun i => arrived[i]?.map contextExample) ∧
    (cycles.flatMap positions).Pairwise (· < ·) ∧
    (cycles.flatMap (fun cycle => cycle.map (·.watermark)) ++ [s.watermark]).Pairwise NoLater := by
  obtain ⟨_, told⟩ := course.told (List.prefix_refl arrived)
  refine ⟨?_, told.ordered ordered, told.noLater ordered⟩
  intro cycle hcycle
  obtain ⟨before, after, rfl⟩ := List.append_of_mem hcycle
  obtain ⟨_, _, _, _, _, yields, _⟩ := told.split
  exact yields.examples

theorem light_cycles_send_once_in_order_sample :
    InOrder Sample.twice.2.arrived ∧
      [Sample.once.2.sent, Sample.twice.2.sent].flatMap positions = [0, 2] ∧
      ([Sample.once.2.sent, Sample.twice.2.sent].flatMap positions).Pairwise (· < ·) := by
  have ordered : InOrder Sample.twice.2.arrived := by
    unfold InOrder
    decide +kernel
  obtain ⟨_, increase, _⟩ := light_cycles_send_once_in_order Sample.course_twice ordered
  exact ⟨ordered, by decide +kernel, increase⟩

/-- A light cycle sends an item while an earlier one is in the buffer. The earlier one has not been
sent by then exactly if some earlier cycle has ended with an item before it that has the same
timestamp. Where all timestamps differ there is no gap. -/
theorem skipped_iff_cut_at_its_instant (course : Course mind arrived cycles s)
    (ordered : InOrder arrived) {before after : List (List Sent)} {cycle : List Sent}
    (split : cycles = before ++ cycle :: after) {i j : Nat} (hi : i ∈ positions cycle) (hlt : j < i)
    (buffered : first cycle ≤ j) :
    j ∉ (before ++ [cycle]).flatMap positions ↔
      ∃ q ∈ before, ∃ r, (positions q).getLast? = some r ∧ r < j ∧
        time arrived r = time arrived j := by
  subst split
  obtain ⟨_, told⟩ := course.told (List.prefix_refl arrived)
  obtain ⟨_, _, _, _, prior, yields, whole⟩ := told.split
  constructor
  · intro hskipped
    rw [List.flatMap_append, List.flatMap_singleton, List.mem_append, not_or] at hskipped
    exact prior.last_of_skipped yields ordered hi hlt buffered hskipped.1 hskipped.2
  · rintro ⟨q, hq, r, hlast, hrj, hsame⟩ hsent
    obtain ⟨t, u, ht, hu, hbefore⟩ :=
      whole.before_of_last ordered (List.mem_append_left _ hq) hlast hsent hrj
    rw [ht, hu] at hsame
    obtain rfl : t = u := Option.some.inj hsame
    exact t.not_before_self hbefore

/-- The second of two items of one instant is never sent, although it is in the buffer when the item
after it is sent. -/
theorem skipped_iff_cut_at_its_instant_sample :
    InOrder Sample.twice.2.arrived ∧ 2 ∈ positions Sample.twice.2.sent ∧
      first Sample.twice.2.sent ≤ 1 ∧
      1 ∉ [Sample.once.2.sent, Sample.twice.2.sent].flatMap positions := by
  have ordered : InOrder Sample.twice.2.arrived := by
    unfold InOrder
    decide +kernel
  obtain ⟨hsent, hfirst, hlast, htie⟩ : 2 ∈ positions Sample.twice.2.sent ∧
      first Sample.twice.2.sent ≤ 1 ∧ (positions Sample.once.2.sent).getLast? = some 0 ∧
      time Sample.twice.2.arrived 0 = time Sample.twice.2.arrived 1 := by decide +kernel
  have split : [Sample.once.2.sent, Sample.twice.2.sent] =
      [Sample.once.2.sent] ++ Sample.twice.2.sent :: [] := rfl
  refine ⟨ordered, hsent, hfirst, ?_⟩
  apply (skipped_iff_cut_at_its_instant Sample.course_twice ordered split hsent (by decide)
    hfirst).mpr
  exact ⟨Sample.once.2.sent, List.mem_singleton.mpr rfl, 0, hlast, by decide, htie⟩

end Course

end Scheduler

end Engram
