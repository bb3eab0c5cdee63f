import Mathlib.Data.List.DropRight
import Engram.Proofs.Fitness

/-! The contract of the day buffer, over every sequence of calls. Contents are stated as the last
ones of a list that the call does not bound, so that the order, the bound and the number of dropped
experiences are read off one list. -/
namespace Engram.DayBuffer

variable {b : DayBuffer} {zone : Time.Zone} {m : Nat}

def ids (b : DayBuffer) : List Uid := b.experiences.map (·.id)

/-- The recovered experiences that are not in the buffer, in front of those that are. -/
def merged (b : DayBuffer) (recovered : List Experience) : List Experience :=
  (recovered.filter fun e => e.id ∉ b.ids) ++ b.experiences

/-- `changed` has the last `m` of `all`, and the others count as dropped since `b`. -/
structure KeepsLast (b : DayBuffer) (m : Nat) (all : List Experience) (changed : DayBuffer) :
    Prop where
  contents : changed.experiences = all.rtake m
  dropped : changed.dropped = b.dropped + (all.length - changed.experiences.length)

theorem keepsLast_record (positive : 0 < b.capacity) (e : Experience) :
    b.KeepsLast b.capacity (b.experiences ++ [e]) (b.record zone e) := by
  have hlength := length_bound (b.capacity - 1) b.experiences
  constructor
  · have hdrop : (b.experiences ++ [e]).length - b.capacity =
        b.experiences.length - (b.capacity - 1) := by
      simp only [List.length_append, List.length_singleton]
      omega
    simp only [record, bound, List.rtake, hdrop]
    rw [List.drop_append_of_le_length (Nat.sub_le _ _)]
  · simp only [record, List.length_append, List.length_singleton]
    omega

theorem restore_eq {recovered : List Experience} (nonempty : recovered ≠ [])
    (today day : Time.Date) :
    b.restore zone today day recovered =
      let kept := (b.merged recovered).rtake b.capacity
      let first := firstDay zone today kept
      let overflow := (b.merged recovered).length - kept.length
      { b with
        day := if overflow = 0 && first.isValid && day.days < first.days then day else first
        experiences := kept
        dropped := b.dropped + overflow } := by
  have hmerged : (recovered.filter fun e => !(b.experiences.map (·.id)).contains e.id) ++
      b.experiences = b.merged recovered := by
    rw [merged, List.filter_congr fun e _ => ?_]
    rw [Bool.eq_iff_iff]
    simp [ids]
  unfold restore
  rw [if_neg (by simpa using nonempty)]
  simp only [hmerged]
  rfl

theorem keepsLast_restore {recovered : List Experience} (nonempty : recovered ≠ [])
    (today day : Time.Date) :
    b.KeepsLast b.capacity (b.merged recovered) (b.restore zone today day recovered) := by
  rw [restore_eq nonempty]
  exact ⟨rfl, rfl⟩

section Distinct

variable {recovered : List Experience}

theorem nodup_ids_record (distinct : b.ids.Nodup) {e : Experience} (fresh : e.id ∉ b.ids) :
    (b.record zone e).ids.Nodup := by
  have hkept : ((bound (b.capacity - 1) b.experiences).map (·.id)).Sublist b.ids :=
    (List.drop_sublist _ _).map _
  have happend : (b.record zone e).ids =
      (bound (b.capacity - 1) b.experiences).map (·.id) ++ [e.id] := by
    simp [ids, record]
  rw [happend]
  refine List.nodup_append.mpr ⟨distinct.sublist hkept, List.nodup_singleton _, ?_⟩
  rintro id hid _ hnew rfl
  rw [List.mem_singleton] at hnew
  exact fresh (hnew ▸ hkept.subset hid)

theorem nodup_ids_merged (distinct : b.ids.Nodup) (once : (recovered.map (·.id)).Nodup) :
    ((b.merged recovered).map (·.id)).Nodup := by
  rw [merged, List.map_append]
  refine List.nodup_append.mpr ⟨once.sublist (List.filter_sublist.map _), distinct, ?_⟩
  rintro id hid _ hold rfl
  obtain ⟨e, he, rfl⟩ := List.mem_map.mp hid
  exact of_decide_eq_true (List.mem_filter.mp he).2 hold

theorem nodup_ids_restore (distinct : b.ids.Nodup) (once : (recovered.map (·.id)).Nodup)
    (today day : Time.Date) : (b.restore zone today day recovered).ids.Nodup := by
  by_cases nonempty : recovered = []
  · rw [nonempty]
    exact distinct
  · rw [ids, (keepsLast_restore nonempty today day).contents]
    exact (nodup_ids_merged distinct once).sublist ((List.drop_sublist _ _).map _)

/-- Of experiences with distinct identifiers, those missing from the later ones are the earlier. -/
theorem filter_not_mem_drop {all : List Experience} (distinct : (all.map (·.id)).Nodup) (k : Nat) :
    all.filter (fun e => e.id ∉ (all.drop k).map (·.id)) = all.take k := by
  have hapart : ∀ e ∈ all.take k, e.id ∉ (all.drop k).map (·.id) := by
    rw [← List.take_append_drop k all, List.map_append, List.nodup_append] at distinct
    exact fun e he hlate => distinct.2.2 e.id (List.mem_map_of_mem he) e.id hlate rfl
  have hearly : (all.take k).filter (fun e => e.id ∉ (all.drop k).map (·.id)) = all.take k :=
    List.filter_eq_self.mpr fun e he => decide_eq_true (hapart e he)
  have hlate : (all.drop k).filter (fun e => e.id ∉ (all.drop k).map (·.id)) = [] :=
    List.filter_eq_nil_iff.mpr fun e he h => of_decide_eq_true h (List.mem_map_of_mem he)
  calc all.filter (fun e => e.id ∉ (all.drop k).map (·.id))
      = (all.take k ++ all.drop k).filter (fun e => e.id ∉ (all.drop k).map (·.id)) := by
        rw [List.take_append_drop]
    _ = all.take k := by rw [List.filter_append, hearly, hlate, List.append_nil]

/-- What was put back and kept is not merged a second time, and what was put back and dropped comes
in front again: there is the same list to bound. -/
theorem merged_restore (distinct : (recovered.map (·.id)).Nodup)
    (fits : b.experiences.length ≤ b.capacity) (nonempty : recovered ≠ []) (today day : Time.Date) :
    (b.restore zone today day recovered).merged recovered = b.merged recovered := by
  let unknown := recovered.filter fun e => e.id ∉ b.ids
  let surplus := (b.merged recovered).length - b.capacity
  have hsurplus : surplus ≤ unknown.length := by
    have hlength : (b.merged recovered).length = unknown.length + b.experiences.length :=
      List.length_append
    omega
  -- The bound takes nothing of what was in the buffer.
  have hkept : (b.restore zone today day recovered).experiences =
      unknown.drop surplus ++ b.experiences := by
    rw [(keepsLast_restore nonempty today day).contents]
    exact List.drop_append_of_le_length hsurplus
  have hagain : recovered.filter (fun e => e.id ∉ (b.restore zone today day recovered).ids) =
      unknown.take surplus := by
    rw [← filter_not_mem_drop (distinct.sublist (List.filter_sublist.map _)) surplus,
      List.filter_filter]
    refine List.filter_congr fun e _ => ?_
    rw [ids, hkept, List.map_append, Bool.eq_iff_iff]
    simp only [List.mem_append, not_or, decide_eq_true_eq, Bool.and_eq_true]
    exact Iff.rfl
  calc (b.restore zone today day recovered).merged recovered
      = unknown.take surplus ++ (unknown.drop surplus ++ b.experiences) := by
        rw [merged, hagain, hkept]
    _ = b.merged recovered := by rw [← List.append_assoc, List.take_append_drop]; rfl

theorem exists_head_restore (nonempty : recovered ≠ []) (positive : 0 < b.capacity) :
    ∃ first, first ∈ ((b.merged recovered).rtake b.capacity).head? := by
  have hmerged : b.merged recovered ≠ [] := by
    obtain ⟨e, he⟩ := List.exists_mem_of_ne_nil _ nonempty
    by_cases hknown : e.id ∈ b.ids
    · obtain ⟨f, hf, -⟩ := List.mem_map.mp hknown
      exact List.ne_nil_of_mem (List.mem_append_right _ hf)
    · have hnew : e ∈ recovered.filter fun e => e.id ∉ b.ids :=
        List.mem_filter.mpr ⟨he, decide_eq_true hknown⟩
      exact List.ne_nil_of_mem (List.mem_append_left _ hnew)
  have hlength := List.length_pos_of_ne_nil hmerged
  have hkept : (b.merged recovered).rtake b.capacity ≠ [] := by
    rw [List.rtake, Ne, List.drop_eq_nil_iff]
    omega
  exact ⟨_, List.head?_eq_some_head hkept⟩

theorem day_restore {first : Experience} (nonempty : recovered ≠ [])
    (hfirst : first ∈ ((b.merged recovered).rtake b.capacity).head?) (today day : Time.Date) :
    (b.restore zone today day recovered).day =
      let start := zone.date first.timestamp
      let overflow := (b.merged recovered).length - ((b.merged recovered).rtake b.capacity).length
      if overflow = 0 && start.isValid && day.days < start.days then day else start := by
  rw [restore_eq nonempty]
  simp only [firstDay_eq zone today hfirst]

/-- Putting the same experiences back a second time changes nothing but the number of those
dropped. -/
theorem restore_restore (distinct : (recovered.map (·.id)).Nodup)
    (fits : b.experiences.length ≤ b.capacity) (positive : 0 < b.capacity)
    (today later day : Time.Date) :
    ((b.restore zone today day recovered).restore zone later day recovered).experiences =
        (b.restore zone today day recovered).experiences ∧
      ((b.restore zone today day recovered).restore zone later day recovered).day =
        (b.restore zone today day recovered).day := by
  by_cases nonempty : recovered = []
  · rw [nonempty]
    exact ⟨rfl, rfl⟩
  · have hmerged : (b.restore zone today day recovered).merged recovered = b.merged recovered :=
      merged_restore distinct fits nonempty today day
    have hroom : (b.restore zone today day recovered).capacity = b.capacity := by
      rw [restore_eq nonempty]
    obtain ⟨first, hfirst⟩ := exists_head_restore nonempty positive
    constructor
    · rw [(keepsLast_restore nonempty later day).contents, hmerged, hroom,
        (keepsLast_restore nonempty today day).contents]
    · rw [day_restore nonempty hfirst today day,
        day_restore nonempty (by rwa [hmerged, hroom]) later day, hmerged, hroom]

end Distinct

/-- The buffers that calls lead to from an empty one with room for `m`, and whether experiences were
put back on the way. A new experience has an identifier of its own, and those put back at once have
different ones. -/
inductive Reached (zone : Time.Zone) (m : Nat) : Bool → DayBuffer → Prop where
  | empty (today : Time.Date) : Reached zone m false (empty m today)
  | record {restored : Bool} {b : DayBuffer} (before : Reached zone m restored b) {e : Experience}
      (fresh : e.id ∉ b.ids) : Reached zone m restored (b.record zone e)
  | clear {restored : Bool} {b : DayBuffer} (before : Reached zone m restored b)
      (today : Time.Date) (consumed : List Uid) :
      Reached zone m restored (b.clear zone today consumed)
  | restore {restored : Bool} {b : DayBuffer} (before : Reached zone m restored b)
      (today day : Time.Date) {recovered : List Experience}
      (distinct : (recovered.map (·.id)).Nodup) :
      Reached zone m true (b.restore zone today day recovered)

/-- What the calls keep: the bound and a day that is early enough, distinct identifiers, and the
very day of the first experience as long as none was put back. -/
structure Ordered (zone : Time.Zone) (m : Nat) (restored : Bool) (b : DayBuffer) : Prop where
  dated : b.Dated (· = zone) m
  distinct : b.ids.Nodup
  exact : restored = false →
    ∀ first ∈ b.experiences.head?, b.day = zone.date first.timestamp

namespace Ordered

variable {restored : Bool}

theorem record (ordered : Ordered zone m restored b) {e : Experience} (fresh : e.id ∉ b.ids) :
    Ordered zone m restored (b.record zone e) where
  dated := ordered.dated.record rfl e
  distinct := nodup_ids_record ordered.distinct fresh
  exact hnever first hfirst := by
    rcases day_record b zone e hfirst with hday | ⟨hday, hbefore⟩
    · exact hday
    · rw [hday]
      exact ordered.exact hnever first hbefore

theorem clear (ordered : Ordered zone m restored b) (today : Time.Date) (consumed : List Uid) :
    Ordered zone m restored (b.clear zone today consumed) where
  dated := ordered.dated.clear rfl today consumed
  distinct := ordered.distinct.sublist (List.filter_sublist.map _)
  exact _ _ hfirst := firstDay_eq zone today hfirst

theorem restore (ordered : Ordered zone m restored b) (today day : Time.Date)
    {recovered : List Experience} (distinct : (recovered.map (·.id)).Nodup) :
    Ordered zone m true (b.restore zone today day recovered) where
  dated := ordered.dated.restore rfl today day recovered
  distinct := nodup_ids_restore ordered.distinct distinct today day
  exact hnever := by cases hnever

end Ordered

theorem Reached.ordered (positive : 1 ≤ m) {restored : Bool} (reached : Reached zone m restored b) :
    Ordered zone m restored b := by
  induction reached with
  | empty today =>
      have hdated := dated_empty m today (· = zone)
      rw [Nat.max_eq_left positive] at hdated
      exact ⟨hdated, List.nodup_nil, fun _ _ hfirst => by cases hfirst⟩
  | record _ fresh ih => exact ih.record fresh
  | clear _ today consumed ih => exact ih.clear today consumed
  | restore _ today day distinct ih => exact ih.restore today day distinct

theorem Begins.le {day : Time.Date} {first : Experience} (begins : Begins zone day first) :
    day.days ≤ (zone.date first.timestamp).days := by
  rcases begins with rfl | ⟨-, hlt⟩
  · exact Int.le_refl _
  · exact Int.le_of_lt hlt

/-- Whatever was called before: the buffer never exceeds its bound, holds no experience twice and
begins no later than its first experience; what each call leaves is the newest of what it was to
hold, in order; and it counts every experience that the bound removed until it is emptied. -/
theorem holds_the_newest_in_order (positive : 1 ≤ m) {restored : Bool}
    (reached : Reached zone m restored b) :
    b.experiences.length ≤ m ∧ b.ids.Nodup ∧
    (∀ first ∈ b.experiences.head?, b.day.days ≤ (zone.date first.timestamp).days ∧
      (restored = false → b.day = zone.date first.timestamp)) ∧
    (∀ e, b.KeepsLast m (b.experiences ++ [e]) (b.record zone e)) ∧
    (∀ today consumed,
      (b.clear zone today consumed).experiences =
        b.experiences.filter (fun e => e.id ∉ consumed) ∧
      (b.clear zone today consumed).dropped =
        if (b.clear zone today consumed).experiences = [] then 0 else b.dropped) ∧
    (∀ today day recovered, recovered ≠ [] →
      b.KeepsLast m (b.merged recovered) (b.restore zone today day recovered)) ∧
    (∀ today day, b.restore zone today day [] = b) ∧
    ∀ today later day recovered, (recovered.map (·.id)).Nodup →
      ((b.restore zone today day recovered).restore zone later day recovered).experiences =
          (b.restore zone today day recovered).experiences ∧
        ((b.restore zone today day recovered).restore zone later day recovered).day =
          (b.restore zone today day recovered).day := by
  obtain ⟨⟨room, hpositive, fits, begins⟩, distinct, exact⟩ := reached.ordered positive
  subst room
  have hbegins : ∀ first ∈ b.experiences.head?, Begins zone b.day first := by
    intro first hfirst
    obtain ⟨_, rfl, hbegins⟩ := begins first hfirst
    exact hbegins
  refine ⟨fits, distinct, fun first hfirst => ⟨(hbegins first hfirst).le, fun hnever =>
    exact hnever first hfirst⟩, keepsLast_record hpositive, fun today consumed => ⟨?_, ?_⟩,
    fun today day recovered nonempty => keepsLast_restore nonempty today day, fun _ _ => rfl,
    fun today later day recovered once => restore_restore once fits hpositive today later day⟩
  · refine List.filter_congr fun e _ => ?_
    rw [Bool.eq_iff_iff]
    simp
  · simp only [clear, List.isEmpty_iff]

namespace Sample

def east : Time.Zone := .fixed 7200

/-- The experience of a day, late enough to be one of the next day there. -/
def evening (day : Nat) : Experience where
  id := ⟨day⟩
  input := ""
  output := ""
  concepts := []
  tier := .episodic
  timestamp := ⟨86400 * day + 82800, 0⟩

/-- Three evenings, of which there is room for two. -/
def evenings : DayBuffer :=
  (((empty 2 ⟨0⟩).record east (evening 1)).record east (evening 2)).record east (evening 3)

theorem reached_evenings : Reached east 2 false evenings :=
  (((Reached.empty ⟨0⟩).record (by decide)).record (by decide)).record (by decide)

end Sample

open Sample in
/-- The evening that was dropped is put back with one that was not, and dropped again. -/
theorem holds_the_newest_in_order_sample :
    Reached east 2 false evenings ∧ evenings.ids = [⟨2⟩, ⟨3⟩] ∧ evenings.dropped = 1 ∧
      (∀ first ∈ evenings.experiences.head?, evenings.day = east.date first.timestamp) ∧
      (evenings.merged [evening 1, evening 2]).map (·.id) = [⟨1⟩, ⟨2⟩, ⟨3⟩] ∧
      evenings.KeepsLast 2 (evenings.merged [evening 1, evening 2])
        (evenings.restore east ⟨9⟩ ⟨0⟩ [evening 1, evening 2]) ∧
      ((evenings.restore east ⟨9⟩ ⟨0⟩ [evening 1, evening 2]).restore east ⟨10⟩ ⟨0⟩
          [evening 1, evening 2]).day =
        (evenings.restore east ⟨9⟩ ⟨0⟩ [evening 1, evening 2]).day := by
  obtain ⟨-, -, days, -, -, restored, -, twice⟩ :=
    holds_the_newest_in_order (by decide) reached_evenings
  exact ⟨reached_evenings, by decide, by decide, fun first hfirst => (days first hfirst).2 rfl,
    by decide, restored _ _ _ (List.cons_ne_nil _ _), (twice _ _ _ _ (by decide)).2⟩

end Engram.DayBuffer
