import Engram.Proofs.Chronology
import Engram.Proofs.Continuity
import Engram.Proofs.Formats
import Mathlib.Algebra.Order.BigOperators.Group.List

/-! The two kinds of storage are interchangeable. One keeps values in the order in which they were
written, the other rows of text whose order it takes from the texts. As long as identifiers differ,
times do not go back and texts have room for what is written, both answer alike. -/
namespace Engram

open Json

theorem Json.Storable.lasts {α : Type} [Codec α] [Persistent α] {a : α} (h : Storable a)
    (hroom : Persistent.least α ≤ deepest) : Payload.Lasts a := by
  have hread : Codec.decode deepest (encode a).document = some a :=
    Persistent.decode_encode hroom h.1 h.2
  simp only [Payload.Lasts, Payload.read, Payload.ofValue, Option.bind_some, decodeDocument, hread]

theorem Uid.text_injective {id other : Uid} (h : id.text = other.text) : id = other := by
  have hread := Uid.parse?_text id
  rw [h, Uid.parse?_text] at hread
  exact (Option.some.inj hread).symm

/-- A write to the storage. -/
inductive Write where
  | append (entry : ArchiveEntry)
  | saveSnapshot (tier : Tier) (memories : List Memory)
  | savePendingDay (day : PendingDay)
  | saveKnowledge (entries : List KnowledgeEntry)
  | saveCheckpoint (checkpoint : Checkpoint)
  | recordRun (run : RunRecord)

namespace Write

def entry? : Write → Option ArchiveEntry
  | .append entry => some entry
  | _ => none

def run? : Write → Option RunRecord
  | .recordRun run => some run
  | _ => none

/-- What is written can be read back, and texts that are sorted are of years with four digits. -/
def IsStorable : Write → Prop
  | .append entry => Storable entry ∧ entry.date.IsPlain ∧ entry.createdAt.date.IsPlain
  | .saveSnapshot _ memories => Storable memories
  | .savePendingDay day => Storable day
  | .saveKnowledge entries => Storable entries
  | .saveCheckpoint c =>
    (∀ p ∈ c.tiers, Storable p.2) ∧ Storable c.pendingDay ∧ Storable c.knowledge
  | .recordRun run =>
    Storable run ∧ run.startedAt.date.IsPlain ∧ run.completedAt.date.IsPlain

end Write

/-- Writes that both kinds of storage take: identifiers differ, entries and runs come in the order
of their times, and the memories of all entries can be counted in a word, as they can be in any
store that fits into a machine. -/
structure Orderly (writes : List Write) : Prop where
  storable : ∀ w ∈ writes, w.IsStorable
  entryIds : ((writes.filterMap Write.entry?).map (·.id)).Nodup
  runIds : ((writes.filterMap Write.run?).map (·.id)).Nodup
  created : (writes.filterMap Write.entry?).Pairwise fun e f => ¬ f.createdAt.before e.createdAt
  completed : (writes.filterMap Write.run?).Pairwise fun r s => r.completedAt.before s.completedAt
  countable : ((writes.filterMap Write.entry?).map (·.memories.length)).sum < Number.twoTo 63

/-- Writes that the tables take, whatever the order of their times. -/
structure Acceptable (writes : List Write) : Prop where
  storable : ∀ w ∈ writes, w.IsStorable
  entryIds : ((writes.filterMap Write.entry?).map (·.id)).Nodup
  runIds : ((writes.filterMap Write.run?).map (·.id)).Nodup

namespace Acceptable

variable {writes done : List Write}

theorem of_prefix (h : Acceptable writes) (hdone : done <+: writes) : Acceptable done where
  storable w hw := h.storable w (hdone.subset hw)
  entryIds := h.entryIds.sublist ((hdone.filterMap Write.entry?).sublist.map _)
  runIds := h.runIds.sublist ((hdone.filterMap Write.run?).sublist.map _)

theorem entry (h : Acceptable writes) {entry : ArchiveEntry}
    (hentry : entry ∈ writes.filterMap Write.entry?) : (Write.append entry).IsStorable := by
  obtain ⟨w, hw, hmade⟩ := List.mem_filterMap.mp hentry
  cases w <;> cases hmade
  exact h.storable _ hw

theorem run (h : Acceptable writes) {run : RunRecord}
    (hrun : run ∈ writes.filterMap Write.run?) : (Write.recordRun run).IsStorable := by
  obtain ⟨w, hw, hmade⟩ := List.mem_filterMap.mp hrun
  cases w <;> cases hmade
  exact h.storable _ hw

end Acceptable

namespace Orderly

theorem acceptable {writes : List Write} (h : Orderly writes) : Acceptable writes :=
  ⟨h.storable, h.entryIds, h.runIds⟩

theorem of_prefix {writes done : List Write} (h : Orderly writes) (hdone : done <+: writes) :
    Orderly done := by
  have hentries := (hdone.filterMap Write.entry?).sublist
  have hruns := (hdone.filterMap Write.run?).sublist
  have haccepted := h.acceptable.of_prefix hdone
  exact {
    storable := haccepted.storable
    entryIds := haccepted.entryIds
    runIds := haccepted.runIds
    created := h.created.sublist hentries
    completed := h.completed.sublist hruns
    countable := Nat.lt_of_le_of_lt ((hentries.map _).sum_le_sum fun _ _ => Nat.zero_le _)
      h.countable }

end Orderly

namespace Backend

def write (b : Backend) : Write → Except Error Backend
  | .append entry => b.append entry
  | .saveSnapshot tier memories => b.saveSnapshot tier memories
  | .savePendingDay day => b.savePendingDay day
  | .saveKnowledge entries => b.saveKnowledge entries
  | .saveCheckpoint c => (b.saveCheckpoint c).2.map fun _ => (b.saveCheckpoint c).1
  | .recordRun run => b.recordRun run

/-- Write one after the other, up to the first failure. -/
def writeAll (b : Backend) (writes : List Write) : Except Error Backend := writes.foldlM write b

/-- Two backends answer alike, about every date there is. -/
structure SameAnswers (b c : Backend) : Prop where
  entriesFor (date : Time.Date) : date.isValid = true → b.entriesFor date = c.entriesFor date
  days : b.days = c.days
  loadSnapshots : b.loadSnapshots = c.loadSnapshots
  loadPendingDay : b.loadPendingDay = c.loadPendingDay
  loadKnowledge : b.loadKnowledge = c.loadKnowledge
  lastRun : b.lastRun = c.lastRun

end Backend

namespace DurableArchive

/-- The row of a run. -/
def runRow (run : RunRecord) : RunRow where
  id := run.id.text
  startedAt := run.startedAt.offsetText
  completedAt := run.completedAt.offsetText
  completed := run.completed
  summary := run.summary

/-- The tables hold rows of what an archive of values holds, and all of it can be read. -/
structure Mirrors (d : DurableArchive) (a : VolatileArchive) : Prop where
  entries : d.entries = a.entries.map rowOf
  runs : d.runs = a.runs.map runRow
  snapshots : d.snapshots = a.snapshots.map fun p => (p.1, Payload.ofValue p.2)
  pendingDay : d.pendingDay = a.pendingDay.map Payload.ofValue
  knowledge : d.loadKnowledge = .ok a.knowledge
  storedTiers : ∀ p ∈ a.snapshots, Storable p.2
  storedDay : ∀ day ∈ a.pendingDay, Storable day

variable {d : DurableArchive} {a : VolatileArchive}

theorem Mirrors.pendingDay? (h : d.Mirrors a) : d.pendingDay? = .ok a.pendingDay := by
  unfold DurableArchive.pendingDay?
  cases hday : a.pendingDay with
  | none => simp [h.pendingDay, hday]
  | some day =>
      have hread : (Payload.ofValue day).read = .ok day :=
        (h.storedDay day hday).lasts (by decide)
      simp [h.pendingDay, hday, hread, Except.map]

theorem storable_prune {day : PendingDay} (h : Storable day) (entry : ArchiveEntry) :
    Storable (day.prune entry) := by
  obtain ⟨hvalid, hlegible⟩ := h
  have hmemories : ∀ m ∈ (day.prune entry).memories, m ∈ day.memories :=
    fun m hm => (List.mem_filter.mp hm).1
  have hexperiences : ∀ e ∈ (day.prune entry).experiences, e ∈ day.experiences :=
    fun e he => (List.mem_filter.mp he).1
  exact ⟨⟨hvalid.savedAt, hvalid.day, fun m hm => hvalid.memories m (hmemories m hm),
    fun e he => hvalid.experiences e (hexperiences e he)⟩, fun m hm => hlegible m (hmemories m hm)⟩

/-- A new entry is taken, and what it seals leaves the pending day. -/
theorem Mirrors.append (h : d.Mirrors a) {entry : ArchiveEntry}
    (hnew : entry.id ∉ a.entries.map (·.id)) :
    ∃ d', d.append entry = .ok d' ∧ d'.Mirrors (a.append entry) := by
  have hinsert : d.insertEntry (rowOf entry) =
      .ok { d with entries := d.entries ++ [rowOf entry] } := by
    apply if_neg
    simp only [h.entries, List.any_map, List.any_eq_true, not_exists, not_and]
    intro other hother heq
    have hid : other.id = entry.id := Uid.text_injective (eq_of_beq heq)
    exact hnew (hid ▸ List.mem_map_of_mem hother)
  have hentries : d.entries ++ [rowOf entry] = (a.append entry).entries.map rowOf := by
    simp [VolatileArchive.append, h.entries]
  simp only [DurableArchive.append, hinsert, h.pendingDay?, bind, Except.bind]
  cases hday : a.pendingDay with
  | none =>
      refine ⟨_, rfl, hentries, h.runs, h.snapshots, ?_, h.knowledge, h.storedTiers, ?_⟩
      · simpa [VolatileArchive.append, hday] using h.pendingDay
      · simp [VolatileArchive.append, hday]
  | some day =>
      have hstored := storable_prune (h.storedDay day hday) entry
      refine ⟨_, rfl, ?_⟩
      split
      · rename_i hsize
        refine ⟨hentries, h.runs, h.snapshots, ?_, h.knowledge, h.storedTiers, ?_⟩
        · simpa [VolatileArchive.append, hday, PendingDay.prune_eq_of_size hsize] using h.pendingDay
        · simpa [VolatileArchive.append, hday] using hstored
      · refine ⟨hentries, h.runs, h.snapshots, ?_, h.knowledge, h.storedTiers, ?_⟩
        · simp [VolatileArchive.append, hday, savePendingDay]
        · simpa [VolatileArchive.append, hday] using hstored

theorem Mirrors.saveSnapshot (h : d.Mirrors a) (tier : Tier) {memories : List Memory}
    (hstored : Storable memories) : (d.saveSnapshot tier memories).Mirrors
      { a with snapshots := a.snapshots.put tier.name memories } where
  entries := h.entries
  runs := h.runs
  snapshots := by
    rw [ByTag.map_put, ← h.snapshots]
    rfl
  pendingDay := h.pendingDay
  knowledge := h.knowledge
  storedTiers p hp := by
    rcases ByTag.mem_put hp with rfl | hp
    · exact hstored
    · exact h.storedTiers p hp
  storedDay := h.storedDay

theorem Mirrors.savePendingDay (h : d.Mirrors a) {day : PendingDay} (hstored : Storable day) :
    (d.savePendingDay day).Mirrors { a with pendingDay := some day } where
  entries := h.entries
  runs := h.runs
  snapshots := h.snapshots
  pendingDay := rfl
  knowledge := h.knowledge
  storedTiers := h.storedTiers
  storedDay := by simpa using hstored

theorem Mirrors.saveKnowledge (h : d.Mirrors a) {entries : List KnowledgeEntry}
    (hstored : Storable entries) :
    (d.saveKnowledge entries).Mirrors { a with knowledge := entries } where
  entries := h.entries
  runs := h.runs
  snapshots := h.snapshots
  pendingDay := h.pendingDay
  knowledge := hstored.lasts (by decide)
  storedTiers := h.storedTiers
  storedDay := h.storedDay

theorem Mirrors.saveTiers (h : d.Mirrors a) {tiers : List (Tier × List Memory)}
    (hstored : ∀ p ∈ tiers, Storable p.2) :
    (tiers.foldl (fun d p => d.saveSnapshot p.1 p.2) d).Mirrors
      { a with snapshots := a.snapshots.putAll tiers } := by
  induction tiers generalizing d a with
  | nil => exact h
  | cons p tiers ih =>
      exact ih (h.saveSnapshot p.1 (hstored p List.mem_cons_self))
        fun q hq => hstored q (List.mem_cons_of_mem _ hq)

theorem Mirrors.saveCheckpoint (h : d.Mirrors a) {c : Checkpoint}
    (hstored : (Write.saveCheckpoint c).IsStorable) : (d.saveCheckpoint c).Mirrors { a with
      snapshots := a.snapshots.putAll c.tiers
      pendingDay := some c.pendingDay
      knowledge := c.knowledge } :=
  ((h.saveTiers hstored.1).savePendingDay hstored.2.1).saveKnowledge hstored.2.2

theorem Mirrors.recordRun (h : d.Mirrors a) {run : RunRecord} (hnew : run.id ∉ a.runs.map (·.id)) :
    ∃ d', d.recordRun run = .ok d' ∧ d'.Mirrors { a with runs := a.runs ++ [run] } := by
  refine ⟨{ d with runs := d.runs ++ [runRow run] }, ?_, h.entries, ?_, h.snapshots, h.pendingDay,
    h.knowledge, h.storedTiers, h.storedDay⟩
  · apply if_neg
    simp only [h.runs, List.any_map, List.any_eq_true, not_exists, not_and]
    intro other hother heq
    have hid : other.id = run.id := Uid.text_injective (eq_of_beq heq)
    exact hnew (hid ▸ List.mem_map_of_mem hother)
  · simp [h.runs]

theorem Mirrors.loadSnapshots (h : d.Mirrors a) : d.loadSnapshots = .ok a.snapshots := by
  rw [DurableArchive.loadSnapshots, h.snapshots]
  apply mapM_written
  intro p hp
  have hread : (Payload.ofValue p.2).read = .ok p.2 := (h.storedTiers p hp).lasts (by decide)
  simp only [hread]
  rfl

theorem filter_rows {entries : List ArchiveEntry}
    (h : ∀ e ∈ entries, (Write.append e).IsStorable) {date : Time.Date}
    (hdate : date.isValid = true) :
    (entries.map rowOf).filter (·.date == date.text) =
      (entries.filter (·.date == date)).map rowOf := by
  rw [List.filter_map]
  congr 1
  apply List.filter_congr
  intro e he
  have hplain := (h e he).2.1
  change (e.date.text == date.text) = (e.date == date)
  rw [Bool.eq_iff_iff, beq_iff_eq, beq_iff_eq]
  exact ⟨Time.Date.text_injective (Time.Date.isValid_of_plain hplain) hdate, congrArg _⟩

/-- Rows sorted by the texts of their times are sorted by time, as written among equals. -/
theorem Mirrors.entriesFor_eq_mergeSort (h : d.Mirrors a)
    (hstored : ∀ e ∈ a.entries, (Write.append e).IsStorable) {date : Time.Date}
    (hdate : date.isValid = true) : d.entriesFor date =
      .ok ((a.entriesFor date).mergeSort fun e f => !f.createdAt.before e.createdAt) := by
  have hrows : d.rowsFor date.text =
      ((a.entriesFor date).mergeSort fun e f => !f.createdAt.before e.createdAt).map rowOf := by
    rw [rowsFor, h.entries, filter_rows hstored hdate]
    refine (List.map_mergeSort ?_).symm
    intro e he f hf
    obtain ⟨⟨hevalid, _⟩, _, heplain⟩ := hstored e (List.mem_of_mem_filter he)
    obtain ⟨⟨hfvalid, _⟩, _, hfplain⟩ := hstored f (List.mem_of_mem_filter hf)
    rw [Bool.eq_iff_iff, decide_eq_true_eq, Bool.not_eq_true', ← Bool.not_eq_true]
    exact (Time.Instant.offsetText_le_iff hevalid.createdAt hfvalid.createdAt heplain
      hfplain).symm
  rw [DurableArchive.entriesFor, hrows]
  apply mapM_written
  intro e he
  rw [List.mem_mergeSort] at he
  exact (hstored e (List.mem_of_mem_filter he)).1.lasts (by decide)

/-- Entries in the order of their times, with texts in the same order. -/
structure Sorted (entries : List ArchiveEntry) : Prop where
  storable : ∀ e ∈ entries, (Write.append e).IsStorable
  created : entries.Pairwise fun e f => ¬ f.createdAt.before e.createdAt

theorem Mirrors.entriesFor (h : d.Mirrors a) (sorted : Sorted a.entries) {date : Time.Date}
    (hdate : date.isValid = true) : d.entriesFor date = .ok (a.entriesFor date) := by
  rw [h.entriesFor_eq_mergeSort sorted.storable hdate]
  congr 1
  apply List.mergeSort_of_pairwise
  refine (sorted.created.sublist List.filter_sublist).imp ?_
  intro e f hcreated
  rw [Bool.not_eq_true', ← Bool.not_eq_true]
  exact hcreated

theorem foldl_length (entries : List ArchiveEntry) (count : Nat) :
    entries.foldl (fun n e => n + e.memories.length) count =
      count + (entries.map (·.memories.length)).sum := by
  induction entries generalizing count with
  | nil => rfl
  | cons e entries ih => rw [List.foldl_cons, ih, List.map_cons, List.sum_cons, Nat.add_assoc]

/-- The rows of some entries count their memories, as long as the sum is a word. -/
theorem foldlM_addWord (entries : List ArchiveEntry) (count : Nat)
    (h : count + (entries.map (·.memories.length)).sum < Number.twoTo 63) :
    (entries.map rowOf).foldlM (fun sum row => addWord sum row.memoryCount) (count : Int) =
      .ok ((count + (entries.map (·.memories.length)).sum : Nat) : Int) := by
  induction entries generalizing count with
  | nil => rfl
  | cons e entries ih =>
      simp only [List.map_cons, List.sum_cons] at h
      have hadd : addWord count (rowOf e).memoryCount =
          .ok ((count + e.memories.length : Nat) : Int) := by
        have hsum : (count : Int) + (rowOf e).memoryCount =
            ((count + e.memories.length : Nat) : Int) :=
          (Int.natCast_add _ _).symm
        simp only [addWord, hsum]
        apply if_pos
        simp only [Bool.and_eq_true, decide_eq_true_eq]
        omega
      have hrest := ih (count + e.memories.length) (by omega)
      rw [Nat.add_assoc] at hrest
      rw [List.map_cons, List.foldlM_cons, hadd, List.map_cons, List.sum_cons, ← hrest]
      rfl

theorem wordOf_of_lt {n : Nat} (h : n < Number.twoTo 63) : wordOf n = n := by
  have htwo : Number.twoTo 64 = 2 * Number.twoTo 63 := by decide
  rw [wordOf, Int.emod_eq_of_lt (Int.natCast_nonneg n) (by omega), Int.toNat_natCast]

/-- How much the rows of a date count. -/
theorem Mirrors.tally (h : d.Mirrors a) (sorted : Sorted a.entries) {date : Time.Date}
    (hdate : date.isValid = true)
    (hcount : (a.entries.map (·.memories.length)).sum < Number.twoTo 63) :
    d.tally date.text = .ok (date.text, (a.entriesFor date).length,
      (a.entriesFor date).foldl (fun n e => n + e.memories.length) 0) := by
  have hless : ((a.entriesFor date).map (·.memories.length)).sum < Number.twoTo 63 := by
    apply Nat.lt_of_le_of_lt _ hcount
    apply List.Sublist.sum_le_sum (List.filter_sublist.map _)
    exact fun _ _ => Nat.zero_le _
  have hrows : d.entries.filter (·.date == date.text) = (a.entriesFor date).map rowOf := by
    rw [h.entries, filter_rows sorted.storable hdate]
    rfl
  have hsum := foldlM_addWord (a.entriesFor date) 0 (by omega)
  rw [Nat.zero_add] at hsum
  simp only [DurableArchive.tally, hrows, List.length_map, foldl_length, Nat.zero_add]
  rw [show (0 : Int) = ((0 : Nat) : Int) from rfl, hsum]
  simp only [bind, Except.bind, wordOf_of_lt hless]
  rfl

/-- Repetitions are dropped alike from some items and from their distinct texts. -/
theorem eraseDups_map {α β : Type} [DecidableEq α] [DecidableEq β] {f : α → β} {items : List α}
    (h : ∀ a ∈ items, ∀ b ∈ items, f a = f b → a = b) :
    (items.map f).eraseDups = items.eraseDups.map f := by
  induction hlength : items.length using Nat.strong_induction_on generalizing items with
  | _ n ih =>
      cases items with
      | nil => rfl
      | cons a items =>
          have hkept : (items.map f).filter (fun b => !b == f a) =
              (items.filter fun b => !b == a).map f := by
            rw [List.filter_map]
            congr 1
            apply List.filter_congr
            intro b hb
            have hiff : f b = f a ↔ b = a :=
              ⟨h b (List.mem_cons_of_mem _ hb) a List.mem_cons_self, congrArg f⟩
            simp [hiff]
          have hless : (items.filter fun b => !b == a).length < n := by
            have hle := List.length_filter_le (fun b => !b == a) items
            rw [List.length_cons] at hlength
            omega
          have hmem : ∀ b ∈ items.filter fun b => !b == a, b ∈ a :: items :=
            fun b hb => List.mem_cons_of_mem _ (List.mem_of_mem_filter hb)
          have hrest := ih _ hless (fun b hb c hc => h b (hmem b hb) c (hmem c hc)) rfl
          rw [List.map_cons, List.eraseDups_cons, List.eraseDups_cons, List.map_cons, hkept, hrest]

theorem Mirrors.days (h : d.Mirrors a) (sorted : Sorted a.entries)
    (hcount : (a.entries.map (·.memories.length)).sum < Number.twoTo 63) :
    d.days = .ok a.days := by
  have hplain : ∀ date ∈ a.entries.map (·.date), date.IsPlain := by
    intro date hd
    obtain ⟨e, he, rfl⟩ := List.mem_map.mp hd
    exact (sorted.storable e he).2.1
  have hvalid : ∀ date ∈ a.dates, date.isValid = true := by
    intro date hd
    rw [VolatileArchive.dates, List.mem_mergeSort, List.mem_eraseDups] at hd
    exact Time.Date.isValid_of_plain (hplain date hd)
  have htexts : (d.entries.map (·.date)).eraseDups.mergeSort (fun s t => s ≤ t) =
      a.dates.map (·.text) := by
    have hdates : d.entries.map (·.date) = (a.entries.map (·.date)).map (·.text) := by
      rw [h.entries, List.map_map, List.map_map]
      rfl
    have hinjective : ∀ e ∈ a.entries.map (·.date), ∀ f ∈ a.entries.map (·.date),
        e.text = f.text → e = f := fun e he f hf =>
      Time.Date.text_injective (Time.Date.isValid_of_plain (hplain e he))
        (Time.Date.isValid_of_plain (hplain f hf))
    rw [hdates, eraseDups_map hinjective, VolatileArchive.dates]
    refine (List.map_mergeSort ?_).symm
    intro e he f hf
    rw [List.mem_eraseDups] at he hf
    rw [Bool.eq_iff_iff, decide_eq_true_eq, decide_eq_true_eq]
    exact (Time.Date.text_le_iff (hplain e he) (hplain f hf)).symm
  have htallies : (a.dates.map (·.text)).mapM d.tally = .ok (a.dates.map fun date =>
      (date.text, (a.entriesFor date).length,
        (a.entriesFor date).foldl (fun n e => n + e.memories.length) 0)) :=
    mapM_made fun date hd => h.tally sorted (hvalid date hd) hcount
  simp only [DurableArchive.days, htexts, htallies, bind, Except.bind]
  apply mapM_made
  intro date hd
  simp only [Time.Date.parse?_text (hvalid date hd)]
  rfl

/-- The run that was completed last, the one recorded last among equals. -/
def IsLatest : Option RunRecord → List RunRecord → Prop
  | none, runs => runs = []
  | some run, runs => ∃ earlier later, runs = earlier ++ run :: later ∧
      (∀ r ∈ earlier, ¬ run.completedAt.before r.completedAt) ∧
      ∀ r ∈ later, r.completedAt.before run.completedAt

theorem IsLatest.mem {run : RunRecord} {runs : List RunRecord} (h : IsLatest (some run) runs) :
    run ∈ runs := by
  obtain ⟨earlier, later, rfl, -⟩ := h
  exact List.mem_append_right _ List.mem_cons_self

theorem IsLatest.eq_getLast? {found : Option RunRecord} {runs : List RunRecord}
    (h : IsLatest found runs)
    (completed : runs.Pairwise fun r s => ¬ s.completedAt.before r.completedAt) :
    found = runs.getLast? := by
  cases found with
  | none => rw [show runs = [] from h, List.getLast?_nil]
  | some run =>
      obtain ⟨earlier, later, rfl, -, hlater⟩ := h
      cases later with
      | nil => rw [List.getLast?_concat]
      | cons r later =>
          have hafter := (List.pairwise_cons.mp (List.pairwise_append.mp completed).2.1).1
          exact absurd (hlater r List.mem_cons_self) (hafter r List.mem_cons_self)

/-- The row with the greatest text is that of the latest run. -/
theorem lastRow?_isLatest {runs : List RunRecord}
    (hstored : ∀ run ∈ runs, (Write.recordRun run).IsStorable) :
    ∃ found, lastRow? (runs.map runRow) = found.map runRow ∧ IsLatest found runs := by
  induction runs using List.reverseRecOn with
  | nil => exact ⟨none, rfl, rfl⟩
  | append_singleton runs run ih =>
      obtain ⟨found, hfound, latest⟩ := ih fun r hr => hstored r (List.mem_append_left _ hr)
      unfold lastRow? at hfound ⊢
      rw [List.map_append, List.foldl_append, hfound]
      cases found with
      | none =>
          obtain rfl : runs = [] := latest
          exact ⟨some run, rfl, [], [], rfl, by simp, by simp⟩
      | some best =>
          have hbest := latest.mem
          obtain ⟨⟨hvalid, _⟩, _, hplain⟩ := hstored best (List.mem_append_left _ hbest)
          obtain ⟨⟨hnext, _⟩, _, hnextplain⟩ := hstored run (by simp)
          have hle : (runRow best).completedAt ≤ (runRow run).completedAt ↔
              ¬ run.completedAt.before best.completedAt :=
            Time.Instant.offsetText_le_iff hvalid.completedAt hnext.completedAt hplain hnextplain
          obtain ⟨earlier, later, rfl, hearlier, hlater⟩ := latest
          by_cases hback : run.completedAt.before best.completedAt
          · refine ⟨some best, by simp [hle, hback], earlier, later ++ [run], by simp, hearlier, ?_⟩
            intro r hr
            rcases List.mem_append.mp hr with hr | hr
            · exact hlater r hr
            · rwa [List.mem_singleton.mp hr]
          · refine ⟨some run, by simp [hle, hback], earlier ++ best :: later, [], by simp, ?_,
              by simp⟩
            -- What is not later than the best so far is not later than the new run either.
            have hnot : ∀ r : RunRecord, ¬ best.completedAt.before r.completedAt →
                ¬ run.completedAt.before r.completedAt :=
              fun r hr => Time.Instant.not_before_trans hr hback
            intro r hr
            rcases List.mem_append.mp hr with hr | hr
            · exact hnot r (hearlier r hr)
            · rcases List.mem_cons.mp hr with rfl | hr
              · exact hback
              · exact hnot r (Time.Instant.not_before_of_before (hlater r hr))

/-- A run is read back from its row. -/
theorem readRun_runRow {run : RunRecord} (h : (Write.recordRun run).IsStorable) :
    readRun (runRow run) = .ok run := by
  obtain ⟨⟨hvalid, _⟩, hstarted, hcompleted⟩ := h
  simp only [readRun, runRow, Uid.parse?_text, readTime,
    Time.Instant.parseStrict?_offsetText hvalid.startedAt hstarted,
    Time.Instant.parseStrict?_offsetText hvalid.completedAt hcompleted]
  rfl

theorem lastRun_isLatest {runs : List RunRecord} (h : d.runs = runs.map runRow)
    (hstored : ∀ run ∈ runs, (Write.recordRun run).IsStorable) :
    ∃ found, d.lastRun = .ok found ∧ IsLatest found runs := by
  obtain ⟨found, hrow, latest⟩ := lastRow?_isLatest hstored
  refine ⟨found, ?_, latest⟩
  rw [DurableArchive.lastRun, h, hrow]
  cases found with
  | none => rfl
  | some run =>
      simp only [Option.map_some, readRun_runRow (hstored run latest.mem)]
      rfl

/-- The last run is the one that was recorded last, if completion times do not go back. -/
theorem lastRun_eq_getLast? {runs : List RunRecord} (h : d.runs = runs.map runRow)
    (hstored : ∀ run ∈ runs, (Write.recordRun run).IsStorable)
    (completed : runs.Pairwise fun r s => ¬ s.completedAt.before r.completedAt) :
    d.lastRun = .ok runs.getLast? := by
  obtain ⟨found, hlast, latest⟩ := lastRun_isLatest h hstored
  rw [hlast, latest.eq_getLast? completed]

end DurableArchive

namespace Backend

open DurableArchive

theorem saveSnapshots_volatile (a : VolatileArchive) (tiers : List (Tier × List Memory)) :
    (ofStorage (.volatile a)).saveSnapshots tiers =
      (ofStorage (.volatile { a with snapshots := a.snapshots.putAll tiers }), .ok ()) := by
  induction tiers generalizing a with
  | nil => rfl
  | cons p tiers ih => exact ih _

theorem saveCheckpoint_volatile (a : VolatileArchive) (c : Checkpoint) :
    (ofStorage (.volatile a)).saveCheckpoint c =
      (ofStorage (.volatile { a with
        snapshots := a.snapshots.putAll c.tiers
        pendingDay := some c.pendingDay
        knowledge := c.knowledge }), .ok ()) := by
  have hstorage : (ofStorage (.volatile a)).storage = .volatile a := rfl
  simp only [saveCheckpoint, hstorage, saveSnapshots_volatile]
  rfl

/-- What one write does to both kinds of storage. -/
theorem write_mirrors {d : DurableArchive} {a : VolatileArchive} {w : Write} (h : d.Mirrors a)
    (hstored : w.IsStorable) (hentry : ∀ entry ∈ w.entry?, entry.id ∉ a.entries.map (·.id))
    (hrun : ∀ run ∈ w.run?, run.id ∉ a.runs.map (·.id)) : ∃ d' a',
      (ofStorage (.durable d)).write w = .ok (ofStorage (.durable d')) ∧
      (ofStorage (.volatile a)).write w = .ok (ofStorage (.volatile a')) ∧ d'.Mirrors a' ∧
      a'.entries = a.entries ++ w.entry?.toList ∧ a'.runs = a.runs ++ w.run?.toList := by
  cases w with
  | append entry =>
      obtain ⟨d', happend, h'⟩ := h.append (hentry entry rfl)
      refine ⟨d', a.append entry, ?_, rfl, h', rfl, by simp [VolatileArchive.append, Write.run?]⟩
      change (d.append entry).map _ = _
      rw [happend]
      rfl
  | saveSnapshot tier memories =>
      exact ⟨_, _, rfl, rfl, h.saveSnapshot tier hstored, by simp [Write.entry?],
        by simp [Write.run?]⟩
  | savePendingDay day =>
      exact ⟨_, _, rfl, rfl, h.savePendingDay hstored, by simp [Write.entry?], by simp [Write.run?]⟩
  | saveKnowledge entries =>
      exact ⟨_, _, rfl, rfl, h.saveKnowledge hstored, by simp [Write.entry?], by simp [Write.run?]⟩
  | saveCheckpoint c =>
      refine ⟨_, _, rfl, ?_, h.saveCheckpoint hstored, by simp [Write.entry?], by simp [Write.run?]⟩
      simp only [write, saveCheckpoint_volatile]
      rfl
  | recordRun run =>
      obtain ⟨d', hrecord, h'⟩ := h.recordRun (hrun run rfl)
      refine ⟨d', _, ?_, rfl, h', by simp [Write.entry?], rfl⟩
      change (d.recordRun run).map _ = _
      rw [hrecord]
      rfl

theorem filterMap_concat {α β : Type} (f : α → Option β) (items : List α) (a : α) :
    (items ++ [a]).filterMap f = items.filterMap f ++ (f a).toList := by
  cases h : f a <;> simp [h]

theorem writeAll_concat {b b' : Backend} {writes : List Write} (h : b.writeAll writes = .ok b')
    (w : Write) : b.writeAll (writes ++ [w]) = b'.write w := by
  rw [writeAll, List.foldlM_append, ← writeAll, h]
  exact bind_pure (b'.write w)

/-- What acceptable writes do to both kinds of storage. -/
theorem accepted_mirrors {writes : List Write} (h : Acceptable writes) : ∃ d a,
    (ofStorage (.durable .empty)).writeAll writes = .ok (ofStorage (.durable d)) ∧
    (ofStorage (.volatile .empty)).writeAll writes = .ok (ofStorage (.volatile a)) ∧ d.Mirrors a ∧
    a.entries = writes.filterMap Write.entry? ∧ a.runs = writes.filterMap Write.run? := by
  induction writes using List.reverseRecOn with
  | nil =>
      have mirrors : DurableArchive.empty.Mirrors .empty :=
        ⟨rfl, rfl, rfl, rfl, rfl, by simp [VolatileArchive.empty], by simp [VolatileArchive.empty]⟩
      exact ⟨_, _, rfl, rfl, mirrors, rfl, rfl⟩
  | append_singleton writes w ih =>
      obtain ⟨d, a, hdisk, hmem, mirrors, hentries, hruns⟩ :=
        ih (h.of_prefix (List.prefix_append _ _))
      have hentry : ∀ entry ∈ w.entry?, entry.id ∉ a.entries.map (·.id) := by
        intro entry hw hold
        have hids := h.entryIds
        rw [filterMap_concat, ← hentries, Option.mem_def.mp hw, List.map_append] at hids
        exact (List.nodup_append.mp hids).2.2 _ hold _ (List.mem_singleton_self _) rfl
      have hrun : ∀ run ∈ w.run?, run.id ∉ a.runs.map (·.id) := by
        intro run hw hold
        have hids := h.runIds
        rw [filterMap_concat, ← hruns, Option.mem_def.mp hw, List.map_append] at hids
        exact (List.nodup_append.mp hids).2.2 _ hold _ (List.mem_singleton_self _) rfl
      obtain ⟨d', a', hdisk', hmem', mirrors', hentries', hruns'⟩ :=
        write_mirrors mirrors (h.storable w (by simp)) hentry hrun
      refine ⟨d', a', ?_, ?_, mirrors', ?_, ?_⟩
      · rw [writeAll_concat hdisk, hdisk']
      · rw [writeAll_concat hmem, hmem']
      · rw [filterMap_concat, hentries', hentries]
      · rw [filterMap_concat, hruns', hruns]

theorem writeAll_mirrors {writes : List Write} (h : Orderly writes) : ∃ d a,
    (ofStorage (.durable .empty)).writeAll writes = .ok (ofStorage (.durable d)) ∧
    (ofStorage (.volatile .empty)).writeAll writes = .ok (ofStorage (.volatile a)) ∧ d.Mirrors a ∧
    a.entries = writes.filterMap Write.entry? ∧ a.runs = writes.filterMap Write.run? :=
  accepted_mirrors h.acceptable

theorem entry_storable {writes : List Write} (h : Orderly writes) {entry : ArchiveEntry}
    (hentry : entry ∈ writes.filterMap Write.entry?) : (Write.append entry).IsStorable :=
  h.acceptable.entry hentry

theorem run_storable {writes : List Write} (h : Orderly writes) {run : RunRecord}
    (hrun : run ∈ writes.filterMap Write.run?) : (Write.recordRun run).IsStorable :=
  h.acceptable.run hrun

/-- At every point of orderly writes, both kinds of storage have taken what was written so far and
answer alike. -/
theorem storages_answer_alike {writes done : List Write} (orderly : Orderly writes)
    (hdone : done <+: writes) : ∃ volatile durable,
      (ofStorage (.volatile .empty)).writeAll done = .ok volatile ∧
      (ofStorage (.durable .empty)).writeAll done = .ok durable ∧ volatile.SameAnswers durable := by
  have sofar := orderly.of_prefix hdone
  obtain ⟨d, a, hdisk, hmem, mirrors, hentries, hruns⟩ := writeAll_mirrors sofar
  have sorted : Sorted a.entries := by
    rw [hentries]
    exact ⟨fun e he => entry_storable sofar he, sofar.created⟩
  have hcount := sofar.countable
  rw [← hentries] at hcount
  have hlast : d.lastRun = .ok a.runs.getLast? := by
    refine lastRun_eq_getLast? mirrors.runs (fun run hr => run_storable sofar (hruns ▸ hr)) ?_
    rw [hruns]
    exact sofar.completed.imp Time.Instant.not_before_of_before
  refine ⟨_, _, hmem, hdisk, ?_⟩
  exact {
    entriesFor := fun date hdate => (mirrors.entriesFor sorted hdate).symm
    days := (mirrors.days sorted hcount).symm
    loadSnapshots := mirrors.loadSnapshots.symm
    loadPendingDay := mirrors.pendingDay?.symm
    loadKnowledge := mirrors.knowledge.symm
    lastRun := hlast.symm }

namespace Sample

open Json.Sample

def pending : PendingDay := ⟨⟨1773039900, 0⟩, ⟨20521⟩, [memory], []⟩

def knowledge : KnowledgeEntry where
  concept := "a"
  frequency := 2
  associations := ["b", "c"]
  follows := none
  importance := 0.5
  revision := 1
  trainedRevision := 0
  updatedAt := ⟨1773039902, 0⟩

/-- Two entries of one instant, of which the first seals the pending day, and two runs. -/
def writes : List Write := [
  .savePendingDay pending, .saveSnapshot .semantic [memory], .append entry,
  .append { entry with id := ⟨8⟩ },
  .recordRun ⟨⟨1⟩, ⟨1773039901, 0⟩, ⟨1773039901, 500000000⟩, true, "first"⟩,
  .saveKnowledge [knowledge],
  .recordRun ⟨⟨2⟩, ⟨1773039901, 500000000⟩, ⟨1773039901, 500000001⟩, false, "second"⟩]

theorem storable_pending : Storable pending :=
  ⟨⟨⟨by decide, .inl (by decide)⟩, by decide, List.forall_mem_singleton.mpr storable_memory.1,
    by simp [pending]⟩, List.forall_mem_singleton.mpr storable_memory.2⟩

theorem storable_knowledge : Storable knowledge := by
  have hstrict : Names.Strict knowledge.associations := by
    change List.Pairwise (· < ·) ["b", "c"]
    decide
  exact ⟨⟨hstrict, by decide, .inl (by decide)⟩, _, rfl, rfl⟩

theorem orderly_writes : Orderly writes := by
  refine ⟨?_, by decide, by decide, by decide, by decide, by decide⟩
  have hdate : Time.Date.isValid ⟨1773039901 / Time.secondsPerDay⟩ = true := by decide
  have hinstant : ∀ nanos, nanos < Time.billion → Time.Instant.IsValid ⟨1773039901, nanos⟩ :=
    fun nanos h => ⟨hdate, .inl h⟩
  obtain ⟨hvalid, hlegible⟩ := storable_entry
  simp only [writes, List.forall_mem_cons]
  refine ⟨storable_pending, ?_, ⟨⟨hvalid, hlegible⟩, by decide, by decide⟩,
    ⟨⟨?_, hlegible⟩, by decide, by decide⟩, ?_, ?_, ?_, by simp⟩
  · exact ⟨List.forall_mem_singleton.mpr storable_memory.1,
      List.forall_mem_singleton.mpr storable_memory.2⟩
  · exact ⟨hvalid.date, hvalid.createdAt, hvalid.memories, hvalid.experiences, hvalid.patterns,
      hvalid.metrics⟩
  · exact ⟨⟨⟨hinstant _ (by decide), hinstant _ (by decide)⟩, trivial⟩, by decide, by decide⟩
  · exact ⟨List.forall_mem_singleton.mpr storable_knowledge.1,
      List.forall_mem_singleton.mpr storable_knowledge.2⟩
  · exact ⟨⟨⟨hinstant _ (by decide), hinstant _ (by decide)⟩, trivial⟩, by decide, by decide⟩

end Sample

theorem storages_answer_alike_sample : Orderly Sample.writes ∧ ∃ volatile durable,
    (ofStorage (.volatile .empty)).writeAll Sample.writes = .ok volatile ∧
    (ofStorage (.durable .empty)).writeAll Sample.writes = .ok durable ∧
    volatile.SameAnswers durable :=
  ⟨Sample.orderly_writes, storages_answer_alike Sample.orderly_writes (List.prefix_refl _)⟩

end Backend

end Engram
