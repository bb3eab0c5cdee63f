import Engram.Proofs.Storage
import Mathlib.Tactic.SplitIfs

/-! Columns of texts that stand for times. Texts are compared byte by byte, which is the order of
their characters. In years of four digits it is the order of time as well, whatever digits of a
fraction are left out, so the tables answer by time although they only sort texts. -/
namespace Engram

namespace Text

/-- The bytes of a text, by which texts are sorted. -/
def bytes (s : String) : List UInt8 := s.toUTF8.data.toList

theorem bytes_eq_flatMap (s : String) : bytes s = s.toList.flatMap String.utf8EncodeChar := by
  rw [bytes, String.toUTF8_eq_toByteArray, ← String.utf8Encode_toList, List.utf8Encode,
    List.toList_data_toByteArray]

/-- A lesser character has lesser bytes, whatever follows. A longer code starts with a greater byte,
and in codes of one length the bytes are digits to base 64. -/
theorem utf8EncodeChar_append_lt {c d : Char} (h : c < d) (rest after : List UInt8) :
    String.utf8EncodeChar c ++ rest < String.utf8EncodeChar d ++ after := by
  have hlt : c.val.toNat < d.val.toNat := h
  have hmost : d.val.toNat < 0x110000 := by
    rcases d.valid with hlow | ⟨-, hhigh⟩
    · omega
    · exact hhigh
  have htwice : ∀ n : Nat, n / 4096 = n / 64 / 64 := by omega
  have hthrice : ∀ n : Nat, n / 262144 = n / 64 / 64 / 64 := by omega
  unfold String.utf8EncodeChar
  simp only [htwice, hthrice]
  generalize c.val.toNat = m at *
  generalize d.val.toNat = n at *
  -- One case for each pair of lengths; a lesser character has no longer code.
  split_ifs <;> simp only [List.cons_append, List.nil_append, List.cons_lt_cons_iff,
    UInt8.lt_iff_toNat_lt, ← UInt8.toNat_inj, UInt8.toNat_ofNat'] <;> omega

theorem flatMap_utf8EncodeChar_lt {cs ds : List Char} (h : cs < ds) :
    cs.flatMap String.utf8EncodeChar < ds.flatMap String.utf8EncodeChar := by
  induction cs generalizing ds with
  | nil =>
      cases ds with
      | nil => exact absurd h (List.not_lt_nil _)
      | cons d ds =>
          obtain ⟨b, more, hbytes⟩ :=
            List.exists_cons_of_ne_nil (String.utf8EncodeChar_ne_nil (c := d))
          rw [List.flatMap_nil, List.flatMap_cons, hbytes]
          exact List.nil_lt_cons _ _
  | cons c cs ih =>
      cases ds with
      | nil => exact absurd h (List.not_lt_nil _)
      | cons d ds =>
          rw [List.flatMap_cons, List.flatMap_cons]
          rcases List.cons_lt_cons_iff.mp h with hless | ⟨rfl, hrest⟩
          · exact utf8EncodeChar_append_lt hless _ _
          · exact List.append_left_lt (ih hrest)

/-- Bytes are in the order of characters. -/
theorem bytes_lt_iff {s t : String} : bytes s < bytes t ↔ s < t := by
  have hmono : ∀ {s t : String}, s < t → bytes s < bytes t := by
    intro s t h
    rw [bytes_eq_flatMap, bytes_eq_flatMap]
    exact flatMap_utf8EncodeChar_lt (String.lt_iff_toList_lt.mp h)
  refine ⟨?_, hmono⟩
  intro h
  rcases lt_trichotomy s t with hless | rfl | hmore
  · exact hless
  · exact absurd h (List.lt_irrefl _)
  · exact absurd h (List.lt_asymm (hmono hmore))

end Text

namespace Time.Instant

/-- An instant of the years 0000 to 9999 that is no leap second. -/
structure IsOrdinary (t : Instant) : Prop where
  plain : t.date.IsPlain
  nanos : t.nanos < billion

theorem IsOrdinary.isValid {t : Instant} (h : t.IsOrdinary) : t.IsValid :=
  isValid_of_plain h.plain h.nanos

/-- The form of a sorted text: date, time of day, a fraction of three, six or nine digits or none,
and the offset of UTC. -/
def IsWrittenAs (t : Instant) (s : String) : Prop :=
  ∃ digits : List Char, digits.length ∈ [0, 3, 6, 9] ∧ (∀ c ∈ digits, c.isDigit) ∧
    natOfDigits (digits ++ List.replicate (9 - digits.length) '0') = t.nanos ∧
    s.toList = t.date.text.toList ++ 'T' :: (t.timeText.toList ++
      ((if digits = [] then [] else '.' :: digits) ++ "+00:00".toList))

theorem IsOrdinary.isWrittenAs {t : Instant} (h : t.IsOrdinary) : t.IsWrittenAs t.offsetText := by
  have hnanos : t.nanos % billion = t.nanos := Nat.mod_eq_of_lt h.nanos
  have htext : t.offsetText.toList = _ := toList_stamp "+00:00" t
  by_cases hzero : t.nanos % billion = 0
  · have hempty : t.fractionText = "" := by simp [fractionText, hzero]
    refine ⟨[], by decide, by simp, ?_, by simpa [hempty] using htext⟩
    rw [natOfDigits_zeros, ← hnanos, hzero]
    rfl
  · obtain ⟨digits, left, hdigits, hisdigits, hlength, hvalue, hleft⟩ := toList_fractionText hzero
    have hmissing : 9 - digits.length = left := by omega
    have hsome : digits ≠ [] := by
      rintro rfl
      simp at hlength hleft
      omega
    refine ⟨digits, ?_, hisdigits, ?_, ?_⟩
    · simp only [List.mem_cons, List.not_mem_nil, or_false] at hleft ⊢
      omega
    · rw [hmissing, hvalue, hnanos]
    · rw [if_neg hsome, ← hdigits]
      exact htext

end Time.Instant

namespace Backend

open DurableArchive

/-- Answers in the order of time: the entries of a date from the first to the last and the latest
run, with the order of writing among equals. -/
structure AnswersByTime (b : Backend) (entries : List ArchiveEntry) (runs : List RunRecord) :
    Prop where
  entriesFor (date : Time.Date) : date.isValid = true → b.entriesFor date =
    .ok ((entries.filter (·.date == date)).mergeSort fun e f => !f.createdAt.before e.createdAt)
  lastRun : ∃ found, b.lastRun = .ok found ∧ IsLatest found runs

/-- The tables answer by time, in whatever order entries and runs were written. -/
theorem answersByTime {writes : List Write} (h : Acceptable writes) : ∃ tables,
    (ofStorage (.durable .empty)).writeAll writes = .ok tables ∧
    tables.AnswersByTime (writes.filterMap Write.entry?) (writes.filterMap Write.run?) := by
  obtain ⟨d, a, hdisk, -, mirrors, hentries, hruns⟩ := accepted_mirrors h
  refine ⟨_, hdisk, ?_, ?_⟩
  · intro date hdate
    rw [← hentries]
    exact mirrors.entriesFor_eq_mergeSort (fun e he => h.entry (hentries ▸ he)) hdate
  · rw [← hruns]
    exact lastRun_isLatest mirrors.runs fun run hr => h.run (hruns ▸ hr)

/-- Texts of ordinary instants have one form, are sorted as bytes in the order of time and are equal
for equal instants only, so the tables answer by time. -/
theorem stored_texts_sort_by_time :
    (∀ t : Time.Instant, t.IsOrdinary → t.IsWrittenAs t.offsetText) ∧
    (∀ t u : Time.Instant, t.IsOrdinary → u.IsOrdinary →
      (Text.bytes t.offsetText < Text.bytes u.offsetText ↔ t.before u) ∧
      (t.offsetText = u.offsetText ↔ t = u)) ∧
    ∀ writes : List Write, Acceptable writes → ∃ tables,
      (ofStorage (.durable .empty)).writeAll writes = .ok tables ∧
      tables.AnswersByTime (writes.filterMap Write.entry?) (writes.filterMap Write.run?) := by
  refine ⟨fun t ht => ht.isWrittenAs, ?_, fun writes h => answersByTime h⟩
  intro t u ht hu
  constructor
  · rw [Text.bytes_lt_iff]
    exact Time.Instant.offsetText_lt_iff ht.isValid hu.isValid ht.plain hu.plain
  · exact Time.Instant.offsetText_inj ht.isValid hu.isValid ht.plain hu.plain

namespace Sample

open Json.Sample

/-- Two instants of which the one with fewer digits comes first. -/
def coarse : Time.Instant := ⟨1773039901, 500000000⟩

def fine : Time.Instant := ⟨1773039901, 500000001⟩

/-- Two entries and two runs, each time the later one first. -/
def backwards : List Write := [
  .append entry, .append { entry with id := ⟨8⟩, createdAt := ⟨1773039901, 0⟩ },
  .recordRun ⟨⟨1⟩, coarse, fine, true, "first"⟩, .recordRun ⟨⟨2⟩, coarse, coarse, true, "second"⟩]

theorem ordinary_coarse : coarse.IsOrdinary := ⟨by decide, by decide⟩

theorem ordinary_fine : fine.IsOrdinary := ⟨by decide, by decide⟩

theorem acceptable_backwards : Acceptable backwards := by
  refine ⟨?_, by decide, by decide⟩
  obtain ⟨hvalid, hlegible⟩ := storable_entry
  have hcreated : Time.Instant.IsValid ⟨1773039901, 0⟩ := ⟨by decide, .inl (by decide)⟩
  simp only [backwards, List.forall_mem_cons]
  refine ⟨⟨⟨hvalid, hlegible⟩, by decide, by decide⟩, ⟨⟨?_, hlegible⟩, by decide, by decide⟩, ?_, ?_,
    by simp⟩
  · exact ⟨hvalid.date, hcreated, hvalid.memories, hvalid.experiences, hvalid.patterns,
      hvalid.metrics⟩
  · exact ⟨⟨⟨ordinary_coarse.isValid, ordinary_fine.isValid⟩, trivial⟩, by decide, by decide⟩
  · exact ⟨⟨⟨ordinary_coarse.isValid, ordinary_coarse.isValid⟩, trivial⟩, by decide, by decide⟩

end Sample

theorem stored_texts_sort_by_time_sample :
    Sample.coarse.IsOrdinary ∧ Sample.coarse.IsWrittenAs Sample.coarse.offsetText ∧
    Sample.fine.IsOrdinary ∧
    Text.bytes Sample.coarse.offsetText < Text.bytes Sample.fine.offsetText ∧
    Acceptable Sample.backwards ∧ ∃ tables,
      (ofStorage (.durable .empty)).writeAll Sample.backwards = .ok tables ∧
      tables.AnswersByTime (Sample.backwards.filterMap Write.entry?)
        (Sample.backwards.filterMap Write.run?) := by
  have hsorted := stored_texts_sort_by_time.2.1 _ _ Sample.ordinary_coarse Sample.ordinary_fine
  exact ⟨Sample.ordinary_coarse, stored_texts_sort_by_time.1 _ Sample.ordinary_coarse,
    Sample.ordinary_fine, hsorted.1.mpr (by decide), Sample.acceptable_backwards,
    stored_texts_sort_by_time.2.2 _ Sample.acceptable_backwards⟩

end Backend

end Engram
