import Engram.Proofs.Calendar
import Engram.Proofs.Numeral
import Engram.Time.Reader
import Mathlib.Algebra.Group.Nat.Defs
import Mathlib.Data.List.Induction
import Mathlib.Data.List.TakeWhile

/-! Texts of dates and instants. A date there is and an instant of such a date are read back from
their texts, whatever the year and however many digits the fraction of a second takes. -/
namespace Engram.Number

theorem toList_padded (width n : Nat) : (padded width n).toList =
    List.replicate (width - (Nat.toDigits 10 n).length) '0' ++ Nat.toDigits 10 n := by
  simp [padded]

theorem isDigit_padded (width n : Nat) : ∀ c ∈ (padded width n).toList, c.isDigit := by
  intro c hc
  rw [toList_padded, List.mem_append] at hc
  rcases hc with hzero | hdigit
  · obtain rfl := List.eq_of_mem_replicate hzero
    decide
  · exact Nat.isDigit_of_mem_toDigits (by decide) (by decide) hdigit

theorem length_padded {width n : Nat} (hwidth : 0 < width) (h : n < 10 ^ width) :
    (padded width n).toList.length = width := by
  have hdigits := (Nat.length_toDigits_le_iff (by decide) hwidth).mpr h
  rw [toList_padded, List.length_append, List.length_replicate]
  omega

theorem padded_ne_nil (width n : Nat) : (padded width n).toList ≠ [] := by
  simp [toList_padded]

end Engram.Number

namespace Engram.Time

open Number

theorem natOfDigits_eq (digits : List Char) :
    natOfDigits digits = Nat.ofDigitChars 10 digits 0 := by
  simp only [natOfDigits, Nat.ofDigitChars_eq_foldl, Nat.mul_comm]

theorem natOfDigits_padded (width n : Nat) : natOfDigits (padded width n).toList = n := by
  rw [natOfDigits_eq, toList_padded, Nat.ofDigitChars_append, Nat.ofDigitChars_replicate_zero,
    Nat.mul_zero, Nat.ofDigitChars_ten_toDigits]

/-- No blank is a visible character of the texts here. -/
theorem isBlank_of_visible {c : Char} (h : 0x21 ≤ c.toNat ∧ c.toNat ≤ 0x7e) :
    Text.isBlank c = false := by
  simp only [Text.isBlank, Text.inRanges, Text.blankRanges, List.any_cons, List.any_nil,
    Bool.or_false, Bool.or_eq_false_iff, Bool.and_eq_false_iff, decide_eq_false_iff_not]
  omega

theorem skipBlanks_cons {c : Char} (h : 0x21 ≤ c.toNat ∧ c.toNat ≤ 0x7e) (cs : List Char) :
    skipBlanks (c :: cs) = c :: cs := by
  simp [skipBlanks, isBlank_of_visible h]

theorem visible_of_isDigit {c : Char} (h : c.isDigit) : 0x21 ≤ c.toNat ∧ c.toNat ≤ 0x7e := by
  rw [Char.isDigit_iff_toNat] at h
  have hnine : '9'.toNat = 57 := rfl
  have hzero : '0'.toNat = 48 := rfl
  omega

theorem skipBlanks_digits {digits : List Char} (h : ∀ c ∈ digits, c.isDigit) (hne : digits ≠ [])
    (rest : List Char) : skipBlanks (digits ++ rest) = digits ++ rest := by
  obtain ⟨c, digits, rfl⟩ := List.exists_cons_of_ne_nil hne
  exact skipBlanks_cons (visible_of_isDigit (h c List.mem_cons_self)) _

/-- All digits there may be are read, or all there are. -/
theorem scanNat_append {digits : List Char} (h : ∀ c ∈ digits, c.isDigit) (hne : digits ≠ [])
    {most : Nat} (hmost : digits.length ≤ most) {rest : List Char}
    (stop : digits.length = most ∨ Undigited rest) :
    scanNat most (digits ++ rest) = some (natOfDigits digits, rest) := by
  have htake : ((digits ++ rest).take most).takeWhile Char.isDigit = digits := by
    rcases stop with rfl | stop
    · rw [List.take_left, List.takeWhile_eq_self_iff.mpr h]
    · rw [List.take_append, List.take_of_length_le hmost]
      apply Undigited.takeWhile _ h
      intro c hc
      apply stop c
      cases rest with
      | nil => simp at hc
      | cons d rest =>
          cases hleft : most - digits.length with
          | zero => simp [hleft] at hc
          | succ n => simpa [hleft] using hc
  simp [scanNat, htake, hne]

theorem scanField_padded {width n : Nat} (hwidth : 0 < width) (h : n < 10 ^ width)
    (rest : List Char) :
    scanField width ((padded width n).toList ++ rest) = some (n, rest) := by
  have hlength := length_padded hwidth h
  rw [scanField, skipBlanks_digits (isDigit_padded width n) (padded_ne_nil width n),
    scanNat_append (isDigit_padded width n) (padded_ne_nil width n) (Nat.le_of_eq hlength)
      (.inl hlength),
    natOfDigits_padded]

theorem scanExact_padded {width n : Nat} (hwidth : 0 < width) (h : n < 10 ^ width)
    (rest : List Char) :
    scanExact width ((padded width n).toList ++ rest) = some (n, rest) := by
  have hlength := length_padded hwidth h
  have hsplit : ((padded width n).toList ++ rest).take width = (padded width n).toList ∧
      ((padded width n).toList ++ rest).drop width = rest := by
    constructor
    · exact List.take_left' hlength
    · exact List.drop_left' hlength
  simp only [scanExact, hsplit, List.takeWhile_eq_self_iff.mpr (isDigit_padded width n), hlength,
    if_true, natOfDigits_padded]

theorem scanMark_cons {mark : Char} (h : 0x21 ≤ mark.toNat ∧ mark.toNat ≤ 0x7e)
    (rest : List Char) : scanMark mark (mark :: rest) = some rest := by
  simp [scanMark, skipBlanks_cons h]

/-- A year without a sign. -/
theorem scanYear_digits {digits : List Char} (h : ∀ c ∈ digits, c.isDigit)
    (hlength : digits.length = 4) (rest : List Char) :
    scanYear (digits ++ rest) = some ((natOfDigits digits : Int), rest) := by
  have hne : digits ≠ [] := by
    rintro rfl
    cases hlength
  have hscan : scanNat 4 (digits ++ rest) = some (natOfDigits digits, rest) :=
    scanNat_append h hne (Nat.le_of_eq hlength) (.inl hlength)
  rw [scanYear, skipBlanks_digits h hne]
  obtain ⟨c, digits, rfl⟩ := List.exists_cons_of_ne_nil hne
  have hc : c.isDigit := h c List.mem_cons_self
  have hminus : c ≠ '-' := by
    rintro rfl
    cases hc
  have hplus : c ≠ '+' := by
    rintro rfl
    cases hc
  rw [List.cons_append] at hscan ⊢
  simp [hminus, hplus, hscan]

/-- A year is read back, up to the character after its last digit. -/
theorem scanYear_append (year : Int) {rest : List Char} (stop : Undigited rest) :
    scanYear ((yearText year).toList ++ rest) = some (year, rest) := by
  have hdigits := isDigit_padded 4 year.natAbs
  have hne := padded_ne_nil 4 year.natAbs
  by_cases hyear : (0 ≤ year && year ≤ 9999) = true
  · have hbounds : 0 ≤ year ∧ year ≤ 9999 := by simpa using hyear
    have hnat : year.toNat = year.natAbs := by omega
    have hlength : (padded 4 year.natAbs).toList.length = 4 := length_padded (by decide) (by omega)
    rw [yearText, if_pos hyear, hnat, scanYear_digits hdigits hlength, natOfDigits_padded]
    simp
    omega
  · have hbounds : ¬(0 ≤ year ∧ year ≤ 9999) := by simpa using hyear
    have hscan : scanNat ((padded 4 year.natAbs).toList ++ rest).length
        ((padded 4 year.natAbs).toList ++ rest) = some (year.natAbs, rest) := by
      rw [scanNat_append hdigits hne (by simp) (.inr stop), natOfDigits_padded]
    rw [yearText, if_neg hyear]
    by_cases hneg : year < 0
    · rw [if_pos hneg, String.toList_append, List.append_assoc,
        show "-".toList = ['-'] from rfl, List.singleton_append, scanYear,
        skipBlanks_cons (by decide)]
      simp only [hscan, Option.map_some, Option.some.injEq, Prod.mk.injEq, and_true]
      omega
    · rw [if_neg hneg, String.toList_append, List.append_assoc,
        show "+".toList = ['+'] from rfl, List.singleton_append, scanYear,
        skipBlanks_cons (by decide)]
      simp only [hscan, Option.map_some, Option.some.injEq, Prod.mk.injEq, and_true]
      omega

/-- A date there is is read back, whatever follows. -/
theorem scanDate_append {d : Date} (h : d.isValid = true) (rest : List Char) :
    scanDate (d.text.toList ++ rest) = some (d, rest) := by
  obtain ⟨_, htwelve, _, hlast⟩ := d.civil_exists
  have hday := Nat.le_trans hlast (daysInMonth_le _ _)
  have htext : d.text.toList ++ rest = (yearText d.civil.year).toList ++ '-' ::
      ((padded 2 d.civil.month).toList ++ '-' :: ((padded 2 d.civil.day).toList ++ rest)) := by
    simp [Date.text]
  have hmark : 0x21 ≤ '-'.toNat ∧ '-'.toNat ≤ 0x7e := by decide
  rw [htext, scanDate, scanYear_append _ (by simp [Undigited])]
  simp only [Option.bind_eq_bind, Option.bind_some, scanMark_cons hmark]
  rw [scanField_padded (by decide) (by omega)]
  simp only [Option.bind_some, scanMark_cons hmark]
  rw [scanField_padded (by decide) (by omega)]
  simp [Date.ofCivil?_civil h]

/-- A date there is is read back from its text. -/
theorem Date.parse?_text {d : Date} (h : d.isValid = true) : parse? d.text = some d := by
  have hscan := scanDate_append h []
  rw [List.append_nil] at hscan
  unfold parse?
  rw [hscan]
  rfl

theorem scanFraction_padded {width n : Nat} (hwidth : 0 < width) (hmost : width ≤ 9)
    (h : n < 10 ^ width) {rest : List Char} (stop : Undigited rest) :
    scanFraction ('.' :: ((padded width n).toList ++ rest)) =
      some (n * tenTo (9 - width), rest) := by
  have hlength := length_padded hwidth h
  have hscan : scanNat 9 ((padded width n).toList ++ rest) = some (n, rest) := by
    rw [scanNat_append (isDigit_padded width n) (padded_ne_nil width n) (by omega) (.inr stop),
      natOfDigits_padded]
  have hcount : ((padded width n).toList ++ rest).length - rest.length = width := by
    rw [List.length_append]
    omega
  have htake : ((padded width n).toList ++ rest).take width = (padded width n).toList :=
    List.take_left' hlength
  have hdrop : ([] ++ rest).dropWhile Char.isDigit = rest := stop.dropWhile (by simp)
  rw [List.nil_append] at hdrop
  simp only [scanFraction, hscan, Option.bind_eq_bind, Option.bind_some, hcount, htake, hdrop,
    natOfDigits_padded]
  rfl

/-- The fraction of a second is read back, however many digits it takes. -/
theorem scanFraction_append (t : Instant) {rest : List Char} (stop : Undigited rest)
    (point : rest.head? ≠ some '.') :
    scanFraction (t.fractionText.toList ++ rest) = some (t.nanos % billion, rest) := by
  have hlt : t.nanos % billion < 1000000000 := Nat.mod_lt _ (by decide)
  unfold Instant.fractionText
  simp only
  generalize t.nanos % billion = nanos at *
  split
  · rename_i hzero
    cases rest with
    | nil => simp [scanFraction, hzero]
    | cons c rest =>
        have hc : c ≠ '.' := by simpa using point
        simp [scanFraction, hc, hzero]
  · have hread : ∀ width n, 0 < width → width ≤ 9 → n < 10 ^ width →
        scanFraction (("." ++ padded width n).toList ++ rest) =
          some (n * tenTo (9 - width), rest) := by
      intro width n hwidth hmost hn
      have hpoint : ".".toList = ['.'] := rfl
      rw [String.toList_append, hpoint, List.append_assoc, List.singleton_append,
        scanFraction_padded hwidth hmost hn stop]
    split
    · rw [hread _ _ (by decide) (by decide) (by omega)]
      simp [tenTo]
      omega
    · split
      · rw [hread _ _ (by decide) (by decide) (by omega)]
        simp [tenTo]
        omega
      · rw [hread _ _ (by decide) (by decide) (by omega)]
        simp [tenTo]

/-- The instants there are: those of the dates there are, with leap seconds at the end of a minute
only. -/
structure Instant.IsValid (t : Instant) : Prop where
  date : t.date.isValid = true
  nanos : t.nanos < billion ∨ (t.seconds % 60 = 59 ∧ t.nanos < 2 * billion)

/-- The second of the day. -/
def Instant.ofDay (t : Instant) : Nat := (t.seconds % secondsPerDay).toNat

/-- The second of a minute as it is written, where sixty stands for a leap second. -/
def Instant.second (t : Instant) : Nat := t.ofDay % 60 + if t.isLeap then 1 else 0

theorem Instant.ofDay_lt (t : Instant) : t.ofDay < 86400 := by
  unfold ofDay secondsPerDay
  omega

/-- An instant is a second of its day. -/
theorem Instant.seconds_eq (t : Instant) :
    t.date.days * secondsPerDay + (t.ofDay : Int) = t.seconds := by
  simp only [ofDay, date, secondsPerDay]
  omega

/-- A second that is no leap second, put together from what is written for it. -/
theorem Instant.common (t : Instant) (hleap : t.isLeap = false) :
    t.second < 60 ∧ (t.ofDay / 3600 * 60 + t.ofDay / 60 % 60) * 60 + t.second = t.ofDay ∧
      t.nanos % billion = t.nanos := by
  have hlt : t.nanos < billion := by simpa [isLeap] using hleap
  simp only [second, hleap, Bool.false_eq_true, if_false, Nat.mod_eq_of_lt hlt, and_true]
  omega

/-- A leap second, put together from what is written for it. -/
theorem Instant.IsValid.leap {t : Instant} (h : t.IsValid) (hleap : t.isLeap = true) :
    t.second = 60 ∧ (t.ofDay / 3600 * 60 + t.ofDay / 60 % 60) * 60 + 59 = t.ofDay ∧
      billion + t.nanos % billion = t.nanos := by
  have hge : billion ≤ t.nanos := by simpa [isLeap] using hleap
  obtain ⟨hminute, hlt⟩ := h.nanos.resolve_left (Nat.not_lt.mpr hge)
  have hlast : t.ofDay % 60 = 59 := by
    simp only [ofDay, secondsPerDay]
    omega
  refine ⟨by simp [second, hleap, hlast], by omega, ?_⟩
  simp only [billion] at *
  omega

theorem toList_timeText (t : Instant) (rest : List Char) : t.timeText.toList ++ rest =
    (padded 2 (t.ofDay / 3600)).toList ++ ':' :: ((padded 2 (t.ofDay / 60 % 60)).toList ++ ':' ::
      ((padded 2 t.second).toList ++ rest)) := by
  simp [Instant.timeText, Instant.second, Instant.ofDay]

theorem Instant.second_le (t : Instant) : t.second ≤ 60 := by
  unfold second
  split <;> omega

/-- The time of day is read back. -/
theorem scanTime_append {t : Instant} (h : t.IsValid) {rest : List Char} (stop : Undigited rest)
    (point : rest.head? ≠ some '.') :
    scanTime (t.timeText.toList ++ (t.fractionText.toList ++ rest)) =
      some ((t.ofDay, t.nanos), rest) := by
  have hday := t.ofDay_lt
  have hsecond := t.second_le
  have hcolon : 0x21 ≤ ':'.toNat ∧ ':'.toNat ≤ 0x7e := by decide
  rw [toList_timeText, scanTime, scanField_padded (by decide) (by omega)]
  simp only [Option.bind_eq_bind, Option.bind_some, scanMark_cons hcolon]
  rw [scanField_padded (by decide) (by omega)]
  simp only [Option.bind_some, scanMark_cons hcolon]
  rw [scanField_padded (by decide) (by omega)]
  simp only [Option.bind_some, scanFraction_append t stop point]
  rw [if_neg (by simp; omega)]
  cases hleap : t.isLeap with
  | true =>
      obtain ⟨hsixty, hofDay, hnanos⟩ := h.leap hleap
      rw [if_pos hsixty, hofDay, hnanos]
  | false =>
      obtain ⟨hless, hofDay, hnanos⟩ := t.common hleap
      rw [if_neg (by omega), hofDay, hnanos]

/-- Date and time are read back, up to the mark for the offset. -/
theorem scanLocal_append {t : Instant} (h : t.IsValid) {rest : List Char} (stop : Undigited rest)
    (point : rest.head? ≠ some '.') :
    scanLocal (t.date.text.toList ++ 'T' ::
      (t.timeText.toList ++ (t.fractionText.toList ++ rest))) = some (t, rest) := by
  rw [scanLocal, scanDate_append h.date]
  simp only [Option.bind_eq_bind, Option.bind_some, decide_true, Bool.true_or, if_true,
    scanTime_append h stop point, t.seconds_eq]
  rfl

theorem toList_stamp (mark : String) (t : Instant) : (t.stamp mark).toList =
    t.date.text.toList ++ 'T' :: (t.timeText.toList ++ (t.fractionText.toList ++ mark.toList)) := by
  simp [Instant.stamp]

theorem atOffset?_zero {t : Instant} (h : t.IsValid) : t.atOffset? 0 = some t := by
  simp [Instant.atOffset?, h.date]

/-- An instant there is is read back from its text. -/
theorem Instant.parse?_text {t : Instant} (h : t.IsValid) : parse? t.text = some t := by
  have hstop : Undigited ['Z'] := by simp [Undigited]
  rw [parse?, text, toList_stamp, show "Z".toList = ['Z'] from rfl,
    scanLocal_append h hstop (by simp)]
  exact atOffset?_zero h

/-- The year of the date has four digits and no sign. -/
def Date.IsPlain (d : Date) : Prop := 0 ≤ d.civil.year ∧ d.civil.year ≤ 9999

instance (d : Date) : Decidable d.IsPlain := inferInstanceAs (Decidable (_ ∧ _))

theorem Date.isValid_of_plain {d : Date} (h : d.IsPlain) : d.isValid = true := by
  obtain ⟨hone, htwelve, hfirst, hlast⟩ := d.civil_exists
  have hleast : firstYear ≤ d.civil.year := Int.le_trans (by decide) h.1
  have hgreatest : d.civil.year ≤ lastYear := Int.le_trans h.2 (by decide)
  have hmade : ofCivil? d.civil = some d := by
    simp only [ofCivil?, ofCivil_civil, hone, htwelve, hfirst, hlast, hleast, hgreatest,
      decide_true, Bool.and_self, if_true]
  exact isValid_of_ofCivil? hmade

theorem Instant.isValid_of_plain {t : Instant} (h : t.date.IsPlain) (nanos : t.nanos < billion) :
    t.IsValid :=
  ⟨Date.isValid_of_plain h, .inl nanos⟩

theorem yearText_of_plain {d : Date} (h : d.IsPlain) :
    yearText d.civil.year = padded 4 d.civil.year.toNat := by
  unfold Date.IsPlain at h
  simp [yearText, h]

theorem scanHere_cons (mark : Char) (rest : List Char) :
    scanHere mark (mark :: rest) = some rest := by
  simp [scanHere]

theorem toList_date {d : Date} (h : d.IsPlain) (rest : List Char) : d.text.toList ++ rest =
    (padded 4 d.civil.year.toNat).toList ++ '-' :: ((padded 2 d.civil.month).toList ++ '-' ::
      ((padded 2 d.civil.day).toList ++ rest)) := by
  simp [Date.text, yearText_of_plain h]

/-- Date and time are read back where nothing may be left out. -/
theorem scanStrict_append {t : Instant} (h : t.IsValid) (hplain : t.date.IsPlain)
    {rest : List Char} (stop : Undigited rest) (point : rest.head? ≠ some '.') :
    scanStrict (t.date.text.toList ++ 'T' ::
      (t.timeText.toList ++ (t.fractionText.toList ++ rest))) = some (t, rest) := by
  obtain ⟨_, htwelve, _, hlast⟩ := t.date.civil_exists
  have hmost := Nat.le_trans hlast (daysInMonth_le _ _)
  have hyear : (t.date.civil.year.toNat : Int) = t.date.civil.year := by
    unfold Date.IsPlain at hplain
    omega
  have hlt : t.date.civil.year.toNat < 10000 := by
    unfold Date.IsPlain at hplain
    omega
  have hday := t.ofDay_lt
  have hsecond := t.second_le
  have hseconds := t.seconds_eq
  rw [toList_date hplain, toList_timeText, scanStrict]
  simp only [Option.bind_eq_bind]
  rw [scanExact_padded (by decide) (by omega), Option.bind_some, scanHere_cons, Option.bind_some,
    scanExact_padded (by decide) (by omega), Option.bind_some, scanHere_cons, Option.bind_some,
    scanExact_padded (by decide) (by omega), Option.bind_some, hyear, Date.ofCivil?_civil h.date,
    Option.bind_some, scanHere_cons, Option.some_or, Option.bind_some,
    scanExact_padded (by decide) (by omega), Option.bind_some, scanHere_cons, Option.bind_some,
    scanExact_padded (by decide) (by omega), Option.bind_some, scanHere_cons, Option.bind_some,
    scanExact_padded (by decide) (by omega), Option.bind_some, scanFraction_append t stop point,
    Option.bind_some]
  rw [if_neg (by simp; omega)]
  cases hleap : t.isLeap with
  | true =>
      obtain ⟨hsixty, hofDay, hnanos⟩ := h.leap hleap
      have htotal : t.date.days * secondsPerDay +
          ((t.ofDay / 3600 * 60 + t.ofDay / 60 % 60) * 60 : Nat) + 59 = t.seconds := by
        rw [← hseconds]
        omega
      rw [if_pos hsixty, hnanos, htotal]
  | false =>
      obtain ⟨hless, hofDay, hnanos⟩ := t.common hleap
      have htotal : t.date.days * secondsPerDay +
          ((t.ofDay / 3600 * 60 + t.ofDay / 60 % 60) * 60 : Nat) + t.second = t.seconds := by
        rw [← hseconds]
        omega
      rw [if_neg (by omega), hnanos, htotal]

/-- An instant of a year of four digits is read back where nothing may be left out. -/
theorem Instant.parseStrict?_offsetText {t : Instant} (h : t.IsValid) (hplain : t.date.IsPlain) :
    parseStrict? t.offsetText = some t := by
  have hstop : Undigited ['+', '0', '0', ':', '0', '0'] := by simp [Undigited]
  have hoffset : "+00:00".toList = ['+', '0', '0', ':', '0', '0'] := rfl
  rw [parseStrict?, offsetText, toList_stamp, hoffset, scanStrict_append h hplain hstop (by simp)]
  simp [scanStrictOffset, scanExact, scanHere, natOfDigits, atOffset?_zero h]

/-- Exactly the dates there are can be read. -/
theorem Date.isValid_of_parse? {s : String} {d : Date} (h : parse? s = some d) :
    d.isValid = true := by
  simp only [parse?, scanDate, Option.bind_eq_bind, Option.bind_eq_some_iff] at h
  obtain ⟨found, ⟨_, _, _, _, _, _, _, _, _, _, date, hdate, hfound⟩, h⟩ := h
  obtain rfl := Option.some.inj hfound
  simp only [Option.ite_none_right_eq_some] at h
  obtain rfl := Option.some.inj h.2
  exact isValid_of_ofCivil? hdate

theorem natOfDigits_lt {digits : List Char} (h : ∀ c ∈ digits, c.isDigit) :
    natOfDigits digits < 10 ^ digits.length := by
  induction digits using List.reverseRecOn with
  | nil => simp [natOfDigits]
  | append_singleton digits c ih =>
      have hc := h c (by simp)
      have hrest := ih fun d hd => h d (by simp [hd])
      rw [Char.isDigit_iff_toNat] at hc
      have hnine : '9'.toNat = 57 := rfl
      have hzero : '0'.toNat = 48 := rfl
      simp only [natOfDigits, List.foldl_append, List.foldl_cons, List.foldl_nil,
        List.length_append, List.length_cons, List.length_nil, Nat.zero_add, Nat.pow_succ]
        at hrest ⊢
      omega

/-- What is read as a number are digits at the head of the text. -/
theorem scanNat_cases {most n : Nat} {cs rest : List Char} (h : scanNat most cs = some (n, rest)) :
    ∃ digits, (∀ c ∈ digits, c.isDigit) ∧ digits.length ≤ most ∧ n = natOfDigits digits ∧
      cs = digits ++ rest := by
  unfold scanNat at h
  simp only [Option.ite_none_left_eq_some, Option.some.injEq, Prod.mk.injEq] at h
  obtain ⟨-, rfl, rfl⟩ := h
  have hprefix : (cs.take most).takeWhile Char.isDigit <+: cs :=
    (List.takeWhile_prefix _).trans (List.take_prefix most cs)
  refine ⟨_, fun c hc => List.mem_takeWhile_imp hc, ?_, rfl,
    (List.prefix_iff_eq_append.mp hprefix).symm⟩
  exact ((List.takeWhile_prefix Char.isDigit).length_le).trans (List.length_take_le most cs)

theorem scanFraction_lt {cs rest : List Char} {nanos : Nat}
    (h : scanFraction cs = some (nanos, rest)) : nanos < billion := by
  unfold scanFraction at h
  split at h
  · rename_i rest'
    simp only [Option.bind_eq_bind, Option.bind_eq_some_iff] at h
    obtain ⟨⟨n, after⟩, hscan, h⟩ := h
    obtain ⟨digits, hdigits, hlength, -, rfl⟩ := scanNat_cases hscan
    have hcount : (digits ++ after).length - after.length = digits.length := by simp
    simp only [hcount, List.take_left] at h
    obtain ⟨rfl, -⟩ := Prod.mk.inj (Option.some.inj h)
    have hlt := natOfDigits_lt hdigits
    calc natOfDigits digits * tenTo (9 - digits.length)
        < 10 ^ digits.length * 10 ^ (9 - digits.length) :=
          Nat.mul_lt_mul_of_pos_right hlt (Nat.pow_pos (by decide))
      _ = billion := by
          rw [← Nat.pow_add, Nat.add_sub_cancel' hlength]
          rfl
  · obtain ⟨rfl, -⟩ := Prod.mk.inj (Option.some.inj h)
    decide

/-- A leap second is read at the end of a minute only. -/
theorem scanTime_nanos {cs rest : List Char} {second nanos : Nat}
    (h : scanTime cs = some ((second, nanos), rest)) :
    nanos < billion ∨ (second % 60 = 59 ∧ nanos < 2 * billion) := by
  simp only [scanTime, Option.bind_eq_bind, Option.bind_eq_some_iff] at h
  obtain ⟨⟨hour, _⟩, _, _, _, ⟨minute, _⟩, _, _, _, ⟨ofMinute, _⟩, _, ⟨fraction, _⟩, hfraction,
    h⟩ := h
  have hlt := scanFraction_lt hfraction
  split at h
  · cases h
  · split at h
    · obtain ⟨hfound, -⟩ := Prod.mk.inj (Option.some.inj h)
      obtain ⟨rfl, rfl⟩ := Prod.mk.inj hfound
      right
      omega
    · obtain ⟨hfound, -⟩ := Prod.mk.inj (Option.some.inj h)
      obtain ⟨-, rfl⟩ := Prod.mk.inj hfound
      exact .inl hlt

theorem scanOffsetSize_mod {cs rest : List Char} {n : Nat}
    (h : scanOffsetSize cs = some (n, rest)) : n % 60 = 0 := by
  simp only [scanOffsetSize, Option.bind_eq_bind, Option.bind_eq_some_iff] at h
  obtain ⟨_, _, _, _, h⟩ := h
  split at h
  · cases h
  · obtain ⟨rfl, -⟩ := Prod.mk.inj (Option.some.inj h)
    omega

/-- Offsets are whole minutes. -/
theorem scanOffset_mod {cs rest : List Char} {offset : Int}
    (h : scanOffset cs = some (offset, rest)) : offset % 60 = 0 := by
  unfold scanOffset at h
  split at h
  · obtain ⟨rfl, -⟩ := Prod.mk.inj (Option.some.inj h)
    decide
  · split at h
    · obtain ⟨rfl, -⟩ := Prod.mk.inj (Option.some.inj h)
      decide
    · obtain ⟨rfl, -⟩ := Prod.mk.inj (Option.some.inj h)
      decide
    · obtain ⟨found, hsize, hfound⟩ := Option.map_eq_some_iff.mp h
      have := scanOffsetSize_mod hsize
      obtain ⟨rfl, -⟩ := Prod.mk.inj hfound
      omega
    · obtain ⟨found, hsize, hfound⟩ := Option.map_eq_some_iff.mp h
      have := scanOffsetSize_mod hsize
      obtain ⟨rfl, -⟩ := Prod.mk.inj hfound
      omega
    · obtain ⟨found, hsize, hfound⟩ := Option.map_eq_some_iff.mp h
      have := scanOffsetSize_mod hsize
      obtain ⟨rfl, -⟩ := Prod.mk.inj hfound
      omega
    · cases h

theorem scanLocal_nanos {cs rest : List Char} {t : Instant} (h : scanLocal cs = some (t, rest)) :
    t.nanos < billion ∨ (t.seconds % 60 = 59 ∧ t.nanos < 2 * billion) := by
  simp only [scanLocal, Option.bind_eq_bind, Option.bind_eq_some_iff] at h
  obtain ⟨⟨date, more⟩, -, h⟩ := h
  split at h
  · split at h
    · simp only [Option.bind_eq_some_iff] at h
      obtain ⟨⟨⟨second, nanos⟩, after⟩, htime, h⟩ := h
      obtain ⟨rfl, -⟩ := Prod.mk.inj (Option.some.inj h)
      have hnanos := scanTime_nanos htime
      simp only [secondsPerDay]
      omega
    · cases h
  · cases h

/-- Exactly the instants there are can be read. -/
theorem Instant.isValid_of_parse? {s : String} {t : Instant} (h : parse? s = some t) :
    t.IsValid := by
  simp only [parse?, Option.bind_eq_bind, Option.bind_eq_some_iff] at h
  obtain ⟨⟨u, more⟩, hlocal, ⟨offset, rest⟩, hoffset, h⟩ := h
  have hnanos := scanLocal_nanos hlocal
  have hminutes := scanOffset_mod hoffset
  simp only [Option.ite_none_right_eq_some, atOffset?] at h
  obtain ⟨-, hdate, h⟩ := h
  obtain rfl := Option.some.inj h
  refine ⟨hdate, ?_⟩
  simp only
  omega

end Engram.Time
