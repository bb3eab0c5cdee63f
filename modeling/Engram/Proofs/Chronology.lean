import Engram.Proofs.Timestamp
import Mathlib.Data.String.Basic
import Mathlib.Order.Compare

/-! The order of texts is the order of time. In years of four digits all parts of a date and of a
time of day have a fixed width; only the fraction of a second is cut short, and what stands after it
comes before every digit. -/
namespace Engram.Time

open Number

namespace Instant

variable {a b c : Instant}

instance : Std.TransOrd Instant :=
  inferInstanceAs (Std.TransCmp (compareLex (compareOn seconds) (compareOn nanos)))

theorem before_iff :
    a.before b ↔ a.seconds < b.seconds ∨ a.seconds = b.seconds ∧ a.nanos < b.nanos := by
  unfold before
  change ((compare a.seconds b.seconds).then (compare a.nanos b.nanos) == .lt) = true ↔ _
  rw [beq_iff_eq, Ordering.then_eq_lt, compare_lt_iff_lt, compare_eq_iff_eq, compare_lt_iff_lt]

theorem compare_eq_lt : compare a b = .lt ↔ a.before b :=
  beq_iff_eq.symm

theorem compare_eq_eq : compare a b = .eq ↔ a = b := by
  change (compare a.seconds b.seconds).then (compare a.nanos b.nanos) = .eq ↔ _
  rw [Ordering.then_eq_eq, compare_eq_iff_eq, compare_eq_iff_eq]
  constructor
  · rintro ⟨hseconds, hnanos⟩
    cases a
    cases b
    exact Instant.mk.injEq .. ▸ ⟨hseconds, hnanos⟩
  · rintro rfl
    exact ⟨rfl, rfl⟩

theorem not_before_self (a : Instant) : ¬ a.before a := by
  rw [before_iff]
  omega

theorem not_before_trans (first : ¬ b.before a) (second : ¬ c.before b) : ¬ c.before a := by
  rw [before_iff] at *
  omega

theorem not_before_of_before (h : a.before b) : ¬ b.before a := by
  rw [before_iff] at *
  omega

theorem before_of_not_before (first : ¬ b.before a) (second : b.before c) : a.before c := by
  rw [before_iff] at *
  omega

theorem eq_of_not_before (first : ¬ b.before a) (second : ¬ a.before b) : a = b := by
  rw [before_iff] at *
  obtain ⟨seconds, nanos⟩ := a
  obtain ⟨seconds', nanos'⟩ := b
  simp only [mk.injEq] at *
  omega

/-- Time that passes does not lead back. -/
theorem not_add_before (t : Instant) {s : Span} (h : 0 ≤ s.nanos) : ¬ (t.add s).before t := by
  have hsecond : ((billion : Nat) : Int) = 1000000000 := rfl
  have hwhole := Int.tdiv_nonneg h (show (0 : Int) ≤ 1000000000 by decide)
  have hpart := Int.tmod_nonneg (1000000000 : Int) h
  have hforward : ¬ s.nanos < 0 := by omega
  rw [before_iff]
  unfold add
  simp only [hsecond, hforward, decide_false, Bool.and_false, Bool.false_eq_true, if_false]
  generalize s.nanos.tdiv 1000000000 = whole at *
  generalize s.nanos.tmod 1000000000 = part at *
  cases hleap : t.isLeap with
  | true =>
      have hge : 1000000000 ≤ t.nanos := of_decide_eq_true hleap
      simp only [Bool.true_and, if_true]
      split
      · simp only
        omega
      · rename_i hleaves
        simp only [Bool.and_eq_true, beq_iff_eq, decide_eq_true_eq] at hleaves
        simp only
        omega
  | false =>
      simp only [Bool.false_and, Bool.false_eq_true, if_false]
      omega

end Instant

/-- Where local time is at a fixed distance from UTC, local dates do not go back either. -/
theorem Zone.fixed_date_le (secondsEast : Int) {t u : Instant} (h : ¬ u.before t) :
    ((Zone.fixed secondsEast).date t).days ≤ ((Zone.fixed secondsEast).date u).days := by
  rw [Instant.before_iff] at h
  simp only [Zone.fixed, secondsPerDay]
  omega

theorem natOfDigits_cons (c : Char) (digits : List Char) : natOfDigits (c :: digits) =
    10 ^ digits.length * (c.toNat - '0'.toNat) + natOfDigits digits := by
  rw [natOfDigits_eq, natOfDigits_eq, Nat.ofDigitChars_cons, Nat.mul_zero, Nat.zero_add,
    Nat.ofDigitChars_eq_ofDigitChars_zero]

/-- Zeros at the end of some digits. -/
theorem natOfDigits_zeros (digits : List Char) (count : Nat) :
    natOfDigits (digits ++ List.replicate count '0') = 10 ^ count * natOfDigits digits := by
  rw [natOfDigits_eq, natOfDigits_eq, Nat.ofDigitChars_append, Nat.ofDigitChars_replicate_zero]

theorem plus_lt_of_isDigit {c : Char} (h : c.isDigit) : '+' < c := by
  rw [Char.isDigit_iff_toNat] at h
  exact Char.lt_def.mpr (Nat.lt_of_lt_of_le (by decide) h.1)

/-- Digits of which zeros at the end may be left out are in the order of their numbers, if what
follows in place of the zeros comes before every digit. -/
theorem digits_lt {digits others rest after : List Char} {left missing : Nat}
    (hdigits : ∀ c ∈ digits, c.isDigit) (hothers : ∀ c ∈ others, c.isDigit)
    (hlength : digits.length + left = others.length + missing)
    (hstop : left = 0 ∨ rest.head? = some '+')
    (h : natOfDigits (digits ++ List.replicate left '0') <
      natOfDigits (others ++ List.replicate missing '0')) :
    digits ++ rest < others ++ after := by
  induction digits generalizing others with
  | nil =>
      cases others with
      | nil =>
          rw [natOfDigits_zeros [] missing] at h
          simp [natOfDigits] at h
      | cons d others =>
          have hleft : left ≠ 0 := by
            simp only [List.length_nil, List.length_cons] at hlength
            omega
          obtain ⟨tail, rfl⟩ := List.head?_eq_some_iff.mp (hstop.resolve_left hleft)
          apply List.cons_lt_cons_iff.mpr
          exact .inl (plus_lt_of_isDigit (hothers d List.mem_cons_self))
  | cons c digits ih =>
      cases others with
      | nil =>
          rw [natOfDigits_zeros [] missing] at h
          simp [natOfDigits] at h
      | cons d others =>
          have hlengths : digits.length + left = others.length + missing := by
            simp only [List.length_cons] at hlength
            omega
          have hrest : ∀ e ∈ others, e.isDigit := fun e he => hothers e (List.mem_cons_of_mem _ he)
          have hbound : natOfDigits (others ++ List.replicate missing '0') <
              10 ^ (others.length + missing) := by
            rw [natOfDigits_zeros, Nat.pow_add, Nat.mul_comm]
            exact Nat.mul_lt_mul_of_pos_right (natOfDigits_lt hrest) (Nat.pow_pos (by decide))
          simp only [List.cons_append, natOfDigits_cons, List.length_append, List.length_replicate,
            hlengths] at h
          apply List.cons_lt_cons_iff.mpr
          rcases Nat.lt_trichotomy (c.toNat - '0'.toNat) (d.toNat - '0'.toNat) with
            hless | heq | hmore
          · exact .inl (Char.lt_def.mpr (by change c.toNat < d.toNat; omega))
          · rw [heq] at h
            refine .inr ⟨?_, ih (fun e he => hdigits e (List.mem_cons_of_mem _ he)) hrest hlengths
              (Nat.lt_of_add_lt_add_left h)⟩
            have hc := Char.isDigit_iff_toNat.mp (hdigits c List.mem_cons_self)
            have hd := Char.isDigit_iff_toNat.mp (hothers d List.mem_cons_self)
            exact Char.toNat_inj.mp (by omega)
          · have hgap := Nat.mul_le_mul_left (10 ^ (others.length + missing)) hmore
            rw [Nat.mul_succ] at hgap
            omega

/-- Numbers of one width are in order, whatever follows. -/
theorem padded_lt {width m n : Nat} (hwidth : 0 < width) (h : m < n) (hn : n < 10 ^ width)
    (rest after : List Char) :
    (padded width m).toList ++ rest < (padded width n).toList ++ after := by
  have hlength := length_padded hwidth hn
  have hsame := length_padded hwidth (Nat.lt_trans h hn)
  have hvalue : natOfDigits ((padded width m).toList ++ List.replicate 0 '0') <
      natOfDigits ((padded width n).toList ++ List.replicate 0 '0') := by
    simpa [natOfDigits_padded] using h
  exact digits_lt (isDigit_padded width m) (isDigit_padded width n) (by rw [hlength, hsame])
    (.inl rfl) hvalue

/-- After the same part and a mark, the order is that of the rest. -/
theorem marked_lt {part rest after : List Char} {mark : Char} (h : rest < after) :
    part ++ mark :: rest < part ++ mark :: after :=
  List.append_left_lt (List.cons_lt_cons_iff.mpr (.inr ⟨rfl, h⟩))

/-- Dates of four-digit years are in order, whatever follows. -/
theorem Date.text_append_lt {d e : Date} (hd : d.IsPlain) (he : e.IsPlain) (h : d.days < e.days)
    (rest after : List Char) : d.text.toList ++ rest < e.text.toList ++ after := by
  obtain ⟨_, htwelve, _, hlast⟩ := e.civil_exists
  have hmost := Nat.le_trans hlast (daysInMonth_le _ _)
  have hpositive := hd.1
  have hgreatest := he.2
  rw [toList_date hd, toList_date he]
  rcases civil_before_iff.mpr h with hyear | ⟨hyear, hmonth | ⟨hmonth, hday⟩⟩
  · exact padded_lt (by decide) (by omega) (by omega) _ _
  · rw [hyear]
    exact marked_lt (padded_lt (by decide) hmonth (by omega) _ _)
  · rw [hyear, hmonth]
    exact marked_lt (marked_lt (padded_lt (by decide) hday (by omega) _ _))

theorem Date.text_lt {d e : Date} (hd : d.IsPlain) (he : e.IsPlain) (h : d.days < e.days) :
    d.text < e.text := by
  rw [String.lt_iff_toList_lt]
  simpa using text_append_lt hd he h [] []

/-- The texts of four-digit years are in the order of their dates. -/
theorem Date.text_le_iff {d e : Date} (hd : d.IsPlain) (he : e.IsPlain) :
    d.text ≤ e.text ↔ d.days ≤ e.days := by
  constructor
  · intro h
    apply Int.not_lt.mp
    intro hlt
    exact absurd (text_lt he hd hlt) (not_lt_of_ge h)
  · intro h
    rcases Int.lt_or_eq_of_le h with hlt | heq
    · exact le_of_lt (text_lt hd he hlt)
    · have hsame : d = e := congrArg Date.mk heq
      rw [hsame]

theorem Date.text_injective {d e : Date} (hd : d.isValid = true) (he : e.isValid = true)
    (h : d.text = e.text) : d = e := by
  have hread := parse?_text hd
  rw [h, parse?_text he] at hread
  exact (Option.some.inj hread).symm

namespace Instant

/-- Times of day are in order by minute and second, whatever follows. -/
theorem timeText_append_lt {t u : Instant}
    (h : t.ofDay / 60 < u.ofDay / 60 ∨ (t.ofDay / 60 = u.ofDay / 60 ∧ t.second < u.second))
    (rest after : List Char) : t.timeText.toList ++ rest < u.timeText.toList ++ after := by
  have hday := u.ofDay_lt
  have hsecond := u.second_le
  rw [toList_timeText, toList_timeText]
  rcases h with hminute | ⟨hminute, hless⟩
  · rcases Nat.lt_or_ge (t.ofDay / 3600) (u.ofDay / 3600) with hhour | hhour
    · exact padded_lt (by decide) hhour (by omega) _ _
    · have hsame : t.ofDay / 3600 = u.ofDay / 3600 := by omega
      rw [hsame]
      exact marked_lt (padded_lt (by decide) (by omega) (by omega) _ _)
  · have hhour : t.ofDay / 3600 = u.ofDay / 3600 := by omega
    rw [hhour, hminute]
    exact marked_lt (marked_lt (padded_lt (by decide) hless (by omega) _ _))

/-- A fraction of a second is nine digits, of which three or six zeros at the end may be left
out. -/
theorem toList_fractionText {t : Instant} (h : t.nanos % billion ≠ 0) : ∃ digits left,
    t.fractionText.toList = '.' :: digits ∧ (∀ c ∈ digits, c.isDigit) ∧ digits.length + left = 9 ∧
      natOfDigits (digits ++ List.replicate left '0') = t.nanos % billion ∧ left ∈ [0, 3, 6] := by
  have hlt : t.nanos % billion < 1000000000 := Nat.mod_lt _ (by decide)
  have hshape : ∀ width part left, 0 < width → part < 10 ^ width → width + left = 9 →
      10 ^ left * part = t.nanos % billion → left ∈ [0, 3, 6] → ∃ digits left,
      ("." ++ padded width part).toList = '.' :: digits ∧ (∀ c ∈ digits, c.isDigit) ∧
        digits.length + left = 9 ∧
        natOfDigits (digits ++ List.replicate left '0') = t.nanos % billion ∧
        left ∈ [0, 3, 6] := by
    intro width part left hwidth hpart hnine hvalue hleft
    refine ⟨(padded width part).toList, left, by simp, isDigit_padded width part, ?_, ?_, hleft⟩
    · rw [length_padded hwidth hpart, hnine]
    · rw [natOfDigits_zeros, natOfDigits_padded, hvalue]
  unfold fractionText
  simp only [if_neg h]
  split
  · exact hshape 3 _ 6 (by decide) (by omega) rfl (by omega) (by decide)
  · split
    · exact hshape 6 _ 3 (by decide) (by omega) rfl (by omega) (by decide)
    · exact hshape 9 _ 0 (by decide) (by omega) rfl (by omega) (by decide)

/-- Fractions of a second are in order before a mark that comes before every digit. -/
theorem fractionText_append_lt {t u : Instant} (h : t.nanos % billion < u.nanos % billion)
    (rest after : List Char) :
    t.fractionText.toList ++ '+' :: rest < u.fractionText.toList ++ '+' :: after := by
  obtain ⟨others, missing, hothers, hisothers, hlength, hvalue, -⟩ :=
    toList_fractionText (t := u) (by omega)
  rw [hothers, List.cons_append]
  by_cases hzero : t.nanos % billion = 0
  · have hempty : t.fractionText = "" := by simp [fractionText, hzero]
    rw [hempty]
    exact List.cons_lt_cons_iff.mpr (.inl (by decide))
  · obtain ⟨digits, left, hdigits, hisdigits, hsame, hpart, -⟩ := toList_fractionText hzero
    rw [hdigits, List.cons_append]
    apply List.cons_lt_cons_iff.mpr
    refine .inr ⟨rfl, digits_lt hisdigits hisothers (hsame.trans hlength.symm) (.inr rfl) ?_⟩
    rw [hpart, hvalue]
    exact h

/-- Within a day, an earlier instant has an earlier minute, second or fraction. -/
theorem parts_lt {t u : Instant} (ht : t.IsValid) (hu : u.IsValid) (hdate : t.date = u.date)
    (h : t.before u) :
    (t.ofDay / 60 < u.ofDay / 60 ∨ (t.ofDay / 60 = u.ofDay / 60 ∧ t.second < u.second)) ∨
      (t.timeText = u.timeText ∧ t.nanos % billion < u.nanos % billion) := by
  have htseconds := t.seconds_eq
  have huseconds := u.seconds_eq
  rw [hdate] at htseconds
  rcases before_iff.mp h with hless | ⟨hsame, hnanos⟩
  · left
    have hofDay : t.ofDay < u.ofDay := by omega
    rcases Nat.lt_or_ge (t.ofDay / 60) (u.ofDay / 60) with hminute | hminute
    · exact .inl hminute
    · refine .inr ⟨by omega, ?_⟩
      -- A second with one after it in its minute is no leap second.
      cases hleap : t.isLeap with
      | true =>
          have hlast := (ht.leap hleap).2.1
          omega
      | false =>
          simp only [second, hleap, Bool.false_eq_true, if_false]
          split <;> omega
  · have hofDay : t.ofDay = u.ofDay := by omega
    have hsecond : t.isLeap = u.isLeap → t.timeText = u.timeText := by
      intro hleap
      simp only [timeText, hsame, hleap]
    cases hleap : t.isLeap <;> cases hlater : u.isLeap
    case false.false =>
      rw [(t.common hleap).2.2, (u.common hlater).2.2]
      exact .inr ⟨hsecond (hleap.trans hlater.symm), hnanos⟩
    case false.true =>
      left
      refine .inr ⟨by rw [hofDay], ?_⟩
      simp [second, hleap, hlater, hofDay]
    case true.false =>
      simp only [isLeap, decide_eq_true_eq, decide_eq_false_iff_not] at hleap hlater
      omega
    case true.true =>
      have hfirst := (ht.leap hleap).2.2
      have hnext := (hu.leap hlater).2.2
      exact .inr ⟨hsecond (hleap.trans hlater.symm), by omega⟩

/-- Instants of four-digit years are in order as texts. -/
theorem offsetText_lt {t u : Instant} (ht : t.IsValid) (hu : u.IsValid) (htplain : t.date.IsPlain)
    (huplain : u.date.IsPlain) (h : t.before u) : t.offsetText < u.offsetText := by
  have hmark : "+00:00".toList = '+' :: "00:00".toList := rfl
  rw [String.lt_iff_toList_lt, offsetText, offsetText, toList_stamp, toList_stamp, hmark]
  have hle : t.date.days ≤ u.date.days := by
    have hseconds := before_iff.mp h
    simp only [date, secondsPerDay]
    omega
  rcases Int.lt_or_eq_of_le hle with hlt | heq
  · exact Date.text_append_lt htplain huplain hlt _ _
  · have hdate : t.date = u.date := congrArg Date.mk heq
    rw [hdate]
    apply marked_lt
    rcases parts_lt ht hu hdate h with htime | ⟨htime, hfraction⟩
    · exact timeText_append_lt htime _ _
    · rw [htime]
      exact List.append_left_lt (fractionText_append_lt hfraction _ _)

theorem offsetText_le {t u : Instant} (ht : t.IsValid) (hu : u.IsValid) (htplain : t.date.IsPlain)
    (huplain : u.date.IsPlain) (h : ¬ u.before t) : t.offsetText ≤ u.offsetText := by
  by_cases hbefore : t.before u
  · exact le_of_lt (offsetText_lt ht hu htplain huplain hbefore)
  · rw [eq_of_not_before h hbefore]

/-- The texts of four-digit years are in the order of their instants. -/
theorem offsetText_lt_iff {t u : Instant} (ht : t.IsValid) (hu : u.IsValid)
    (htplain : t.date.IsPlain) (huplain : u.date.IsPlain) :
    t.offsetText < u.offsetText ↔ t.before u := by
  constructor
  · intro h
    by_contra hlater
    exact absurd (offsetText_le hu ht huplain htplain hlater) (not_le_of_gt h)
  · exact offsetText_lt ht hu htplain huplain

theorem offsetText_le_iff {t u : Instant} (ht : t.IsValid) (hu : u.IsValid)
    (htplain : t.date.IsPlain) (huplain : u.date.IsPlain) :
    t.offsetText ≤ u.offsetText ↔ ¬ u.before t := by
  rw [← offsetText_lt_iff hu ht huplain htplain, not_lt]

theorem offsetText_inj {t u : Instant} (ht : t.IsValid) (hu : u.IsValid)
    (htplain : t.date.IsPlain) (huplain : u.date.IsPlain) :
    t.offsetText = u.offsetText ↔ t = u := by
  constructor
  · intro h
    have hread := parseStrict?_offsetText ht htplain
    rw [h, parseStrict?_offsetText hu huplain] at hread
    exact (Option.some.inj hread).symm
  · exact congrArg offsetText

end Instant

end Engram.Time
