import Engram.Time.Date
import Mathlib.Data.Int.Basic
import Mathlib.Data.Nat.Init

/-! The calendar. Years are counted from March, so that a leap day is the last day of its year, and
four hundred of them make an era. The year, month and day of a date are always ones that exist, and
the date is the one of its year, month and day. -/
namespace Engram.Time

/-- The days of an era before a year that starts in March. -/
def daysBefore (year : Nat) : Nat := year * 365 + year / 4 - year / 100

/-- The days of an era up to a day, without the leap days among them. -/
def commonDays (n : Nat) : Nat := n - n / 1460 + n / 36524 - n / 146096

theorem commonDays_succ_le {n : Nat} (h : n < 146096) : commonDays n ≤ commonDays (n + 1) := by
  unfold commonDays
  omega

theorem commonDays_mono {m n : Nat} (h : m ≤ n) (hn : n ≤ 146096) :
    commonDays m ≤ commonDays n := by
  induction n, h using Nat.le_induction with
  | base => exact Nat.le_refl _
  | succ n h ih => exact Nat.le_trans (ih (by omega)) (commonDays_succ_le (by omega))

/-- A year begins after as many common days as its number says, and not a day earlier. -/
theorem commonDays_daysBefore : ∀ year < 400, 365 * year ≤ commonDays (daysBefore year) ∧
    (year ≠ 0 → commonDays (daysBefore year - 1) < 365 * year) := by
  decide +kernel

/-- The year of a day of the era. -/
def yearOfDay (n : Nat) : Nat := commonDays n / 365

/-- A day lies between the beginning of its year and that of the next one. -/
theorem daysBefore_yearOfDay {n : Nat} (h : n ≤ 146096) :
    yearOfDay n < 400 ∧ daysBefore (yearOfDay n) ≤ n ∧
      (yearOfDay n < 399 → n < daysBefore (yearOfDay n + 1)) := by
  have hlast : commonDays n ≤ 145999 := commonDays_mono h (Nat.le_refl _)
  have hdiv : 365 * yearOfDay n ≤ commonDays n ∧ commonDays n < 365 * (yearOfDay n + 1) := by
    unfold yearOfDay
    omega
  have hyear : yearOfDay n < 400 := by omega
  refine ⟨hyear, ?_, ?_⟩
  · apply Nat.le_of_not_lt
    intro hearly
    have hfirst : yearOfDay n ≠ 0 := by
      intro hzero
      rw [hzero] at hearly
      exact Nat.not_lt_zero _ hearly
    have hbound := (commonDays_daysBefore _ hyear).2 hfirst
    have hdays : daysBefore (yearOfDay n) ≤ 146096 + 1 := by
      unfold daysBefore
      omega
    have hmono := commonDays_mono (show n ≤ daysBefore (yearOfDay n) - 1 by omega) (by omega)
    omega
  · intro hnext
    apply Nat.lt_of_not_le
    intro hlate
    have hbound := (commonDays_daysBefore _ (show yearOfDay n + 1 < 400 by omega)).1
    have hmono := commonDays_mono hlate h
    omega

/-- The year, month and day of a day of a year that starts in March. -/
def ofMarch (era : Int) (year dayOfYear : Nat) : Civil :=
  let monthIndex := (5 * dayOfYear + 2) / 153
  let month := if monthIndex < 10 then monthIndex + 3 else monthIndex - 9
  ⟨if month ≤ 2 then era * 400 + year + 1 else era * 400 + year, month,
    dayOfYear - (153 * monthIndex + 2) / 5 + 1⟩

/-- A day of a year that starts in March: the last one is there only in a leap year. -/
structure IsDay (era : Int) (year dayOfYear : Nat) : Prop where
  inEra : year < 400
  inYear : dayOfYear < 365 ∨ (dayOfYear = 365 ∧ isLeapYear (era * 400 + year + 1))

theorem isLeapYear_iff (year : Int) :
    isLeapYear year = true ↔ year % 4 = 0 ∧ (year % 100 ≠ 0 ∨ year % 400 = 0) := by
  simp [isLeapYear]

/-- The years of all eras are leap years alike. -/
theorem isLeapYear_era (era : Int) (year : Nat) :
    isLeapYear (era * 400 + year + 1) = true ↔
      (year + 1) % 4 = 0 ∧ ((year + 1) % 100 ≠ 0 ∨ (year + 1) % 400 = 0) := by
  rw [isLeapYear_iff]
  omega

/-- A year has a leap day at its end if the next year is a leap year. -/
theorem daysBefore_succ (year : Nat) : daysBefore (year + 1) = daysBefore year + 365 +
    if (year + 1) % 4 = 0 ∧ (year + 1) % 100 ≠ 0 then 1 else 0 := by
  unfold daysBefore
  split <;> omega

theorem isDay_of_bounds {era : Int} {year dayOfYear : Nat} (hyear : year < 400)
    (hnext : year < 399 → daysBefore year + dayOfYear < daysBefore (year + 1))
    (hlast : daysBefore year + dayOfYear ≤ 146096) : IsDay era year dayOfYear := by
  refine ⟨hyear, ?_⟩
  rw [isLeapYear_era]
  rw [daysBefore_succ] at hnext
  by_cases h : year < 399
  · have := hnext h
    split at this <;> omega
  · obtain rfl : year = 399 := by omega
    have hfirst : daysBefore 399 = 145731 := rfl
    omega

/-- A date as a day of a year of an era. -/
theorem Date.civil_eq_ofMarch (d : Date) : ∃ era year dayOfYear, IsDay era year dayOfYear ∧
    d.days + eraOffset = era * 146097 + (daysBefore year + dayOfYear : Nat) ∧
    d.civil = ofMarch era year dayOfYear := by
  have hdays : d.days + eraOffset = (d.days + eraOffset) / 146097 * 146097 +
      ((d.days + eraOffset) % 146097).toNat := by omega
  have hday : ((d.days + eraOffset) % 146097).toNat ≤ 146096 := by omega
  have hcivil : d.civil = ofMarch ((d.days + eraOffset) / 146097)
      (yearOfDay ((d.days + eraOffset) % 146097).toNat)
      (((d.days + eraOffset) % 146097).toNat -
        daysBefore (yearOfDay ((d.days + eraOffset) % 146097).toNat)) := by
    unfold daysBefore
    simp only [Nat.mul_comm _ 365]
    rfl
  generalize ((d.days + eraOffset) % 146097).toNat = n at hdays hday hcivil
  obtain ⟨hyear, hfirst, hlast⟩ := daysBefore_yearOfDay hday
  refine ⟨_, _, _, isDay_of_bounds hyear ?_ ?_, ?_, hcivil⟩
  · rw [Nat.add_sub_cancel' hfirst]
    exact hlast
  · rw [Nat.add_sub_cancel' hfirst]
    exact hday
  · rw [Nat.add_sub_cancel' hfirst]
    exact hdays

/-- The year, month and day of a date make that date. -/
theorem Date.ofCivil_civil (d : Date) : ofCivil d.civil = d := by
  obtain ⟨era, year, dayOfYear, ⟨hyear, hday⟩, hdays, hcivil⟩ := d.civil_eq_ofMarch
  have hlate : dayOfYear ≤ 365 := by omega
  rw [hcivil]
  obtain ⟨days⟩ := d
  simp only [ofCivil, ofMarch, Date.mk.injEq]
  simp only [daysBefore] at hdays
  by_cases hmonth : (5 * dayOfYear + 2) / 153 < 10
  · have hnot : ¬(5 * dayOfYear + 2) / 153 + 3 ≤ 2 := by omega
    simp only [hmonth, hnot, if_true, if_false]
    omega
  · have hsmall : (5 * dayOfYear + 2) / 153 - 9 ≤ 2 := by omega
    simp only [hmonth, hsmall, if_true, if_false]
    omega

/-- A year, month and day that exist. -/
structure Civil.Exists (c : Civil) : Prop where
  month_pos : 1 ≤ c.month
  month_le : c.month ≤ 12
  day_pos : 1 ≤ c.day
  day_le : c.day ≤ daysInMonth c.year c.month

theorem daysInMonth_common_le (year : Int) (month : Nat) :
    daysInMonth 1 month ≤ daysInMonth year month := by
  unfold daysInMonth
  split <;> simp [isLeapYear]
  split <;> omega

theorem daysInMonth_le (year : Int) (month : Nat) : daysInMonth year month ≤ 31 := by
  unfold daysInMonth
  split
  · split <;> omega
  all_goals omega

theorem daysInMonth_of_ne {month : Nat} (h : month ≠ 2) (year : Int) :
    daysInMonth year month = daysInMonth 1 month := by
  unfold daysInMonth
  split <;> simp_all

/-- The months and days of a year, with the last day as the only one that is not in every year. -/
theorem month_day_ofMarch : ∀ n < 366, 1 ≤ (ofMarch 0 0 n).month ∧ (ofMarch 0 0 n).month ≤ 12 ∧
    1 ≤ (ofMarch 0 0 n).day ∧ ((ofMarch 0 0 n).day ≤ daysInMonth 1 (ofMarch 0 0 n).month ∨
      (n = 365 ∧ (ofMarch 0 0 n).month = 2 ∧ (ofMarch 0 0 n).day = 29)) := by
  decide +kernel

/-- The month of a date has its day. -/
theorem Date.civil_exists (d : Date) : d.civil.Exists := by
  obtain ⟨era, year, dayOfYear, ⟨_, hday⟩, _, hcivil⟩ := d.civil_eq_ofMarch
  obtain ⟨hfirst, hlast, hone, hmost⟩ := month_day_ofMarch dayOfYear (by omega)
  rw [hcivil]
  refine ⟨hfirst, hlast, hone, ?_⟩
  rcases hmost with hcommon | ⟨rfl, htwo, hleapDay⟩
  · exact Nat.le_trans hcommon (daysInMonth_common_le _ _)
  · have hleap := (hday.resolve_left (by omega)).2
    change (ofMarch 0 0 365).day ≤ daysInMonth (era * 400 + year + 1) 2
    simp [hleapDay, daysInMonth, hleap]

/-- The days before a year that starts in March, counted over all eras. -/
def daysBeforeYear (year : Int) : Int := year * 365 + year / 4 - year / 100 + year / 400

theorem daysBeforeYear_succ (year : Int) : daysBeforeYear (year + 1) = daysBeforeYear year + 365 +
    if isLeapYear (year + 1) then 1 else 0 := by
  unfold daysBeforeYear
  split
  · rename_i h
    rw [isLeapYear_iff] at h
    omega
  · rename_i h
    rw [isLeapYear_iff] at h
    omega

/-- The days of a year that starts in March before one of its months. -/
def monthStart (month : Nat) : Nat :=
  (153 * (if month ≤ 2 then month + 9 else month - 3) + 2) / 5

/-- A month ends before the next one begins, within a year that starts in March. -/
theorem monthStart_succ : ∀ month < 12, month ≠ 0 ∧ month ≠ 2 →
    monthStart month + daysInMonth 1 month = monthStart (month + 1) := by
  decide +kernel

/-- The days of a date, from the beginning of its March year. -/
theorem Date.ofCivil_days (c : Civil) : (ofCivil c).days =
    daysBeforeYear (if c.month ≤ 2 then c.year - 1 else c.year) + (monthStart c.month + c.day - 1 : Nat)
      - eraOffset := by
  unfold ofCivil monthStart daysBeforeYear
  simp only
  generalize (if c.month ≤ 2 then c.year - 1 else c.year) = year
  omega

/-- The first day of a month, where all months are numbered on. -/
def monthDay (n : Int) : Int := (Date.ofCivil ⟨n / 12, (n % 12).toNat + 1, 1⟩).days

/-- A month is as long as it takes to the first day of the next one. -/
theorem monthDay_succ (n : Int) :
    monthDay (n + 1) = monthDay n + daysInMonth (n / 12) ((n % 12).toNat + 1) := by
  unfold monthDay
  rw [Date.ofCivil_days, Date.ofCivil_days]
  simp only
  by_cases hlast : n % 12 = 11
  · have hnext : (n + 1) / 12 = n / 12 + 1 := by omega
    have hfirst : (n + 1) % 12 = 0 := by omega
    rw [hnext, hfirst, hlast]
    simp [monthStart, daysInMonth]
    omega
  · have hyear : (n + 1) / 12 = n / 12 := by omega
    have hmonth : ((n + 1) % 12).toNat = (n % 12).toNat + 1 := by omega
    rw [hyear, hmonth]
    by_cases hfeb : n % 12 = 1
    · have hleap := daysBeforeYear_succ (n / 12 - 1)
      rw [Int.sub_add_cancel] at hleap
      rw [hfeb]
      simp [monthStart, daysInMonth]
      split at hleap <;> simp_all <;> omega
    · have hstart := monthStart_succ ((n % 12).toNat + 1) (by omega) (by omega)
      rw [daysInMonth_of_ne (by omega)]
      have hsame : (n % 12).toNat + 1 + 1 ≤ 2 ↔ (n % 12).toNat + 1 ≤ 2 := by omega
      simp only [hsame, ← hstart]
      omega

theorem monthDay_le {m n : Int} (h : m ≤ n) : monthDay m ≤ monthDay n := by
  induction n, h using Int.leInduction with
  | base => exact Int.le_refl _
  | succ n h ih =>
      rw [monthDay_succ]
      omega

/-- A date lies in its month. -/
theorem Date.ofCivil_days_eq {c : Civil} (h : c.Exists) :
    (ofCivil c).days = monthDay (12 * c.year + c.month - 1) + c.day - 1 := by
  obtain ⟨hfirst, hlast, hone, -⟩ := h
  have hyear : (12 * c.year + c.month - 1) / 12 = c.year := by omega
  have hmonth : ((12 * c.year + c.month - 1) % 12).toNat + 1 = c.month := by omega
  rw [monthDay, hyear, hmonth, ofCivil_days, ofCivil_days]
  simp only
  omega

/-- Years, then months, then days. -/
def Civil.Before (c e : Civil) : Prop :=
  c.year < e.year ∨ c.year = e.year ∧ (c.month < e.month ∨ c.month = e.month ∧ c.day < e.day)

/-- Of two dates the one with the smaller year, month and day is earlier. -/
theorem Civil.Before.days_lt {c e : Civil} (h : c.Before e) (hc : c.Exists) (he : e.Exists) :
    (Date.ofCivil c).days < (Date.ofCivil e).days := by
  have hlength : daysInMonth ((12 * c.year + c.month - 1) / 12)
      (((12 * c.year + c.month - 1) % 12).toNat + 1) = daysInMonth c.year c.month := by
    have hmonth := hc.month_pos
    have hlast := hc.month_le
    congr <;> omega
  have hcday := hc.day_le
  have heday := he.day_pos
  rw [Date.ofCivil_days_eq hc, Date.ofCivil_days_eq he]
  by_cases hmonth : c.year = e.year ∧ c.month = e.month
  · rw [hmonth.1, hmonth.2]
    unfold Before at h
    omega
  · have hlater : 12 * c.year + c.month - 1 + 1 ≤ 12 * e.year + e.month - 1 := by
      have h1 := hc.month_le
      have h2 := he.month_pos
      unfold Before at h
      omega
    have hnext := monthDay_le hlater
    rw [monthDay_succ, hlength] at hnext
    omega

theorem Civil.before_trichotomy (c e : Civil) : c.Before e ∨ c = e ∨ e.Before c := by
  obtain ⟨year, month, day⟩ := c
  obtain ⟨year', month', day'⟩ := e
  simp only [Before, Civil.mk.injEq]
  omega

theorem Civil.Exists.days_le {c e : Civil} (hc : c.Exists) (he : e.Exists) (h : ¬e.Before c) :
    (Date.ofCivil c).days ≤ (Date.ofCivil e).days := by
  rcases c.before_trichotomy e with hbefore | rfl | hbefore
  · exact Int.le_of_lt (hbefore.days_lt hc he)
  · exact Int.le_refl _
  · exact absurd hbefore h

/-- Dates are ordered as their years, months and days are. -/
theorem Date.civil_before_iff {d e : Date} : d.civil.Before e.civil ↔ d.days < e.days := by
  constructor
  · intro h
    have hdays := h.days_lt d.civil_exists e.civil_exists
    rwa [ofCivil_civil, ofCivil_civil] at hdays
  · intro h
    apply Classical.byContradiction
    intro hnot
    have hdays := e.civil_exists.days_le d.civil_exists hnot
    rw [ofCivil_civil, ofCivil_civil] at hdays
    omega

theorem exists_first : Civil.Exists ⟨firstYear, 1, 1⟩ := by
  constructor <;> decide

theorem exists_last : Civil.Exists ⟨lastYear, 12, 31⟩ := by
  constructor <;> decide

/-- A date there is is made of its year, month and day. -/
theorem Date.ofCivil?_civil {d : Date} (h : d.isValid = true) : ofCivil? d.civil = some d := by
  obtain ⟨hone, htwelve, hfirst, hlast⟩ := d.civil_exists
  simp only [isValid, Bool.and_eq_true, decide_eq_true_eq] at h
  have hleast : firstYear ≤ d.civil.year := by
    apply Int.not_lt.mp
    intro hyear
    have hdays := Civil.Before.days_lt (.inl hyear) d.civil_exists exists_first
    rw [ofCivil_civil] at hdays
    omega
  have hgreatest : d.civil.year ≤ lastYear := by
    apply Int.not_lt.mp
    intro hyear
    have hdays := Civil.Before.days_lt (.inl hyear) exists_last d.civil_exists
    rw [ofCivil_civil] at hdays
    omega
  simp only [ofCivil?, ofCivil_civil, hone, htwelve, hfirst, hlast, hleast, hgreatest, decide_true,
    Bool.and_self, if_true]

/-- Every year, month and day that exist make a date there is. -/
theorem Date.isValid_of_ofCivil? {c : Civil} {d : Date} (h : ofCivil? c = some d) :
    d.isValid = true := by
  simp only [ofCivil?, Option.ite_none_right_eq_some, Bool.and_eq_true, decide_eq_true_eq] at h
  obtain ⟨⟨⟨⟨⟨⟨hleast, hgreatest⟩, hone⟩, htwelve⟩, hfirst⟩, hlast⟩, h⟩ := h
  obtain rfl := Option.some.inj h
  have hexists : c.Exists := ⟨hone, htwelve, hfirst, hlast⟩
  have hmost : c.day ≤ 31 := Nat.le_trans hlast (daysInMonth_le _ _)
  simp only [isValid, Bool.and_eq_true, decide_eq_true_eq]
  constructor
  · apply exists_first.days_le hexists
    unfold Civil.Before
    simp only
    omega
  · apply hexists.days_le exists_last
    unfold Civil.Before
    simp only
    omega

end Engram.Time
