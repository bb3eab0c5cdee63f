import Engram.Json.Writer
import Mathlib.Data.List.Basic
import Mathlib.Data.List.TakeDrop

/-! Number literals. What is written for an integer or for a finite float follows the grammar, and a
literal that follows it is read back from its text, up to the character that ends it. -/
namespace Engram

/-- A text that does not go on with a digit. -/
def Undigited (rest : List Char) : Prop := ∀ c ∈ rest.head?, c.isDigit = false

@[simp]
theorem undigited_nil : Undigited [] := by simp [Undigited]

theorem Undigited.takeWhile {digits rest : List Char} (stop : Undigited rest)
    (h : ∀ c ∈ digits, c.isDigit) : (digits ++ rest).takeWhile Char.isDigit = digits := by
  have hrest : rest.takeWhile Char.isDigit = [] := by
    cases rest with
    | nil => rfl
    | cons c rest => simp [stop c rfl]
  rw [List.takeWhile_append_of_pos h, hrest, List.append_nil]

theorem Undigited.dropWhile {digits rest : List Char} (stop : Undigited rest)
    (h : ∀ c ∈ digits, c.isDigit) : (digits ++ rest).dropWhile Char.isDigit = rest := by
  rw [List.dropWhile_append_of_pos h]
  cases rest with
  | nil => rfl
  | cons c rest => simp [stop c rfl]

end Engram

namespace Engram.Number

theorem stripZeros_digits_ne_zero {fuel digits : Nat} {exponent : Int} (h : digits ≠ 0) :
    (stripZeros fuel digits exponent).digits ≠ 0 := by
  fun_induction stripZeros fuel digits exponent with
  | case1 => exact h
  | case2 digits exponent fuel hzero ih =>
      apply ih
      simp only [Bool.and_eq_true, decide_eq_true_eq] at hzero
      omega
  | case3 => exact h

/-- Zero does not read back as any other number. -/
theorem Dyadic.onGrid_ne_zero {tie : Tie} {d : Dyadic} {place : Int} {count : Nat}
    (h : d.onGrid tie place = some count) (hd : d.mantissa ≠ 0) : count ≠ 0 := by
  have two : 0 < twoTo (d.exponent - 2).toNat * tenTo (-place).toNat :=
    Nat.mul_pos (Nat.pow_pos (by decide)) (Nat.pow_pos (by decide))
  have low : 0 < (4 * d.mantissa - if d.gapHalved then 1 else 2) *
      (twoTo (d.exponent - 2).toNat * tenTo (-place).toNat) := by
    apply Nat.mul_pos _ two
    split <;> omega
  unfold onGrid at h
  simp only [Bool.and_eq_true, Bool.or_eq_true, decide_eq_true_eq, beq_iff_eq] at h
  generalize twoTo (d.exponent - 2).toNat * tenTo (-place).toNat = scale at h low
  generalize (4 * d.mantissa - if d.gapHalved then 1 else 2) * scale = least at h low
  generalize 4 * d.mantissa * scale / (twoTo (2 - d.exponent).toNat * tenTo place.toNat) = n at h
  rintro rfl
  rcases Nat.eq_zero_or_pos n with rfl | hn
  · simp [Nat.ne_of_lt low] at h
  · grind

theorem Dyadic.search_digits_ne_zero {tie : Tie} {d : Dyadic} {magnitude : Int} {fuel used : Nat}
    (hd : d.mantissa ≠ 0) : (d.search tie magnitude fuel used).digits ≠ 0 := by
  fun_induction d.search tie magnitude fuel used with
  | case1 => exact hd
  | case2 fuel used place count hcount =>
      exact stripZeros_digits_ne_zero (onGrid_ne_zero hcount hd)
  | case3 fuel used place hnone ih => exact ih

/-- Only zero has the digit zero alone. -/
theorem Dyadic.shortest_exponent {tie : Tie} {d : Dyadic} (h : (d.shortest tie).digits = 0) :
    (d.shortest tie).exponent = 0 := by
  unfold shortest at h ⊢
  split at h
  · rename_i hzero
    simp [hzero]
  · rename_i hd
    exact absurd h (search_digits_ne_zero hd)
end Engram.Number

namespace Engram.Json

/-- Digits as they are spelled. -/
structure IsDigits (digits : List Nat) : Prop where
  ne_nil : digits ≠ []
  lt_ten : ∀ d ∈ digits, d < 10

/-- The grammar of number literals. -/
structure Literal.Spelled (l : Literal) : Prop where
  whole : IsDigits l.whole
  leading : l.whole.head? = some 0 → l.whole.length = 1
  fraction : ∀ digits ∈ l.fraction, IsDigits digits

/-- A text in which no number goes on. -/
def Ended (rest : List Char) : Prop := ∀ c ∈ rest.head?, c = ',' ∨ c = ']' ∨ c = '\x7d'

@[simp]
theorem ended_nil : Ended [] := by simp [Ended]

theorem ended_cons {c : Char} {rest : List Char} (h : c = ',' ∨ c = ']' ∨ c = '\x7d') :
    Ended (c :: rest) := by
  simpa [Ended] using h

theorem Ended.undigited {rest : List Char} (h : Ended rest) : Undigited rest := by
  intro c hc
  rcases h c hc with rfl | rfl | rfl <;> decide

theorem value_digitChar {d : Nat} (h : d < 10) : (Nat.digitChar d).toNat - '0'.toNat = d :=
  Nat.toNat_digitChar_sub_48_of_lt_ten h

theorem digitChar_ne {d : Nat} (h : d < 10) {c : Char} (hc : c.isDigit = false) :
    Nat.digitChar d ≠ c := by
  rintro rfl
  simp [h] at hc

theorem isDigit_of_mem_digitsText {digits : List Nat} (h : ∀ d ∈ digits, d < 10) :
    ∀ c ∈ digits.map Nat.digitChar, c.isDigit := by
  intro c hc
  obtain ⟨d, hd, rfl⟩ := List.mem_map.mp hc
  simp [h d hd]

/-- Digits are read back from their text. -/
theorem readDigits_append {digits : List Nat} {rest : List Char} (h : ∀ d ∈ digits, d < 10)
    (stop : Undigited rest) :
    readDigits ((Literal.digitsText digits).toList ++ rest) = (digits, rest) := by
  have hdigits := isDigit_of_mem_digitsText h
  have hvalues : (digits.map Nat.digitChar).map (fun c => c.toNat - '0'.toNat) = digits := by
    rw [List.map_map]
    conv_rhs => rw [← List.map_id digits]
    apply List.map_congr_left
    intro d hd
    exact value_digitChar (h d hd)
  simp only [readDigits, Literal.digitsText, String.toList_ofList, List.span_eq_takeWhile_dropWhile]
  rw [stop.takeWhile hdigits, stop.dropWhile hdigits, hvalues]

/-- The digits of a number, most significant first. -/
theorem isDigits_digitsOf (n : Nat) : IsDigits (Literal.digitsOf n) := by
  constructor
  · simp [Literal.digitsOf]
  · intro d hd
    obtain ⟨c, hc, rfl⟩ := List.mem_map.mp hd
    have hdigit := Nat.isDigit_of_mem_toDigits (by decide) (by decide) hc
    rw [Char.isDigit_iff_toNat] at hdigit
    have hnine : '9'.toNat = 57 := rfl
    have hzero : '0'.toNat = 48 := rfl
    omega

theorem natural_digitsOf (n : Nat) : Literal.natural (Literal.digitsOf n) = n := by
  have h := Nat.ofDigitChars_ten_toDigits (n := n)
  rw [Nat.ofDigitChars_eq_foldl] at h
  simp only [Literal.natural, Literal.digitsOf, List.foldl_map]
  simpa only [Nat.mul_comm] using h

theorem readFraction_append {fraction : Option (List Nat)} {rest : List Char}
    (h : ∀ digits ∈ fraction, IsDigits digits) (stop : Undigited rest)
    (point : rest.head? ≠ some '.') :
    readFraction ((Literal.fractionText fraction).toList ++ rest) = some (fraction, rest) := by
  cases fraction with
  | none =>
      cases rest with
      | nil => rfl
      | cons c rest =>
          have hc : c ≠ '.' := by simpa using point
          simp [Literal.fractionText, readFraction, hc]
  | some digits =>
      have hdigits := h digits rfl
      simp only [Literal.fractionText, String.toList_append, List.append_assoc]
      change readFraction ('.' :: ((Literal.digitsText digits).toList ++ rest)) = _
      simp [readFraction, readDigits_append hdigits.lt_ten stop, hdigits.ne_nil]

theorem readPower_append (negative : Bool) (n : Nat) {rest : List Char} (stop : Undigited rest) :
    readPower negative ((Literal.digitsText (Literal.digitsOf n)).toList ++ rest) =
      some (some (if negative then -(n : Int) else n), rest) := by
  have hdigits := isDigits_digitsOf n
  simp [readPower, readDigits_append hdigits.lt_ten stop, hdigits.ne_nil, natural_digitsOf]

theorem readExponent_append (exponent : Option Int) {rest : List Char} (h : Ended rest) :
    readExponent ((Literal.exponentText exponent).toList ++ rest) = some (exponent, rest) := by
  cases exponent with
  | none =>
      cases rest with
      | nil => rfl
      | cons c rest => rcases h c rfl with rfl | rfl | rfl <;> rfl
  | some n =>
      simp only [Literal.exponentText, String.toList_append, List.append_assoc]
      by_cases hn : n < 0
      · rw [if_pos hn, show "e-".toList = ['e', '-'] from rfl]
        simp only [List.cons_append, List.nil_append, readExponent]
        rw [readPower_append true n.natAbs h.undigited]
        have hvalue : -(n.natAbs : Int) = n := by omega
        simp only [decide_true, Bool.true_or, if_true, hvalue]
      · rw [if_neg hn, show "e+".toList = ['e', '+'] from rfl]
        simp only [List.cons_append, List.nil_append, readExponent]
        rw [readPower_append false n.natAbs h.undigited]
        have hvalue : (n.natAbs : Int) = n := by omega
        simp only [decide_true, Bool.true_or, if_true, Bool.false_eq_true, if_false, hvalue]

/-- A literal begins with a minus sign or with a digit. -/
theorem Literal.Spelled.head {l : Literal} (h : l.Spelled) :
    ∃ c cs, l.text.toList = c :: cs ∧ (c = '-' ∨ c.isDigit) := by
  obtain ⟨negative, whole, fraction, exponent⟩ := l
  obtain ⟨d, digits, rfl⟩ := List.exists_cons_of_ne_nil h.whole.ne_nil
  cases negative with
  | true => exact ⟨'-', _, by simp [text, Number.signText]; rfl, .inl rfl⟩
  | false =>
      have hd : d < 10 := h.whole.lt_ten d List.mem_cons_self
      exact ⟨Nat.digitChar d, _, by simp [text, Number.signText, digitsText]; rfl, .inr (by simp [hd])⟩

/-- A literal that follows the grammar is read back from its text. -/
theorem readLiteral_append {l : Literal} (h : l.Spelled) {rest : List Char} (stop : Ended rest) :
    readLiteral (l.text.toList ++ rest) = some (l, rest) := by
  obtain ⟨negative, whole, fraction, exponent⟩ := l
  have hpoint : ((Literal.exponentText exponent).toList ++ rest).head? ≠ some '.' := by
    cases exponent with
    | none =>
        intro hhead
        rcases stop '.' hhead with h | h | h <;> cases h
    | some n => by_cases hn : n < 0 <;> simp [Literal.exponentText, hn]
  have hpower : Undigited ((Literal.exponentText exponent).toList ++ rest) := by
    cases exponent with
    | none => exact stop.undigited
    | some n => by_cases hn : n < 0 <;> simp [Literal.exponentText, hn, Undigited]
  have hfraction : Undigited
      ((Literal.fractionText fraction).toList ++ ((Literal.exponentText exponent).toList ++ rest)) := by
    cases fraction with
    | none => exact hpower
    | some digits => simp [Literal.fractionText, Undigited]
  have hwhole := readDigits_append h.whole.lt_ten hfraction
  have hrest := readFraction_append h.fraction hpower hpoint
  have hend := readExponent_append exponent stop
  have hguard : ¬(whole.isEmpty || (whole.head? = some 0 && 1 < whole.length)) = true := by
    have hlength := h.leading
    have hne := h.whole.ne_nil
    simp only [Bool.or_eq_true, List.isEmpty_iff, Bool.and_eq_true, decide_eq_true_eq]
    grind
  simp only [Literal.text, String.toList_append, List.append_assoc]
  cases negative with
  | true =>
      rw [Number.signText, if_pos rfl, show "-".toList = ['-'] from rfl]
      simp [readLiteral, hwhole, hguard, hrest, hend]
  | false =>
      obtain ⟨d, digits, rfl⟩ := List.exists_cons_of_ne_nil h.whole.ne_nil
      have hsign : Nat.digitChar d ≠ '-' :=
        digitChar_ne (h.whole.lt_ten d List.mem_cons_self) (by decide)
      rw [Number.signText, if_neg (by decide), String.toList_empty, List.nil_append]
      simp only [Literal.digitsText, String.toList_ofList, List.map_cons, List.cons_append] at hwhole ⊢
      simp [readLiteral, hsign, hwhole, hrest, hend]
      simpa using h.leading

theorem digitsOf_of_ge {n : Nat} (h : 10 ≤ n) :
    Literal.digitsOf n = Literal.digitsOf (n / 10) ++ [n % 10] := by
  simp only [Literal.digitsOf]
  rw [Nat.toDigits_of_base_le (by decide) h, List.map_append, List.map_singleton,
    value_digitChar (Nat.mod_lt n (by decide))]

theorem head?_digitsOf {n : Nat} (h : (Literal.digitsOf n).head? = some 0) : n = 0 := by
  induction n using Nat.strongRecOn with
  | _ n ih =>
      by_cases hn : n < 10
      · rw [Literal.digitsOf, Nat.toDigits_of_lt_base hn, List.map_singleton, value_digitChar hn] at h
        simpa using h
      · rw [digitsOf_of_ge (by omega), List.head?_append_of_ne_nil _ (isDigits_digitsOf _).ne_nil] at h
        have := ih (n / 10) (by omega) h
        omega

theorem length_digitsOf {n : Nat} (h : (Literal.digitsOf n).head? = some 0) :
    (Literal.digitsOf n).length = 1 := by
  obtain rfl := head?_digitsOf h
  rfl

theorem spelled_ofInt (n : Int) : (Literal.ofInt n).Spelled where
  whole := isDigits_digitsOf _
  leading := length_digitsOf
  fraction := by simp [Literal.ofInt]

/-- An integer that some 64-bit word holds is read back as itself. -/
theorem number?_ofInt {n : Int} (low : -(Number.twoTo 63 : Int) ≤ n) (high : n ≤ wordMax) :
    (Literal.ofInt n).number? = some (.int n) := by
  have hnatural : Literal.natural (Literal.ofInt n).whole = n.natAbs := natural_digitsOf _
  by_cases hn : n < 0
  · have hpos : 0 < n.natAbs := by omega
    have hle : n.natAbs ≤ Number.twoTo 63 := by omega
    simp [Literal.number?, Literal.ofInt, natural_digitsOf, hn]
    grind
  · have hle : n.natAbs ≤ wordMax := by omega
    simp [Literal.number?, Literal.ofInt, natural_digitsOf, hn, hle]
    omega

theorem spelled_scientific (negative : Bool) {digits : List Nat} (h : IsDigits digits)
    (exponent : Int) : (scientificLiteral negative digits exponent).Spelled := by
  obtain ⟨d, rest, rfl⟩ := List.exists_cons_of_ne_nil h.ne_nil
  refine ⟨⟨by simp [scientificLiteral], ?_⟩, by simp [scientificLiteral], ?_⟩
  · intro n hn
    exact h.lt_ten n (List.mem_of_mem_take hn)
  · intro fraction hfraction
    cases rest with
    | nil => simp [scientificLiteral] at hfraction
    | cons next rest =>
        obtain rfl : next :: rest = fraction := by simpa [scientificLiteral] using hfraction
        exact ⟨by simp, fun n hn => h.lt_ten n (List.mem_cons_of_mem _ hn)⟩

theorem spelled_positional (negative : Bool) {digits : List Nat} (h : IsDigits digits)
    {exponent : Int} (leading : digits.head? = some 0 → digits.length = 1 ∧ exponent = 0) :
    (positionalLiteral negative digits exponent).Spelled := by
  have hpos : 0 < digits.length := List.length_pos_iff.mpr h.ne_nil
  have hten : ∀ d ∈ List.replicate ((-exponent).toNat + 1 - digits.length) 0 ++ digits
      ++ List.replicate exponent.toNat 0, d < 10 := by
    intro d hd
    simp only [List.mem_append, List.mem_replicate] at hd
    rcases hd with (⟨_, rfl⟩ | hd) | ⟨_, rfl⟩
    · decide
    · exact h.lt_ten d hd
    · decide
  -- Either zeros stand in front, and then one of them is the whole part, or none does.
  have hlength : ∀ n, n = (-exponent).toNat + 1 - digits.length →
      n + digits.length + exponent.toNat - (-exponent).toNat =
        if n = 0 then digits.length + exponent.toNat - (-exponent).toNat else 1 := by
    intro n hn
    split <;> omega
  refine ⟨⟨?_, fun d hd => hten d (List.mem_of_mem_take hd)⟩, ?_, ?_⟩
  · intro hnil
    have := congrArg List.length hnil
    simp only [positionalLiteral, List.length_take, List.length_append, List.length_replicate,
      List.length_nil] at this
    omega
  · intro hzero
    simp only [positionalLiteral, List.length_take, List.length_append, List.length_replicate] at hzero ⊢
    rw [hlength _ rfl] at hzero ⊢
    split at hzero
    · rename_i hnone
      rw [if_pos hnone]
      rw [hnone, List.replicate_zero, List.nil_append, List.head?_take] at hzero
      rw [if_neg (by omega), List.head?_append_of_ne_nil _ h.ne_nil] at hzero
      obtain ⟨hone, rfl⟩ := leading hzero
      simp [hone]
    · rename_i hsome
      rw [if_neg hsome]
      omega
  · intro fraction hfraction
    simp only [positionalLiteral, Option.mem_def, Option.some.injEq] at hfraction
    split at hfraction
    · subst hfraction
      exact ⟨by simp, by simp⟩
    · rename_i hsome
      subst hfraction
      exact ⟨by simpa using hsome, fun d hd => hten d (List.mem_of_mem_drop hd)⟩

/-- What is written for a finite float follows the grammar. -/
theorem spelled_ofDyadic (layout : Layout) (d : Number.Dyadic) :
    (Literal.ofDyadic layout d).Spelled := by
  have hdigits := isDigits_digitsOf (d.shortest .even).digits
  unfold Literal.ofDyadic
  simp only
  split
  · apply spelled_positional _ hdigits
    intro hzero
    exact ⟨length_digitsOf hzero, d.shortest_exponent (head?_digitsOf hzero)⟩
  · exact spelled_scientific _ hdigits _

end Engram.Json
