import Engram.Json.Codec
import Engram.Proofs.Numeral

/-! Texts of documents. A document that is written for a value is read back from its text on one
line: strings through their escapes, numbers digit by digit, arrays and objects part by part. -/
namespace Engram.Json

/-- How a character stands between quotes, and the piece it is read as. -/
inductive Escaped (c : Char) : List Char → Piece → Prop where
  | mark {mark : Char} (h : escapeChar? mark = some c) : Escaped c ['\\', mark] (.char c)
  | unit (h : c.toNat < 0x20) : Escaped c
      ['\\', 'u', '0', '0', hexDigit (c.toNat / 16), hexDigit c.toNat] (.unit c.toNat)
  | plain (hcontrol : ¬c.toNat < 0x20) (hquote : c ≠ '"') (hslash : c ≠ '\\') :
      Escaped c [c] (.char c)

/-- The characters with an escape of their own. -/
def marked : List Char := ['"', '\\', '\x08', '\x0c', '\n', '\r', '\t']

theorem escaped (c : Char) : ∃ piece, Escaped c (escapeText c) piece := by
  by_cases hmarked : c ∈ marked
  · simp only [marked, List.mem_cons, List.not_mem_nil, or_false] at hmarked
    rcases hmarked with rfl | rfl | rfl | rfl | rfl | rfl | rfl <;> exact ⟨.char _, .mark rfl⟩
  · simp only [marked, List.mem_cons, List.not_mem_nil, or_false, not_or] at hmarked
    by_cases hcontrol : c.toNat < 0x20
    · refine ⟨.unit c.toNat, ?_⟩
      simpa [escapeText, hmarked, hcontrol] using Escaped.unit hcontrol
    · refine ⟨.char c, ?_⟩
      simpa [escapeText, hmarked, hcontrol] using Escaped.plain hcontrol hmarked.1 hmarked.2.1

theorem hexValue?_hexDigit (n : Nat) : hexValue? (hexDigit n) = some (n % 16) := by
  have h : ∀ d < 16, hexValue? (Nat.digitChar d) = some d := by decide
  exact h _ (Nat.mod_lt n (by decide))

/-- An escaped character is one piece. -/
theorem Escaped.readPieces {c : Char} {text : List Char} {piece : Piece}
    (h : Escaped c text piece) (rest : List Char) :
    readPieces (text ++ rest) =
      (readPieces rest).map fun found => (piece :: found.1, found.2) := by
  cases h with
  | @mark mark h =>
      have hu : mark ≠ 'u' := by
        rintro rfl
        cases h
      have htext : ['\\', mark] ++ rest = '\\' :: mark :: rest := rfl
      rw [htext, Json.readPieces.eq_4 _ _ (by simp [hu]), h]
      cases Json.readPieces rest <;> rfl
  | unit h =>
      have hvalue : ((0 * 16 + 0) * 16 + c.toNat / 16 % 16) * 16 + c.toNat % 16 = c.toNat := by omega
      have hzero : hexValue? '0' = some 0 := rfl
      simp only [List.cons_append, List.nil_append, Json.readPieces, hexValue?_hexDigit, hzero,
        Option.bind_eq_bind, Option.bind_some, hvalue]
      cases Json.readPieces rest <;> rfl
  | plain hcontrol hquote hslash =>
      rw [List.singleton_append, Json.readPieces.eq_5 _ _ (by simp [hquote]) (by simp [hslash])
        (by simp [hslash]), if_neg (by simp [hslash, hcontrol])]
      cases Json.readPieces rest <;> rfl

/-- A piece stands for its character, whatever follows. -/
theorem Escaped.joinPieces {c : Char} {text : List Char} {piece : Piece}
    (h : Escaped c text piece) (rest : List Piece) :
    joinPieces (piece :: rest) = (joinPieces rest).map (c :: ·) := by
  cases h with
  | mark => rfl
  | plain => rfl
  | unit h =>
      have hhigh : isHighUnit c.toNat = false := by
        simp only [isHighUnit, Bool.and_eq_false_iff, decide_eq_false_iff_not]
        omega
      have hlow : isLowUnit c.toNat = false := by
        simp only [isLowUnit, Bool.and_eq_false_iff, decide_eq_false_iff_not]
        omega
      cases rest with
      | nil => simp [Json.joinPieces, hhigh, hlow]
      | cons next rest =>
          cases next with
          | char d => simp [Json.joinPieces, hhigh, hlow]
          | unit n => simp [Json.joinPieces, hhigh, hlow]

/-- A string is read back from between its quotes. -/
theorem readString_append (cs rest : List Char) :
    readString (cs.flatMap escapeText ++ '"' :: rest) = some (some (String.ofList cs), rest) := by
  have hpieces : ∃ pieces, readPieces (cs.flatMap escapeText ++ '"' :: rest) = some (pieces, rest) ∧
      joinPieces pieces = some cs := by
    induction cs with
    | nil => exact ⟨[], by simp [readPieces], rfl⟩
    | cons c cs ih =>
        obtain ⟨pieces, hread, hjoin⟩ := ih
        obtain ⟨piece, hescaped⟩ := escaped c
        refine ⟨piece :: pieces, ?_, ?_⟩
        · rw [List.flatMap_cons, List.append_assoc, hescaped.readPieces, hread]
          rfl
        · rw [hescaped.joinPieces, hjoin]
          rfl
  obtain ⟨pieces, hread, hjoin⟩ := hpieces
  simp [readString, hread, hjoin]

theorem toList_quoted (s : String) :
    (quoted s).toList = '"' :: (s.toList.flatMap escapeText ++ ['"']) := by
  simp [quoted]

/-- The documents that are written: every number follows the grammar and every string has a text. -/
inductive Document.Written : Document → Prop where
  | null : Written .null
  | bool (b : Bool) : Written (.bool b)
  | num {l : Literal} (h : l.Spelled) : Written (.num l)
  | str (s : String) : Written (.str (some s))
  | arr {items : List Document} (h : ∀ item ∈ items, item.Written) : Written (.arr items)
  | obj {fields : List (Option String × Document)}
      (h : ∀ field ∈ fields, ∃ name, field.1 = some name)
      (hvalues : ∀ field ∈ fields, field.2.Written) : Written (.obj fields)

/-- What is written for a float follows the grammar, also where it is no number. -/
theorem written_spelledReading (layout : Layout) (reading : Number.Reading) :
    (FloatForm.spelledReading layout reading).Written := by
  cases reading with
  | finite d => exact .num (spelled_ofDyadic layout d)
  | infinite negative => exact .null
  | undefined => exact .null

mutual

/-- What is written for a value can be read. -/
theorem Value.written : ∀ v : Value, v.document.Written
  | .null => .null
  | .bool b => .bool b
  | .int n => .num (spelled_ofInt n)
  | .float x => written_spelledReading .wide (.ofFloat x)
  | .single x => written_spelledReading .narrow (.ofFloat32 x)
  | .str s => .str s
  | .arr items => .arr (written_documents items)
  | .obj fields => .obj (fun field h => (written_memberDocuments fields field h).1)
      (fun field h => (written_memberDocuments fields field h).2)

theorem written_documents : ∀ items : List Value, ∀ d ∈ documents .spelled items, d.Written
  | [], _, h => nomatch h
  | item :: items, d, h => by
      rw [documents] at h
      rcases List.mem_cons.mp h with rfl | h
      · exact item.written
      · exact written_documents items d h

theorem written_memberDocuments : ∀ fields : List (String × Value),
    ∀ field ∈ memberDocuments .spelled fields, (∃ name, field.1 = some name) ∧ field.2.Written
  | [], _, h => nomatch h
  | (name, value) :: fields, field, h => by
      rw [memberDocuments] at h
      rcases List.mem_cons.mp h with rfl | h
      · exact ⟨⟨name, rfl⟩, value.written⟩
      · exact written_memberDocuments fields field h

end

/-- No text of a document begins like a blank or like the end of an array. -/
theorem Document.Written.head {d : Document} (h : d.Written) :
    ∃ c cs, d.compact.toList = c :: cs ∧ isSpace c = false ∧ c ≠ ']' := by
  cases h with
  | null => exact ⟨'n', _, rfl, rfl, by decide⟩
  | bool b =>
      cases b with
      | true => exact ⟨'t', _, rfl, rfl, by decide⟩
      | false => exact ⟨'f', _, rfl, rfl, by decide⟩
  | num h =>
      obtain ⟨c, cs, htext, rfl | hdigit⟩ := h.head
      · exact ⟨'-', cs, htext, rfl, by decide⟩
      · refine ⟨c, cs, htext, ?_, ?_⟩
        · simp only [isSpace, Bool.or_eq_false_iff, decide_eq_false_iff_not]
          refine ⟨⟨⟨?_, ?_⟩, ?_⟩, ?_⟩ <;> rintro rfl <;> cases hdigit
        · rintro rfl
          cases hdigit
  | str s => exact ⟨'"', _, toList_quoted s, rfl, by decide⟩
  | arr h => exact ⟨'[', _, by simp [compact]; rfl, rfl, by decide⟩
  | obj h => exact ⟨'\x7b', _, by simp [compact]; rfl, rfl, by decide⟩

theorem skipSpace_cons {c : Char} (h : isSpace c = false) (cs : List Char) :
    skipSpace (c :: cs) = c :: cs := by
  simp [skipSpace, h]

/-- A text of the document is read back, whatever ends it. -/
def Document.Reads (d : Document) : Prop := ∀ fuel rest,
  2 * d.compact.toList.length ≤ fuel → Ended rest →
    readValue fuel (d.compact.toList ++ rest) = some (d, rest)

theorem toList_intercalate_cons (text next : String) (texts : List String) :
    (",".intercalate (text :: next :: texts)).toList =
      text.toList ++ ',' :: (",".intercalate (next :: texts)).toList := by
  simp [String.intercalate_cons_cons]

theorem toList_intercalate (text : String) (texts : List String) :
    ∃ more, (",".intercalate (text :: texts)).toList = text.toList ++ more := by
  cases texts with
  | nil => exact ⟨[], by simp⟩
  | cons next texts => exact ⟨_, toList_intercalate_cons text next texts⟩

theorem readItems_last {fuel : Nat} {cs rest : List Char} {item : Document}
    (hitem : readValue fuel cs = some (item, ']' :: rest)) :
    readItems (fuel + 1) cs = some ([item], rest) := by
  simp [readItems, hitem, skipSpace, isSpace]

theorem readItems_comma {fuel : Nat} {cs more rest : List Char} {item : Document}
    {items : List Document} (hitem : readValue fuel cs = some (item, ',' :: more))
    (hitems : readItems fuel more = some (items, rest)) :
    readItems (fuel + 1) cs = some (item :: items, rest) := by
  simp [readItems, hitem, skipSpace, isSpace, hitems]

/-- The items of an array are read back, one after the other. -/
theorem readItems_append {item : Document} {items : List Document}
    (h : ∀ d ∈ item :: items, d.Reads) (rest : List Char) {fuel : Nat}
    (hfuel : 2 * (",".intercalate (compactItems (item :: items))).toList.length + 1 ≤ fuel) :
    readItems fuel ((",".intercalate (compactItems (item :: items))).toList ++ ']' :: rest) =
      some (item :: items, rest) := by
  induction items generalizing item fuel with
  | nil =>
      obtain ⟨fuel, rfl⟩ : ∃ n, fuel = n + 1 := ⟨fuel - 1, by omega⟩
      simp only [compactItems, String.intercalate_singleton] at hfuel ⊢
      exact readItems_last (h item List.mem_cons_self fuel _ (by omega) (ended_cons (by simp)))
  | cons next items ih =>
      obtain ⟨fuel, rfl⟩ : ∃ n, fuel = n + 1 := ⟨fuel - 1, by omega⟩
      rw [compactItems, compactItems, toList_intercalate_cons, List.append_assoc, List.cons_append]
      rw [compactItems, compactItems, toList_intercalate_cons, List.length_append,
        List.length_cons] at hfuel
      apply readItems_comma
      · exact h item List.mem_cons_self fuel _ (by omega) (ended_cons (.inl rfl))
      · exact ih (fun d hd => h d (List.mem_cons_of_mem _ hd)) (by rw [compactItems]; omega)

theorem head_compactItems {item : Document} (h : item.Written) (items : List Document) :
    ∃ c cs, (",".intercalate (compactItems (item :: items))).toList = c :: cs ∧
      isSpace c = false ∧ c ≠ ']' := by
  obtain ⟨c, cs, htext, hc⟩ := h.head
  obtain ⟨more, hmore⟩ := toList_intercalate item.compact (compactItems items)
  refine ⟨c, cs ++ more, ?_, hc⟩
  rw [compactItems, hmore, htext, List.cons_append]

theorem readFields_last {fuel : Nat} {cs more rest : List Char} {name : Option String}
    {value : Document} (hname : readString cs = some (name, ':' :: more))
    (hvalue : readValue fuel more = some (value, '\x7d' :: rest)) :
    readFields (fuel + 1) ('"' :: cs) = some ([(name, value)], rest) := by
  simp [readFields, hname, skipSpace, isSpace, hvalue]

theorem readFields_comma {fuel : Nat} {cs more others rest : List Char} {name : Option String}
    {value : Document} {fields : List (Option String × Document)}
    (hname : readString cs = some (name, ':' :: more))
    (hvalue : readValue fuel more = some (value, ',' :: others))
    (hfields : readFields fuel others = some (fields, rest)) :
    readFields (fuel + 1) ('"' :: cs) = some ((name, value) :: fields, rest) := by
  simp [readFields, hname, skipSpace, isSpace, hvalue, hfields]

theorem toList_field (name : String) (value : Document) :
    (fieldText (some name) ++ ":" ++ value.compact).toList =
      '"' :: (name.toList.flatMap escapeText ++ '"' :: ':' :: value.compact.toList) := by
  simp [fieldText, quoted]

theorem head_compactFields {field : Option String × Document} (h : ∃ name, field.1 = some name)
    (fields : List (Option String × Document)) :
    ∃ cs, (",".intercalate (compactFields (field :: fields))).toList = '"' :: cs := by
  obtain ⟨name, value⟩ := field
  obtain ⟨name, rfl⟩ := h
  obtain ⟨more, hmore⟩ :=
    toList_intercalate (fieldText (some name) ++ ":" ++ value.compact) (compactFields fields)
  rw [compactFields, hmore, toList_field, List.cons_append]
  exact ⟨_, rfl⟩

theorem readString_field (name : String) (rest : List Char) :
    readString (name.toList.flatMap escapeText ++ '"' :: rest) = some (some name, rest) := by
  rw [readString_append, String.ofList_toList]

/-- The fields of an object are read back, one after the other. -/
theorem readFields_append {field : Option String × Document}
    {fields : List (Option String × Document)}
    (hnames : ∀ f ∈ field :: fields, ∃ name, f.1 = some name)
    (h : ∀ f ∈ field :: fields, f.2.Reads) (rest : List Char) {fuel : Nat}
    (hfuel : 2 * (",".intercalate (compactFields (field :: fields))).toList.length + 1 ≤ fuel) :
    readFields fuel ((",".intercalate (compactFields (field :: fields))).toList ++ '\x7d' :: rest) =
      some (field :: fields, rest) := by
  induction fields generalizing field fuel with
  | nil =>
      obtain ⟨name, value⟩ := field
      obtain ⟨name, rfl⟩ := hnames _ List.mem_cons_self
      obtain ⟨fuel, rfl⟩ : ∃ n, fuel = n + 1 := ⟨fuel - 1, by omega⟩
      rw [compactFields, compactFields, String.intercalate_singleton, toList_field] at hfuel ⊢
      simp only [List.length_cons, List.length_append] at hfuel
      simp only [List.cons_append, List.append_assoc]
      apply readFields_last
      · exact readString_field name _
      · exact h _ List.mem_cons_self fuel _ (by simp only; omega) (ended_cons (by simp))
  | cons next fields ih =>
      obtain ⟨name, value⟩ := field
      obtain ⟨name, rfl⟩ := hnames _ List.mem_cons_self
      obtain ⟨fuel, rfl⟩ : ∃ n, fuel = n + 1 := ⟨fuel - 1, by omega⟩
      have hcons : (",".intercalate (compactFields ((some name, value) :: next :: fields))).toList =
          '"' :: (name.toList.flatMap escapeText ++ '"' :: ':' :: (value.compact.toList ++
            ',' :: (",".intercalate (compactFields (next :: fields))).toList)) := by
        rw [compactFields, compactFields, toList_intercalate_cons, toList_field]
        simp
      rw [hcons] at hfuel ⊢
      simp only [List.length_cons, List.length_append] at hfuel
      simp only [List.cons_append, List.append_assoc]
      apply readFields_comma
      · exact readString_field name _
      · exact h _ List.mem_cons_self fuel _ (by simp only; omega) (ended_cons (.inl rfl))
      · exact ih (fun f hf => hnames f (List.mem_cons_of_mem _ hf))
          (fun f hf => h f (List.mem_cons_of_mem _ hf)) (by omega)

theorem readValue_literal {l : Literal} (h : l.Spelled) {rest : List Char} (stop : Ended rest)
    (fuel : Nat) : readValue (fuel + 1) (l.text.toList ++ rest) = some (.num l, rest) := by
  have hread := readLiteral_append h stop
  obtain ⟨c, cs, htext, hhead⟩ := h.head
  obtain ⟨_, _, htext', hspace, -⟩ := (Document.Written.num h).head
  obtain ⟨rfl, rfl⟩ := List.cons.inj (htext.symm.trans htext')
  have hother : ∀ d : Char, d ≠ '-' → d.isDigit = false → c ≠ d := by
    rintro d hminus hdigit rfl
    simp [hminus, hdigit] at hhead
  rw [htext, List.cons_append] at hread ⊢
  rw [readValue, skipSpace_cons hspace]
  simp [hread, hother '"' (by decide) (by decide), hother '[' (by decide) (by decide),
    hother '\x7b' (by decide) (by decide), hother 't' (by decide) (by decide),
    hother 'f' (by decide) (by decide), hother 'n' (by decide) (by decide)]

theorem readValue_items {fuel : Nat} {c : Char} {cs rest : List Char} {items : List Document}
    (hspace : isSpace c = false) (hclose : c ≠ ']')
    (hitems : readItems fuel (c :: cs) = some (items, rest)) :
    readValue (fuel + 1) ('[' :: c :: cs) = some (.arr items, rest) := by
  rw [readValue, skipSpace_cons rfl]
  simp [skipSpace_cons hspace, hclose, hitems]

theorem readValue_fields {fuel : Nat} {cs rest : List Char}
    {fields : List (Option String × Document)}
    (hfields : readFields fuel ('"' :: cs) = some (fields, rest)) :
    readValue (fuel + 1) ('\x7b' :: '"' :: cs) = some (.obj fields, rest) := by
  rw [readValue, skipSpace_cons rfl]
  simp [skipSpace, isSpace, hfields]

/-- No text is empty, so there is fuel for a first call. -/
theorem Document.Written.reads_of_step {d : Document} (h : d.Written)
    (step : ∀ fuel rest, 2 * d.compact.toList.length ≤ fuel + 1 → Ended rest →
      readValue (fuel + 1) (d.compact.toList ++ rest) = some (d, rest)) : d.Reads := by
  intro fuel rest hfuel stop
  obtain ⟨c, cs, htext, -⟩ := h.head
  have hlength : d.compact.toList.length = cs.length + 1 := by rw [htext, List.length_cons]
  obtain ⟨fuel, rfl⟩ : ∃ n, fuel = n + 1 := ⟨fuel - 1, by omega⟩
  exact step fuel rest hfuel stop

/-- Every document that is written is read back from its text. -/
theorem Document.Written.reads {d : Document} (h : d.Written) : d.Reads := by
  induction h with
  | null => exact Written.null.reads_of_step fun _ _ _ _ => rfl
  | bool b =>
      apply (Written.bool b).reads_of_step
      intro fuel rest _ _
      cases b <;> rfl
  | num h =>
      apply (Written.num h).reads_of_step
      intro fuel rest _ stop
      exact readValue_literal h stop fuel
  | str s =>
      apply (Written.str s).reads_of_step
      intro fuel rest _ _
      have htext : (Document.str (some s)).compact.toList ++ rest =
          '"' :: (s.toList.flatMap escapeText ++ '"' :: rest) := by
        simp [compact, leafText, quoted]
      rw [htext, readValue, skipSpace_cons rfl]
      simp [readString_field]
  | @arr items h ih =>
      apply (Written.arr h).reads_of_step
      intro fuel rest hfuel _
      cases items with
      | nil => rfl
      | cons item items =>
          have htext : (Document.arr (item :: items)).compact.toList =
              '[' :: ((",".intercalate (compactItems (item :: items))).toList ++ [']']) := by
            simp [compact]
          rw [htext] at hfuel ⊢
          simp only [List.length_cons, List.length_append] at hfuel
          have hitems := readItems_append ih rest
            (show 2 * (",".intercalate (compactItems (item :: items))).toList.length + 1 ≤ fuel by omega)
          obtain ⟨c, cs, hcs, hspace, hclose⟩ := head_compactItems (h item List.mem_cons_self) items
          rw [hcs] at hitems ⊢
          simpa using readValue_items hspace hclose hitems
  | @obj fields hnames h ih =>
      apply (Written.obj hnames h).reads_of_step
      intro fuel rest hfuel _
      cases fields with
      | nil => rfl
      | cons field fields =>
          have htext : (Document.obj (field :: fields)).compact.toList =
              '\x7b' :: ((",".intercalate (compactFields (field :: fields))).toList ++ ['\x7d']) := by
            simp [compact]
          rw [htext] at hfuel ⊢
          simp only [List.length_cons, List.length_append] at hfuel
          have hfields := readFields_append hnames ih rest
            (show 2 * (",".intercalate (compactFields (field :: fields))).toList.length + 1 ≤ fuel by omega)
          obtain ⟨cs, hcs⟩ := head_compactFields (hnames field List.mem_cons_self) fields
          rw [hcs] at hfields ⊢
          simpa using readValue_fields hfields

/-- A document is read back from its text on one line. -/
theorem Document.Written.parse? {d : Document} (h : d.Written) :
    Document.parse? d.compact = some d := by
  have hread := h.reads (2 * d.compact.toList.length + 1) [] (by omega) ended_nil
  rw [List.append_nil] at hread
  simp [Document.parse?, hread, skipSpace]

/-- What is written for a value is read back as the document it was written from. -/
theorem parse?_compact (v : Value) : Document.parse? v.compact = some v.document :=
  v.written.parse?

/-- So decoding the text of a value is decoding its document. -/
theorem decodeText_compact {α : Type} [Codec α] (v : Value) :
    (decodeText v.compact : Option α) = decodeDocument v.document := by
  simp [decodeText, parse?_compact]

end Engram.Json
