import Engram.Proofs.Backend
import Engram.Proofs.Spelling
import Engram.Proofs.Timestamp
import Mathlib.Data.List.Induction
import Mathlib.Data.List.Nodup

/-! Types whose values are read back from what is written for them. Two things may stand in the way.
A type of the library may hold more than its written form has room for: a count beyond a word, a date
out of range, a map out of order, nesting that is too deep. And a float may have no literal, or one
that is read as another float. -/
namespace Engram.Json

theorem mapM_made {α β γ : Type} {m : Type → Type} [Monad m] [LawfulMonad m] {read : β → m γ}
    {write : α → β} {made : α → γ} {items : List α}
    (h : ∀ a ∈ items, read (write a) = pure (made a)) :
    (items.map write).mapM read = pure (items.map made) := by
  induction items with
  | nil => rfl
  | cons a items ih =>
      rw [List.map_cons, List.mapM_cons, h a List.mem_cons_self,
        ih fun b hb => h b (List.mem_cons_of_mem _ hb), pure_bind, pure_bind, List.map_cons]

/-- Items that are each read from what is written for them are read as a list. -/
theorem mapM_written {α β : Type} {m : Type → Type} [Monad m] [LawfulMonad m] {read : β → m α}
    {write : α → β} {items : List α} (h : ∀ a ∈ items, read (write a) = pure a) :
    (items.map write).mapM read = pure items := by
  have hread := mapM_made h
  rwa [List.map_id'] at hread

theorem mapM_some_of_mem {α β : Type} {f : α → Option β} {items : List α} {found : List β}
    (h : items.mapM f = some found) {b : β} (hb : b ∈ found) : ∃ a ∈ items, f a = some b := by
  induction items generalizing found with
  | nil =>
      obtain rfl := Option.some.inj h
      cases hb
  | cons a items ih =>
      rw [List.mapM_cons] at h
      simp only [Option.bind_eq_bind, Option.bind_eq_some_iff] at h
      obtain ⟨first, hfirst, rest, hrest, h⟩ := h
      obtain rfl := Option.some.inj h
      rcases List.mem_cons.mp hb with rfl | hb
      · exact ⟨a, List.mem_cons_self, hfirst⟩
      · obtain ⟨c, hc, hread⟩ := ih hrest hb
        exact ⟨c, List.mem_cons_of_mem _ hc, hread⟩

end Engram.Json

namespace Engram.TierMap

variable {α : Type}

/-- The entries in the order of some keys, where each key finds its own entry. -/
theorem filterMap_eq_of_sublist {keys : List Tier} {items : List (Tier × α)}
    {find : Tier → Option (Tier × α)} (ordered : (items.map Prod.fst).Sublist keys)
    (distinct : keys.Nodup) (hfound : ∀ p ∈ items, find p.1 = some p)
    (hmissing : ∀ t ∈ keys, t ∉ items.map Prod.fst → find t = none) :
    keys.filterMap find = items := by
  induction keys generalizing items with
  | nil =>
      obtain rfl : items = [] := by simpa using List.sublist_nil.mp ordered
      rfl
  | cons key keys ih =>
      obtain ⟨hkey, hkeys⟩ := List.nodup_cons.mp distinct
      generalize hnames : items.map Prod.fst = names at ordered
      cases ordered with
      | cons _ h =>
          have hnone : find key = none := by
            apply hmissing key List.mem_cons_self
            rw [hnames]
            exact fun hin => hkey (h.subset hin)
          rw [List.filterMap_cons_none hnone]
          exact ih (hnames ▸ h) hkeys hfound fun t ht => hmissing t (List.mem_cons_of_mem _ ht)
      | cons_cons _ h =>
          obtain ⟨p, rest, rfl, rfl, rfl⟩ := List.map_eq_cons_iff.mp hnames
          rw [List.filterMap_cons_some (hfound p List.mem_cons_self)]
          congr
          apply ih h hkeys fun q hq => hfound q (List.mem_cons_of_mem _ hq)
          intro t ht hnone
          apply hmissing t (List.mem_cons_of_mem _ ht)
          rw [List.map_cons, List.mem_cons, not_or]
          exact ⟨fun heq => hkey (heq ▸ ht), hnone⟩

theorem find?_reverse {items : List (Tier × α)} (distinct : (items.map Prod.fst).Nodup)
    {p : Tier × α} (h : p ∈ items) : items.reverse.find? (·.1 == p.1) = some p := by
  cases hfind : items.reverse.find? (·.1 == p.1) with
  | none =>
      rw [List.find?_eq_none] at hfind
      exact absurd BEq.rfl (hfind p (List.mem_reverse.mpr h))
  | some q =>
      have hkey : q.1 = p.1 := by simpa using List.find?_some hfind
      have hq : q ∈ items := List.mem_reverse.mp (List.mem_of_find?_eq_some hfind)
      exact congrArg some (List.inj_on_of_nodup_map distinct hq h hkey)

theorem ofList_of_ordered {items : List (Tier × α)}
    (ordered : (items.map Prod.fst).Sublist Tier.all) : ofList items = ⟨items⟩ := by
  have distinct : Tier.all.Nodup := by decide
  refine congrArg TierMap.mk (filterMap_eq_of_sublist ordered distinct ?_ ?_)
  · intro p hp
    exact find?_reverse (ordered.nodup distinct) hp
  · intro t _ hnone
    rw [List.find?_eq_none]
    intro p hp hkey
    apply hnone
    rw [← eq_of_beq hkey]
    exact List.mem_map_of_mem (List.mem_reverse.mp hp)

theorem ordered_ofList (pairs : List (Tier × α)) :
    ((ofList pairs).items.map Prod.fst).Sublist Tier.all := by
  have h : ∀ keys : List Tier, ((keys.filterMap fun t => pairs.reverse.find? (·.1 == t)).map
      Prod.fst).Sublist keys := by
    intro keys
    induction keys with
    | nil => exact .slnil
    | cons key keys ih =>
        cases hfind : pairs.reverse.find? (·.1 == key) with
        | none => simpa [hfind] using ih.cons key
        | some p =>
            have hkey : p.1 = key := by simpa using List.find?_some hfind
            simpa [hfind, hkey] using ih.cons_cons key
  exact h Tier.all

theorem mem_of_mem_ofList {pairs : List (Tier × α)} {p : Tier × α}
    (h : p ∈ (ofList pairs).items) : p ∈ pairs := by
  obtain ⟨t, -, hfind⟩ := List.mem_filterMap.mp h
  exact List.mem_reverse.mp (List.mem_of_find?_eq_some hfind)

end Engram.TierMap

namespace Engram.Json

/-- A finite float whose literal is read back exactly. -/
def IsLegible (x : Float) : Prop :=
  ∃ d, Number.Reading.ofFloat x = .finite d ∧ (Literal.ofDyadic .wide d).float? = some x

/-- The same for a narrow float, which is read in full width and then rounded. -/
def IsLegibleNarrow (x : Float32) : Prop :=
  ∃ d, Number.Reading.ofFloat32 x = .finite d ∧
    ∃ y : Float, (Literal.ofDyadic .narrow d).float? = some y ∧ y.toFloat32 = x

/-- A type whose values are read back, and whose decoder gives only values that are. -/
class Persistent (α : Type) [Codec α] where
  /-- The room that nesting takes in every value. -/
  least : Nat
  /-- What can be written with the given room. -/
  Valid : Nat → α → Prop
  /-- All floats are read back exactly. -/
  Legible : α → Prop
  decode_encode {room : Nat} {a : α} : least ≤ room → Valid room a → Legible a →
    Codec.decode room (encode a).document = some a
  valid_of_decode {room : Nat} {document : Document} {a : α} : least ≤ room →
    Codec.decode room document = some a → Valid room a

/-- All of a value can be written in full and is read back exactly. -/
def Storable {α : Type} [Codec α] [Persistent α] (a : α) : Prop :=
  Persistent.Valid deepest a ∧ Persistent.Legible a

namespace Persistent

variable {α : Type} [Codec α]

/-- A type whose values are all read back, in any room. -/
abbrev ofTotal (h : ∀ room (a : α), Codec.decode room (encode a).document = some a) :
    Persistent α where
  least := 0
  Valid _ _ := True
  Legible _ := True
  decode_encode _ _ _ := h _ _
  valid_of_decode _ _ := trivial

instance : Persistent Bool := ofTotal fun _ _ => rfl

instance : Persistent String := ofTotal fun _ _ => rfl

instance : Persistent Uid := ofTotal fun room id => Uid.decode_encode .spelled room id

instance : Persistent Tier := ofTotal fun room t => Tier.decode_encode .spelled room t

theorem decodeInt_ofInt {low high n : Int} (hlow : low ≤ n) (hhigh : n ≤ high)
    (hleast : -(Number.twoTo 63 : Int) ≤ n) (hgreatest : n ≤ wordMax) (room : Nat) :
    decodeInt low high room (.num (.ofInt n)) = some n := by
  simp [decodeInt, numberOf?, number?_ofInt hleast hgreatest, hlow, hhigh]

/-- Counts are words. -/
instance : Persistent Nat where
  least := 0
  Valid _ n := n ≤ wordMax
  Legible _ := True
  decode_encode := by
    intro room n _ h _
    change (decodeInt 0 wordMax room (.num (.ofInt n))).map Int.toNat = some n
    rw [decodeInt_ofInt (by omega) (by omega) (by simp [Number.twoTo]) (by omega)]
    rfl
  valid_of_decode := by
    intro room document n _ h
    obtain ⟨i, hi, rfl⟩ := Option.map_eq_some_iff.mp h
    unfold decodeInt at hi
    split at hi
    · rw [Option.ite_none_right_eq_some] at hi
      obtain ⟨hbounds, hi⟩ := hi
      obtain rfl := Option.some.inj hi
      simp only [Bool.and_eq_true, decide_eq_true_eq] at hbounds
      omega
    · cases hi

instance : Persistent UInt64 := ofTotal fun room n => by
  have hread : Codec.decode room (encode n.toNat).document = some n.toNat :=
    decode_encode (Nat.zero_le _) (Nat.le_pred_of_lt n.toNat_lt) trivial
  change (Codec.decode room (encode n.toNat).document).map Nat.toUInt64 = some n
  rw [hread]
  exact congrArg some UInt64.ofNat_toNat

theorem number?_ofDyadic (layout : Layout) (d : Number.Dyadic) :
    (Literal.ofDyadic layout d).number? = (Literal.ofDyadic layout d).float?.map .float := by
  have h : ((Literal.ofDyadic layout d).fraction.isNone &&
      (Literal.ofDyadic layout d).exponent.isNone) = false := by
    unfold Literal.ofDyadic
    simp only
    split <;> simp [positionalLiteral, scientificLiteral]
  rw [Literal.number?, if_neg (by simp [h])]

/-- The number that is read for a legible float is the float itself. -/
theorem numberOf?_of_legible {x : Float} (h : IsLegible x) :
    numberOf? (Value.float x).document = some (.float x) := by
  obtain ⟨d, hreading, hfloat⟩ := h
  change numberOf? (FloatForm.spelledReading .wide (.ofFloat x)) = _
  rw [hreading]
  change (Literal.ofDyadic .wide d).number? = _
  rw [number?_ofDyadic, hfloat]
  rfl

instance : Persistent Float where
  least := 0
  Valid _ _ := True
  Legible := IsLegible
  decode_encode := by
    intro room x _ _ h
    have hencode : (encode x).document = (Value.float x).document := rfl
    simp only [Codec.decode, hencode, numberOf?_of_legible h]
  valid_of_decode _ _ := trivial

instance : Persistent Float32 where
  least := 0
  Valid _ _ := True
  Legible := IsLegibleNarrow
  decode_encode := by
    rintro room x _ _ ⟨d, hreading, y, hfloat, hround⟩
    have hencode : (encode x).document = .num (Literal.ofDyadic .narrow d) := by
      change FloatForm.spelledReading .narrow (.ofFloat32 x) = _
      rw [hreading]
      rfl
    simp only [Codec.decode, hencode, numberOf?, number?_ofDyadic, hfloat, Option.map_some, hround]
  valid_of_decode _ _ := trivial

instance : Persistent Time.Date where
  least := 0
  Valid _ d := d.isValid = true
  Legible _ := True
  decode_encode := by
    intro room d _ h _
    simp only [Codec.decode, Codec.encode, Value.document, Value.documentIn, Option.bind_some]
    exact Time.Date.parse?_text h
  valid_of_decode := by
    intro room document d _ h
    cases document with
    | str text =>
        obtain ⟨s, _, hs⟩ := Option.bind_eq_some_iff.mp h
        exact Time.Date.isValid_of_parse? hs
    | _ => cases h

instance : Persistent Time.Instant where
  least := 0
  Valid _ t := t.IsValid
  Legible _ := True
  decode_encode := by
    intro room t _ h _
    simp only [Codec.decode, Codec.encode, Value.document, Value.documentIn, Option.bind_some]
    exact Time.Instant.parse?_text h
  valid_of_decode := by
    intro room document t _ h
    cases document with
    | str text =>
        have hread : text.bind Time.Instant.parse? = some t := h
        obtain ⟨s, _, hs⟩ := Option.bind_eq_some_iff.mp hread
        exact Time.Instant.isValid_of_parse? hs
    | _ => cases h

/-- A value that may be missing, of a type that nothing is written as null for. -/
abbrev option [Persistent α] (hnull : ∀ room, Codec.decode room .null = (none : Option α)) :
    Persistent (Option α) where
  least := least α
  Valid room a := ∀ x ∈ a, Valid room x
  Legible a := ∀ x ∈ a, Legible x
  decode_encode := by
    intro room a hroom hvalid hlegible
    cases a with
    | none => rfl
    | some x =>
        have hread := decode_encode hroom (hvalid x rfl) (hlegible x rfl)
        have hencode : (encode (some x)).document = (encode x).document := rfl
        rw [hencode]
        generalize (encode x).document = document at hread
        cases document with
        | null => simp [hnull] at hread
        | _ => simp [Codec.decode, hread]
  valid_of_decode := by
    intro room document a hroom h x hx
    obtain rfl : a = some x := hx
    have hread : Codec.decode room document = some x := by
      cases document with
      | null => cases h
      | _ => simpa [Codec.decode] using h
    exact valid_of_decode hroom hread

instance : Persistent (Option String) := option fun _ => rfl

instance : Persistent (Option Float) := option fun _ => rfl

instance : Persistent (Option Uid) := option fun _ => rfl

/-- Lists take one level of nesting. -/
instance [Persistent α] : Persistent (List α) where
  least := least α + 1
  Valid room items := ∀ a ∈ items, Valid (room - 1) a
  Legible items := ∀ a ∈ items, Legible a
  decode_encode := by
    intro room items hroom hvalid hlegible
    obtain ⟨room, rfl⟩ : ∃ n, room = n + 1 := ⟨room - 1, by omega⟩
    simp only [Codec.decode, Codec.encode, Value.document, Value.documentIn, documents_eq_map,
      List.map_map]
    exact mapM_written fun a ha => decode_encode (by omega) (hvalid a ha) (hlegible a ha)
  valid_of_decode := by
    intro room document items hroom h
    obtain ⟨room, rfl⟩ : ∃ n, room = n + 1 := ⟨room - 1, by omega⟩
    cases document with
    | arr documents =>
        intro a ha
        obtain ⟨document, _, hread⟩ := mapM_some_of_mem h ha
        exact valid_of_decode (by omega) hread
    | _ => cases h

end Persistent

/-- The values that can be read in the given room: integers are words, and the fields of an object
are in order. -/
inductive Value.Valid : Nat → Value → Prop where
  | null {room : Nat} : Valid room .null
  | bool {room : Nat} (b : Bool) : Valid room (.bool b)
  | int {room : Nat} {n : Int} (least : -(Number.twoTo 63 : Int) ≤ n) (greatest : n ≤ wordMax) :
      Valid room (.int n)
  | float {room : Nat} (x : Float) : Valid room (.float x)
  | str {room : Nat} (s : String) : Valid room (.str s)
  | arr {room : Nat} {items : List Value} (h : ∀ item ∈ items, item.Valid room) :
      Valid (room + 1) (.arr items)
  | obj {room : Nat} {fields : Map} (ordered : ByTag.Ordered fields)
      (h : ∀ field ∈ fields, field.2.Valid room) : Valid (room + 1) (.obj fields)

/-- All floats in a value are read back exactly. -/
inductive Value.Legible : Value → Prop where
  | null : Legible .null
  | bool (b : Bool) : Legible (.bool b)
  | int (n : Int) : Legible (.int n)
  | float {x : Float} (h : IsLegible x) : Legible (.float x)
  | str (s : String) : Legible (.str s)
  | arr {items : List Value} (h : ∀ item ∈ items, item.Legible) : Legible (.arr items)
  | obj {fields : Map} (h : ∀ field ∈ fields, field.2.Legible) : Legible (.obj fields)

theorem Map.insert_eq_put (name : String) (value : Value) (m : Map) :
    m.insert name value = ByTag.put name value m := by
  induction m with
  | nil => rfl
  | cons field m ih => rw [insert, ByTag.put, ih]

theorem Map.ordered_ofFields (fields : List (String × Value)) :
    ByTag.Ordered (Map.ofFields fields) := by
  refine List.foldlRecOn (motive := fun m : Map => ByTag.Ordered m) fields _ .nil ?_
  intro m ordered field _
  rw [insert_eq_put]
  exact ordered.put field.1 field.2

theorem Map.mem_of_mem_ofFields {fields : List (String × Value)} {field : String × Value}
    (h : field ∈ Map.ofFields fields) : field ∈ fields := by
  have hall : ∀ p ∈ Map.ofFields fields, p ∈ fields := by
    refine List.foldlRecOn (motive := fun m : Map => ∀ p ∈ m, p ∈ fields) fields _ (by simp) ?_
    intro m kept next hnext p hp
    rw [insert_eq_put] at hp
    rcases ByTag.mem_put hp with rfl | hp
    · exact hnext
    · exact kept p hp
  exact hall field h

/-- A name after all others is put last. -/
theorem Map.put_of_forall_lt {name : String} {value : Value} {m : Map}
    (h : ∀ p ∈ m, p.1 < name) : ByTag.put name value m = m ++ [(name, value)] := by
  induction m with
  | nil => rfl
  | cons field m ih =>
      have hlt := h field List.mem_cons_self
      rw [ByTag.put, if_neg hlt.not_gt, if_neg hlt.ne', ih fun p hp => h p (List.mem_cons_of_mem _ hp),
        List.cons_append]

/-- Fields that are in order are a map as they stand. -/
theorem Map.ofFields_of_ordered {fields : Map} (h : ByTag.Ordered fields) :
    Map.ofFields fields = fields := by
  induction fields using List.reverseRecOn with
  | nil => rfl
  | append_singleton fields field ih =>
      rw [ByTag.Ordered, List.map_append, List.pairwise_append] at h
      obtain ⟨hfront, _, hlast⟩ := h
      have hsame : Map.ofFields fields = fields := ih hfront
      rw [Map.ofFields, List.foldl_append]
      change Map.insert field.1 field.2 (Map.ofFields fields) = _
      rw [hsame, insert_eq_put]
      apply put_of_forall_lt
      intro p hp
      exact hlast p.1 (List.mem_map_of_mem hp) field.1 (by simp)

theorem values?_documents {room : Nat} {items : List Value}
    (h : ∀ item ∈ items, item.document.value? room = some item) :
    values? room (documents .spelled items) = some items := by
  induction items with
  | nil => rfl
  | cons item items ih =>
      have hitem : (item.documentIn .spelled).value? room = some item := h item List.mem_cons_self
      rw [documents, values?, ih fun other ho => h other (List.mem_cons_of_mem _ ho)]
      simp [hitem]

theorem members?_memberDocuments {room : Nat} {fields : List (String × Value)}
    (h : ∀ field ∈ fields, field.2.document.value? room = some field.2) :
    members? room (memberDocuments .spelled fields) = some fields := by
  induction fields with
  | nil => rfl
  | cons field fields ih =>
      have hvalue : (field.2.documentIn .spelled).value? room = some field.2 :=
        h field List.mem_cons_self
      rw [memberDocuments, members?, ih fun other ho => h other (List.mem_cons_of_mem _ ho)]
      simp [hvalue]

theorem value?_of_numberOf? {document : Document} {n : Numeral}
    (h : numberOf? document = some n) {room : Nat} : document.value? room = some n.value := by
  cases document with
  | num l =>
      have hl : l.number? = some n := h
      simp [Document.value?, hl]
  | float x =>
      obtain rfl := Option.some.inj h
      simp [Document.value?, Numeral.value]
  | _ => cases h

/-- A value is read back from its document. -/
theorem Value.Valid.value?_document {room : Nat} {v : Value} (h : v.Valid room)
    (legible : v.Legible) : v.document.value? room = some v := by
  induction h with
  | null => simp [document, documentIn, Document.value?]
  | bool b => simp [document, documentIn, Document.value?]
  | int least greatest =>
      simp [document, documentIn, Document.value?, number?_ofInt least greatest, Numeral.value]
  | float x =>
      cases legible with
      | float hlegible => exact value?_of_numberOf? (Persistent.numberOf?_of_legible hlegible)
  | str s => simp [document, documentIn, Document.value?]
  | arr h ih =>
      cases legible with
      | arr hlegible =>
          have hitems := values?_documents fun item hitem => ih item hitem (hlegible item hitem)
          simp [document, documentIn, Document.value?, hitems]
  | obj ordered h ih =>
      cases legible with
      | obj hlegible =>
          have hfields := members?_memberDocuments fun field hf => ih field hf (hlegible field hf)
          simp [document, documentIn, Document.value?, hfields, Map.ofFields_of_ordered ordered]

/-- An integer that is read is a word. -/
theorem number?_int_bounds {l : Literal} {n : Int} (h : l.number? = some (.int n)) :
    -(Number.twoTo 63 : Int) ≤ n ∧ n ≤ wordMax := by
  have hfloat : l.float?.map Numeral.float ≠ some (.int n) := by
    cases l.float? <;> simp
  unfold Literal.number? at h
  simp only at h
  split at h
  · split at h
    · split at h
      · rename_i hbounds
        obtain rfl := Numeral.int.inj (Option.some.inj h)
        simp only [Bool.and_eq_true, decide_eq_true_eq] at hbounds
        omega
      · exact absurd h hfloat
    · split at h
      · obtain rfl := Numeral.int.inj (Option.some.inj h)
        omega
      · exact absurd h hfloat
  · exact absurd h hfloat

mutual

/-- What is read as a value can be written and read again in the same room. -/
theorem valid_of_value? : ∀ (document : Document) {room : Nat} {v : Value},
    document.value? room = some v → v.Valid room
  | .null, _, _, h => by
      simp only [Document.value?, Option.some.injEq] at h
      exact h ▸ .null
  | .bool b, _, _, h => by
      simp only [Document.value?, Option.some.injEq] at h
      exact h ▸ .bool b
  | .num l, _, _, h => by
      simp only [Document.value?, Option.map_eq_some_iff] at h
      obtain ⟨n, hn, rfl⟩ := h
      cases n with
      | int n => exact .int (number?_int_bounds hn).1 (number?_int_bounds hn).2
      | float x => exact .float x
  | .float x, _, _, h => by
      simp only [Document.value?, Option.some.injEq] at h
      exact h ▸ .float x
  | .str text, _, _, h => by
      simp only [Document.value?, Option.map_eq_some_iff] at h
      obtain ⟨s, -, rfl⟩ := h
      exact .str s
  | .arr items, 0, _, h => by simp [Document.value?] at h
  | .arr items, room + 1, _, h => by
      simp only [Document.value?, Option.map_eq_some_iff] at h
      obtain ⟨values, hvalues, rfl⟩ := h
      exact .arr (valid_of_values? items hvalues)
  | .obj fields, 0, _, h => by simp [Document.value?] at h
  | .obj fields, room + 1, _, h => by
      simp only [Document.value?, Option.map_eq_some_iff] at h
      obtain ⟨members, hmembers, rfl⟩ := h
      exact .obj (Map.ordered_ofFields members) fun field hfield =>
        valid_of_members? fields hmembers field (Map.mem_of_mem_ofFields hfield)

theorem valid_of_values? : ∀ (items : List Document) {room : Nat} {values : List Value},
    values? room items = some values → ∀ v ∈ values, v.Valid room
  | [], _, _, h => by
      simp only [values?, Option.some.injEq] at h
      simp [← h]
  | item :: items, _, _, h => by
      simp only [values?, Option.bind_eq_bind, Option.bind_eq_some_iff] at h
      obtain ⟨value, hvalue, rest, hrest, h⟩ := h
      obtain rfl := Option.some.inj h
      intro v hv
      rcases List.mem_cons.mp hv with rfl | hv
      · exact valid_of_value? item hvalue
      · exact valid_of_values? items hrest v hv

theorem valid_of_members? : ∀ (fields : List (Option String × Document)) {room : Nat}
    {members : List (String × Value)},
    members? room fields = some members → ∀ member ∈ members, member.2.Valid room
  | [], _, _, h => by
      simp only [members?, Option.some.injEq] at h
      simp [← h]
  | (name, document) :: fields, _, _, h => by
      simp only [members?, Option.bind_eq_bind, Option.bind_eq_some_iff] at h
      obtain ⟨text, -, value, hvalue, rest, hrest, h⟩ := h
      obtain rfl := Option.some.inj h
      intro member hm
      rcases List.mem_cons.mp hm with rfl | hm
      · exact valid_of_value? document hvalue
      · exact valid_of_members? fields hrest member hm

end

namespace Persistent

/-- Maps are read back as deep as they nest. -/
instance : Persistent Map where
  least := 1
  Valid room m := (Value.obj m).Valid room
  Legible m := (Value.obj m).Legible
  decode_encode := by
    intro room m _ h legible
    have hread : (encode m).document.value? room = some (.obj m) := h.value?_document legible
    simp only [Codec.decode, hread]
  valid_of_decode := by
    intro room document m _ h
    simp only [Codec.decode] at h
    split at h
    · rename_i fields hread
      obtain rfl := Option.some.inj h
      exact valid_of_value? document hread
    · cases h

/-- A map from tiers is read back if it is in their order. -/
instance {α : Type} [Codec α] [Persistent α] : Persistent (TierMap α) where
  least := least α + 1
  Valid room m := (m.items.map Prod.fst).Sublist Tier.all ∧ ∀ p ∈ m.items, Valid (room - 1) p.2
  Legible m := ∀ p ∈ m.items, Legible p.2
  decode_encode := by
    rintro room ⟨items⟩ hroom ⟨ordered, hvalid⟩ hlegible
    obtain ⟨room, rfl⟩ : ∃ n, room = n + 1 := ⟨room - 1, by omega⟩
    have hencode : (encode (TierMap.mk items)).document =
        .obj (items.map fun p => (some p.1.name, (encode p.2).document)) := by
      simp [Codec.encode, Value.document, Value.documentIn, memberDocuments_eq_map, Function.comp_def]
    rw [hencode]
    simp only [Codec.decode]
    have hread : ∀ p ∈ items, Codec.decode room (encode p.2).document = some p.2 :=
      fun p hp => decode_encode (by omega) (hvalid p hp) (hlegible p hp)
    rw [mapM_written fun p hp => by simp [hread p hp]]
    exact congrArg some (TierMap.ofList_of_ordered ordered)
  valid_of_decode := by
    intro room document m hroom h
    obtain ⟨room, rfl⟩ : ∃ n, room = n + 1 := ⟨room - 1, by omega⟩
    cases document with
    | obj fields =>
        simp only [Codec.decode, Option.bind_eq_bind, Option.bind_eq_some_iff] at h
        obtain ⟨pairs, hpairs, h⟩ := h
        obtain rfl := Option.some.inj h
        refine ⟨TierMap.ordered_ofList pairs, ?_⟩
        intro p hp
        obtain ⟨field, -, hread⟩ := mapM_some_of_mem hpairs (TierMap.mem_of_mem_ofList hp)
        simp only [Option.bind_eq_some_iff] at hread
        obtain ⟨name, -, tier, -, value, hvalue, hread⟩ := hread
        obtain rfl := Option.some.inj hread
        exact valid_of_decode (by omega) hvalue
    | _ => cases h

end Persistent

end Engram.Json
