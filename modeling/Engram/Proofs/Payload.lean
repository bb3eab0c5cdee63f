import Engram.Archive.Durable
import Mathlib.Algebra.Group.Nat.Defs
import Mathlib.Data.List.Basic

/-! What a stored memory is when it is read back. Floats are spelled in decimal digits on the way,
and nothing is said about them here: a row that can be read gives back the identifiers, the tiers
and the number of components of every memory in it, in the same order, and the identifiers of every
experience. -/
namespace Engram.Uid

theorem hexValue?_digitChar {n : Nat} (h : n < 16) : Json.hexValue? (Nat.digitChar n) = some n := by
  decide +revert

theorem toLower_digitChar {n : Nat} (h : n < 16) : (Nat.digitChar n).toLower ≠ 'u' := by
  decide +revert

/-- The value of a digit, counted from the left. -/
def nibble (n i : Nat) : Nat := (n >>> (4 * (31 - i))) % 16

theorem foldl_nibble (n k : Nat) (hn : n < 2 ^ 128) (hk : k ≤ 32) :
    ((List.range k).map (nibble n)).foldl (fun m digit => m * 16 + digit) 0 =
      n >>> (4 * (32 - k)) := by
  induction k with
  | zero =>
      simp [Nat.shiftRight_eq_div_pow]
      omega
  | succ k ih =>
      rw [List.range_succ, List.map_append, List.foldl_append, ih (by omega)]
      have hshift : n >>> (4 * (32 - k)) = (n >>> (4 * (31 - k))) / 16 := by
        rw [show 4 * (32 - k) = 4 * (31 - k) + 4 by omega, Nat.shiftRight_add]
        simp [Nat.shiftRight_eq_div_pow]
      simp only [List.map_cons, List.map_nil, List.foldl_cons, List.foldl_nil, nibble, hshift]
      rw [show 32 - (k + 1) = 31 - k by omega]
      omega

theorem toList_text (id : Uid) : id.text.toList =
    id.digits.take 8 ++ '-' :: ((id.digits.drop 8).take 4 ++ '-' :: ((id.digits.drop 12).take 4 ++
      '-' :: ((id.digits.drop 16).take 4 ++ '-' :: (id.digits.drop 20).take 12))) := by
  simp [text, String.intercalate_cons_cons]

theorem ofGroups?_text (id : Uid) : ofGroups? id.text.toList = ofDigits? id.digits := by
  rw [toList_text]
  rfl

theorem mapM_hexValue? (n : Nat) (places : List Nat) :
    (places.map fun i => Nat.digitChar (nibble n i)).mapM Json.hexValue? =
      some (places.map (nibble n)) := by
  induction places with
  | nil => rfl
  | cons i places ih =>
      have hi : nibble n i < 16 := Nat.mod_lt _ (by decide)
      rw [List.map_cons, List.mapM_cons, hexValue?_digitChar hi, ih]
      rfl

theorem ofDigits?_digits (id : Uid) : ofDigits? id.digits = some id := by
  have hmap : id.digits.mapM Json.hexValue? = some ((List.range 32).map (nibble id.bits.toNat)) :=
    mapM_hexValue? id.bits.toNat (List.range 32)
  unfold ofDigits?
  rw [hmap]
  have hfold := foldl_nibble id.bits.toNat 32 id.bits.isLt (by omega)
  simp only [Nat.sub_self, Nat.mul_zero, Nat.shiftRight_zero] at hfold
  simp [hfold]

/-- An identifier is read back from its text. -/
theorem parse?_text (id : Uid) : parse? id.text = some id := by
  have hlength : id.text.toList.length = 36 := by
    rw [toList_text]
    rfl
  have hhead : ((id.text.toList.take 9).map Char.toLower) ≠ "urn:uuid:".toList := by
    intro h
    have hfirst := congrArg List.head? h
    rw [toList_text] at hfirst
    have hu : (Nat.digitChar (nibble id.bits.toNat 0)).toLower = 'u' := Option.some.inj hfirst
    exact toLower_digitChar (Nat.mod_lt _ (by decide)) hu
  unfold parse?
  simp only [hlength]
  rw [if_neg (by decide), if_neg (by simp), if_neg hhead, ofGroups?_text, ofDigits?_digits]

theorem decode_encode (form : Json.FloatForm) (room : Nat) (id : Uid) :
    Json.Codec.decode room ((Json.encode id).documentIn form) = some id := by
  simp [Json.Codec.decode, Json.Codec.encode, Json.Value.documentIn, parse?_text]

end Engram.Uid

namespace Engram

theorem Tier.decode_encode (form : Json.FloatForm) (room : Nat) (t : Tier) :
    Json.Codec.decode room ((Json.encode t).documentIn form) = some t := by
  simp [Json.Codec.decode, Json.Codec.encode, Json.Value.documentIn, Json.decodeName]

namespace Json

theorem documents_eq_map (form : FloatForm) (items : List Value) :
    documents form items = items.map (Value.documentIn form) := by
  induction items with
  | nil => rfl
  | cons item items ih => rw [documents, ih, List.map_cons]

theorem memberDocuments_eq_map (form : FloatForm) (fields : List (String × Value)) :
    memberDocuments form fields = fields.map fun p => (some p.1, p.2.documentIn form) := by
  induction fields with
  | nil => rfl
  | cons field fields ih => rw [memberDocuments, ih, List.map_cons]

/-- The fields of a written object are read as they stand. -/
theorem fields_of_written (names : List String) (form : FloatForm) (room : Nat)
    (fields : List (String × Value)) :
    Fields.of? names (room + 1) ((Value.obj fields).documentIn form) =
      some ⟨room, fields.map fun p => (p.1, p.2.documentIn form), true⟩ := by
  have hitems : (fields.map fun p => (some p.1, p.2.documentIn form)).mapM
      (fun (p : Option String × Document) => p.1.map (·, p.2)) =
        some (fields.map fun p => (p.1, p.2.documentIn form)) := by
    induction fields with
    | nil => rfl
    | cons field fields ih =>
        rw [List.map_cons, List.mapM_cons, ih]
        rfl
  rw [Value.documentIn, memberDocuments_eq_map]
  simp only [Fields.of?]
  rw [hitems]
  rfl

/-- A view of the items that reading keeps is kept by reading a list of them. -/
theorem map_eq_of_decode_list {α β : Type} [Codec α] (view : α → β)
    (hview : ∀ room a b, Codec.decode room (encode a).document = some b → view b = view a)
    {room : Nat} {items read : List α}
    (h : Codec.decode room (encode items).document = some read) :
    read.map view = items.map view := by
  cases room with
  | zero => simp [Codec.decode] at h
  | succ room =>
      simp only [Codec.decode, Codec.encode, Value.document, Value.documentIn, documents_eq_map,
        List.map_map] at h
      induction items generalizing read with
      | nil =>
          simp at h
          simp [h]
      | cons a items ih =>
          rw [List.map_cons, List.mapM_cons] at h
          simp only [Option.bind_eq_bind, Option.bind_eq_some_iff] at h
          obtain ⟨b, hb, rest, hrest, h⟩ := h
          obtain rfl : b :: rest = read := Option.some.inj h
          rw [List.map_cons, List.map_cons, hview room a b hb, ih hrest]

/-- A view of the items that their documents determine is determined by the document of a list. -/
theorem map_eq_of_document_list {α β : Type} [Codec α] (view : α → β)
    (hview : ∀ a b : α, (encode a).document = (encode b).document → view a = view b)
    {items others : List α} (h : (encode items).document = (encode others).document) :
    items.map view = others.map view := by
  simp only [Codec.encode, Value.document, Value.documentIn, documents_eq_map, List.map_map,
    Document.arr.injEq] at h
  induction items generalizing others with
  | nil => simp_all
  | cons a items ih =>
      cases others with
      | nil => cases h
      | cons b others =>
          obtain ⟨hfirst, hrest⟩ := List.cons.inj h
          rw [List.map_cons, List.map_cons, hview a b hfirst, ih hrest]

end Json

namespace Memory

/-- What tells a memory and where it belongs: its identifier, its tier and the width of its
embedding. -/
abbrev Key := Uid × Tier × Nat

def key (m : Memory) : Key := (m.id, m.tier, m.embedding.length)

theorem encode_eq (m : Memory) : Json.encode m = .obj [
    ("id", Json.encode m.id), ("content", Json.encode m.content),
    ("tier", Json.encode m.tier), ("timestamp", Json.encode m.timestamp),
    ("embedding", Json.encode m.embedding), ("importance", Json.encode m.importance),
    ("associations", Json.encode m.associations),
    ("retrievalCount", Json.encode m.retrievals)] := rfl

/-- Reading a stored memory back keeps its key, whatever becomes of its numbers. -/
theorem key_eq_of_decode {room : Nat} {m read : Memory}
    (h : Json.Codec.decode room (Json.encode m).document = some read) : read.key = m.key := by
  cases room with
  | zero => simp [Json.Codec.decode, Json.record, Json.Fields.of?] at h
  | succ room =>
      simp only [Json.Codec.decode, Json.record, Json.Value.document] at h
      rw [encode_eq, Json.fields_of_written] at h
      simp [Json.Fields.need, Json.Fields.find?, List.filter, Option.bind_eq_some_iff] at h
      obtain ⟨id, hid, content, -, tier, htier, time, -, embedding, hembedding, importance, -,
        associations, -, retrievals, -, rfl⟩ := h
      have hwidth : embedding.map (fun _ => ()) = m.embedding.map (fun _ => ()) :=
        Json.map_eq_of_decode_list (fun _ => ()) (fun _ _ _ _ => rfl) hembedding
      rw [Uid.decode_encode] at hid
      rw [Tier.decode_encode] at htier
      have hlength := congrArg List.length hwidth
      simp only [List.length_map] at hlength
      simp [key, hlength, Option.some.inj hid, Option.some.inj htier]

/-- What is written for a memory determines its key. -/
theorem key_eq_of_document {m n : Memory}
    (h : (Json.encode m).document = (Json.encode n).document) : m.key = n.key := by
  rw [encode_eq, encode_eq] at h
  simp only [Json.Value.document, Json.Value.documentIn, Json.memberDocuments_eq_map,
    List.map_cons, List.map_nil, Json.Document.obj.injEq, List.cons.injEq, Prod.mk.injEq,
    true_and, and_true] at h
  obtain ⟨hid, -, htier, -, hembedding, -⟩ := h
  have hids := congrArg (Json.Codec.decode (α := Uid) 0) hid
  have htiers := congrArg (Json.Codec.decode (α := Tier) 0) htier
  rw [Uid.decode_encode, Uid.decode_encode] at hids
  rw [Tier.decode_encode, Tier.decode_encode] at htiers
  have hwidth := Json.map_eq_of_document_list (fun _ => ()) (fun _ _ _ => rfl) hembedding
  have hlength := congrArg List.length hwidth
  simp only [List.length_map] at hlength
  simp [key, hlength, Option.some.inj hids, Option.some.inj htiers]

end Memory

namespace Experience

theorem encode_eq (e : Experience) : Json.encode e = .obj [
    ("id", Json.encode e.id), ("input", Json.encode e.input), ("output", Json.encode e.output),
    ("concepts", Json.encode e.concepts), ("tier", Json.encode e.tier),
    ("timestamp", Json.encode e.timestamp)] := rfl

theorem id_eq_of_decode {room : Nat} {e read : Experience}
    (h : Json.Codec.decode room (Json.encode e).document = some read) : read.id = e.id := by
  cases room with
  | zero => simp [Json.Codec.decode, Json.record, Json.Fields.of?] at h
  | succ room =>
      simp only [Json.Codec.decode, Json.record, Json.Value.document] at h
      rw [encode_eq, Json.fields_of_written] at h
      simp [Json.Fields.need, Json.Fields.find?, List.filter, Option.bind_eq_some_iff] at h
      obtain ⟨id, hid, input, -, output, -, concepts, -, tier, -, time, -, rfl⟩ := h
      rw [Uid.decode_encode] at hid
      exact (Option.some.inj hid).symm

theorem id_eq_of_document {e f : Experience}
    (h : (Json.encode e).document = (Json.encode f).document) : e.id = f.id := by
  rw [encode_eq, encode_eq] at h
  simp only [Json.Value.document, Json.Value.documentIn, Json.memberDocuments_eq_map,
    List.map_cons, List.map_nil, Json.Document.obj.injEq, List.cons.injEq, Prod.mk.injEq,
    true_and, and_true] at h
  have hids := congrArg (Json.Codec.decode (α := Uid) 0) h.1
  rw [Uid.decode_encode, Uid.decode_encode] at hids
  exact Option.some.inj hids

end Experience

namespace PendingDay

theorem encode_eq (d : PendingDay) : Json.encode d = .obj [
    ("savedAt", Json.encode d.savedAt), ("day", Json.encode d.day),
    ("memories", Json.encode d.memories), ("experiences", Json.encode d.experiences)] := rfl

/-- Reading a stored day back keeps the keys of its memories and the identifiers of its
experiences. -/
theorem keys_eq_of_decode {room : Nat} {d read : PendingDay}
    (h : Json.Codec.decode room (Json.encode d).document = some read) :
    read.memories.map Memory.key = d.memories.map Memory.key ∧
      read.experiences.map (·.id) = d.experiences.map (·.id) := by
  cases room with
  | zero => simp [Json.Codec.decode, Json.record, Json.Fields.of?] at h
  | succ room =>
      simp only [Json.Codec.decode, Json.record, Json.Value.document] at h
      rw [encode_eq, Json.fields_of_written] at h
      simp [Json.Fields.need, Json.Fields.find?, List.filter, Option.bind_eq_some_iff] at h
      obtain ⟨savedAt, -, day, -, memories, hmemories, experiences, hexperiences, rfl⟩ := h
      exact ⟨Json.map_eq_of_decode_list Memory.key (fun _ _ _ => Memory.key_eq_of_decode) hmemories,
        Json.map_eq_of_decode_list _ (fun _ _ _ => Experience.id_eq_of_decode) hexperiences⟩

theorem keys_eq_of_document {d e : PendingDay}
    (h : (Json.encode d).document = (Json.encode e).document) :
    d.memories.map Memory.key = e.memories.map Memory.key ∧
      d.experiences.map (·.id) = e.experiences.map (·.id) := by
  rw [encode_eq, encode_eq] at h
  simp only [Json.Value.document, Json.Value.documentIn, Json.memberDocuments_eq_map,
    List.map_cons, List.map_nil, Json.Document.obj.injEq, List.cons.injEq, Prod.mk.injEq,
    true_and, and_true] at h
  obtain ⟨-, -, hmemories, hexperiences⟩ := h
  exact ⟨Json.map_eq_of_document_list Memory.key (fun _ _ => Memory.key_eq_of_document) hmemories,
    Json.map_eq_of_document_list _ (fun _ _ => Experience.id_eq_of_document) hexperiences⟩

end PendingDay

namespace Payload

/-- A row that holds a value and can be read gives what the value decodes to. -/
theorem decode_of_read {α : Type} [Json.Codec α] {a b : α} (h : (ofValue a).read = .ok b) :
    Json.Codec.decode Json.deepest (Json.encode a).document = some b := by
  unfold read ofValue at h
  simp only [Option.bind_some] at h
  split at h
  · rename_i c hc
    obtain rfl : c = b := Except.ok.inj h
    exact hc
  · cases h

theorem keys_of_read {memories read : List Memory} (h : (ofValue memories).read = .ok read) :
    read.map Memory.key = memories.map Memory.key :=
  Json.map_eq_of_decode_list Memory.key (fun _ _ _ => Memory.key_eq_of_decode) (decode_of_read h)

theorem keys_of_ofValue {memories others : List Memory} (h : ofValue memories = ofValue others) :
    memories.map Memory.key = others.map Memory.key :=
  Json.map_eq_of_document_list Memory.key (fun _ _ => Memory.key_eq_of_document)
    (Option.some.inj h)

end Payload

end Engram
