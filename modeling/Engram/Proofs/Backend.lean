import Engram.Archive.Backend
import Engram.Proofs.Payload
import Mathlib.Data.String.Basic

/-! Both kinds of storage seen in one way: as the log of entries that were written and the
checkpoint that was saved last. The process-local kind holds these values themselves, the tables
hold the rows they are written as. Nothing here assumes that a row can be read back. -/
namespace Engram

/-- Storage apart from the history of runs. -/
def Storage.contents : Storage → Storage
  | .volatile a => .volatile { a with runs := [] }
  | .durable a => .durable { a with runs := [] }

theorem Tier.name_injective {t u : Tier} (h : t.name = u.name) : t = u := by
  have hread := Tier.ofName?_name t
  rw [h, Tier.ofName?_name] at hread
  exact (Option.some.inj hread).symm

namespace ByTag

variable {α : Type}

/-- The tags are in strictly ascending order. -/
def Ordered (m : ByTag α) : Prop := (m.map Prod.fst).Pairwise (· < ·)

theorem lookup_cons_eq_ite (tag other : String) (a : α) (m : ByTag α) :
    List.lookup other ((tag, a) :: m) = if other = tag then some a else List.lookup other m := by
  by_cases h : other = tag
  · simp [h]
  · simp [List.lookup_cons, beq_eq_false_iff_ne.mpr h, h]

theorem lookup_put (tag other : String) (a : α) (m : ByTag α) :
    List.lookup other (put tag a m) = if other = tag then some a else List.lookup other m := by
  induction m with
  | nil => exact lookup_cons_eq_ite tag other a []
  | cons p m ih =>
      obtain ⟨first, b⟩ := p
      unfold put
      by_cases hlt : tag < first
      · rw [if_pos hlt]
        exact lookup_cons_eq_ite tag other a _
      · by_cases heq : tag = first
        · subst heq
          rw [if_neg hlt, if_pos rfl, lookup_cons_eq_ite, lookup_cons_eq_ite]
          split <;> rfl
        · rw [if_neg hlt, if_neg heq, lookup_cons_eq_ite, ih, lookup_cons_eq_ite]
          by_cases h : other = first
          · subst h
            simp [Ne.symm heq]
          · simp [h]

theorem mem_put {tag : String} {a : α} {m : ByTag α} {p : String × α} (h : p ∈ put tag a m) :
    p = (tag, a) ∨ p ∈ m := by
  induction m with
  | nil => exact .inl (List.mem_singleton.mp h)
  | cons q m ih =>
      obtain ⟨first, b⟩ := q
      unfold put at h
      by_cases hlt : tag < first
      · rw [if_pos hlt] at h
        exact List.mem_cons.mp h
      · by_cases heq : tag = first
        · rw [if_neg hlt, if_pos heq] at h
          exact (List.mem_cons.mp h).imp id (List.mem_cons_of_mem _)
        · rw [if_neg hlt, if_neg heq] at h
          rcases List.mem_cons.mp h with h | h
          · exact .inr (h ▸ List.mem_cons_self)
          · exact (ih h).imp id (List.mem_cons_of_mem _)

theorem Ordered.put {m : ByTag α} (h : m.Ordered) (tag : String) (a : α) :
    (m.put tag a).Ordered := by
  induction m with
  | nil => simp [ByTag.put, Ordered]
  | cons p m ih =>
      obtain ⟨first, b⟩ := p
      have htail : Ordered m := (List.pairwise_cons.mp h).2
      have hhead : ∀ other ∈ m.map Prod.fst, first < other := (List.pairwise_cons.mp h).1
      unfold ByTag.put
      by_cases hlt : tag < first
      · rw [if_pos hlt]
        refine List.pairwise_cons.mpr ⟨?_, h⟩
        intro other ho
        rcases List.mem_cons.mp ho with ho | ho
        · exact ho ▸ hlt
        · exact hlt.trans (hhead other ho)
      · by_cases heq : tag = first
        · subst heq
          rw [if_neg hlt, if_pos rfl]
          exact h
        · rw [if_neg hlt, if_neg heq]
          refine List.pairwise_cons.mpr ⟨?_, ih htail⟩
          intro other ho
          obtain ⟨p, hp, rfl⟩ := List.mem_map.mp ho
          rcases mem_put hp with hp | hp
          · exact hp ▸ lt_of_le_of_ne (not_lt.mp hlt) (Ne.symm heq)
          · exact hhead p.1 (List.mem_map_of_mem hp)

theorem Ordered.lookup_eq_some {m : ByTag α} (h : m.Ordered) {p : String × α} (hp : p ∈ m) :
    List.lookup p.1 m = some p.2 := by
  induction m with
  | nil => cases hp
  | cons q m ih =>
      rcases List.mem_cons.mp hp with hp | hp
      · subst hp
        exact (lookup_cons_eq_ite p.1 p.1 p.2 m).trans (if_pos rfl)
      · have hlt : q.1 < p.1 := (List.pairwise_cons.mp h).1 p.1 (List.mem_map_of_mem hp)
        rw [show q :: m = (q.1, q.2) :: m from rfl, lookup_cons_eq_ite, if_neg (ne_of_gt hlt)]
        exact ih (List.pairwise_cons.mp h).2 hp

theorem map_put {β : Type} (f : α → β) (tag : String) (a : α) (m : ByTag α) :
    (put tag a m).map (fun p => (p.1, f p.2)) = put tag (f a) (m.map fun p => (p.1, f p.2)) := by
  induction m with
  | nil => rfl
  | cons p m ih =>
      obtain ⟨first, b⟩ := p
      simp only [put, List.map_cons]
      split
      · rfl
      · split
        · rfl
        · rw [List.map_cons, ih]

/-- Set the values of some tiers, one after the other. -/
def putAll (tiers : List (Tier × α)) (m : ByTag α) : ByTag α :=
  tiers.foldl (fun m p => m.put p.1.name p.2) m

theorem Ordered.putAll {m : ByTag α} (h : m.Ordered) (tiers : List (Tier × α)) :
    (m.putAll tiers).Ordered := by
  induction tiers generalizing m with
  | nil => exact h
  | cons p tiers ih => exact ih (h.put p.1.name p.2)

theorem mem_putAll {tiers : List (Tier × α)} {m : ByTag α} {p : String × α}
    (h : p ∈ m.putAll tiers) : p ∈ m ∨ ∃ q ∈ tiers, p = (q.1.name, q.2) := by
  induction tiers generalizing m with
  | nil => exact .inl h
  | cons q tiers ih =>
      rcases ih h with h | ⟨r, hr, h⟩
      · rcases mem_put h with h | h
        · exact .inr ⟨q, List.mem_cons_self, h⟩
        · exact .inl h
      · exact .inr ⟨r, List.mem_cons_of_mem _ hr, h⟩

theorem lookup_putAll_of_notMem {tiers : List (Tier × α)} {t : Tier}
    (h : t ∉ tiers.map Prod.fst) (m : ByTag α) :
    List.lookup t.name (m.putAll tiers) = List.lookup t.name m := by
  induction tiers generalizing m with
  | nil => rfl
  | cons q tiers ih =>
      rw [List.map_cons, List.mem_cons, not_or] at h
      have hname : t.name ≠ q.1.name := fun hname => h.1 (Tier.name_injective hname)
      exact (ih h.2 (m.put q.1.name q.2)).trans ((lookup_put _ _ _ _).trans (if_neg hname))

/-- Every value that is set can be looked up. -/
theorem lookup_putAll_of_mem {tiers : List (Tier × α)} (distinct : (tiers.map Prod.fst).Nodup)
    {t : Tier} {a : α} (h : (t, a) ∈ tiers) (m : ByTag α) :
    List.lookup t.name (m.putAll tiers) = some a := by
  induction tiers generalizing m with
  | nil => cases h
  | cons q tiers ih =>
      rw [List.map_cons, List.nodup_cons] at distinct
      rcases List.mem_cons.mp h with h | h
      · subst h
        refine (lookup_putAll_of_notMem distinct.1 (m.put t.name a)).trans ?_
        exact (lookup_put _ _ _ _).trans (if_pos rfl)
      · exact ih distinct.2 h (m.put q.1.name q.2)

/-- Values of all tiers take the place of whatever tiers had before. -/
theorem mem_putAll_iff {tiers : List (Tier × α)} (distinct : (tiers.map Prod.fst).Nodup)
    (whole : ∀ t, t ∈ tiers.map Prod.fst) {m : ByTag α} (ordered : m.Ordered)
    (named : ∀ p ∈ m, ∃ t : Tier, p.1 = t.name) (p : String × α) :
    p ∈ m.putAll tiers ↔ ∃ q ∈ tiers, p = (q.1.name, q.2) := by
  have hput : ∀ q ∈ tiers, List.lookup q.1.name (m.putAll tiers) = some q.2 :=
    fun q hq => lookup_putAll_of_mem distinct hq m
  constructor
  · intro hp
    obtain ⟨t, ht⟩ : ∃ t : Tier, p.1 = t.name := by
      rcases mem_putAll hp with hp | ⟨q, _, rfl⟩
      · exact named p hp
      · exact ⟨q.1, rfl⟩
    obtain ⟨q, hq, rfl⟩ := List.mem_map.mp (whole t)
    have hsame := (ordered.putAll tiers).lookup_eq_some hp
    rw [ht, hput q hq] at hsame
    exact ⟨q, hq, Prod.ext ht (Option.some.inj hsame).symm⟩
  · rintro ⟨q, hq, rfl⟩
    obtain ⟨before, after, hsplit, _⟩ := List.lookup_eq_some_iff.mp (hput q hq)
    rw [hsplit]
    simp

theorem map_putAll {β : Type} (f : α → β) (tiers : List (Tier × α)) (m : ByTag α) :
    (m.putAll tiers).map (fun p => (p.1, f p.2)) =
      putAll (tiers.map fun p => (p.1, f p.2)) (m.map fun p => (p.1, f p.2)) := by
  induction tiers generalizing m with
  | nil => rfl
  | cons q tiers ih => exact (ih (m.put q.1.name q.2)).trans (by rw [map_put]; rfl)

end ByTag

namespace Backend

def contents (b : Backend) : Storage := b.storage.contents

/-- `b` holds what `b₀` held in its log, and after it the entries of `log`. -/
def Extends (b₀ : Backend) (log : List ArchiveEntry) (b : Backend) : Prop :=
  match b₀.storage, b.storage with
  | .volatile a₀, .volatile a => a.entries = a₀.entries ++ log
  | .durable a₀, .durable a => a.entries = a₀.entries ++ log.map DurableArchive.rowOf
  | _, _ => False

/-- The saved tiers and the saved day are the given ones. -/
def Saved (b : Backend) (tiers : ByTag (List Memory)) (day : Option PendingDay) : Prop :=
  match b.storage with
  | .volatile a => a.snapshots = tiers ∧ a.pendingDay = day
  | .durable a =>
    a.snapshots = tiers.map (fun p => (p.1, Payload.ofValue p.2)) ∧
      a.pendingDay = day.map Payload.ofValue

theorem Extends.refl (b : Backend) : b.Extends [] b := by
  unfold Extends
  cases b.storage <;> simp

theorem Extends.trans {b₀ b b' : Backend} {log later : List ArchiveEntry}
    (first : b₀.Extends log b) (second : b.Extends later b') : b₀.Extends (log ++ later) b' := by
  unfold Extends at *
  cases h₀ : b₀.storage <;> cases h : b.storage <;> cases h' : b'.storage <;> simp_all

theorem extends_of_contents {b b' : Backend} (h : b'.contents = b.contents) : b.Extends [] b' := by
  unfold contents at h
  unfold Extends
  cases hb : b.storage <;> cases hb' : b'.storage <;> simp_all [Storage.contents]

theorem Saved.of_contents {b b' : Backend} {tiers : ByTag (List Memory)} {day : Option PendingDay}
    (h : b'.contents = b.contents) (saved : b.Saved tiers day) : b'.Saved tiers day := by
  unfold contents at h
  unfold Saved at *
  cases hb : b.storage <;> cases hb' : b'.storage <;> simp_all [Storage.contents]

theorem contents_recordRun {b b' : Backend} {run : RunRecord} (h : b.recordRun run = .ok b') :
    b'.contents = b.contents ∧ b'.refused = b.refused := by
  unfold recordRun guarded at h
  split at h
  · cases h
  · split at h
    · rename_i a ha
      cases h
      simp [contents, store, Storage.contents, ha]
    · rename_i a ha
      unfold DurableArchive.recordRun DurableArchive.insertRun at h
      split at h
      · cases h
      · cases h
        simp [contents, store, Storage.contents, ha]

/-- What a write that went through can have done, for both kinds of storage. -/
theorem append_ok_cases {b b' : Backend} {entry : ArchiveEntry} (h : b.append entry = .ok b') :
    b'.refused = b.refused ∧
      ((∃ a, b.storage = .volatile a ∧ b'.storage = .volatile (a.append entry)) ∨
        ∃ a a', b.storage = .durable a ∧ a.append entry = .ok a' ∧
          b'.storage = .durable a') := by
  unfold append guarded at h
  split at h
  · cases h
  · split at h
    · cases h
    · split at h
      · rename_i a ha
        cases h
        exact ⟨rfl, Or.inl ⟨a, ha, rfl⟩⟩
      · rename_i a ha
        cases hd : a.append entry with
        | error e => rw [hd] at h; cases h
        | ok a' =>
            rw [hd] at h
            cases h
            exact ⟨rfl, Or.inr ⟨a, a', ha, hd, rfl⟩⟩

end Backend

namespace DurableArchive

/-- A write to the tables adds one row, keeps the saved tiers, and keeps the saved day or replaces
it by what is left of it once it is read. -/
theorem append_ok_cases {a a' : DurableArchive} {entry : ArchiveEntry}
    (h : a.append entry = .ok a') :
    a'.entries = a.entries ++ [rowOf entry] ∧ a'.snapshots = a.snapshots ∧
      ((a.pendingDay = none ∧ a'.pendingDay = none) ∨
        ∃ payload, ∃ day : PendingDay, a.pendingDay = some payload ∧ payload.read = .ok day ∧
          (((day.prune entry).size = day.size ∧ a'.pendingDay = some payload) ∨
            a'.pendingDay = some (.ofValue (day.prune entry)))) := by
  unfold append insertEntry at h
  by_cases hrepeated : a.entries.any (·.id == (rowOf entry).id) = true
  · simp [hrepeated, bind, Except.bind] at h
  · rw [if_neg hrepeated] at h
    simp only [bind, Except.bind] at h
    unfold pendingDay? at h
    cases hp : a.pendingDay with
    | none =>
        simp only [hp, pure, Except.pure] at h
        cases h
        simp
    | some payload =>
        cases hr : (payload.read : Except Error PendingDay) with
        | error e => simp [hp, hr, Except.map] at h
        | ok day =>
            simp only [hp, hr, Except.map, pure, Except.pure] at h
            by_cases hsize : (day.prune entry).size = day.size
            · rw [if_pos hsize] at h
              cases h
              exact ⟨rfl, rfl, Or.inr ⟨payload, day, rfl, hr, Or.inl ⟨hsize, rfl⟩⟩⟩
            · rw [if_neg hsize] at h
              cases h
              exact ⟨rfl, rfl, Or.inr ⟨payload, day, rfl, hr, Or.inr rfl⟩⟩

end DurableArchive

namespace PendingDay

/-- The keys of the memories of a day, if there is one. -/
def keysOf (day : Option PendingDay) : List Memory.Key :=
  (day.elim [] (·.memories)).map Memory.key

/-- The keys that are left when the memories of an entry are gone. -/
def pruneKeys (entry : ArchiveEntry) (keys : List Memory.Key) : List Memory.Key :=
  keys.filter fun key => !(entry.memories.map (·.id)).contains key.1

/-- The identifiers of the experiences of a day, if there is one. -/
def idsOf (day : Option PendingDay) : List Uid := (day.elim [] (·.experiences)).map (·.id)

/-- The identifiers that are left when the experiences of an entry are gone. -/
def pruneIds (entry : ArchiveEntry) (ids : List Uid) : List Uid :=
  ids.filter fun id => !(entry.experiences.map (·.id)).contains id

theorem keys_prune (d : PendingDay) (entry : ArchiveEntry) :
    (d.prune entry).memories.map Memory.key = pruneKeys entry (d.memories.map Memory.key) := by
  unfold prune pruneKeys
  rw [List.filter_map]
  rfl

theorem ids_prune (d : PendingDay) (entry : ArchiveEntry) :
    (d.prune entry).experiences.map (·.id) = pruneIds entry (d.experiences.map (·.id)) := by
  unfold prune pruneIds
  rw [List.filter_map]
  rfl

/-- A day that is not smaller after an entry was taken out of it had nothing of that entry. -/
theorem prune_eq_of_size {d : PendingDay} {entry : ArchiveEntry}
    (h : (d.prune entry).size = d.size) : d.prune entry = d := by
  have hm : (d.prune entry).memories.length ≤ d.memories.length := List.length_filter_le _ _
  have he : (d.prune entry).experiences.length ≤ d.experiences.length := List.length_filter_le _ _
  unfold size at h
  have hlengths : (d.prune entry).memories.length = d.memories.length ∧
      (d.prune entry).experiences.length = d.experiences.length := by omega
  have hmemories : (d.prune entry).memories = d.memories :=
    List.filter_sublist.eq_of_length hlengths.1
  have hexperiences : (d.prune entry).experiences = d.experiences :=
    List.filter_sublist.eq_of_length hlengths.2
  calc d.prune entry
      _ = { d with
            memories := (d.prune entry).memories
            experiences := (d.prune entry).experiences } := rfl
      _ = d := by rw [hmemories, hexperiences]

end PendingDay

namespace Backend

theorem append_refused {b b' : Backend} {entry : ArchiveEntry} (h : b.append entry = .ok b') :
    b'.refused = b.refused :=
  (append_ok_cases h).1

theorem append_extends {b b' : Backend} {entry : ArchiveEntry} (h : b.append entry = .ok b') :
    b.Extends [entry] b' := by
  obtain ⟨_, ⟨a, ha, ha'⟩ | ⟨a, a', ha, happend, ha'⟩⟩ := append_ok_cases h
  · simp [Extends, ha, ha', VolatileArchive.append]
  · simp [Extends, ha, ha', (DurableArchive.append_ok_cases happend).1]

/-- A write keeps the saved tiers, and takes the memories and the experiences of its entry, and no
others, out of the saved day. -/
theorem append_saved {b b' : Backend} {entry : ArchiveEntry} {tiers : ByTag (List Memory)}
    {day : Option PendingDay} (h : b.append entry = .ok b') (saved : b.Saved tiers day) :
    ∃ day', b'.Saved tiers day' ∧
      PendingDay.keysOf day' = PendingDay.pruneKeys entry (PendingDay.keysOf day) ∧
      PendingDay.idsOf day' = PendingDay.pruneIds entry (PendingDay.idsOf day) := by
  obtain ⟨_, ⟨a, ha, ha'⟩ | ⟨a, a', ha, happend, ha'⟩⟩ := append_ok_cases h
  · simp only [Saved, ha] at saved
    obtain ⟨rfl, rfl⟩ := saved
    refine ⟨a.pendingDay.map (·.prune entry), by simp [Saved, ha', VolatileArchive.append], ?_⟩
    cases a.pendingDay with
    | none => exact ⟨rfl, rfl⟩
    | some d => exact ⟨d.keys_prune entry, d.ids_prune entry⟩
  · simp only [Saved, ha] at saved
    obtain ⟨hsnapshots, hday⟩ := saved
    obtain ⟨_, hsnapshots', hcases⟩ := DurableArchive.append_ok_cases happend
    rw [hsnapshots] at hsnapshots'
    rcases hcases with ⟨hnone, hnone'⟩ | ⟨payload, d, hpayload, hread, hcases⟩
    · have hd : day = none := by
        rw [hnone] at hday
        exact (Option.map_eq_none_iff.mp hday.symm)
      subst hd
      exact ⟨none, by simp [Saved, ha', hsnapshots', hnone'], rfl, rfl⟩
    · rw [hpayload] at hday
      obtain ⟨old, rfl, rfl⟩ := Option.map_eq_some_iff.mp hday.symm
      obtain ⟨hkeys, hids⟩ := PendingDay.keys_eq_of_decode (Payload.decode_of_read hread)
      have hpruned := d.keys_prune entry
      have hprunedIds := d.ids_prune entry
      rcases hcases with ⟨hsize, hkept⟩ | hpruning
      · refine ⟨some old, by simp [Saved, ha', hsnapshots', hkept], ?_⟩
        rw [PendingDay.prune_eq_of_size hsize, hkeys] at hpruned
        rw [PendingDay.prune_eq_of_size hsize, hids] at hprunedIds
        exact ⟨hpruned, hprunedIds⟩
      · refine ⟨some (d.prune entry), by simp [Saved, ha', hsnapshots', hpruning], ?_⟩
        rw [hkeys] at hpruned
        rw [hids] at hprunedIds
        exact ⟨hpruned, hprunedIds⟩

theorem saveSnapshot_ok {b b' : Backend} {tier : Tier} {memories : List Memory}
    (h : b.saveSnapshot tier memories = .ok b') :
    b'.refused = b.refused ∧ b.Extends [] b' ∧
      ∀ tiers day, b.Saved tiers day → b'.Saved (tiers.put tier.name memories) day := by
  unfold saveSnapshot guarded at h
  split at h
  · cases h
  · split at h
    · rename_i a ha
      cases h
      refine ⟨rfl, by simp [Extends, store, ha], ?_⟩
      intro tiers day saved
      simp only [Saved, ha] at saved
      simp [Saved, store, saved]
    · rename_i a ha
      cases h
      refine ⟨rfl, by simp [Extends, store, ha, DurableArchive.saveSnapshot], ?_⟩
      intro tiers day saved
      simp only [Saved, ha] at saved
      simp [Saved, store, DurableArchive.saveSnapshot, saved, ByTag.map_put]

theorem savePendingDay_ok {b b' : Backend} {d : PendingDay} (h : b.savePendingDay d = .ok b') :
    b'.refused = b.refused ∧ b.Extends [] b' ∧
      ∀ tiers day, b.Saved tiers day → b'.Saved tiers (some d) := by
  unfold savePendingDay guarded at h
  split at h
  · cases h
  · split at h
    · rename_i a ha
      cases h
      refine ⟨rfl, by simp [Extends, store, ha], ?_⟩
      intro tiers day saved
      simp only [Saved, ha] at saved
      simp [Saved, store, saved]
    · rename_i a ha
      cases h
      refine ⟨rfl, by simp [Extends, store, ha, DurableArchive.savePendingDay], ?_⟩
      intro tiers day saved
      simp only [Saved, ha] at saved
      simp [Saved, store, DurableArchive.savePendingDay, saved]

theorem saveKnowledge_ok {b b' : Backend} {entries : List KnowledgeEntry}
    (h : b.saveKnowledge entries = .ok b') :
    b'.refused = b.refused ∧ b.Extends [] b' ∧
      ∀ tiers day, b.Saved tiers day → b'.Saved tiers day := by
  unfold saveKnowledge guarded at h
  split at h
  · cases h
  · split at h
    · rename_i a ha
      cases h
      exact ⟨rfl, by simp [Extends, store, ha], by simp [Saved, store, ha]⟩
    · rename_i a ha
      cases h
      refine ⟨rfl, by simp [Extends, store, ha, DurableArchive.saveKnowledge], ?_⟩
      simp [Saved, store, ha, DurableArchive.saveKnowledge]

/-- Saving tiers one after the other saves the first few of them, and all if it goes through. -/
theorem saveSnapshots_spec (b : Backend) (saving : List (Tier × List Memory)) :
    (b.saveSnapshots saving).1.refused = b.refused ∧ b.Extends [] (b.saveSnapshots saving).1 ∧
      ∃ count, ((b.saveSnapshots saving).2 = .ok () → count = saving.length) ∧
        ∀ tiers day, b.Saved tiers day →
          (b.saveSnapshots saving).1.Saved (tiers.putAll (saving.take count)) day := by
  induction saving generalizing b with
  | nil => exact ⟨rfl, Extends.refl b, 0, fun _ => rfl, fun _ _ saved => saved⟩
  | cons p rest ih =>
      obtain ⟨tier, memories⟩ := p
      unfold saveSnapshots andThen
      cases h : b.saveSnapshot tier memories with
      | error e =>
          refine ⟨rfl, Extends.refl b, 0, ?_, fun _ _ saved => saved⟩
          intro hok
          cases hok
      | ok b' =>
          obtain ⟨hrefused, hextends, hsaved⟩ := saveSnapshot_ok h
          obtain ⟨hrefused', hextends', count, hcount, hsaved'⟩ := ih b'
          refine ⟨hrefused'.trans hrefused, hextends.trans hextends', count + 1, ?_, ?_⟩
          · intro hok
            rw [hcount hok, List.length_cons]
          · intro tiers day saved
            exact hsaved' _ _ (hsaved tiers day saved)

end Backend

namespace DurableArchive

theorem entries_saveCheckpoint (a : DurableArchive) (c : Checkpoint) :
    (a.saveCheckpoint c).entries = a.entries := by
  unfold saveCheckpoint
  change (c.tiers.foldl _ a).entries = a.entries
  induction c.tiers generalizing a with
  | nil => rfl
  | cons p rest ih => exact ih (a.saveSnapshot p.1 p.2)

theorem snapshots_saveCheckpoint {a : DurableArchive} {tiers : ByTag (List Memory)}
    (h : a.snapshots = tiers.map fun p => (p.1, Payload.ofValue p.2)) (c : Checkpoint) :
    (a.saveCheckpoint c).snapshots =
      (tiers.putAll c.tiers).map fun p => (p.1, Payload.ofValue p.2) := by
  unfold saveCheckpoint
  change (c.tiers.foldl _ a).snapshots = _
  induction c.tiers generalizing a tiers with
  | nil => exact h
  | cons p rest ih =>
      apply ih
      rw [ByTag.map_put, ← h]
      rfl

end DurableArchive

namespace Backend

/-- Tables take a checkpoint as a whole or not at all. -/
theorem saveCheckpoint_durable {b : Backend} {a : DurableArchive} (ha : b.storage = .durable a)
    (c : Checkpoint) :
    (Operation.saveCheckpoint.name ∈ b.refused ∧
      b.saveCheckpoint c = (b, .error (.refused Operation.saveCheckpoint.name))) ∨
    (Operation.saveCheckpoint.name ∉ b.refused ∧
      b.saveCheckpoint c = (b.store (.durable (a.saveCheckpoint c)), .ok ())) := by
  by_cases hrefused : Operation.saveCheckpoint.name ∈ b.refused
  · exact .inl ⟨hrefused, by simp [saveCheckpoint, ha, andThen, guarded, hrefused]⟩
  · exact .inr ⟨hrefused, by simp [saveCheckpoint, ha, andThen, guarded, hrefused]⟩

/-- What saving a checkpoint leaves behind. If it goes through, the whole checkpoint is in place;
otherwise some of its first tiers may be, and its day. -/
theorem saveCheckpoint_spec (b : Backend) (c : Checkpoint) :
    (b.saveCheckpoint c).1.refused = b.refused ∧ b.Extends [] (b.saveCheckpoint c).1 ∧
      ∃ count, ((b.saveCheckpoint c).2 = .ok () → count = c.tiers.length) ∧
        ∀ tiers day, b.Saved tiers day → ∃ day', (day' = day ∨ day' = some c.pendingDay) ∧
          ((b.saveCheckpoint c).2 = .ok () → day' = some c.pendingDay) ∧
          (b.saveCheckpoint c).1.Saved (tiers.putAll (c.tiers.take count)) day' := by
  cases ha : b.storage with
  | durable a =>
      rcases saveCheckpoint_durable ha c with ⟨_, h⟩ | ⟨_, h⟩
      · rw [h]
        refine ⟨rfl, .refl b, 0, fun h => (by cases h), ?_⟩
        intro tiers day saved
        exact ⟨day, Or.inl rfl, fun h => (by cases h), saved⟩
      · rw [h]
        refine ⟨rfl, ?_, c.tiers.length, fun _ => rfl, ?_⟩
        · simp [Extends, store, ha, DurableArchive.entries_saveCheckpoint]
        · intro tiers day saved
          simp only [Saved, ha] at saved
          refine ⟨some c.pendingDay, Or.inr rfl, fun _ => rfl, ?_⟩
          rw [List.take_length]
          exact ⟨DurableArchive.snapshots_saveCheckpoint saved.1 c, rfl⟩
  | volatile a =>
      obtain ⟨hrefused, hextends, count, hcount, hsaved⟩ := b.saveSnapshots_spec c.tiers
      simp only [saveCheckpoint, ha]
      cases hs : b.saveSnapshots c.tiers with
      | mk b₁ result =>
          rw [hs] at hrefused hextends hcount hsaved
          cases result with
          | error e =>
              refine ⟨hrefused, hextends, count, fun h => (by cases h), ?_⟩
              intro tiers day saved
              exact ⟨day, Or.inl rfl, fun h => (by cases h), hsaved tiers day saved⟩
          | ok u =>
              have hall : count = c.tiers.length := hcount rfl
              simp only [andThen]
              cases hd : b₁.savePendingDay c.pendingDay with
              | error e =>
                  refine ⟨hrefused, hextends, count, fun h => (by cases h), ?_⟩
                  intro tiers day saved
                  exact ⟨day, Or.inl rfl, fun h => (by cases h), hsaved tiers day saved⟩
              | ok b₂ =>
                  obtain ⟨hrefused₂, hextends₂, hsaved₂⟩ := savePendingDay_ok hd
                  simp only
                  cases hk : b₂.saveKnowledge c.knowledge with
                  | error e =>
                      refine ⟨hrefused₂.trans hrefused, hextends.trans hextends₂, count,
                        fun _ => hall, ?_⟩
                      intro tiers day saved
                      exact ⟨some c.pendingDay, Or.inr rfl, fun _ => rfl,
                        hsaved₂ _ _ (hsaved tiers day saved)⟩
                  | ok b₃ =>
                      obtain ⟨hrefused₃, hextends₃, hsaved₃⟩ := saveKnowledge_ok hk
                      refine ⟨hrefused₃.trans (hrefused₂.trans hrefused),
                        hextends.trans (hextends₂.trans hextends₃), count, fun _ => hall, ?_⟩
                      intro tiers day saved
                      exact ⟨some c.pendingDay, Or.inr rfl, fun _ => rfl,
                        hsaved₃ _ _ (hsaved₂ _ _ (hsaved tiers day saved))⟩

/-- Refusals under which a checkpoint is written as a whole or not at all: its first part is
refused, or no part after the tiers. -/
def WholeCheckpoints (refused : List String) : Prop :=
  Operation.saveSnapshot.name ∈ refused ∨
    (Operation.savePendingDay.name ∉ refused ∧ Operation.saveKnowledge.name ∉ refused)

theorem saveSnapshots_ok {b : Backend} (h : Operation.saveSnapshot.name ∉ b.refused)
    (saving : List (Tier × List Memory)) : (b.saveSnapshots saving).2 = .ok () := by
  induction saving generalizing b with
  | nil => rfl
  | cons p rest ih =>
      unfold saveSnapshots andThen
      cases hs : b.saveSnapshot p.1 p.2 with
      | error e =>
          simp only [saveSnapshot, guarded, List.contains_iff_mem, h, if_false] at hs
          split at hs <;> cases hs
      | ok b' =>
          apply ih
          rw [(saveSnapshot_ok hs).1]
          exact h

/-- Values take a checkpoint if none of its parts is refused. -/
theorem saveCheckpoint_volatile_ok {b : Backend} {a : VolatileArchive}
    (ha : b.storage = .volatile a) (hsnapshot : Operation.saveSnapshot.name ∉ b.refused)
    (hday : Operation.savePendingDay.name ∉ b.refused)
    (hknowledge : Operation.saveKnowledge.name ∉ b.refused) (c : Checkpoint) :
    (b.saveCheckpoint c).2 = .ok () := by
  have hall := saveSnapshots_ok hsnapshot c.tiers
  have hkept := (b.saveSnapshots_spec c.tiers).1
  simp only [saveCheckpoint, ha]
  cases hs : b.saveSnapshots c.tiers with
  | mk b₁ result =>
      rw [hs] at hall hkept
      obtain rfl : result = .ok () := hall
      have hd : ∃ b₂, b₁.savePendingDay c.pendingDay = .ok b₂ := by
        simp only at hkept
        simp only [savePendingDay, guarded, List.contains_iff_mem, hkept, hday, if_false]
        split <;> exact ⟨_, rfl⟩
      obtain ⟨b₂, hd⟩ := hd
      have hk : ∃ b₃, b₂.saveKnowledge c.knowledge = .ok b₃ := by
        simp only at hkept
        simp only [saveKnowledge, guarded, List.contains_iff_mem, (savePendingDay_ok hd).1,
          hkept, hknowledge, if_false]
        split <;> exact ⟨_, rfl⟩
      obtain ⟨b₃, hk⟩ := hk
      simp only [andThen, hd, hk]

/-- A checkpoint is saved if neither it nor any of its parts is refused. -/
theorem saveCheckpoint_ok {b : Backend} (hwhole : Operation.saveCheckpoint.name ∉ b.refused)
    (hsnapshot : Operation.saveSnapshot.name ∉ b.refused)
    (hday : Operation.savePendingDay.name ∉ b.refused)
    (hknowledge : Operation.saveKnowledge.name ∉ b.refused) (c : Checkpoint) :
    (b.saveCheckpoint c).2 = .ok () := by
  cases ha : b.storage with
  | durable a =>
      rcases saveCheckpoint_durable ha c with ⟨hrefused, _⟩ | ⟨_, h⟩
      · exact absurd hrefused hwhole
      · rw [h]
  | volatile a => exact saveCheckpoint_volatile_ok ha hsnapshot hday hknowledge c

/-- A checkpoint that is not saved leaves the backend as it was. -/
theorem saveCheckpoint_error {b : Backend} {c : Checkpoint} {e : Error}
    (whole : WholeCheckpoints b.refused) (htiers : c.tiers ≠ [])
    (h : (b.saveCheckpoint c).2 = .error e) : (b.saveCheckpoint c).1 = b := by
  cases ha : b.storage with
  | durable a =>
      rcases saveCheckpoint_durable ha c with ⟨_, hfailed⟩ | ⟨_, hsaved⟩
      · rw [hfailed]
      · rw [hsaved] at h
        cases h
  | volatile a =>
      by_cases hrefused : Operation.saveSnapshot.name ∈ b.refused
      · obtain ⟨⟨tier, memories⟩, rest, hc⟩ := List.exists_cons_of_ne_nil htiers
        have hfirst : b.saveSnapshots c.tiers =
            (b, .error (.refused Operation.saveSnapshot.name)) := by
          rw [hc]
          simp [saveSnapshots, andThen, saveSnapshot, guarded, hrefused]
        simp only [saveCheckpoint, ha, hfirst]
      · obtain ⟨hday, hknowledge⟩ := whole.resolve_left hrefused
        rw [saveCheckpoint_volatile_ok ha hrefused hday hknowledge] at h
        cases h

/-- Saved tiers with the keys of their memories in place of the memories. -/
def keysByTag (tiers : ByTag (List Memory)) : ByTag (List Memory.Key) :=
  tiers.map fun p => (p.1, p.2.map Memory.key)

theorem keys_loadSnapshots {b : Backend} {tiers loaded : ByTag (List Memory)}
    {day : Option PendingDay} (saved : b.Saved tiers day) (h : b.loadSnapshots = .ok loaded) :
    keysByTag loaded = keysByTag tiers := by
  unfold loadSnapshots guarded at h
  split at h
  · cases h
  · cases ha : b.storage with
    | volatile a =>
        simp only [Saved, ha] at saved
        simp only [ha] at h
        cases h
        rw [saved.1]
    | durable a =>
        simp only [Saved, ha] at saved
        simp only [ha, DurableArchive.loadSnapshots, saved.1] at h
        clear saved ha
        induction tiers generalizing loaded with
        | nil =>
            cases h
            rfl
        | cons p tiers ih =>
            rw [List.map_cons, List.mapM_cons] at h
            simp only [bind, Except.bind, pure, Except.pure] at h
            cases hr : ((Payload.ofValue p.2).read : Except Error (List Memory)) with
            | error e => simp [hr] at h
            | ok memories =>
                simp only [hr] at h
                split at h
                · cases h
                · rename_i rest hrest
                  cases h
                  have hkeys := Payload.keys_of_read hr
                  unfold keysByTag at ih ⊢
                  rw [List.map_cons, List.map_cons, hkeys, ih hrest]

/-- What is loaded is the saved day, or what a row that holds it is read as. -/
theorem loadPendingDay_cases {b : Backend} {tiers : ByTag (List Memory)}
    {day loaded : Option PendingDay} (saved : b.Saved tiers day)
    (h : b.loadPendingDay = .ok loaded) :
    loaded = day ∨ ∃ d read, day = some d ∧ loaded = some read ∧
      (Payload.ofValue d).read = .ok read := by
  unfold loadPendingDay guarded at h
  split at h
  · cases h
  · cases ha : b.storage with
    | volatile a =>
        simp only [Saved, ha] at saved
        simp only [ha] at h
        cases h
        exact .inl saved.2
    | durable a =>
        simp only [Saved, ha] at saved
        simp only [ha, DurableArchive.pendingDay?, saved.2] at h
        cases day with
        | none =>
            cases h
            exact .inl rfl
        | some d =>
            cases hr : ((Payload.ofValue d).read : Except Error PendingDay) with
            | error e => simp [hr, Except.map] at h
            | ok read =>
                simp only [Option.map_some, hr, Except.map] at h
                cases h
                exact .inr ⟨d, read, rfl, rfl, hr⟩

theorem keys_loadPendingDay {b : Backend} {tiers : ByTag (List Memory)}
    {day loaded : Option PendingDay} (saved : b.Saved tiers day)
    (h : b.loadPendingDay = .ok loaded) :
    PendingDay.keysOf loaded = PendingDay.keysOf day ∧
      PendingDay.idsOf loaded = PendingDay.idsOf day := by
  rcases loadPendingDay_cases saved h with rfl | ⟨d, read, rfl, rfl, hread⟩
  · exact ⟨rfl, rfl⟩
  · exact PendingDay.keys_eq_of_decode (Payload.decode_of_read hread)

/-- The saved tiers and the saved day by the keys of their memories. -/
def SavedKeys (b : Backend) (tiers : ByTag (List Memory.Key)) (day : List Memory.Key) : Prop :=
  ∃ saved savedDay, b.Saved saved savedDay ∧ keysByTag saved = tiers ∧
    PendingDay.keysOf savedDay = day

theorem SavedKeys.of_contents {b b' : Backend} {tiers : ByTag (List Memory.Key)}
    {day : List Memory.Key} (h : b'.contents = b.contents) (saved : b.SavedKeys tiers day) :
    b'.SavedKeys tiers day := by
  obtain ⟨T, d, hsaved, htiers, hday⟩ := saved
  exact ⟨T, d, hsaved.of_contents h, htiers, hday⟩

theorem SavedKeys.append {b b' : Backend} {tiers : ByTag (List Memory.Key)}
    {day : List Memory.Key} {entry : ArchiveEntry} (h : b.append entry = .ok b')
    (saved : b.SavedKeys tiers day) : b'.SavedKeys tiers (PendingDay.pruneKeys entry day) := by
  obtain ⟨T, d, hsaved, htiers, hday⟩ := saved
  obtain ⟨d', hsaved', hpruned, _⟩ := append_saved h hsaved
  exact ⟨T, d', hsaved', htiers, hday ▸ hpruned⟩

/-- The keys are determined by what the backend holds. -/
theorem SavedKeys.unique {b : Backend} {tiers tiers' : ByTag (List Memory.Key)}
    {day day' : List Memory.Key} (first : b.SavedKeys tiers day)
    (second : b.SavedKeys tiers' day') : tiers = tiers' ∧ day = day' := by
  obtain ⟨T, d, hsaved, rfl, rfl⟩ := first
  obtain ⟨T', d', hsaved', rfl, rfl⟩ := second
  unfold Saved at hsaved hsaved'
  cases hb : b.storage with
  | volatile a =>
      rw [hb] at hsaved hsaved'
      rw [← hsaved.1, ← hsaved.2, hsaved'.1, hsaved'.2]
      exact ⟨rfl, rfl⟩
  | durable a =>
      rw [hb] at hsaved hsaved'
      have hsame := hsaved.1.symm.trans hsaved'.1
      have hdays := hsaved.2.symm.trans hsaved'.2
      constructor
      · clear hsaved hsaved'
        induction T generalizing T' with
        | nil => cases T' with
          | nil => rfl
          | cons q T' => cases hsame
        | cons p T ih => cases T' with
          | nil => cases hsame
          | cons q T' =>
              obtain ⟨hfirst, hrest⟩ := List.cons.inj hsame
              obtain ⟨htag, hvalue⟩ := Prod.mk.inj hfirst
              have hkeys := Payload.keys_of_ofValue hvalue
              unfold keysByTag at ih ⊢
              rw [List.map_cons, List.map_cons, htag, hkeys, ih T' hrest]
      · cases d with
        | none => cases d' with
          | none => rfl
          | some e' => cases hdays
        | some e => cases d' with
          | none => cases hdays
          | some e' =>
              have hvalue := Option.some.inj (Option.some.inj hdays)
              exact (PendingDay.keys_eq_of_document hvalue).1

/-- Saving a checkpoint puts some of its tiers in place of those saved before, and perhaps its day.
If it succeeds, all of it is saved. -/
theorem SavedKeys.saveCheckpoint {b : Backend} {tiers : ByTag (List Memory.Key)}
    {day : List Memory.Key} (saved : b.SavedKeys tiers day) (c : Checkpoint) :
    let keys := c.tiers.map fun p => (p.1, p.2.map Memory.key)
    ∃ count day', (b.saveCheckpoint c).1.SavedKeys (tiers.putAll (keys.take count)) day' ∧
      (day' = day ∨ day' = c.pendingDay.memories.map Memory.key) ∧
      ((b.saveCheckpoint c).2 = .ok () →
        count = c.tiers.length ∧ day' = c.pendingDay.memories.map Memory.key) := by
  intro keys
  obtain ⟨T, d, hsaved, htiers, hday⟩ := saved
  obtain ⟨_, _, count, hcount, hall⟩ := b.saveCheckpoint_spec c
  obtain ⟨d', hd', hok, hsaved'⟩ := hall T d hsaved
  refine ⟨count, PendingDay.keysOf d', ⟨_, d', hsaved', ?_, rfl⟩, ?_, ?_⟩
  · rw [← htiers, ← List.map_take]
    exact ByTag.map_putAll _ _ _
  · rcases hd' with hd' | hd'
    · exact .inl (hd' ▸ hday)
    · exact .inr (hd' ▸ rfl)
  · intro h
    exact ⟨hcount h, hok h ▸ rfl⟩

end Backend

end Engram
