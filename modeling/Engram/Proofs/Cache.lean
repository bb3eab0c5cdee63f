import Engram.Proofs.Detection
import Engram.Proofs.Likeness
import Mathlib.Data.List.Induction

/-! Embedding through the cache. Whatever texts were embedded before, a call answers as one that
asks the embedder. What is cached has passed the checks when it came in, and it is there for the
texts that were used last; a text that did not pass is never cached, so the embedder is asked
again. -/
namespace Engram

section Recency

variable {α : Type} [DecidableEq α]

theorem eraseDups_filter (p : α → Bool) (items : List α) :
    (items.filter p).eraseDups = items.eraseDups.filter p := by
  cases items with
  | nil => rfl
  | cons a rest =>
      have ih := eraseDups_filter p (rest.filter fun b => !b == a)
      rw [List.eraseDups_cons]
      by_cases ha : p a
      · rw [List.filter_cons_of_pos ha, List.filter_cons_of_pos ha, List.eraseDups_cons, ← ih,
          List.filter_filter, List.filter_filter]
        simp only [Bool.and_comm]
      · rw [List.filter_cons_of_neg ha, List.filter_cons_of_neg ha, ← ih, List.filter_filter]
        congr 1
        refine List.filter_congr ?_
        intro b _
        by_cases hb : b = a
        · rw [hb]
          simp [ha]
        · simp [hb]
termination_by items.length
decreasing_by exact Nat.lt_succ_of_le (List.length_filter_le _ _)

/-- One more than is kept is enough to look at, since a value occurs once. -/
theorem take_filter_take {items : List α} (nodup : items.Nodup) (a : α) (n : Nat) :
    ((items.take (n + 1)).filter (· ≠ a)).take n = (items.filter (· ≠ a)).take n := by
  induction items generalizing n with
  | nil => rfl
  | cons b rest ih =>
      obtain ⟨hfresh, hrest⟩ := List.nodup_cons.mp nodup
      rw [List.take_succ_cons]
      by_cases hb : b = a
      · have hall : ∀ c ∈ rest, c ≠ a := fun c hc hca => hfresh (hb ▸ hca ▸ hc)
        have hsame : rest.filter (· ≠ a) = rest := List.filter_eq_self.mpr (by simpa using hall)
        have hsame' : (rest.take n).filter (· ≠ a) = rest.take n :=
          List.filter_eq_self.mpr (by simpa using fun c hc => hall c (List.mem_of_mem_take hc))
        rw [List.filter_cons_of_neg (by simpa using hb),
          List.filter_cons_of_neg (by simpa using hb), hsame, hsame', List.take_take, Nat.min_self]
      · rw [List.filter_cons_of_pos (by simpa using hb),
          List.filter_cons_of_pos (by simpa using hb)]
        cases n with
        | zero => rfl
        | succ n => rw [List.take_succ_cons, List.take_succ_cons, ih hrest]

/-- The last values used, each of them once, are the ones before with the new one moved to the
front. -/
theorem take_eraseDups_cons (a : α) (items : List α) (n : Nat) :
    (a :: items).eraseDups.take (n + 1) =
      (a :: (items.eraseDups.take (n + 1)).filter (· ≠ a)).take (n + 1) := by
  have hothers : (items.filter fun b => !b == a).eraseDups = items.eraseDups.filter (· ≠ a) := by
    rw [eraseDups_filter]
    refine List.filter_congr ?_
    intro b _
    rw [decide_not]
    rfl
  rw [List.eraseDups_cons, hothers, List.take_succ_cons, List.take_succ_cons,
    take_filter_take (Detect.nodup_eraseDups items)]

end Recency

namespace EmbeddingCache

variable {dimension : Nat} {embedder : Embedder} {c : EmbeddingCache} {text : String}

/-- The cache after some texts were embedded. -/
def after (dimension : Nat) (embedder : Embedder) (texts : List String) : EmbeddingCache :=
  texts.foldl (fun c text => (c.embed dimension embedder text).1) empty

theorem after_concat (texts : List String) :
    after dimension embedder (texts ++ [text]) =
      ((after dimension embedder texts).embed dimension embedder text).1 := by
  rw [after, List.foldl_append]
  rfl

theorem faithful_after (texts : List String) :
    (after dimension embedder texts).Faithful dimension embedder := by
  induction texts using List.reverseRecOn with
  | nil =>
      intro p hp
      cases hp
  | append_singleton texts text ih =>
      rw [after_concat]
      exact (ih.embed text).1

theorem check_eq_ok_iff {answer : Except CollaboratorFailure Embedding} {embedding : Embedding} :
    check dimension answer = .ok embedding ↔
      answer = .ok embedding ∧ embedding.length = dimension ∧ ∀ x ∈ embedding, x.isFinite := by
  constructor
  · intro h
    unfold check at h
    split at h
    · cases h
    · cases h
    · split at h
      · cases h
      · rename_i given hwidth
        split at h
        · rename_i hfinite
          obtain rfl : given = embedding := Except.ok.inj h
          exact ⟨rfl, not_not.mp hwidth, by simpa using hfinite⟩
        · cases h
  · rintro ⟨rfl, hwidth, hfinite⟩
    unfold check
    simp only
    rw [if_neg (not_not.mpr hwidth), if_pos (by simpa using hfinite)]

/-- The embedder has an embedding for the text that passes the checks. -/
def passes (dimension : Nat) (embedder : Embedder) (text : String) : Bool :=
  (check dimension (embedder text)).isOk

/-- The texts that the cache knows, the last one used first. -/
def known (c : EmbeddingCache) : List String := c.entries.map (·.1)

theorem known_put (c : EmbeddingCache) (text : String) (embedding : Embedding) :
    (c.put text embedding).known = (text :: c.known.filter (· ≠ text)).take capacity := by
  unfold known put
  simp only
  rw [List.map_take, List.map_cons, List.filter_map]
  rfl

theorem lookup_of_mem_known (h : text ∈ c.known) :
    ∃ embedding, c.entries.lookup text = some embedding := by
  obtain ⟨p, hp, rfl⟩ := List.mem_map.mp h
  exact Option.isSome_iff_exists.mp (List.lookup_isSome_iff.mpr ⟨p, hp, BEq.rfl⟩)

theorem lookup_of_not_mem_known (h : text ∉ c.known) : c.entries.lookup text = none := by
  rw [List.lookup_eq_none_iff]
  intro p hp
  rw [bne_iff_ne]
  exact fun hsame => h (List.mem_map.mpr ⟨p, hp, hsame.symm⟩)

theorem passes_of_known (faithful : c.Faithful dimension embedder) (h : text ∈ c.known) :
    passes dimension embedder text := by
  obtain ⟨p, hp, rfl⟩ := List.mem_map.mp h
  rw [passes, faithful p hp]
  rfl

/-- A text that passes is known from then on as the last one used; any other leaves the cache as it
is. The embedder is asked for a text that is not known. -/
theorem embed_step (faithful : c.Faithful dimension embedder) (text : String) :
    (c.embed dimension embedder text).1.known =
        (if passes dimension embedder text then (text :: c.known.filter (· ≠ text)).take capacity
          else c.known) ∧
      (c.embed dimension embedder text).1.calls =
        c.calls + if text ∈ c.known then 0 else 1 := by
  by_cases hknown : text ∈ c.known
  · obtain ⟨embedding, hfound⟩ := lookup_of_mem_known hknown
    unfold embed
    rw [hfound, if_pos (passes_of_known faithful hknown), if_pos hknown]
    exact ⟨c.known_put text embedding, rfl⟩
  · unfold embed
    rw [lookup_of_not_mem_known hknown, if_neg hknown]
    unfold passes
    cases check dimension (embedder text) with
    | error e => exact ⟨rfl, rfl⟩
    | ok embedding => exact ⟨known_put { c with calls := c.calls + 1 } text embedding, rfl⟩

/-- The cache knows the last texts that passed, each of them once. -/
theorem known_after (dimension : Nat) (embedder : Embedder) (texts : List String) :
    (after dimension embedder texts).known =
      (texts.reverse.filter (passes dimension embedder)).eraseDups.take capacity := by
  induction texts using List.reverseRecOn with
  | nil => rfl
  | append_singleton texts text ih =>
      rw [after_concat, (embed_step (faithful_after texts) text).1, ih, List.reverse_concat]
      by_cases hpasses : passes dimension embedder text
      · rw [if_pos hpasses, List.filter_cons_of_pos hpasses]
        exact (take_eraseDups_cons text _ 99).symm
      · rw [if_neg hpasses, List.filter_cons_of_neg hpasses]

/-- The cache is transparent. Whatever was embedded before, a call answers as one without a cache:
with the embedder's vector if that has the width and finite components, and otherwise with the same
error. At most a hundred embeddings are cached, those of the last texts that passed, and each of
them is one that the embedder gives and that passes. The embedder is asked only for texts that are
not among them. -/
theorem cache_transparent (dimension : Nat) (embedder : Embedder) (texts : List String)
    (text : String) :
    let cache := after dimension embedder texts
    let call := cache.embed dimension embedder text
    call.2 = (empty.embed dimension embedder text).2 ∧
    (∀ embedding, call.2 = .ok embedding ↔ embedder text = .ok embedding ∧
      embedding.length = dimension ∧ ∀ x ∈ embedding, x.isFinite) ∧
    cache.entries.length ≤ 100 ∧
    (∀ p ∈ cache.entries, embedder p.1 = .ok p.2 ∧ p.2.length = dimension ∧
      ∀ x ∈ p.2, x.isFinite) ∧
    cache.entries.map (·.1) =
      (texts.reverse.filter (passes dimension embedder)).eraseDups.take 100 ∧
    call.1.calls = cache.calls + if text ∈ cache.entries.map (·.1) then 0 else 1 := by
  intro cache call
  have faithful : cache.Faithful dimension embedder := faithful_after texts
  have hcall : call.2 = check dimension (embedder text) := (faithful.embed text).2
  have hknown := known_after dimension embedder texts
  refine ⟨?_, ?_, ?_, ?_, hknown, (embed_step faithful text).2⟩
  · have hempty : empty.Faithful dimension embedder := faithful_after []
    rw [hcall, (hempty.embed text).2]
  · intro embedding
    rw [hcall, check_eq_ok_iff]
  · have hlength := congrArg List.length hknown
    rw [known, List.length_map, List.length_take] at hlength
    change cache.entries.length = min 100 _ at hlength
    omega
  · intro p hp
    exact check_eq_ok_iff.mp (faithful p hp)

end EmbeddingCache

end Engram
