import Engram.Proofs.Chronology
import Engram.Proofs.Doubles
import Engram.Proofs.Numbering

/-! What a retrieval finds and what it changes. The places of a tier are ranked by a strict order,
in which the place itself comes last, and the first ones are returned. Retrievals are counted by
number, so a memory that stands at several places is counted once for each place it was returned
from, as far as its counter goes: at the largest count it starts again from zero. -/
namespace Engram

open scoped List

/-- Read as a float, the relevance is the product; only where that is undefined do the bits say
more. -/
theorem relevance_toFloat (similarity : Float32) (importance : Number.Double) :
    (relevance similarity importance).toFloat =
      Number.widen similarity * importance.toFloat := by
  unfold relevance
  cases hproduct : (Number.widen similarity * importance.toFloat).isNaN with
  | false =>
      simp only [hproduct, Bool.not_false, if_true]
      exact Number.Double.toFloat_ofFloat _
  | true =>
      simp only [hproduct, Bool.not_true, Bool.false_eq_true, if_false]
      split
      · rename_i h
        rw [Bool.and_eq_true] at h
        exact Number.Double.toFloat_of_isNaN (Number.Double.isNaN_quiet h.1) hproduct
      · exact Number.Double.toFloat_of_isNaN Number.Double.isNaN_indefinite hproduct

namespace Ranked

instance : Std.TransCmp order :=
  inferInstanceAs (Std.TransCmp (compareLex (fun a b => compareOn (·.relevance.rank) b a)
    (compareLex (fun a b => compareOn (fun r : Ranked => r.memory.retrievals) b a)
      (compareOn fun r : Ranked => r.memory.timestamp))))

end Ranked

/-- `p` is found before `q`: it is more relevant, or as relevant and more often retrieved, or in
both alike and older, or alike in all and at an earlier place. -/
def Precedes (p q : Ranked × Nat) : Prop :=
  q.1.relevance.Before p.1.relevance ∨ p.1.relevance = q.1.relevance ∧
    (q.1.memory.retrievals < p.1.memory.retrievals ∨
      q.1.memory.retrievals = p.1.memory.retrievals ∧
        (p.1.memory.timestamp.before q.1.memory.timestamp ∨
          p.1.memory.timestamp = q.1.memory.timestamp ∧ p.2 < q.2))

/-- The strict order is that of the comparison, with the places to decide between equals. -/
theorem precedes_of_order {p q : Ranked × Nat}
    (h : p.1.order q.1 = .lt ∨ p.1.order q.1 = .eq ∧ p.2 < q.2) : Precedes p q := by
  unfold Ranked.order at h
  rw [Ordering.then_eq_lt, Ordering.then_eq_lt, Ordering.then_eq_eq, Ordering.then_eq_eq,
    Number.Double.compareTotal_eq_lt, Number.Double.compareTotal_eq_eq, Std.compare_eq_lt,
    Std.compare_eq_iff_eq, Time.Instant.compare_eq_lt, Time.Instant.compare_eq_eq] at h
  rcases h with (h | ⟨level, h | ⟨used, h⟩⟩) | ⟨⟨level, used, time⟩, place⟩
  · exact .inl h
  · exact .inr ⟨level.symm, .inl h⟩
  · exact .inr ⟨level.symm, .inr ⟨used, .inl h⟩⟩
  · exact .inr ⟨level.symm, .inr ⟨used, .inr ⟨time, place⟩⟩⟩

theorem cosineSimilarity_ok {a b : Embedding} (h : a.length = b.length) :
    ∃ x, cosineSimilarity a b = .ok x := by
  unfold cosineSimilarity
  rw [if_neg (not_not.mpr h)]
  simp only
  split
  · exact ⟨_, rfl⟩
  · exact ⟨_, rfl⟩

/-- The places of a list of traces, in the order in which a query finds them. -/
structure Ranking (query : Embedding) (traces : List Trace) (ranking : List (Ranked × Nat)) :
    Prop where
  places : (ranking.map fun p => (p.1.trace, p.2)) ~ traces.zipIdx
  similarity : ∀ p ∈ ranking,
    cosineSimilarity query p.1.memory.embedding = .ok p.1.similarity
  relevance : ∀ p ∈ ranking,
    p.1.relevance = relevance p.1.similarity p.1.memory.importance ∧
      p.1.relevance.toFloat = Number.widen p.1.similarity * p.1.memory.importance.toFloat
  inOrder : ranking.Pairwise Precedes

theorem compareWith_ok_iff {query : Embedding} {a : Trace} {r : Ranked} :
    compareWith query a = .ok r ↔ r.trace = a ∧
      cosineSimilarity query a.memory.embedding = .ok r.similarity ∧
      r.relevance = relevance r.similarity a.memory.importance := by
  unfold compareWith
  cases cosineSimilarity query a.memory.embedding with
  | error e => exact iff_of_false (fun h => nomatch h) (fun h => nomatch h.2.1)
  | ok x =>
      constructor
      · intro h
        obtain rfl := Except.ok.inj h
        exact ⟨rfl, rfl, rfl⟩
      · obtain ⟨trace, similarity, relevance⟩ := r
        rintro ⟨htrace, hsimilarity, hrelevance⟩
        dsimp only at htrace hsimilarity hrelevance
        obtain rfl := Except.ok.inj hsimilarity
        subst htrace hrelevance
        rfl

/-- Only an embedding of another width cannot be compared. -/
theorem compareWith_error_iff {query : Embedding} {a : Trace} {e : Error} :
    compareWith query a = .error e ↔ a.memory.embedding.length ≠ query.length ∧
      e = .dimensionMismatch query.length a.memory.embedding.length := by
  unfold compareWith
  rw [bind_error_iff]
  by_cases h : query.length = a.memory.embedding.length
  · obtain ⟨x, hx⟩ := cosineSimilarity_ok h
    rw [hx]
    refine iff_of_false ?_ fun hwide => hwide.1 h.symm
    rintro (h | ⟨_, _, h⟩)
    · cases h
    · cases h
  · have hwide : cosineSimilarity query a.memory.embedding =
        .error (.dimensionMismatch query.length a.memory.embedding.length) := if_pos h
    rw [hwide]
    constructor
    · rintro (h' | ⟨_, h', _⟩)
      · exact ⟨Ne.symm h, (Except.error.inj h').symm⟩
      · cases h'
    · rintro ⟨_, rfl⟩
      exact .inl rfl

theorem compareWith_ok {query : Embedding} {a : Trace}
    (h : a.memory.embedding.length = query.length) : ∃ r, compareWith query a = .ok r := by
  cases hr : compareWith query a with
  | ok r => exact ⟨r, rfl⟩
  | error e => exact absurd h (compareWith_error_iff.mp hr).1

theorem map_trace_compared {query : Embedding} {traces : List Trace} {compared : List Ranked}
    (h : traces.mapM (compareWith query) = .ok compared) : compared.map (·.trace) = traces := by
  induction mapM_ok_iff.mp h with
  | nil => rfl
  | cons hfirst hrest ih =>
      rw [List.map_cons, ih (mapM_ok_iff.mpr hrest), (compareWith_ok_iff.mp hfirst).1]

/-- The comparisons of a list, each with its place, are sorted into a ranking. -/
theorem ranking_sort {query : Embedding} {traces : List Trace} {compared : List Ranked}
    (h : traces.mapM (compareWith query) = .ok compared) :
    Ranking query traces (compared.zipIdx.mergeSort (List.zipIdxLE Ranked.precedes)) := by
  have hperm : compared.zipIdx.mergeSort (List.zipIdxLE Ranked.precedes) ~ compared.zipIdx :=
    List.mergeSort_perm _ _
  have hmade : ∀ p ∈ compared.zipIdx.mergeSort (List.zipIdxLE Ranked.precedes),
      ∃ a ∈ traces, compareWith query a = .ok p.1 := by
    intro p hp
    have hin : p.1 ∈ compared.zipIdx.map Prod.fst := List.mem_map_of_mem (hperm.mem_iff.mp hp)
    rw [List.zipIdx_map_fst] at hin
    exact mem_of_mapM_ok h hin
  refine ⟨?_, ?_, ?_, ?_⟩
  · rw [← map_trace_compared h, List.zipIdx_map]
    exact hperm.map _
  · intro p hp
    obtain ⟨a, _, hcompare⟩ := hmade p hp
    obtain ⟨rfl, hsimilarity, _⟩ := compareWith_ok_iff.mp hcompare
    exact hsimilarity
  · intro p hp
    obtain ⟨a, _, hcompare⟩ := hmade p hp
    obtain ⟨rfl, _, hrelevance⟩ := compareWith_ok_iff.mp hcompare
    exact ⟨hrelevance, hrelevance ▸ relevance_toFloat _ _⟩
  · -- Sorting is stable, so the places decide between equals.
    exact (pairwise_sort_places compared).imp precedes_of_order

theorem Ranking.traces_perm {query : Embedding} {traces : List Trace}
    {ranking : List (Ranked × Nat)} (h : Ranking query traces ranking) :
    ranking.map (·.1.trace) ~ traces := by
  have hfirst := h.places.map Prod.fst
  rw [List.zipIdx_map_fst, List.map_map] at hfirst
  exact hfirst

/-- A memory after some more retrievals, as its counter shows them. -/
def Trace.retrieved (times : Nat) (a : Trace) : Trace :=
  { a with memory := { a.memory with retrievals := a.memory.retrievals + .ofNat times } }

theorem Trace.retrieved_zero (a : Trace) : a.retrieved 0 = a := by
  unfold retrieved
  rw [show UInt64.ofNat 0 = 0 from rfl, UInt64.add_zero]

theorem Trace.retrieved_retrieved (a : Trace) (times more : Nat) :
    (a.retrieved times).retrieved more = a.retrieved (times + more) := by
  unfold retrieved
  rw [UInt64.ofNat_add, ← UInt64.add_assoc]

namespace Store

variable {s s' : Store} {c : RetrievalConfig} {query : Embedding}

theorem best_ok {t : Tier} (widths : ∀ a ∈ s.traces t, a.memory.embedding.length = query.length) :
    ∃ ranking, Ranking query (s.traces t) ranking ∧
      s.best c query t = .ok ((ranking.take (c.top t)).map (·.1.trace)) := by
  obtain ⟨compared, hcompared⟩ : ∃ compared, (s.traces t).mapM (compareWith query) = .ok compared :=
    mapM_ok fun a ha => compareWith_ok (widths a ha)
  have hrank : rank (s.traces t) query = .ok (compared.mergeSort Ranked.precedes) := by
    unfold rank
    rw [hcompared]
    rfl
  refine ⟨_, ranking_sort hcompared, ?_⟩
  unfold best
  rw [hrank, ← List.mergeSort_zipIdx]
  simp only [Except.map, ← List.map_take, List.map_map, Function.comp_def]

theorem select_ok (widths : ∀ a ∈ s.all, a.memory.embedding.length = query.length) :
    ∃ ranking : Tier → List (Ranked × Nat), (∀ t, Ranking query (s.traces t) (ranking t)) ∧
      s.select c query =
        .ok (Tier.all.flatMap fun t => ((ranking t).take (c.top t)).map (·.1.trace)) := by
  have hbest (t : Tier) := best_ok (c := c) fun a ha =>
    widths a (List.mem_flatMap.mpr ⟨t, t.mem_all, ha⟩)
  choose ranking hranking hbest using hbest
  refine ⟨ranking, hranking, ?_⟩
  have hall : Tier.all.mapM (s.best c query) =
      .ok (Tier.all.map fun t => ((ranking t).take (c.top t)).map (·.1.trace)) := by
    rw [mapM_ok_iff, List.forall₂_map_right_iff, List.forall₂_same]
    exact fun t _ => hbest t
  rw [select_eq, hall, List.flatMap_def]
  rfl

/-- A selection stops at the first memory that cannot be compared. -/
theorem select_error_iff {e : Error} :
    s.select c query = .error e ↔ FirstFails (compareWith query) s.all e := by
  have hbest : ∀ t e, s.best c query t = .error e ↔
      FirstFails (compareWith query) (s.traces t) e := by
    intro t e
    unfold best rank
    rw [map_error_iff, bind_error_iff, mapM_error_iff]
    refine or_iff_left ?_
    rintro ⟨compared, _, hdone⟩
    cases hdone
  unfold all
  rw [firstFails_flatMap hbest, ← mapM_error_iff, select_eq, map_error_iff]

/-- Every trace is counted as often as its number is in the list. -/
theorem traces_countRetrievals (s : Store) (selected : List Trace) (t : Tier) :
    (s.countRetrievals selected).traces t =
      (s.traces t).map fun a => a.retrieved (selected.countP (·.number == a.number)) := by
  unfold countRetrievals
  induction selected generalizing s with
  | nil =>
      simp only [List.foldl_nil, List.countP_nil, Trace.retrieved_zero]
      exact (List.map_id' _).symm
  | cons b selected ih =>
      have hmodify : (s.modify b.number Memory.retrieve).traces t =
          (s.traces t).map fun a => a.retrieved (if b.number == a.number then 1 else 0) := by
        simp only [modify, map, traces, Tiers.get_map]
        refine List.map_congr_left ?_
        intro a _
        by_cases hb : a.number = b.number
        · simp [hb, Memory.retrieve, Trace.retrieved]
        · simp [hb, Ne.symm hb, Trace.retrieved_zero]
      rw [List.foldl_cons, ih, hmodify, List.map_map]
      refine List.map_congr_left ?_
      intro a _
      rw [Function.comp_apply, Trace.retrieved_retrieved, List.countP_cons, Nat.add_comm]
      rfl

theorem former_countRetrievals (s : Store) (selected : List Trace) :
    (s.countRetrievals selected).former = s.former := by
  unfold countRetrievals
  induction selected generalizing s with
  | nil => rfl
  | cons b selected ih => exact ih _

theorem enrolled_countRetrievals (s : Store) (selected : List Trace) :
    (s.countRetrievals selected).enrolled = s.enrolled := by
  unfold countRetrievals
  induction selected generalizing s with
  | nil => rfl
  | cons b selected ih => exact ih _

/-- How often the memory of a number was found. -/
def timesFound (found : Tier → List (Ranked × Nat)) (number : Nat) : Nat :=
  (Tier.all.flatMap found).countP (·.1.trace.number == number)

/-- What a retrieval finds in each tier, and the store that it leaves. -/
structure Retrieves (s : Store) (c : RetrievalConfig) (query : Embedding)
    (found : Tier → List (Ranked × Nat)) (s' : Store) : Prop where
  /-- What is left out comes behind all that is found. -/
  best : ∀ t, ∃ left, Ranking query (s.traces t) (found t ++ left)
  amount : ∀ t, (found t).length = min (c.top t) (s.size t)
  counted : ∀ t, s'.traces t = (s.traces t).map fun a => a.retrieved (timesFound found a.number)
  former : s'.former = s.former
  enrolled : s'.enrolled = s.enrolled

theorem retrieve_ok (widths : ∀ a ∈ s.all, a.memory.embedding.length = query.length) :
    ∃ found s', s.retrieve c query =
        .ok (Tier.all.flatMap fun t => (found t).map (·.1.memory), s') ∧
      s.Retrieves c query found s' := by
  obtain ⟨ranking, hranking, hselect⟩ := select_ok (c := c) widths
  let found (t : Tier) := (ranking t).take (c.top t)
  let selected := Tier.all.flatMap fun t => (found t).map (·.1.trace)
  have hselected : selected = (Tier.all.flatMap found).map (·.1.trace) := by
    rw [List.map_flatMap]
  refine ⟨found, s.countRetrievals selected, ?_, ?_, ?_, ?_, ?_, ?_⟩
  · unfold retrieve
    rw [hselect]
    simp only [bind, Except.bind, pure, Except.pure, List.map_flatMap, List.map_map]
    rfl
  · intro t
    refine ⟨(ranking t).drop (c.top t), ?_⟩
    rw [List.take_append_drop]
    exact hranking t
  · intro t
    rw [List.length_take, ← List.length_map (·.1.trace), (hranking t).traces_perm.length_eq]
    rfl
  · intro t
    rw [traces_countRetrievals, hselected]
    refine List.map_congr_left ?_
    intro a _
    rw [List.countP_map]
    rfl
  · exact former_countRetrievals s selected
  · exact enrolled_countRetrievals s selected

/-- A memory is found at most once for each of its places. -/
theorem Retrieves.timesFound_le {found : Tier → List (Ranked × Nat)}
    (h : s.Retrieves c query found s') (number : Nat) :
    timesFound found number ≤ s.all.countP (·.number == number) := by
  have htier (t : Tier) : (found t).countP (·.1.trace.number == number) ≤
      (s.traces t).countP (·.number == number) := by
    obtain ⟨left, hranking⟩ := h.best t
    rw [← hranking.traces_perm.countP_eq, List.countP_map, List.countP_append]
    exact Nat.le_add_right _ _
  unfold timesFound all
  rw [List.countP_flatMap, List.countP_flatMap]
  exact List.sum_le_sum fun t _ => htier t

theorem Retrieves.mem_all {found : Tier → List (Ranked × Nat)} (h : s.Retrieves c query found s')
    {a : Trace} (ha : a ∈ (Tier.all.flatMap found).map (·.1.trace)) : a ∈ s.all := by
  obtain ⟨p, hp, rfl⟩ := List.mem_map.mp ha
  obtain ⟨t, ht, hfound⟩ := List.mem_flatMap.mp hp
  obtain ⟨left, hranking⟩ := h.best t
  refine List.mem_flatMap.mpr ⟨t, ht, hranking.traces_perm.subset ?_⟩
  exact List.mem_map_of_mem (List.mem_append_left left hfound)

/-- A memory that stands at one place is found once or not at all. -/
theorem Retrieves.timesFound_eq {found : Tier → List (Ranked × Nat)}
    (h : s.Retrieves c query found s') {number : Nat}
    (once : s.all.countP (·.number == number) = 1) :
    timesFound found number =
      if number ∈ (Tier.all.flatMap found).map (·.1.trace.number) then 1 else 0 := by
  have hle := h.timesFound_le number
  split
  · rename_i hfound
    obtain ⟨p, hp, hnumber⟩ := List.mem_map.mp hfound
    have hpos : 0 < timesFound found number :=
      List.countP_pos_iff.mpr ⟨p, hp, beq_iff_eq.mpr hnumber⟩
    omega
  · rename_i hleft
    refine List.countP_eq_zero.mpr ?_
    intro p hp hnumber
    exact hleft (List.mem_map.mpr ⟨p, hp, beq_iff_eq.mp hnumber⟩)

end Store

/-- A retrieval goes through the tiers in order and returns of each the memories that the query finds
first, as many as the tier's cutoff and size allow. The counter of each memory goes on by as much as
it was returned, which for a memory that stands at one place is one or nothing, and nothing else
changes. If a memory has an embedding of another width, nothing is returned but its width and that of
the query. -/
theorem most_relevant_retrieved (s : Store) (c : RetrievalConfig) (query : Embedding) :
    ((∀ a ∈ s.all, a.memory.embedding.length = query.length) →
      ∃ found s', s.retrieve c query =
          .ok (Tier.all.flatMap fun t => (found t).map (·.1.memory), s') ∧
        s.Retrieves c query found s' ∧
        ∀ number, s.all.countP (·.number == number) = 1 →
          Store.timesFound found number =
            if number ∈ (Tier.all.flatMap found).map (·.1.trace.number) then 1 else 0) ∧
    ((∃ a ∈ s.all, a.memory.embedding.length ≠ query.length) →
      ∃ before a after, s.all = before ++ a :: after ∧
        (∀ b ∈ before, b.memory.embedding.length = query.length) ∧
        a.memory.embedding.length ≠ query.length ∧
        s.retrieve c query =
          .error (.dimensionMismatch query.length a.memory.embedding.length)) := by
  constructor
  · intro widths
    obtain ⟨found, s', hretrieve, hfound⟩ := Store.retrieve_ok (c := c) widths
    exact ⟨found, s', hretrieve, hfound, fun _ once => hfound.timesFound_eq once⟩
  · rintro ⟨wide, hwide, hwidth⟩
    cases hall : s.all.mapM (compareWith query) with
    | ok compared =>
        obtain ⟨r, hr⟩ := ok_of_mapM_ok hall wide hwide
        rw [compareWith_error_iff.mpr ⟨hwidth, rfl⟩] at hr
        cases hr
    | error e =>
        have hfails := mapM_error_iff.mp hall
        have hselect : s.select c query = .error e := Store.select_error_iff.mpr hfails
        obtain ⟨before, a, after, hsplit, hbefore, ha⟩ := hfails
        obtain ⟨hwidth, rfl⟩ := compareWith_error_iff.mp ha
        refine ⟨before, a, after, hsplit, ?_, hwidth, ?_⟩
        · intro b hb
          obtain ⟨r, hr⟩ := hbefore b hb
          by_contra hne
          rw [compareWith_error_iff.mpr ⟨hne, rfl⟩] at hr
          cases hr
        · unfold Store.retrieve
          rw [hselect]
          rfl

namespace Ranking.Sample

def alpha : Memory := ⟨⟨1⟩, "alpha", .working, ⟨0, 0⟩, [1, 0], 0.5, [], 0⟩

/-- Often retrieved, but of no relevance to what is asked for. -/
def beta : Memory :=
  { alpha with id := ⟨2⟩, content := "beta", embedding := [0, 1], retrievals := 7 }

/-- As relevant as the first memory, and older. -/
def gamma : Memory := { alpha with id := ⟨3⟩, content := "gamma", timestamp := ⟨-1, 0⟩ }

def delta : Memory := { alpha with id := ⟨4⟩, content := "delta", tier := .episodic }

def several : Store := (((Store.empty.add alpha).add beta).add gamma).add delta

/-- A cutoff below the size of the tier. -/
def narrow : RetrievalConfig := { workingTop := 2 }

def alone : Store := Store.empty.add alpha

/-- What was read of one tier is put in place of another. -/
def shared : Store :=
  (alone.commit .episodic (alone.traces .working) (alone.traces .working)).1

/-- The counter shows the largest count there is. -/
def worn : Store := Store.empty.add { alpha with retrievals := 18446744073709551615 }

theorem compareWith_eq {a : Trace} {similarity : Float32} {weight : Number.Double}
    (similar : (cosineSimilarity [1, 0] a.memory.embedding).toOption = some similarity)
    (weighted : weight = Engram.relevance similarity a.memory.importance) :
    compareWith [1, 0] a = .ok ⟨a, similarity, weight⟩ := by
  refine compareWith_ok_iff.mpr ⟨rfl, ?_, weighted⟩
  cases h : cosineSimilarity [1, 0] a.memory.embedding with
  | error e => simp [h, Except.toOption] at similar
  | ok x => simpa [h, Except.toOption] using similar

theorem rank_nil : rank [] [1, 0] = .ok [] :=
  congrArg Except.ok List.mergeSort_nil

theorem rank_singleton {a : Trace}
    (similar : (cosineSimilarity [1, 0] a.memory.embedding).toOption = some 1)
    (weighted : 0.5 = Engram.relevance 1 a.memory.importance) :
    rank [a] [1, 0] = .ok [⟨a, 1, 0.5⟩] := by
  unfold rank
  rw [List.mapM_cons, compareWith_eq similar weighted, List.mapM_nil]
  exact congrArg Except.ok (List.mergeSort_singleton _)

theorem rank_several : rank (several.traces .working) [1, 0] =
    .ok [⟨⟨2, gamma⟩, 1, 0.5⟩, ⟨⟨0, alpha⟩, 1, 0.5⟩, ⟨⟨1, beta⟩, 0, 0.0⟩] := by
  have hcompared : (several.traces .working).mapM (compareWith [1, 0]) =
      .ok [⟨⟨0, alpha⟩, 1, 0.5⟩, ⟨⟨1, beta⟩, 0, 0.0⟩, ⟨⟨2, gamma⟩, 1, 0.5⟩] := by
    refine mapM_ok_iff.mpr (.cons ?_ (.cons ?_ (.cons ?_ .nil))) <;>
      exact compareWith_eq (by decide +kernel) (by decide +kernel)
  have hbeta : Ranked.precedes ⟨⟨0, alpha⟩, 1, 0.5⟩ ⟨⟨1, beta⟩, 0, 0.0⟩ = true := by
    decide +kernel
  have hgamma : Ranked.precedes ⟨⟨0, alpha⟩, 1, 0.5⟩ ⟨⟨2, gamma⟩, 1, 0.5⟩ = false := by
    decide +kernel
  unfold rank
  rw [hcompared]
  refine congrArg Except.ok ?_
  simp [List.mergeSort, List.MergeSort.Internal.splitInTwo, hbeta, hgamma]

/-- What a retrieval does once the tiers are ranked. -/
theorem retrieve_eq {s : Store} {c : RetrievalConfig} {ranked : Tier → List Ranked}
    (h : ∀ t, rank (s.traces t) [1, 0] = .ok (ranked t)) :
    let selected := Tier.all.flatMap fun t => ((ranked t).take (c.top t)).map (·.trace)
    s.retrieve c [1, 0] = .ok (selected.map (·.memory), s.countRetrievals selected) := by
  have hbest : s.best c [1, 0] = fun t => .ok (((ranked t).take (c.top t)).map (·.trace)) := by
    funext t
    unfold Store.best
    rw [h]
    rfl
  unfold Store.retrieve
  rw [Store.select_eq, hbest]
  rfl

end Ranking.Sample

open Ranking.Sample in
theorem most_relevant_retrieved_sample :
    (∀ a ∈ several.all, a.memory.embedding.length = 2) ∧
    (∃ found s', several.retrieve narrow [1, 0] = .ok ([gamma, alpha, delta], s') ∧
      several.Retrieves narrow [1, 0] found s' ∧
      s'.memories .working =
        [{ alpha with retrievals := 1 }, beta, { gamma with retrievals := 1 }] ∧
      s'.memories .episodic = [{ delta with retrievals := 1 }]) ∧
    several.retrieve narrow [1] = .error (.dimensionMismatch 1 2) := by
  have widths : ∀ a ∈ several.all, a.memory.embedding.length = 2 := by
    rw [show several.all = [⟨0, alpha⟩, ⟨1, beta⟩, ⟨2, gamma⟩, ⟨3, delta⟩] from rfl]
    simp [alpha, beta, gamma, delta]
  refine ⟨widths, ?_, ?_⟩
  · obtain ⟨found, s', hretrieve, hfound, _⟩ :=
      (most_relevant_retrieved several narrow [1, 0]).1 widths
    let ranked : Tiers (List Ranked) :=
      ⟨[⟨⟨2, gamma⟩, 1, 0.5⟩, ⟨⟨0, alpha⟩, 1, 0.5⟩, ⟨⟨1, beta⟩, 0, 0.0⟩],
        [⟨⟨3, delta⟩, 1, 0.5⟩], [], []⟩
    have hranked : ∀ t, rank (several.traces t) [1, 0] = .ok (ranked.get t) := by
      intro t
      cases t with
      | working => exact rank_several
      | episodic => exact rank_singleton (by decide +kernel) (by decide +kernel)
      | semantic => exact rank_nil
      | procedural => exact rank_nil
    have hdone := retrieve_eq (c := narrow) hranked
    have hstore : s' = several.countRetrievals [⟨2, gamma⟩, ⟨0, alpha⟩, ⟨3, delta⟩] :=
      congrArg Prod.snd (Except.ok.inj (hretrieve.symm.trans hdone))
    subst hstore
    exact ⟨found, _, hdone, hfound, rfl, rfl⟩
  · obtain ⟨before, a, after, hsplit, _, _, hretrieve⟩ :=
      (most_relevant_retrieved several narrow [1]).2
        ⟨⟨0, alpha⟩, List.mem_cons_self, by decide⟩
    have ha : a ∈ several.all := hsplit ▸ List.mem_append_right _ List.mem_cons_self
    rw [hretrieve, widths a ha]
    rfl

open Ranking.Sample in
/-- A memory that stands in two tiers is returned twice and counted twice, and a counter that shows
the largest count starts again from zero. -/
theorem counted_at_each_place :
    (∀ a ∈ shared.all ++ worn.all, a.memory.embedding.length = 2) ∧
    (∃ s', shared.retrieve {} [1, 0] = .ok ([alpha, alpha], s') ∧
      s'.memories .working = [{ alpha with retrievals := 2 }]) ∧
    ∃ s', worn.retrieve {} [1, 0] =
        .ok ([{ alpha with retrievals := 18446744073709551615 }], s') ∧
      s'.memories .working = [alpha] := by
  let place (a : Trace) : Ranked := ⟨a, 1, 0.5⟩
  have hall : shared.all ++ worn.all = [⟨0, alpha⟩, ⟨0, alpha⟩,
    ⟨0, { alpha with retrievals := 18446744073709551615 }⟩] := rfl
  have hshared : ∀ t, rank (shared.traces t) [1, 0] = .ok ((shared.traces t).map place) := by
    intro t
    cases t with
    | working => exact rank_singleton (by decide +kernel) (by decide +kernel)
    | episodic => exact rank_singleton (by decide +kernel) (by decide +kernel)
    | semantic => exact rank_nil
    | procedural => exact rank_nil
  have hworn : ∀ t, rank (worn.traces t) [1, 0] = .ok ((worn.traces t).map place) := by
    intro t
    cases t with
    | working => exact rank_singleton (by decide +kernel) (by decide +kernel)
    | episodic => exact rank_nil
    | semantic => exact rank_nil
    | procedural => exact rank_nil
  refine ⟨?_, ⟨_, retrieve_eq hshared, rfl⟩, ⟨_, retrieve_eq hworn, rfl⟩⟩
  rw [hall]
  simp [alpha]

end Engram
