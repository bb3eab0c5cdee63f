import Engram.Proofs.Capacity
import Engram.Proofs.Chronology
import Engram.Proofs.TotalOrder

/-! Which memories stay in a tier that is over its capacity. They are the best by a strict order on
memories, in which no two identifiers are level; so the order in which the memories arrived has no
part in it, and a memory that cannot be scored goes before every one that can. -/
namespace Engram.Consolidation

variable {w : ScoreWeights} {now : Time.Instant} {m n : Memory} {a b c : Trace}

/-- The score of a memory is a number. -/
def Scorable (w : ScoreWeights) (now : Time.Instant) (m : Memory) : Prop :=
  (Score.score (Score.factsOf m) w now).isFinite

/-- `m` stays rather than `n`: it has the higher score, or the same score and the earlier timestamp,
or both in common and the smaller identifier. -/
def Outranks (w : ScoreWeights) (now : Time.Instant) (m n : Memory) : Prop :=
  Number.Less (keepScore w now n) (keepScore w now m) ∨
    keepScore w now n = keepScore w now m ∧
      (m.timestamp.before n.timestamp ∨ m.timestamp = n.timestamp ∧ m.id.bits < n.id.bits)

/-- The comparison of two traces by their scores. -/
def standing (w : ScoreWeights) (now : Time.Instant) (a b : Trace) : Ordering :=
  order (keepScore w now a.memory, a) (keepScore w now b.memory, b)

theorem standing_eq_lt : standing w now a b = .lt ↔ Outranks w now a.memory b.memory := by
  have hid : compare a.memory.id b.memory.id = .lt ↔ a.memory.id.bits < b.memory.id.bits :=
    Nat.compare_eq_lt.trans BitVec.lt_def.symm
  unfold standing order Outranks
  rw [Ordering.then_eq_lt, Ordering.then_eq_lt, Number.compareTotal_eq_lt,
    Number.compareTotal_eq_eq, Time.Instant.compare_eq_lt, Time.Instant.compare_eq_eq, hid]

/-- Only memories with the same identifier are level. -/
theorem id_eq_of_standing (h : standing w now a b = .eq) : a.memory.id = b.memory.id := by
  unfold standing order at h
  rw [Ordering.then_eq_eq, Ordering.then_eq_eq] at h
  have hbits : a.memory.id.bits = b.memory.id.bits :=
    BitVec.eq_of_toNat_eq (Nat.compare_eq_eq.mp h.2.2)
  cases ha : a.memory.id
  cases hb : b.memory.id
  rw [ha, hb] at hbits
  exact congrArg Uid.mk hbits

instance : Std.TransOrd Uid :=
  inferInstanceAs (Std.TransCmp (compareOn fun id : Uid => id.bits.toNat))

instance : Std.TransCmp (standing w now) :=
  inferInstanceAs (Std.TransCmp (compareLex
    (fun a b => compareOn (fun a : Trace => Number.rank (keepScore w now a.memory)) b a)
    (compareLex (compareOn fun a : Trace => a.memory.timestamp)
      (compareOn fun a : Trace => a.memory.id))))

/-- The scores are computed once for each memory, before anything is compared. -/
theorem ordered_eq (traces : List Trace) :
    ordered w now traces = traces.mergeSort fun a b => (standing w now a b).isLE := by
  let score (a : Trace) : Float × Trace := (keepScore w now a.memory, a)
  have hsort : (traces.mergeSort fun a b => (standing w now a b).isLE).map score =
      (traces.map score).mergeSort fun a b => (order a b).isLE :=
    List.map_mergeSort fun _ _ _ _ => rfl
  change ((traces.map score).mergeSort fun a b => (order a b).isLE).map (·.2) = _
  rw [← hsort, List.map_map]
  exact List.map_id _

theorem outranks_asymm (h : Outranks w now m n) : ¬ Outranks w now n m := by
  intro h'
  have hfirst : standing w now ⟨0, m⟩ ⟨0, n⟩ = .lt := standing_eq_lt.mpr h
  have hsecond : standing w now ⟨0, n⟩ ⟨0, m⟩ = .lt := standing_eq_lt.mpr h'
  rw [Std.OrientedCmp.gt_of_lt hfirst] at hsecond
  cases hsecond

/-- With distinct identifiers the order is strict. -/
theorem pairwise_ordered {traces : List Trace} (distinct : (traces.map (·.memory.id)).Nodup) :
    (ordered w now traces).Pairwise fun a b => Outranks w now a.memory b.memory := by
  have hids : ((ordered w now traces).map (·.memory.id)).Nodup :=
    ((ordered_perm w now traces).map _).nodup_iff.mpr distinct
  have happart : (ordered w now traces).Pairwise fun a b => a.memory.id ≠ b.memory.id :=
    List.pairwise_map.mp hids
  have hsorted : (ordered w now traces).Pairwise fun a b => (standing w now a b).isLE := by
    rw [ordered_eq]
    exact pairwise_sort traces
  refine (hsorted.and happart).imp ?_
  rintro a b ⟨hle, hne⟩
  rcases Ordering.isLE_iff_eq_lt_or_eq_eq.mp hle with hlt | heq
  · exact standing_eq_lt.mp hlt
  · exact absurd (id_eq_of_standing heq) hne

/-- The order does not depend on how the memories were arranged before. -/
theorem ordered_eq_of_perm {traces others : List Trace}
    (distinct : (traces.map (·.memory.id)).Nodup) (perm : others.Perm traces) :
    ordered w now others = ordered w now traces := by
  have distinct' : (others.map (·.memory.id)).Nodup := (perm.map _).nodup_iff.mpr distinct
  refine List.Perm.eq_of_pairwise ?_ (pairwise_ordered distinct') (pairwise_ordered distinct) ?_
  · intro a b _ _ h h'
    exact absurd h' (outranks_asymm h)
  · exact (ordered_perm w now others).trans (perm.trans (ordered_perm w now traces).symm)

/-- What can be scored stays rather than what cannot. -/
theorem outranks_of_scorable (scorable : Scorable w now m) (unscorable : ¬ Scorable w now n) :
    Outranks w now m n := by
  have hscore : keepScore w now m = Score.score (Score.factsOf m) w now := if_pos scorable
  have hleast : keepScore w now n = Number.leastValue := if_neg unscorable
  refine .inl ?_
  rw [hscore, hleast]
  exact Number.leastValue_less scorable

/-- A tier is divided into the memories that stay and those that are demoted: together they are the
memories there were, as many stay as there is room for, and each memory comes before all that it
outranks. So what stays does not depend on how the tier was arranged, and where a memory that can be
scored is demoted, none that cannot be scored stays. -/
theorem best_are_kept (w : ScoreWeights) (now : Time.Instant) (capacity : Nat)
    (snapshot : List Trace) (distinct : (snapshot.map (·.memory.id)).Nodup) :
    let kept := (partition w now capacity snapshot).1
    let demoted := (partition w now capacity snapshot).2
    (kept ++ demoted).Perm snapshot ∧
    kept.length = min capacity snapshot.length ∧
    (kept ++ demoted).Pairwise (fun a b => Outranks w now a.memory b.memory) ∧
    (∀ others : List Trace, others.Perm snapshot →
      partition w now capacity others = partition w now capacity snapshot) ∧
    ∀ a ∈ demoted, Scorable w now a.memory →
      ∀ b ∈ snapshot, ¬ Scorable w now b.memory → b ∈ demoted := by
  intro kept demoted
  have hperm : (kept ++ demoted).Perm snapshot := partition_perm w now capacity snapshot
  have hsplit : kept ++ demoted = ordered w now snapshot := by
    simp only [kept, demoted, partition, List.splitAt_eq, List.take_append_drop]
  have hordered : (kept ++ demoted).Pairwise fun a b => Outranks w now a.memory b.memory := by
    rw [hsplit]
    exact pairwise_ordered distinct
  refine ⟨hperm, length_kept w now capacity snapshot, hordered, ?_, ?_⟩
  · intro others perm
    unfold partition
    rw [ordered_eq_of_perm distinct perm]
  · intro a ha scorable b hb unscorable
    rcases List.mem_append.mp (hperm.mem_iff.mpr hb) with hkept | hdemoted
    · have hbetter := (List.pairwise_append.mp hordered).2.2 b hkept a ha
      exact absurd hbetter (outranks_asymm (outranks_of_scorable scorable unscorable))
    · exact hdemoted

namespace Sample

/-- Only new memories are recent. -/
def weights : ScoreWeights := { halfLifeDays := 0 }

/-- A memory whose importance is undefined, and one that can be scored. -/
def broken : Trace := ⟨0, ⟨⟨1⟩, "broken", .working, ⟨0, 0⟩, [1], .indefinite, [], 0⟩⟩

def plain : Trace := ⟨1, ⟨⟨2⟩, "plain", .working, ⟨0, 0⟩, [1], 0.1, [], 0⟩⟩

end Sample

open Sample in
theorem best_are_kept_sample :
    ([broken, plain].map (·.memory.id)).Nodup ∧ Scorable weights ⟨5, 0⟩ plain.memory ∧
    ¬ Scorable weights ⟨5, 0⟩ broken.memory ∧
    partition weights ⟨5, 0⟩ 1 [plain, broken] = partition weights ⟨5, 0⟩ 1 [broken, plain] ∧
    broken ∈ (partition weights ⟨5, 0⟩ 1 [broken, plain]).2 := by
  have distinct : ([broken, plain].map (·.memory.id)).Nodup := by decide
  have scorable : Scorable weights ⟨5, 0⟩ plain.memory := by
    unfold Scorable
    decide +kernel
  have unscorable : ¬ Scorable weights ⟨5, 0⟩ broken.memory := by
    unfold Scorable
    decide +kernel
  obtain ⟨hperm, hroom, _, hsame, hfirst⟩ :=
    best_are_kept weights ⟨5, 0⟩ 1 [broken, plain] distinct
  refine ⟨distinct, scorable, unscorable, hsame _ (.swap ..), ?_⟩
  rcases List.mem_append.mp (hperm.mem_iff.mpr List.mem_cons_self) with hkept | hdemoted
  · -- There is room for one memory, so the other one is demoted, and then both are.
    refine hfirst plain ?_ scorable broken List.mem_cons_self unscorable
    rcases List.mem_append.mp (hperm.mem_iff.mpr (List.mem_cons_of_mem _ List.mem_cons_self)) with
      hplain | hplain
    · obtain ⟨only, honly⟩ := List.length_eq_one_iff.mp hroom
      rw [honly, List.mem_singleton] at hkept hplain
      exact absurd (congrArg Trace.number (hkept.trans hplain.symm)) (by decide)
    · exact hplain
  · exact hdemoted

end Engram.Consolidation
