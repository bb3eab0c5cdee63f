import Engram.Proofs.Interleaving
import Mathlib.Data.List.GetD
import Mathlib.Data.List.Lattice
import Mathlib.Data.List.Nodup
import Mathlib.Data.List.Pairwise

/-! One place for every memory while operations overlap. The places are the tiers, what each
consolidation holds, the pending batch, the batch of each seal under way, and each entry that was
written. After every step, whatever the order of the steps, a memory that was added is in one of
them, once, and it is in no tier and with no consolidation but those of its own tag. -/
namespace Engram

open scoped List

/-- Where a memory can be. Seals whose entries are still to be written, seals whose batches are
still to be put back, and entries are told apart by their positions. -/
inductive Place where
  | tier (t : Tier)
  | pass (t : Tier)
  | pending
  | unwritten (i : Nat)
  | refused (i : Nat)
  | entry (i : Nat)
  deriving DecidableEq

namespace Scene

/-- What is in a place, where `log` holds the entries written so far. -/
def contents (σ : Scene) (log : List ArchiveEntry) : Place → List Memory
  | .tier t => σ.mind.store.memories t
  | .pass t => (σ.passes.get t).held
  | .pending => σ.mind.archive.pending
  | .unwritten i => (σ.sealing.map (·.memories)).getD i []
  | .refused i => σ.failed.getD i []
  | .entry i => (log.map (·.memories)).getD i []

/-- The places that may hold something. -/
def everywhere (σ : Scene) (log : List ArchiveEntry) : List Place :=
  Tier.all.map .tier ++ Tier.all.map .pass ++ [.pending] ++
    (List.range σ.sealing.length).map .unwritten ++ (List.range σ.failed.length).map .refused ++
    (List.range log.length).map .entry

theorem flatMap_range_getD (batches : List (List Memory)) :
    ((List.range batches.length).flatMap fun i => batches.getD i []) = batches.flatten := by
  have hbatches : ((List.range batches.length).map fun i => batches.getD i []) = batches := by
    apply List.ext_getElem
    · simp
    · intro i hi _
      simp only [List.length_map, List.length_range] at hi
      simp [hi]
  rw [List.flatMap_def, hbatches]

theorem flatMap_contents (σ : Scene) (log : List ArchiveEntry) :
    (σ.everywhere log).flatMap (σ.contents log) = σ.places ++ Mind.archived log := by
  have hsealing := flatMap_range_getD (σ.sealing.map (·.memories))
  have hentries := flatMap_range_getD (log.map (·.memories))
  rw [List.length_map, ← List.flatMap_def] at hsealing hentries
  simp only [everywhere, List.flatMap_append, List.flatMap_map, List.flatMap_cons,
    List.flatMap_nil, List.append_nil, contents]
  rw [hsealing, hentries, flatMap_range_getD]
  simp only [places, held, waiting, inFlight, Mind.active, Mind.archived, List.append_assoc]

/-- A place that holds something is one of those that may. -/
theorem mem_everywhere {σ : Scene} {log : List ArchiveEntry} {p : Place} {m : Memory}
    (h : m ∈ σ.contents log p) : p ∈ σ.everywhere log := by
  have hposition : ∀ {batches : List (List Memory)} {i : Nat}, m ∈ batches.getD i [] →
      i < batches.length := by
    intro batches i hm
    by_contra hout
    rw [List.getD_eq_default _ _ (Nat.le_of_not_lt hout)] at hm
    cases hm
  simp only [everywhere, List.mem_append, List.mem_map, List.mem_singleton, List.mem_range]
  cases p with
  | tier t => simp [t.mem_all]
  | pass t => simp [t.mem_all]
  | pending => simp
  | unwritten i => simpa using hposition h
  | refused i => simpa using hposition h
  | entry i => simpa using hposition h

/-- Active memories, and those that a consolidation has taken out, are under their own tier. -/
structure Sorted (σ : Scene) : Prop where
  active : σ.mind.Placed
  held : ∀ t, ∀ m ∈ (σ.passes.get t).held, m.tier = t

theorem sorted_still {s : Mind} (placed : s.Placed) : (still s).Sorted := by
  refine ⟨placed, ?_⟩
  intro t m hm
  rw [still, Tiers.get_replicate] at hm
  cases hm

/-- Setting a pass keeps what the others hold. -/
theorem Sorted.held_set {σ : Scene} (sorted : σ.Sorted) (t : Tier) (p : Pass)
    (here : ∀ m ∈ p.held, m.tier = t) :
    ∀ u, ∀ m ∈ ((σ.passes.set t p).get u).held, m.tier = u := by
  intro u m hm
  by_cases h : u = t
  · subst h
    rw [Tiers.get_set_self] at hm
    exact here m hm
  · rw [Tiers.get_set_of_ne _ _ h] at hm
    exact sorted.held u m hm

/-- What a consolidation works on, as it stands when it is put in place, belongs to its tier. -/
theorem Sorted.tier_of_partition {σ : Scene} (sorted : σ.Sorted) (coherent : σ.Coherent)
    {t : Tier} {now : Time.Instant} {base present kept demoted : List Trace}
    (reading : σ.passes.get t = .read base)
    (same : present.map (·.memory.fixed) = base.map (·.memory.fixed))
    (parts : Consolidation.partition σ.mind.config.score now (σ.mind.config.capacity t) present =
      (kept, demoted)) {a : Trace} (h : a ∈ kept ++ demoted) : a.memory.tier = t := by
  have hperm := Consolidation.partition_perm σ.mind.config.score now (σ.mind.config.capacity t)
    present
  rw [parts] at hperm
  have hpresent : a.memory.fixed ∈ present.map (·.memory.fixed) :=
    List.mem_map_of_mem (hperm.subset h)
  rw [same] at hpresent
  obtain ⟨m, hm, hfixed⟩ := List.mem_map.mp ((coherent.reads t base reading).subset hpresent)
  rw [← Memory.fixed_tier a.memory, ← hfixed]
  exact sorted.active t m hm

theorem Step.sorted {σ σ' : Scene} {new : List Memory} {log : List ArchiveEntry}
    (step : Step σ new log σ') (coherent : σ.Coherent) (sorted : σ.Sorted) : σ'.Sorted := by
  cases step with
  | add m =>
      refine ⟨?_, sorted.held⟩
      intro t n hn
      simp only [Store.memories_add] at hn
      by_cases h : t = m.tier
      · rw [if_pos h, List.mem_append, List.mem_singleton] at hn
        rcases hn with hn | rfl
        · exact sorted.active t n hn
        · exact h.symm
      · rw [if_neg h] at hn
        exact sorted.active t n hn
  | use store same =>
      refine ⟨?_, sorted.held⟩
      apply sorted.active.of_fixed
      intro t m hm
      rw [same] at hm
      exact .inl hm
  | read t free => exact ⟨sorted.active, sorted.held_set t _ (by simp [Pass.held])⟩
  | leave t reading fits => exact ⟨sorted.active, sorted.held_set t _ (by simp [Pass.held])⟩
  | @commit t now base present kept demoted reading full same parts =>
      have htier : ∀ a ∈ kept ++ demoted, a.memory.tier = t := fun a ha =>
        sorted.tier_of_partition coherent reading same parts ha
      refine ⟨?_, sorted.held_set t _ ?_⟩
      · intro u m hm
        simp only [Store.commit, Store.memories_put] at hm
        by_cases h : u = t
        · rw [if_pos h, List.map_append, List.mem_append] at hm
          rcases hm with hm | hm
          · obtain ⟨a, ha, rfl⟩ := List.mem_map.mp hm
            exact (htier a (List.mem_append_left _ ha)).trans h.symm
          · obtain ⟨a, ha, rfl⟩ := List.mem_map.mp hm
            have hold : a ∈ σ.mind.store.traces t := List.mem_of_mem_filter ha
            exact (sorted.active t _ (List.mem_map_of_mem hold)).trans h.symm
        · rw [if_neg h] at hm
          exact sorted.active u m hm
      · intro m hm
        obtain ⟨a, ha, rfl⟩ := List.mem_map.mp hm
        exact htier a (List.mem_append_right _ ha)
  | stage t moving => exact ⟨sorted.active, sorted.held_set t _ (by simp [Pass.held])⟩
  | _ => exact ⟨sorted.active, sorted.held⟩

theorem Steps.sorted {σ σ' : Scene} {new : List Memory} {log : List ArchiveEntry}
    (steps : Steps σ new log σ') (coherent : σ.Coherent) (sorted : σ.Sorted)
    (fresh : ((σ.places ++ new).map (·.id)).Nodup) : σ'.Sorted := by
  induction steps with
  | refl => exact sorted
  | tail prior last ih =>
      have hfresh := fresh_before fresh
      exact last.sorted (prior.places_perm coherent hfresh).1 (ih hfresh)

/-- Where identifiers are distinct over all places, one that is in a place is there once and in no
other place. -/
theorem one_place {σ : Scene} {log : List ArchiveEntry}
    (distinct : ((σ.places ++ Mind.archived log).map (·.id)).Nodup) {p : Place} {id : Uid}
    (here : id ∈ (σ.contents log p).map (·.id)) :
    ((σ.contents log p).map (·.id)).count id = 1 ∧
      ∀ q, id ∈ (σ.contents log q).map (·.id) ↔ q = p := by
  rw [← flatMap_contents, List.map_flatMap, List.nodup_flatMap] at distinct
  obtain ⟨hplaces, hapart⟩ := distinct
  have hin : ∀ {q}, id ∈ (σ.contents log q).map (·.id) → q ∈ σ.everywhere log := by
    intro q hq
    obtain ⟨m, hm, _⟩ := List.mem_map.mp hq
    exact mem_everywhere hm
  refine ⟨List.count_eq_one_of_mem (hplaces p (hin here)) here, fun q => ⟨fun hq => ?_, ?_⟩⟩
  · by_contra hne
    have hsymm : Std.Symm (Function.onFun List.Disjoint fun q =>
        (σ.contents log q).map (·.id)) := ⟨fun _ _ h => List.Disjoint.symm h⟩
    exact hapart.forall (hin hq) (hin here) hne hq here
  · rintro rfl
    exact here

/-- Whatever the order of the steps of additions, consolidations and seals, after every one of them
each memory that was live at the start or added since is in exactly one place, exactly once, with
all but its use as it was; if that place is a tier or a consolidation, it is that of the memory's
own tag. -/
theorem in_exactly_one_place {s : Mind} {added : List Memory} {log : List ArchiveEntry} {σ : Scene}
    (steps : Steps (still s) added log σ) (placed : s.Placed)
    (fresh : ((s.live ++ added).map (·.id)).Nodup) :
    s.backend.Extends log σ.mind.backend ∧
      ∀ m ∈ s.live ++ added, ∃ p,
        (∀ q, m.id ∈ (σ.contents log q).map (·.id) ↔ q = p) ∧
        ((σ.contents log p).map (·.id)).count m.id = 1 ∧
        (∃ n ∈ σ.contents log p, n.fixed = m.fixed) ∧
        ∀ t, p = .tier t ∨ p = .pass t → t = m.tier := by
  refine ⟨steps.extends, ?_⟩
  have hstart : (still s).Coherent := by
    rw [List.map_append] at fresh
    exact coherent_still (List.nodup_append.mp fresh).1
  rw [← places_still] at fresh ⊢
  obtain ⟨_, hperm⟩ := steps.places_perm hstart fresh
  have hsorted := steps.sorted hstart (sorted_still placed) fresh
  have hdistinct := (Memory.ids_perm hperm).nodup_iff.mpr fresh
  intro m hm
  obtain ⟨n, hn, hfixed⟩ := List.mem_map.mp (hperm.symm.subset (List.mem_map_of_mem hm))
  rw [← flatMap_contents] at hn
  obtain ⟨p, _, hn⟩ := List.mem_flatMap.mp hn
  have hid : n.id = m.id := by rw [← Memory.fixed_id n, hfixed, Memory.fixed_id]
  have htier : n.tier = m.tier := by rw [← Memory.fixed_tier n, hfixed, Memory.fixed_tier]
  have hhere : m.id ∈ (σ.contents log p).map (·.id) := hid ▸ List.mem_map_of_mem hn
  obtain ⟨hcount, honly⟩ := one_place hdistinct hhere
  refine ⟨p, honly, hcount, ⟨n, hn, hfixed⟩, ?_⟩
  rintro t (rfl | rfl)
  · exact (hsorted.active t n hn).symm.trans htier
  · exact (hsorted.held t n hn).symm.trans htier

/-- A tier over its capacity can be consolidated while a memory arrives: that memory stays, and what
is demoted is pending. -/
theorem Steps.exists_late {s : Mind} {added : List Memory} {log : List ArchiveEntry} {σ : Scene}
    {t : Tier} (steps : Steps (still s) added log σ) (m : Memory) (here : m.tier = t)
    (free : σ.passes.get t = .idle)
    (full : σ.mind.config.capacity t < (σ.mind.store.traces t).length)
    (fresh : ((s.live ++ (added ++ [m])).map (·.id)).Nodup) :
    ∃ σ' demoted, Steps (still s) (added ++ [m]) log σ' ∧ σ'.passes.get t = .idle ∧
      (σ'.mind.store.traces t).length = σ.mind.config.capacity t + 1 ∧
      demoted.length = (σ.mind.store.traces t).length - σ.mind.config.capacity t ∧
      σ'.mind.archive = { σ.mind.archive with pending := σ.mind.archive.pending ++ demoted } ∧
      σ'.mind.config = σ.mind.config ∧ σ'.sealing = σ.sealing := by
  subst here
  let now : Time.Instant := σ.mind.source.clock.time
  let parts := Consolidation.partition σ.mind.config.score now (σ.mind.config.capacity m.tier)
    (σ.mind.store.traces m.tier)
  have arrives := (steps.tail (.read m.tier free)).tail (.add m)
  have commits := arrives.tail (.commit m.tier now (Tiers.get_set_self _ _ _) full rfl
    (rfl : _ = (parts.1, parts.2)))
  have stages := commits.tail (.stage m.tier (Tiers.get_set_self _ _ _))
  have hdemoted : parts.2.length = (σ.mind.store.traces m.tier).length -
      σ.mind.config.capacity m.tier := Consolidation.length_demoted _ _ _ _
  have hall : (parts.1 ++ parts.2).length = (σ.mind.store.traces m.tier).length :=
    (Consolidation.partition_perm _ _ _ _).length_eq
  simp only [List.append_nil] at arrives stages
  refine ⟨_, _, stages, Tiers.get_set_self _ _ _, ?_, ?_, rfl, rfl, rfl⟩
  · have harrived : (σ.mind.store.add m).fixed m.tier =
        (σ.mind.store.traces m.tier).map (·.memory.fixed) ++ [m.fixed] := by
      rw [Store.fixed, Store.memories_add, if_pos rfl, List.map_append, Store.memories, List.map_map]
      rfl
    have hstart : (still s).Coherent := by
      rw [List.map_append] at fresh
      exact coherent_still (List.nodup_append.mp fresh).1
    rw [← places_still] at fresh
    have hdistinct := (arrives.places_perm hstart fresh).1.distinct_tier m.tier
    have hfixed : ((σ.mind.store.add m).commit m.tier (σ.mind.store.traces m.tier) parts.1).1.fixed
        m.tier = parts.1.map (·.memory.fixed) ++ [m.fixed] :=
      Store.fixed_commit harrived hdistinct
    have hlength := congrArg List.length hfixed
    simp only [Store.fixed, Store.memories, List.length_map, List.length_append,
      List.length_singleton] at hlength hall ⊢
    omega
  · rw [List.length_map, hdemoted]

/-- Of two seals that overlap, the later one can be written and the earlier one refused. -/
theorem Steps.exists_overlapping_seals {σ₀ σ : Scene} {added : List Memory}
    {log : List ArchiveEntry} (steps : Steps σ₀ added log σ) {earlier : ArchiveEntry}
    {a : VolatileArchive} (taken : σ.sealing = [earlier])
    (volatile : σ.mind.backend.storage = .volatile a) :
    ∃ σ' later, Steps σ₀ added (log ++ [later]) σ' ∧ later.memories = σ.mind.archive.pending ∧
      σ'.mind.archive.pending = earlier.memories ∧ σ'.mind.store = σ.mind.store := by
  let later : ArchiveEntry := ⟨⟨0⟩, ⟨0⟩, ⟨0, 0⟩, σ.mind.archive.pending, [], [], {}⟩
  let willing : Backend := { σ.mind.backend with refused := [], unwritable := fun _ => false }
  have hwritten : willing.append later = .ok (willing.store (.volatile (a.append later))) := by
    simp [Backend.append, Backend.guarded, willing, volatile]
  have hsealing : σ.sealing ++ [later] = [earlier] ++ later :: [] := by
    rw [taken]
  have hwaiting : [earlier] ++ [] = [] ++ earlier :: [] := rfl
  have takes := (steps.tail (.take later rfl)).tail (.outside σ.mind.source.clock [] fun _ => false)
  have writes := (takes.tail (.append hsealing hwritten)).tail
    (.outside σ.mind.source.clock [] fun _ => true)
  have fails := (writes.tail (.refuse hwaiting rfl)).tail (.putBack rfl)
  simp only [List.append_nil] at fails
  exact ⟨_, later, fails, rfl, List.append_nil _, rfl⟩

/-- Two memories are stored, and each of two consolidations that follow meets a late arrival. What
the first demotes is taken by a seal; what the second demotes is taken by another seal, which succeeds
before the first has failed. -/
theorem in_exactly_one_place_sample :
    let s := Mind.Sample.empty (.volatile .empty)
    let added := [0, 1, 2, 3].map Mind.Sample.memory
    ∃ log σ, Steps (still s) added log σ ∧
      (σ.contents log (.tier .working)).length = 2 ∧ (σ.contents log .pending).length = 1 ∧
      (σ.contents log (.entry 0)).length = 1 ∧
      ∀ m ∈ added, ∃ p, ∀ q, m.id ∈ (σ.contents log q).map (·.id) ↔ q = p := by
  intro s added
  have fresh : ((s.live ++ added).map fun m : Memory => m.id).Nodup := by decide +kernel
  have placed : s.Placed := by
    intro t m hm
    cases t <;> cases hm
  have hcapacity : s.config.capacity .working = 1 := rfl
  obtain ⟨σ₁, adds, hidle₁, htier₁, harchive₁, hconfig₁, hsealing₁⟩ :
      ∃ σ₁, Steps (still s) [Mind.Sample.memory 0, Mind.Sample.memory 1] [] σ₁ ∧
        σ₁.passes.get .working = .idle ∧ (σ₁.mind.store.traces .working).length = 2 ∧
        σ₁.mind.archive = s.archive ∧ σ₁.mind.config = s.config ∧ σ₁.sealing = [] :=
    ⟨_, (Steps.single (.add _)).tail (.add _), rfl, by decide +kernel, rfl, rfl, rfl⟩
  obtain ⟨σ₂, batch₁, first, hidle₂, htier₂, hbatch₁, harchive₂, hconfig₂, hsealing₂⟩ :=
    adds.exists_late (t := .working) (Mind.Sample.memory 2) rfl hidle₁
      (by rw [hconfig₁, hcapacity, htier₁]; decide) (by decide +kernel)
  rw [hconfig₁, hcapacity] at htier₂ hbatch₁
  have takes := first.tail (.take ⟨⟨0⟩, ⟨0⟩, ⟨0, 0⟩, σ₂.mind.archive.pending, [], [], {}⟩ rfl)
  obtain ⟨σ₃, batch₂, second, hidle₃, htier₃, hbatch₂, harchive₃, hconfig₃, hsealing₃⟩ :=
    takes.exists_late (t := .working) (Mind.Sample.memory 3) rfl hidle₂
      (by simp only [hconfig₂, hconfig₁, hcapacity, htier₂]; decide) (by decide +kernel)
  simp only [hconfig₂, hconfig₁, hcapacity, htier₂] at htier₃ hbatch₂
  rw [hsealing₂, hsealing₁, List.nil_append] at hsealing₃
  obtain ⟨σ, later, seals, hlater, hpending, hstore⟩ :=
    second.exists_overlapping_seals (a := .empty) hsealing₃
      (by simp only [Mind.backend, harchive₃, harchive₂, harchive₁]; rfl)
  simp only [List.append_nil, List.nil_append] at seals
  have hplace := (in_exactly_one_place seals placed fresh).2
  refine ⟨_, σ, seals, ?_, ?_, ?_, ?_⟩
  · rw [contents, hstore, Store.memories, List.length_map, htier₃]
  · rw [contents, hpending]
    simp only [harchive₂, harchive₁, List.length_append, hbatch₁, htier₁]
    rfl
  · change later.memories.length = 1
    rw [hlater]
    simp only [harchive₃, ArchiveLog.takePending, List.nil_append, hbatch₂]
  · intro m hm
    obtain ⟨p, honly, _⟩ := hplace m (List.mem_append_right _ hm)
    exact ⟨p, honly⟩

end Scene

end Engram
