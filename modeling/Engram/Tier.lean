import Engram.Json.Codec
import Engram.Text.Lowercase
import Engram.Text.Words

/-!
The four tiers of memory. A memory is created in one tier and leaves it only for the archive.
-/

namespace Engram

inductive Tier where
  | working
  | episodic
  | semantic
  | procedural
  deriving DecidableEq, Repr

namespace Tier

/-- Every tier, in the order in which retrieval goes through them. -/
def all : List Tier := [.working, .episodic, .semantic, .procedural]

theorem mem_all (t : Tier) : t ∈ all := by
  cases t <;> decide

def index : Tier → Nat
  | .working => 0
  | .episodic => 1
  | .semantic => 2
  | .procedural => 3

instance : Ord Tier where
  compare a b := compare a.index b.index

def name : Tier → String
  | .working => "working"
  | .episodic => "episodic"
  | .semantic => "semantic"
  | .procedural => "procedural"

def ofName? (s : String) : Option Tier :=
  all.find? (·.name == s)

/-- Read a tag, whatever its case and the blanks around it. -/
def parse? (s : String) : Option Tier :=
  ofName? (Text.lowercase (Text.trim s))

instance : Json.Codec Tier where
  encode t := .str t.name
  decode room document := (Json.decodeName room document).bind ofName?

@[simp]
theorem ofName?_name (t : Tier) : ofName? t.name = some t := by
  cases t <;> decide

end Tier

/-- One value for each tier. -/
structure Tiers (α : Type) where
  working : α
  episodic : α
  semantic : α
  procedural : α

namespace Tiers

variable {α : Type}

def replicate (a : α) : Tiers α := ⟨a, a, a, a⟩

def get (ts : Tiers α) : Tier → α
  | .working => ts.working
  | .episodic => ts.episodic
  | .semantic => ts.semantic
  | .procedural => ts.procedural

def set (ts : Tiers α) (t : Tier) (a : α) : Tiers α :=
  match t with
  | .working => { ts with working := a }
  | .episodic => { ts with episodic := a }
  | .semantic => { ts with semantic := a }
  | .procedural => { ts with procedural := a }

/-- Apply a function to every value. -/
def map {β : Type} (f : α → β) (ts : Tiers α) : Tiers β :=
  ⟨f ts.working, f ts.episodic, f ts.semantic, f ts.procedural⟩

@[simp]
theorem get_replicate (a : α) (t : Tier) : (replicate a).get t = a := by
  cases t <;> rfl

@[simp]
theorem get_set_self (ts : Tiers α) (t : Tier) (a : α) : (ts.set t a).get t = a := by
  cases t <;> rfl

@[simp]
theorem get_set_of_ne (ts : Tiers α) {t u : Tier} (a : α) (h : u ≠ t) :
    (ts.set t a).get u = ts.get u := by
  cases t <;> cases u <;> simp_all [get, set]

@[simp]
theorem get_map {β : Type} (f : α → β) (ts : Tiers α) (t : Tier) :
    (ts.map f).get t = f (ts.get t) := by
  cases t <;> rfl

end Tiers

/-- A partial map from tiers, in tier order. In JSON its keys are the names of the tiers. -/
structure TierMap (α : Type) where
  items : List (Tier × α)
  deriving Repr

namespace TierMap

variable {α : Type}

def get? (m : TierMap α) (t : Tier) : Option α :=
  (m.items.find? (·.1 == t)).map (·.2)

/-- The map of a list of pairs, where the last pair of a tier counts. -/
def ofList (pairs : List (Tier × α)) : TierMap α :=
  ⟨Tier.all.filterMap fun t => (pairs.reverse.find? (·.1 == t))⟩

instance [Json.Codec α] : Json.Codec (TierMap α) where
  encode m := .obj (m.items.map fun p => (p.1.name, Json.encode p.2))
  decode
    | room + 1, .obj fields => do
      let pairs ← fields.mapM fun (name, document) => do
        let tier ← Tier.ofName? (← name)
        let value ← Json.Codec.decode room document
        return (tier, value)
      return ofList pairs
    | _, _ => none

end TierMap

end Engram
