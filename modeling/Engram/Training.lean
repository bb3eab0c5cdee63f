import Engram.Collaborator
import Engram.Json.Codec
import Engram.Number.Shortest

/-!
Training: examples, batches, what a trainer replies, and which replies are accepted.
-/

namespace Engram

structure TrainingExample where
  input : String
  output : String
  metadata : Json.Map

open Json in
instance : Codec TrainingExample where
  encode e := .obj [
    ("input", encode e.input), ("output", encode e.output), ("metadata", encode e.metadata)]
  decode := record ["input", "output", "metadata"] fun f => do
    return {
      input := ← f.need "input"
      output := ← f.need "output"
      metadata := ← f.orDefault "metadata" [] }

/-- The cycle that a batch comes from. -/
inductive BatchSource where
  | nightly
  | background
  deriving DecidableEq, Repr

namespace BatchSource

def all : List BatchSource := [.nightly, .background]

def name : BatchSource → String
  | .nightly => "nightly"
  | .background => "background"

def ofName? (s : String) : Option BatchSource :=
  all.find? (·.name == s)

instance : Json.Codec BatchSource where
  encode s := .str s.name
  decode room document := (Json.decodeName room document).bind ofName?

end BatchSource

structure TrainingBatch where
  id : String
  source : BatchSource
  index : Nat
  examples : List TrainingExample

open Json in
instance : Codec TrainingBatch where
  encode b := .obj [
    ("id", encode b.id), ("source", encode b.source), ("index", encode b.index),
    ("examples", encode b.examples)]
  decode := record ["id", "source", "index", "examples"] fun f => do
    return {
      id := ← f.need "id"
      source := ← f.need "source"
      index := ← f.need "index"
      examples := ← f.need "examples" }

/-- The consecutive stretches of `size` elements, at least one; the last may be shorter. -/
def chunks {α : Type} (size : Nat) (items : List α) : List (List α) :=
  match items with
  | [] => []
  | item :: rest => (item :: rest).take (max size 1) :: chunks size (rest.drop (max size 1 - 1))
  termination_by items.length

theorem flatten_chunks {α : Type} (size : Nat) (items : List α) :
    (chunks size items).flatten = items := by
  fun_induction chunks size items with
  | case1 => rfl
  | case2 item rest ih =>
      rw [List.flatten_cons, ih]
      obtain ⟨n, hn⟩ : ∃ n, max size 1 = n + 1 := ⟨max size 1 - 1, by omega⟩
      rw [hn]
      simp

/-- What a trainer reports about a step. -/
structure TrainOutcome where
  success : Bool
  loss : Option Float
  diagnostics : String

namespace TrainOutcome

open Json in
instance : Codec TrainOutcome where
  encode o := .obj [
    ("success", encode o.success), ("loss", encode o.loss),
    ("diagnostics", encode o.diagnostics)]
  decode := record ["success", "loss", "diagnostics"] fun f => do
    return {
      success := ← f.need "success"
      loss := ← f.orDefault "loss" none
      diagnostics := ← f.orDefault "diagnostics" "" }

/-- Why a step is not accepted: it failed, or its loss is not a number from zero on. -/
def rejection? (o : TrainOutcome) : Option String :=
  if !o.success then
    some (if o.diagnostics = "" then "trainer reported failure" else o.diagnostics)
  else
    match o.loss with
    | none => none
    | some loss =>
      if !loss.isFinite then some ("non-finite loss " ++ Number.plain loss)
      else if loss < 0.0 then some ("negative loss " ++ Number.plain loss)
      else none

end TrainOutcome

/-- What a trainer answers to a batch. -/
abbrev TrainReply := Except CollaboratorFailure TrainOutcome

/-- What became of a batch. -/
inductive BatchOutcome where
  | applied (loss : Option Float)
  | rolledBack (reason : String)
  /-- Never sent to the trainer. -/
  | skipped

namespace BatchOutcome

/-- The fields besides the tag. -/
def parts (tag : String) : List String :=
  if tag = "applied" then ["loss"] else if tag = "rolledBack" then ["reason"] else []

open Json in
instance : Codec BatchOutcome where
  encode
    | .applied loss => .obj [("outcome", .str "applied"), ("loss", encode loss)]
    | .rolledBack reason => .obj [("outcome", .str "rolledBack"), ("reason", .str reason)]
    | .skipped => .obj [("outcome", .str "skipped")]
  decode := tagged "outcome" parts fun f => do
    let tag ← f.tag "outcome"
    if tag = "applied" then return .applied (← f.maybe "loss")
    else if tag = "rolledBack" then return .rolledBack (← f.need "reason")
    else if tag = "skipped" then return .skipped
    else none

def isApplied : BatchOutcome → Bool
  | .applied _ => true
  | _ => false

def isRolledBack : BatchOutcome → Bool
  | .rolledBack _ => true
  | _ => false

end BatchOutcome

structure BatchReport where
  id : String
  index : Nat
  examples : Nat
  outcome : BatchOutcome

open Json in
instance : Codec BatchReport where
  encode r := .obj [
    ("id", encode r.id), ("index", encode r.index), ("examples", encode r.examples),
    ("outcome", encode r.outcome)]
  decode := record ["id", "index", "examples", "outcome"] fun f => do
    return {
      id := ← f.need "id"
      index := ← f.need "index"
      examples := ← f.need "examples"
      outcome := ← f.need "outcome" }

/-- Why a batch is rolled back, and whether the trainer could be reached at all. -/
structure BatchFailure where
  reason : String
  unreachable : Bool

/-- Judge the reply to a batch: the loss of an accepted step, or why it is rolled back. -/
def judge : TrainReply → Except BatchFailure (Option Float)
  | .ok outcome =>
    match outcome.rejection? with
    | some reason => .error ⟨reason, false⟩
    | none => .ok outcome.loss
  | .error (.unreachable reason) => .error ⟨"trainer unreachable: " ++ reason, true⟩
  | .error failure => .error ⟨failure.message, false⟩

end Engram
