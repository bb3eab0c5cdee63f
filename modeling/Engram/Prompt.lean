import Engram.Config
import Engram.Context
import Engram.Memory

/-!
Prompts for the generator: from retrieved memories for an input, and from recent interactions for a
question.
-/

namespace Engram.Prompt

/-- The tiers that have a section in a prompt, and how the section begins. -/
def sections : List (Tier × String) := [
  (.working, "Current Context:"),
  (.episodic, "Relevant Experiences:"),
  (.semantic, "Relevant Knowledge:")]

/-- A section: its heading and the first memories of its tier, as many as it may hold. -/
def block (c : RetrievalConfig) (memories : List Memory) (tier : Tier) (heading : String) : String :=
  let chosen := (memories.filter (·.tier == tier)).take (c.promptCap tier)
  String.join (heading :: chosen.map fun m => "\n- " ++ m.content)

/-- The prompt for an input, given the memories retrieved for it. -/
def forInput (c : RetrievalConfig) (input : String) (memories : List Memory) : String :=
  let blocks := sections.map fun (tier, heading) => block c memories tier heading
  "\n\n".intercalate (blocks ++ ["Current Input: " ++ input])

/-- An interaction as one line of a prompt. -/
def contextLine (number : Nat) (item : ContextItem) : String :=
  let shown : Json.Value := .obj [
    ("input", .str item.input), ("metadata", .obj item.metadata), ("output", .str item.output)]
  "Context " ++ toString number ++ ": " ++ shown.compact ++ "\n"

/-- The prompt for a question, given the interactions that bear on it. -/
def forQuestion (question : String) (items : List ContextItem) : String :=
  let lines := items.mapIdx fun i item => contextLine (i + 1) item
  "Question: " ++ question ++ "\n\nRelevant Context:\n" ++ String.join lines
    ++ "\nAnswer based on the above context:"

end Engram.Prompt
