/-!
Sets of names, kept as lists in ascending order without repetition, and passes that count what is
new.
-/

namespace Engram

/-- Go through a list with a state, adding up what the steps count. -/
def addUp {σ α : Type} (step : σ → α → σ × Nat) (s : σ) (items : List α) : σ × Nat :=
  items.foldl (fun total item =>
    let (s, count) := step total.1 item
    (s, total.2 + count)) (s, 0)

namespace Names

/-- Add a name to an ordered list, unless it is there. -/
def insert (name : String) : List String → List String
  | [] => [name]
  | other :: rest =>
    if other < name then other :: insert name rest
    else if other = name then other :: rest
    else name :: other :: rest

/-- Put a name in front of an ordered list, unless it is there already. -/
def place (name : String) : List String → List String
  | [] => [name]
  | other :: rest => if name = other then other :: rest else name :: other :: rest

/-- The names of a list. -/
def ofList (names : List String) : List String :=
  (names.mergeSort fun a b => (compare a b).isLE).foldr place []

end Names

end Engram
