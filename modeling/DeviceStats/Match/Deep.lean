import DeviceStats.Match.Tree

/-!
# Match/Deep — what locations address

Locations are an object.  An object inside it goes one level deeper, any other value ends a path.
`deep` finds the paths of a tree that locations address, in the order of the locations, each once.
-/

namespace DeviceStats.Match

open Json (Value)

/-- A found key and the path to the branch that has it. -/
structure Found where
  path : List String
  key : String
deriving DecidableEq, Repr

/-- The path of the found node itself. -/
def Found.full (f : Found) : List String := f.path ++ [f.key]

variable {α : Type} [Tree α]

mutual

/-- What locations address below a node at a path, repetitions included. -/
def addressed (path : List String) : Value → α → List Found
  | .obj fields, t => addressedFields path fields t
  | _, _ => []

def addressedFields (path : List String) : List (String × Value) → α → List Found
  | [], _ => []
  | (key, sub) :: rest, t =>
    let keys := matchingKeys t key
    let found :=
      match sub with
      | .obj _ => keys.flatMap fun k =>
        match Tree.child? t k with
        | some c => if Tree.isBranch c then addressed (path ++ [k]) sub c else []
        | none => []
      | _ => keys.map (⟨path, ·⟩)
    found ++ addressedFields path rest t

end

/-- The paths of a tree that locations address. -/
def deep (t : α) (locations : Value) : List Found := (addressed [] locations t).eraseDups

end DeviceStats.Match
