import DeviceStats.Outline.Fingerprint

/-!
# Outline/Selection — properties worth collecting

A property is selected if its node is left in the outline after all actions.  A cache remembers
selections by fingerprint.
-/

namespace DeviceStats

namespace Outline

/-- The outline that actions leave. -/
def final (properties : List Property) (actions : List Action) (disabledFolders : NameSet) :
    Outline :=
  actions.foldl apply (build disabledFolders properties)

/-- The names of the selected properties. -/
def select (properties : List Property) (actions : List Action) (disabledFolders : NameSet) :
    NameSet :=
  let o := final properties actions disabledFolders
  .ofList ((properties.filter fun p => o.hasPath p.path).map (·.name))

end Outline

/-- Selections by fingerprint. -/
structure SelectionCache where
  entries : List (UInt64 × NameSet) := []

namespace SelectionCache

def size (c : SelectionCache) : Nat := c.entries.length

/-- Everything is forgotten. -/
def clear (_ : SelectionCache) : SelectionCache := {}

def get? (c : SelectionCache) (key : UInt64) : Option NameSet :=
  (c.entries.find? (·.1 == key)).map (·.2)

/-- A remembered selection, or a new one that is remembered. -/
def select (c : SelectionCache) (properties : List Property) (actions : List Action)
    (disabledFolders : NameSet) : NameSet × SelectionCache :=
  let key := Fingerprint.ofInputs properties actions disabledFolders
  match c.get? key with
  | some names => (names, c)
  | none =>
    let names := Outline.select properties actions disabledFolders
    (names, ⟨c.entries ++ [(key, names)]⟩)

end SelectionCache

end DeviceStats
