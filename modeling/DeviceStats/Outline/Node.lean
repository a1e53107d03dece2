import DeviceStats.Action
import DeviceStats.Match.Walk
import DeviceStats.NameSet
import DeviceStats.Property

/-!
# Outline/Node — the shape of a report before it exists

The outline of a report has a leaf for every property and a branch for every parent.  Actions are
tried out on the outline.  Those that depend on data cannot be decided there; they only mark the
nodes that they look at, and marked nodes are never taken out.
-/

namespace DeviceStats

open Json (Value)

/-- A node of an outline, marked or not.  A branch has named nodes in rising order of names. -/
inductive Outline
  | node (kept : Bool) (nested? : Option (List (String × Outline)))
deriving Inhabited

namespace Outline

def leaf : Outline := .node false none

def branch : Outline := .node false (some [])

def isKept : Outline → Bool
  | .node kept _ => kept

def nested? : Outline → Option (Named Outline)
  | .node _ nested? => nested?

def mark : Outline → Outline
  | .node _ nested? => .node true nested?

mutual

/-- Marks a node and all below it. -/
def markAll : Outline → Outline
  | .node _ none => .node true none
  | .node _ (some nested) => .node true (some (markNested nested))

def markNested : List (String × Outline) → List (String × Outline)
  | [] => []
  | (k, o) :: rest => (k, markAll o) :: markNested rest

end

instance : Match.Tree Outline where
  children? := nested?
  withChildren
    | .node kept (some _), nested => .node kept (some nested)
    | o, _ => o

/-! ## Building -/

/-- Puts a node under a name, at its place in the order; `change` sees what is there. -/
def place (name : String) (change : Option Outline → Outline) : Named Outline → Named Outline
  | [] => [(name, change none)]
  | (k, o) :: rest =>
    if name = k then (k, change (some o)) :: rest
    else if name < k then (name, change none) :: (k, o) :: rest
    else (k, o) :: place name change rest

/-- A branch with a fresh leaf under a name; a leaf becomes a branch. -/
def withLeaf (name : String) (parent : Option Outline) : Outline :=
  match parent with
  | some (.node kept nested?) => .node kept (some (place name (fun _ => leaf) (nested?.getD [])))
  | none => .node false (some (place name (fun _ => leaf) []))

/-- The node of a property that stands at the top; what is there stays. -/
def topLeaf (there : Option Outline) : Outline := there.getD leaf

/-- Adds a property, unless it is in a folder that is switched off. -/
def add (disabledFolders : NameSet) (nested : Named Outline) (p : Property) : Named Outline :=
  match p.parent? with
  | some parent =>
    if p.inFolder && disabledFolders.contains parent then nested
    else place parent (withLeaf p.name) nested
  | none => place p.name topLeaf nested

/-- The outline of the report of some properties. -/
def build (disabledFolders : NameSet) (properties : List Property) : Outline :=
  .node false (some (properties.foldl (add disabledFolders) []))

/-! ## Trying out actions -/

/-- Marked nodes may not be taken out. -/
def consent : Match.Consent Outline Id := fun _ o => !o.isKept

/-- Visits that change a node and go on from it. -/
def changing (f : Outline → Outline) : Match.Visit Outline Id := fun _ o => (f o, none)

/-- Marks what tags may be written below: later actions may address what is there then. -/
def markTagged (effect : Effect) (o : Outline) : Outline :=
  match effect with
  | .setTag _ (some locations) => (Match.walk (changing markAll) (.obj locations) o : Id Outline)
  | _ => o

/-- Marks what a condition looks at. -/
def markSeen (c : Condition) (o : Outline) : Outline :=
  c.trees.foldl (fun o tree => (Match.walk (changing mark) (.obj tree) o : Id Outline)) o

/-- An action that does not depend on data, carried out on an outline. -/
def change (effect : Effect) (o : Outline) : Outline :=
  match effect with
  | .excludeData locations => (Match.remove consent (.obj locations) o : Id (Nat × Outline)).2
  | .includeData locations => (Match.preserve false consent (.obj locations) o : Id Outline)
  | .setTag _ _ => o

def apply (o : Outline) (a : Action) : Outline :=
  if a.enabled then
    let o := markTagged a.effect o
    match a.condition? with
    | some c => markSeen c o
    | none => change a.effect o
  else o

/-- Whether there is a node at the end of a path. -/
def hasPath (o : Outline) (path : List String) : Bool := (Match.Tree.at? o path).isSome

end Outline

end DeviceStats
