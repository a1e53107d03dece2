import DeviceStats.Match.Deep
import DeviceStats.Tag.Resolution

/-!
# Tag/Placement — tags written where a declaration says

Declared tags go to the objects that locations address.  Without locations they go to the items of
the tagged collections of a report, or to a whole event.
-/

namespace DeviceStats.Tag

open Json (Value Object)
open Match (Tree Found)

/-- A collection whose items are tagged. -/
structure Collection where
  path : List String
  subjectField? : Option String
deriving DecidableEq, Repr

/-- What tags are written into. -/
inductive Scope
  | report (collections : List Collection)
  /-- An event; a field of it may hold the subject. -/
  | event (subjectField? : Option String)
deriving DecidableEq, Repr

/-- The field that holds the subject of an event. -/
def Scope.defaultEvent : Scope := .event (some "virtual_name")

/-- The subject field for the items at a path: that of the first collection that holds it. -/
def Scope.subjectField? (scope : Scope) (path : List String) : Option String :=
  match scope with
  | .report collections =>
    (collections.find? fun c => c.path.isPrefixOf path).bind (·.subjectField?)
  | .event _ => none

variable (definitions : TagDefinitions) (tags : Object)

/-- Tags a found item. -/
def placeAt (scope : Scope) (v : Value) (found : Found) : Value :=
  Tree.modifyAt (fun item =>
    apply true definitions tags (subjectOf found.key item (scope.subjectField? found.path)) item)
    found.full v

/-- Tags the items of an object. -/
def placeItems (field? : Option String) : Value → Value
  | .obj items =>
    .obj (items.map fun kv => (kv.1, apply true definitions tags (subjectOf kv.1 kv.2 field?) kv.2))
  | v => v

/-- Tags a whole event; one without a subject has the empty text for it. -/
def placeEvent (field? : Option String) (v : Value) : Value :=
  apply true definitions tags (((field?.bind v.get?).bind Value.str?).getD "") v

/-- Locations that address anything. -/
def named? (locations : Option Value) : Option Value :=
  match locations with
  | some (.obj (kv :: rest)) => some (.obj (kv :: rest))
  | _ => none

/-- Writes tags where locations or the scope say.  What locations address is found before any tag is
written. -/
def place (scope : Scope) (locations : Option Value) (v : Value) : Value :=
  match named? locations, scope with
  | some l, _ => (Match.deep v l).foldl (placeAt definitions tags scope) v
  | none, .event field? => placeEvent definitions tags field? v
  | none, .report collections =>
    collections.foldl
      (fun v c => Tree.modifyAt (placeItems definitions tags c.subjectField?) c.path v) v

end DeviceStats.Tag
