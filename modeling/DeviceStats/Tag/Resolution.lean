import DeviceStats.Tag.Definition

/-!
# Tag/Resolution — what tags say of an item

A tag value is a constant, the name of a definition, an inline definition, or an object of tag
values.  It is resolved against the subject of an item: the text under a chosen field of the item,
or the item's key.  A pattern that does not match gives no value.
-/

namespace DeviceStats.Tag

open Json (Value Object)

/-- The inline definition that an object is: a pattern with a group or without.  A group that is no
count stands for the whole match. -/
def inline? (o : Object) : Option TagDefinition :=
  if o.keys.all fun k => k == "pattern" || k == "group" then
    match o.get? "pattern", o.get? "group" with
    | some (.str pattern), some (.num (.int n)) =>
      some ⟨pattern, if 0 ≤ n then some n.toNat else none⟩
    | some (.str pattern), _ => some ⟨pattern, none⟩
    | _, _ => none
  else none

mutual

/-- The value of a tag for a subject. -/
def resolve (definitions : TagDefinitions) (subject : String) : Value → Option Value
  | .str name =>
    match definitions.get? name with
    | some d => (d.capture subject).map .str
    | none => some (.str name)
  | .obj fields =>
    match inline? fields with
    | some d => (d.capture subject).map .str
    | none => some (.obj (resolveFields definitions subject fields))
  | v => some v

/-- The entries that have a value for the subject. -/
def resolveFields (definitions : TagDefinitions) (subject : String) :
    List (String × Value) → List (String × Value)
  | [] => []
  | (k, v) :: rest =>
    match resolve definitions subject v with
    | some w => (k, w) :: resolveFields definitions subject rest
    | none => resolveFields definitions subject rest

end

/-- The subject of an item. -/
def subjectOf (key : String) (item : Value) (field? : Option String) : String :=
  ((field?.bind item.get?).bind Value.str?).getD key

/-- Writes one tag into an object. -/
def write (overwrite : Bool) (definitions : TagDefinitions) (subject : String) (o : Object)
    (tag : String × Value) : Object :=
  if !overwrite && o.has tag.1 then o
  else
    match resolve definitions subject tag.2 with
    | some v => o.insert tag.1 v
    | none => o

/-- Writes tags into an item that is an object.  Unless they overwrite, they leave entries that are
there alone. -/
def apply (overwrite : Bool) (definitions : TagDefinitions) (tags : Object) (subject : String) :
    Value → Value
  | .obj o => .obj (tags.foldl (write overwrite definitions subject) o)
  | v => v

end DeviceStats.Tag
