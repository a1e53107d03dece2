import DeviceStats.Unicode.Age
import DeviceStats.Unicode.Script
import DeviceStats.Unicode.Segmentation

/-!
# Unicode/Lookup — the set a property name stands for

Names are compared loosely: case, blanks, underscores, hyphens and a leading `is` do not count.  A
bare name is tried as a property, then as a category, then as a script; a name with a value asks
for one class of an enumerated property.
-/

namespace DeviceStats.Unicode.Lookup

/-- Drops what does not count in a name.  The name `is_c` keeps its first letters, since `isc`
abbreviates a property of its own and not the category `c`. -/
def loose (name : String) : String :=
  let cs := name.toList
  let (prefixed, rest) :=
    match cs with
    | a :: b :: rest =>
      if (a = 'i' ∨ a = 'I') ∧ (b = 's' ∨ b = 'S') then (true, rest) else (false, cs)
    | _ => (false, cs)
  let kept := rest.filter fun c => c.toNat < 0x80 && c != ' ' && c != '_' && c != '-'
  let lowered := kept.map Char.toLower
  if prefixed && lowered == ['c'] then "isc" else String.ofList lowered

/-- The set of a bare name. -/
def named? (name : String) : Option CharSet :=
  let key := loose name
  NamedSet.find? Property.table key
    <|> NamedSet.find? Category.table key
    <|> NamedSet.find? Script.table key

/-- The set of the characters for which an enumerated property has the given value. -/
def valued? (property value : String) : Option CharSet :=
  let key := loose value
  match loose property with
  | "gc" | "generalcategory" => NamedSet.find? Category.table key
  | "sc" | "script" => NamedSet.find? Script.table key
  | "scx" | "scriptextensions" => NamedSet.find? Script.extensions key
  | "age" => Age.upTo? key
  | "gcb" | "graphemeclusterbreak" => NamedSet.find? GraphemeBreak.table key
  | "sb" | "sentencebreak" => NamedSet.find? SentenceBreak.table key
  | "wb" | "wordbreak" => NamedSet.find? WordBreak.table key
  | _ => none

end DeviceStats.Unicode.Lookup
