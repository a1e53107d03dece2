import DeviceStats.Action
import DeviceStats.Json.Source
import DeviceStats.Text.Blank
import DeviceStats.Text.Split

/-!
# Event — events read from lines

A line that is a JSON object is that object.  Any other line is read as `key=value` pairs with
commas between them; a value may stand in quotes, inside which commas do not count.  A line without
pairs is kept whole.
-/

namespace DeviceStats.Event

open Json (Value Object)

/-- The parts of a line between commas outside quotes. -/
def splitPairs (quoted : Bool) : List Char → List (List Char)
  | [] => [[]]
  | c :: cs =>
    if c = '"' then Text.extendFirst c (splitPairs (!quoted) cs)
    else if c = ',' && !quoted then [] :: splitPairs quoted cs
    else Text.extendFirst c (splitPairs quoted cs)

/-- A text without a quote at its start and one at its end, if it has both. -/
def unquote (cs : List Char) : List Char :=
  match cs with
  | '"' :: inner => if inner.getLast? = some '"' then inner.dropLast else cs
  | _ => cs

/-- The pair that a part writes, if it has an equals sign and a key before it. -/
def pair? (part : List Char) : Option (String × Value) :=
  match Text.splitFirst? ['='] part with
  | some (key, value) =>
    let key := Text.trimChars key
    if key.isEmpty then none
    else some (String.ofList key, .str (String.ofList (unquote (Text.trimChars value))))
  | none => none

/-- The pairs of a line; of pairs with one key the last gives the value. -/
def pairs (line : List Char) : Object := Named.ofPairs ((splitPairs false line).filterMap pair?)

/-- The object that a line starting with a brace writes. -/
def object? (line : List Char) : Option Value :=
  match line with
  | '\x7b' :: _ => (Value.ofText? (String.ofList line)).filter Value.isObj
  | _ => none

/-- The event of a line. -/
def ofLine (raw : String) : Value :=
  let line := Text.trimChars raw.toList
  match object? line with
  | some v => v
  | none =>
    match pairs line with
    | [] => .obj [("data", .str (String.ofList line))]
    | o => .obj o

/-- The event of a line after actions. -/
def process (definitions : TagDefinitions) (actions : List Action) (raw : String) : Value :=
  Action.applyAll definitions .defaultEvent actions (ofLine raw)

end DeviceStats.Event
