import DeviceStats.Routine.Fault
import DeviceStats.Text.Blank
import DeviceStats.Text.Split

/-!
# Routine/Table — tables written as delimited lines

The first line that is not blank names the columns, every other is a row.  A field may stand in
quotes, inside which delimiters do not count and a quote is written twice; blanks around a field do
not count either way.  Rows and header are matched from the left as far as both go.
-/

namespace DeviceStats.Table

open Json (Value Object)

/-- The fields of a line with their blanks; `quoted` says whether it starts inside quotes. -/
def rawFields (delimiter : Char) : Bool → List Char → List (List Char)
  | _, [] => [[]]
  | true, '"' :: '"' :: cs => Text.extendFirst '"' (rawFields delimiter true cs)
  | quoted, '"' :: cs => rawFields delimiter (!quoted) cs
  | quoted, c :: cs =>
    if c = delimiter && !quoted then [] :: rawFields delimiter quoted cs
    else Text.extendFirst c (rawFields delimiter quoted cs)

/-- The fields of a line. -/
def fields (delimiter : Char) (line : List Char) : List (List Char) :=
  (rawFields delimiter false line).map Text.trimChars

/-- A row under a header.  Of columns with one name the last gives the value. -/
def row (header fields : List (List Char)) : Object :=
  Named.ofPairs (List.zipWith (fun name field => (String.ofList name, .str (String.ofList field)))
    header fields)

/-- The rows of a table. -/
def rows (delimiter : Char) (text : List Char) : List Object :=
  match (Text.lines text).filter fun l => !(Text.trimChars l).isEmpty with
  | [] => []
  | header :: lines =>
    lines.map fun line => row (fields delimiter header) (fields delimiter line)

/-- Rows under the text they have in a column. -/
def keyed (column : String) (rows : List Object) : Except RoutineFault Object := do
  let pairs ← rows.mapM fun r =>
    match (r.get? column).bind Value.str? with
    | some key => .ok (key, Value.obj r)
    | none => .error (.missingColumn column)
  return Named.ofPairs pairs

/-- The character that arguments give as delimiter; a comma if none. -/
def delimiterOf (args : Object) : Char :=
  (((args.get? "delimiter").bind Value.str?).bind (·.toList.head?)).getD ','

/-- Whether a table has a line that is not blank. -/
def hasHeader (text : List Char) : Bool :=
  (Text.lines text).any fun l => !(Text.trimChars l).isEmpty

/-- A text as a list of rows, or as rows by a column if one is given.  A text without header is an
empty list either way. -/
def run (args : Object) : Value → Except RoutineFault Value
  | .str s => do
    let text := s.toList
    match (args.get? "keyName").bind Value.str? with
    | some column =>
      if hasHeader text then return .obj (← keyed column (rows (delimiterOf args) text))
      else return .arr []
    | none => return .arr ((rows (delimiterOf args) text).map .obj)
  | _ => .error .notText

end DeviceStats.Table
