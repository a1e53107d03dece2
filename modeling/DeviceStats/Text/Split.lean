/-!
# Text/Split — texts cut at separators

A text is cut at the occurrences of a separator, which is itself a text.  `splitFirst?` and
`splitLast?` cut once, `splitOn` cuts wherever the separator starts and the one before has ended.
-/

namespace DeviceStats.Text

/-! ## Cutting once -/

/-- The text before and after the first occurrence of a separator. -/
def splitFirst? (sep : List Char) : List Char → Option (List Char × List Char)
  | [] => if sep.isEmpty then some ([], []) else none
  | c :: cs =>
    if sep.isPrefixOf (c :: cs) then some ([], (c :: cs).drop sep.length)
    else (splitFirst? sep cs).map fun (a, b) => (c :: a, b)

/-- The text before and after the last occurrence of a separator. -/
def splitLast? (sep : List Char) : List Char → Option (List Char × List Char)
  | [] => if sep.isEmpty then some ([], []) else none
  | c :: cs =>
    match splitLast? sep cs with
    | some (a, b) => some (c :: a, b)
    | none =>
      if sep.isPrefixOf (c :: cs) then some ([], (c :: cs).drop sep.length) else none

/-- Whether a text occurs in another. -/
def occurs (part cs : List Char) : Bool := (splitFirst? part cs).isSome

/-! ## Cutting everywhere -/

/-- Puts a character in front of the first part. -/
def extendFirst (c : Char) : List (List Char) → List (List Char)
  | [] => [[c]]
  | part :: parts => (c :: part) :: parts

/-- The parts of a text of which `skip` characters still belong to a separator. -/
def partsFrom (sep : List Char) : Nat → List Char → List (List Char)
  | _, [] => [[]]
  | skip + 1, _ :: cs => partsFrom sep skip cs
  | 0, c :: cs =>
    if sep.isPrefixOf (c :: cs) then [] :: partsFrom sep (sep.length - 1) cs
    else extendFirst c (partsFrom sep 0 cs)

/-- The parts of a text between the occurrences of a separator that is not empty. -/
def splitOn (sep cs : List Char) : List (List Char) := partsFrom sep 0 cs

/-- The parts of a text between the occurrences of a character. -/
def splitOnChar (sep : Char) (cs : List Char) : List (List Char) := splitOn [sep] cs

/-! ## Putting together -/

/-- The parts with a separator between them. -/
def join (sep : List Char) : List (List Char) → List Char
  | [] => []
  | [part] => part
  | part :: parts => part ++ sep ++ join sep parts

/-- Writes one text wherever another occurs.  The empty text occurs around every character. -/
def replace (old new : List Char) (cs : List Char) : List Char :=
  if old.isEmpty then new ++ cs.flatMap fun c => c :: new
  else join new (splitOn old cs)

/-! ## Lines -/

/-- A line without the carriage return that belongs to its end. -/
def withoutReturn (line : List Char) : List Char :=
  if line.getLast? = some '\r' then line.dropLast else line

/-- Lines from parts between line feeds: the last part has no end of line, and is none if empty. -/
def linesOfParts : List (List Char) → List (List Char)
  | [] => []
  | [last] => if last.isEmpty then [] else [last]
  | part :: parts => withoutReturn part :: linesOfParts parts

/-- The lines of a text. -/
def lines (cs : List Char) : List (List Char) := linesOfParts (splitOnChar '\n' cs)

/-! ## On strings -/

/-- The parts of a string between the occurrences of a character. -/
def segments (sep : Char) (s : String) : List String := (splitOnChar sep s.toList).map String.ofList

end DeviceStats.Text
