import DeviceStats.Facts
import DeviceStats.Json.Printer
import DeviceStats.Text.Blank

/-!
# Template — facts put into texts

A placeholder is a dotted path between double braces, with blanks around it or not.  `fill` puts the
facts in place of the placeholders of every text inside a value; names of objects stay as they are,
and what is put in is not looked at again.
-/

namespace DeviceStats.Template

open Json (Value)
open Text (isBlank)

/-- Paths hold neither braces nor blanks. -/
def isPathChar (c : Char) : Bool := c != '\x7b' && c != '\x7d' && !isBlank c

/-- The path of the placeholder that a text starts with, and the text after it. -/
def placeholder? : List Char → Option (List Char × List Char)
  | '\x7b' :: '\x7b' :: cs =>
    let cs := cs.dropWhile isBlank
    let path := cs.takeWhile isPathChar
    if path.isEmpty then none
    else
      match (cs.dropWhile isPathChar).dropWhile isBlank with
      | '\x7d' :: '\x7d' :: rest => some (path, rest)
      | _ => none
  | _ => none

/-- What stands for a path: a text as it is, nothing for null and for no fact, the written form of
any other value. -/
def replacement (facts : Facts) (path : List Char) : List Char :=
  match facts.lookup? (String.ofList path) with
  | some (.str s) => s.toList
  | some .null => []
  | none => []
  | some v => v.chars

/-- A text with its placeholders filled, of which `skip` characters are already done. -/
def fillFrom (facts : Facts) : Nat → List Char → List Char
  | _, [] => []
  | skip + 1, _ :: cs => fillFrom facts skip cs
  | 0, c :: cs =>
    match placeholder? (c :: cs) with
    | some (path, rest) => replacement facts path ++ fillFrom facts (cs.length - rest.length) cs
    | none => c :: fillFrom facts 0 cs

def fillText (facts : Facts) (s : String) : String := String.ofList (fillFrom facts 0 s.toList)

mutual

/-- A value with the placeholders of all its texts filled. -/
def fill (facts : Facts) : Value → Value
  | .str s => .str (fillText facts s)
  | .arr items => .arr (fillItems facts items)
  | .obj fields => .obj (fillFields facts fields)
  | v => v

def fillItems (facts : Facts) : List Value → List Value
  | [] => []
  | v :: vs => fill facts v :: fillItems facts vs

def fillFields (facts : Facts) : List (String × Value) → List (String × Value)
  | [] => []
  | (k, v) :: rest => (k, fill facts v) :: fillFields facts rest

end

end DeviceStats.Template
