/-!
# Unicode/CharSet — sets of code points as sorted ranges

A set is a list of inclusive ranges in increasing order, no two of which touch.  `ofRanges` brings
any list of ranges into that form, and every operation keeps it, so equal sets have equal lists.

The code points `D800`–`DFFF` belong to no character.  They may lie inside a range, and the
complement steps over them: the neighbours of the hole are `D7FF` and `E000`.
-/

namespace DeviceStats.Unicode

/-- A set of code points: inclusive ranges, sorted, apart from each other. -/
structure CharSet where
  ranges : List (Nat × Nat)
deriving DecidableEq, Repr, Inhabited

namespace CharSet

/-- The largest code point. -/
def maxPoint : Nat := 0x10FFFF

/-! ## Building a set -/

/-- Joins a first range with the following ones, given in the order of their first points. -/
def join (lo hi : Nat) : List (Nat × Nat) → List (Nat × Nat)
  | [] => [(lo, hi)]
  | (lo', hi') :: rest =>
    if lo' ≤ hi + 1 then join lo (max hi hi') rest else (lo, hi) :: join lo' hi' rest

/-- A range ends no earlier than it starts: its ends may be given in either order. -/
def ordered (r : Nat × Nat) : Nat × Nat := (min r.1 r.2, max r.1 r.2)

/-- The set of all points of the ranges, which may overlap and come in any order. -/
def ofRanges (rs : List (Nat × Nat)) : CharSet :=
  match (rs.map ordered).mergeSort fun a b => a.1 < b.1 || (a.1 == b.1 && a.2 ≤ b.2) with
  | [] => ⟨[]⟩
  | (lo, hi) :: rest => ⟨join lo hi rest⟩

def empty : CharSet := ⟨[]⟩

def single (c : Nat) : CharSet := ⟨[(c, c)]⟩

/-- Every code point. -/
def full : CharSet := ⟨[(0, maxPoint)]⟩

/-! ## Reading a set -/

def contains (s : CharSet) (n : Nat) : Bool := s.ranges.any fun r => r.1 ≤ n && n ≤ r.2

def mem (s : CharSet) (c : Char) : Bool := s.contains c.toNat

def isEmpty (s : CharSet) : Bool := s.ranges.isEmpty

/-- Whether every point is below `80`. -/
def isAscii (s : CharSet) : Bool := s.ranges.all fun r => r.2 < 0x80

/-- The last point, if there is one. -/
def last? (s : CharSet) : Option Nat := s.ranges.getLast?.map (·.2)

/-! ## Operations -/

def union (s t : CharSet) : CharSet := ofRanges (s.ranges ++ t.ranges)

/-- The points common to two lists of sorted ranges. -/
def meet : List (Nat × Nat) → List (Nat × Nat) → List (Nat × Nat)
  | [], _ => []
  | _, [] => []
  | (a, b) :: s, (c, d) :: t =>
    let rest := if b < d then meet s ((c, d) :: t) else meet ((a, b) :: s) t
    if max a c ≤ min b d then (max a c, min b d) :: rest else rest
termination_by s t => s.length + t.length

def inter (s t : CharSet) : CharSet := ⟨meet s.ranges t.ranges⟩

/-- The next character after a code point. -/
def next (n : Nat) : Nat := if n = 0xD7FF then 0xE000 else n + 1

/-- The last character before a code point. -/
def prev (n : Nat) : Nat := if n = 0xE000 then 0xD7FF else n - 1

/-- The ranges between and around the given ones, from a first point on. -/
def gapsFrom (start : Nat) : List (Nat × Nat) → List (Nat × Nat)
  | [] => if start ≤ maxPoint then [(start, maxPoint)] else []
  | (lo, hi) :: rest =>
    let more := gapsFrom (next hi) rest
    if 0 < lo ∧ start ≤ prev lo then (start, prev lo) :: more else more

def diff (s t : CharSet) : CharSet := ⟨meet s.ranges (gapsFrom 0 t.ranges)⟩

def symmDiff (s t : CharSet) : CharSet := (s.union t).diff (s.inter t)

/-- What follows each range up to the next one, and after the last up to the largest point. -/
def gapsAfter (hi : Nat) : List (Nat × Nat) → List (Nat × Nat)
  | [] => if hi < maxPoint then [(next hi, maxPoint)] else []
  | (lo, hi') :: rest => (next hi, prev lo) :: gapsAfter hi' rest

/-- The characters outside the set.  Two ranges that face each other across the hole count as
having a gap between them, so the complement then holds both `D7FF` and `E000`. -/
def compl (s : CharSet) : CharSet :=
  match s.ranges with
  | [] => full
  | (lo, hi) :: rest =>
    ofRanges ((if 0 < lo then [(0, prev lo)] else []) ++ gapsAfter hi rest)

/-! ## Written sets

A table of ranges is written as hexadecimal words: `41` is one point, `41-5A` a range and
`100-136/2` every second point from `100` through `136`. -/

/-- What has been read of the word at hand. -/
structure Word where
  first : Option Nat := none
  value : Option Nat := none
  alternate : Bool := false

def hexDigit? (c : Char) : Option Nat :=
  if '0' ≤ c ∧ c ≤ '9' then some (c.toNat - '0'.toNat)
  else if 'A' ≤ c ∧ c ≤ 'F' then some (c.toNat - 'A'.toNat + 10)
  else none

def Word.ranges (w : Word) : List (Nat × Nat) :=
  match w.first, w.value with
  | _, none => []
  | none, some n => [(n, n)]
  | some m, some n =>
    if w.alternate then (List.range ((n - m) / 2 + 1)).map fun i => (m + 2 * i, m + 2 * i)
    else [(m, n)]

def Word.push (w : Word) (c : Char) : Word :=
  if c = '-' then { w with first := w.value, value := none }
  else if c = '/' then { w with alternate := true }
  else
    match hexDigit? c, w.alternate with
    | some d, false => { w with value := some (w.value.getD 0 * 16 + d) }
    | _, _ => w

/-- Ranges of the written words, last first. -/
def readWords : List Char → Word → List (Nat × Nat) → List (Nat × Nat)
  | [], w, acc => w.ranges.reverse ++ acc
  | c :: cs, w, acc =>
    if c = ' ' ∨ c = '\n' then readWords cs {} (w.ranges.reverse ++ acc)
    else readWords cs (w.push c) acc

/-- The set a text of hexadecimal words stands for. -/
def parse (text : String) : CharSet := ofRanges (readWords text.toList {} []).reverse

end CharSet

/-- A set together with the names it goes by. -/
structure NamedSet where
  names : List String
  set : CharSet

/-- The set that goes by a name. -/
def NamedSet.find? (table : List NamedSet) (name : String) : Option CharSet :=
  (table.find? (·.names.contains name)).map (·.set)

end DeviceStats.Unicode
