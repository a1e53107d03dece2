import DeviceStats.Regex.Node
import DeviceStats.Text.Utf8
import DeviceStats.Unicode.CaseFolding
import DeviceStats.Unicode.Lookup

/-!
# Regex/Expr — what a regular expression matches

Flags, escapes and class notation are gone here: an expression is built from texts, sets of
characters and conditions on a position.  The building functions `ofSet`, `mkConcat`,
`mkAlternation` and `mkRepetition` simplify as they build, so that equal parts of two branches are
shared.
-/

namespace DeviceStats.Regex

open DeviceStats.Unicode (CharSet)
open DeviceStats.Text

/-- The ways a position can lie relative to words. -/
inductive Edge
  | boundary | notBoundary | start | finish | startHalf | finishHalf
deriving DecidableEq, Repr

/-- A condition on a position. -/
inductive Look
  | textStart | textEnd
  | lineStart (crlf : Bool)
  | lineEnd (crlf : Bool)
  | word (edge : Edge) (unicode : Bool)
deriving DecidableEq, Repr

inductive Expr
  | empty
  /-- The bytes of a text. -/
  | literal (bytes : List Nat)
  | oneOf (s : CharSet)
  | look (l : Look)
  | repetition (least : Nat) (most : Option Nat) (greedy : Bool) (body : Expr)
  | capture (index : Nat) (body : Expr)
  | concat (items : List Expr)
  | alternation (branches : List Expr)
deriving BEq, Inhabited

namespace Expr

/-! ## Lengths -/

def add? (a b : Option Nat) : Option Nat :=
  match a, b with
  | some m, some n => some (m + n)
  | _, _ => none

mutual

/-- The least number of bytes of a match; nothing where no match is possible. -/
def minLength : Expr → Option Nat
  | .empty | .look _ => some 0
  | .literal bs => some bs.length
  | .oneOf s => s.ranges.head?.map fun r => Utf8.width r.1
  | .repetition least _ _ body => body.minLength.map (· * least)
  | .capture _ body => body.minLength
  | .concat items => minLengthSum items
  | .alternation branches => minLengthLeast branches

def minLengthSum : List Expr → Option Nat
  | [] => some 0
  | x :: xs => add? x.minLength (minLengthSum xs)

def minLengthLeast : List Expr → Option Nat
  | [] => none
  | [x] => x.minLength
  | x :: xs =>
    match x.minLength, minLengthLeast xs with
    | some m, some n => some (min m n)
    | _, _ => none

end

mutual

/-- The greatest number of bytes of a match; nothing where there is no bound. -/
def maxLength : Expr → Option Nat
  | .empty | .look _ => some 0
  | .literal bs => some bs.length
  | .oneOf s => s.last?.map Utf8.width
  | .repetition _ most _ body =>
    match most, body.maxLength with
    | some n, some m => some (m * n)
    | _, _ => none
  | .capture _ body => body.maxLength
  | .concat items => maxLengthSum items
  | .alternation branches => maxLengthGreatest branches

def maxLengthSum : List Expr → Option Nat
  | [] => some 0
  | x :: xs => add? x.maxLength (maxLengthSum xs)

def maxLengthGreatest : List Expr → Option Nat
  | [] => none
  | [x] => x.maxLength
  | x :: xs =>
    match x.maxLength, maxLengthGreatest xs with
    | some m, some n => some (max m n)
    | _, _ => none

end

/-! ## Anchors -/

mutual

/-- Whether every match has to start where the text starts. -/
def anchoredStart : Expr → Bool
  | .look .textStart => true
  | .repetition least _ _ body => 0 < least && body.anchoredStart
  | .capture _ body => body.anchoredStart
  | .concat items => anchoredStartSome items
  | .alternation branches => !branches.isEmpty && anchoredStartAll branches
  | _ => false

def anchoredStartSome : List Expr → Bool
  | [] => false
  | x :: xs => x.anchoredStart || (x.maxLength == some 0 && anchoredStartSome xs)

def anchoredStartAll : List Expr → Bool
  | [] => true
  | x :: xs => x.anchoredStart && anchoredStartAll xs

end

mutual

/-- Whether every match has to end where the text ends. -/
def anchoredEnd : Expr → Bool
  | .look .textEnd => true
  | .repetition least _ _ body => 0 < least && body.anchoredEnd
  | .capture _ body => body.anchoredEnd
  | .concat items => anchoredEndSome items
  | .alternation branches => !branches.isEmpty && anchoredEndAll branches
  | _ => false

def anchoredEndSome : List Expr → Bool
  | [] => false
  | x :: xs => anchoredEndSome xs || (x.anchoredEnd && maxLengthSum xs == some 0)

def anchoredEndAll : List Expr → Bool
  | [] => true
  | x :: xs => x.anchoredEnd && anchoredEndAll xs

end

/-! ## Building -/

/-- What matches nowhere. -/
def fail : Expr := .oneOf .empty

/-- One character of a set. -/
def ofSet (s : CharSet) : Expr :=
  match s.ranges with
  | [(a, b)] => if a = b then .literal (Utf8.encode a) else .oneOf s
  | _ => .oneOf s

/-- Repeats an expression.  Where only the empty text can match, once is enough. -/
def mkRepetition (least : Nat) (most : Option Nat) (greedy : Bool) (body : Expr) : Expr :=
  let (least, most) :=
    if body.maxLength = some 0 then (min least 1, some ((most.map (min 1)).getD 1))
    else (least, most)
  if least = 0 ∧ most = some 0 then .empty
  else if least = 1 ∧ most = some 1 then body
  else .repetition least most greedy body

/-- Joins texts that follow each other. -/
def joinLiterals : List Expr → List Expr
  | [] => []
  | .literal a :: rest =>
    match joinLiterals rest with
    | .literal b :: more => .literal (a ++ b) :: more
    | more => .literal a :: more
  | x :: rest => x :: joinLiterals rest

def mkConcat (items : List Expr) : Expr :=
  let flat := items.flatMap fun
    | .empty => []
    | .concat xs => xs
    | x => [x]
  match joinLiterals flat with
  | [] => .empty
  | [x] => x
  | xs => .concat xs

/-- The character of a text of one character. -/
def single? : Expr → Option Nat
  | .literal bs => Utf8.decode? bs
  | _ => none

def set? : Expr → Option CharSet
  | .oneOf s => some s
  | _ => none

/-- The items that two lists start with alike. -/
def sharedPrefix : List Expr → List Expr → List Expr
  | x :: xs, y :: ys => if x == y then x :: sharedPrefix xs ys else []
  | _, _ => []

/-- The items that all branches start with, if each branch is a sequence. -/
def commonPrefix : List Expr → List Expr
  | [] => []
  | [.concat xs] => xs
  | .concat xs :: rest => sharedPrefix xs (commonPrefix rest)
  | _ => []

/-- What is left of a sequence without its first items. -/
def dropItems (n : Nat) : Expr → List Expr
  | .concat xs => xs.drop n
  | x => [x].drop n

/-- Chooses between branches: characters and sets become one set, and what all branches start with
comes first.  `fuel` bounds how often a shared start is taken out. -/
def alternationOf : Nat → List Expr → Expr
  | fuel, branches =>
    let flat := branches.flatMap fun
      | .alternation xs => xs
      | x => [x]
    match flat with
    | [] => fail
    | [x] => x
    | xs =>
      match xs.mapM single?, xs.mapM set? with
      | some cs, _ => ofSet (.ofRanges (cs.map fun c => (c, c)))
      | none, some sets => ofSet (.ofRanges (sets.flatMap (·.ranges)))
      | none, none =>
        match fuel, commonPrefix xs with
        | fuel + 1, p :: ps =>
          let rests := xs.map fun x => mkConcat (dropItems (ps.length + 1) x)
          mkConcat (p :: ps ++ [alternationOf fuel rests])
        | _, _ => .alternation xs

/-- A bound on how many items the branches share at their start. -/
def longest (branches : List Expr) : Nat :=
  branches.foldl (fun n x => match x with | .concat xs => n + xs.length | _ => n + 1) 1

def mkAlternation (branches : List Expr) : Expr := alternationOf (longest branches) branches

/-! ## Reading the written form -/

/-- The flags in force. -/
structure Settings where
  caseInsensitive : Bool := false
  multiLine : Bool := false
  dotAll : Bool := false
  swapGreed : Bool := false
  unicode : Bool := true
  crlf : Bool := false

def Settings.set (s : Settings) (fs : Flags) : Settings :=
  { caseInsensitive := (fs.state? .caseInsensitive).getD s.caseInsensitive
    multiLine := (fs.state? .multiLine).getD s.multiLine
    dotAll := (fs.state? .dotAll).getD s.dotAll
    swapGreed := (fs.state? .swapGreed).getD s.swapGreed
    unicode := (fs.state? .unicode).getD s.unicode
    crlf := (fs.state? .crlf).getD s.crlf }

namespace Settings

/-- The members of a set in every case, if case does not count. -/
def fold (f : Settings) (s : CharSet) : CharSet :=
  if !f.caseInsensitive then s
  else if f.unicode then Unicode.CaseFolding.fold s
  else Unicode.CaseFolding.asciiFold s

/-- The complement of a set.  Among bytes it would hold parts of characters, which are no match. -/
def negate (f : Settings) (negated : Bool) (s : CharSet) : Option CharSet :=
  if !negated then some s else if f.unicode then some s.compl else none

/-- The point a literal stands for in a class. -/
def point (f : Settings) (l : Literal) : Option Nat :=
  if f.unicode || l.char.toNat < 0x80 then some l.char.toNat else none

def shorthand (f : Settings) (s : Shorthand) (negated : Bool) : Option CharSet :=
  let set : CharSet :=
    match f.unicode, s with
    | true, .digit => Unicode.Category.decimalNumber
    | true, .space => Unicode.Property.whiteSpace
    | true, .word => Unicode.Property.word
    | false, .digit => .parse "30-39"
    | false, .space => .parse "9-D 20"
    | false, .word => .parse "30-39 41-5A 5F 61-7A"
  f.negate negated set

def property (f : Settings) (p : Property) : Option CharSet := do
  if !f.unicode then none
  let set ← match p.value with
    | some v => Unicode.Lookup.valued? p.name v
    | none => Unicode.Lookup.named? p.name
  f.negate p.negated (f.fold set)

/-- The classes written `[:name:]`. -/
def asciiSet (name : String) : CharSet :=
  match name with
  | "alnum" => .parse "30-39 41-5A 61-7A"
  | "alpha" => .parse "41-5A 61-7A"
  | "ascii" => .parse "0-7F"
  | "blank" => .parse "9 20"
  | "cntrl" => .parse "0-1F 7F"
  | "digit" => .parse "30-39"
  | "graph" => .parse "21-7E"
  | "lower" => .parse "61-7A"
  | "print" => .parse "20-7E"
  | "punct" => .parse "21-2F 3A-40 5B-60 7B-7E"
  | "space" => .parse "9-D 20"
  | "upper" => .parse "41-5A"
  | "word" => .parse "30-39 41-5A 5F 61-7A"
  | "xdigit" => .parse "30-39 41-46 61-66"
  | _ => .empty

end Settings

mutual

/-- The set a class in brackets stands for, before its own negation. -/
def setOf (f : Settings) : SetNode → Option CharSet
  | .nothing => some .empty
  | .literal l => (f.point l).map .single
  | .range lo hi => do return .ofRanges [(← f.point lo, ← f.point hi)]
  | .ascii name negated => f.negate negated (f.fold (Settings.asciiSet name))
  | .property p => f.property p
  | .shorthand s negated => f.shorthand s negated
  | .bracket negated body => do f.negate negated (f.fold (← setOf f body))
  | .union items => setOfAll f items
  | .op kind lhs rhs => do
    let a := f.fold (← setOf f lhs)
    let b := f.fold (← setOf f rhs)
    match kind with
    | .intersection => return a.inter b
    | .difference => return a.diff b
    | .symmetricDifference => return a.symmDiff b

def setOfAll (f : Settings) : List SetNode → Option CharSet
  | [] => some .empty
  | x :: xs => do return (← setOf f x).union (← setOfAll f xs)

end

/-- One literal character, in any case if case does not count. -/
def ofLiteral (f : Settings) (l : Literal) : Option Expr :=
  if !f.unicode && l.byte && 0x80 ≤ l.char.toNat then none
  else
    let folded :=
      if f.unicode || l.char.toNat < 0x80 then f.fold (.single l.char.toNat)
      else .single l.char.toNat
    some (ofSet folded)

/-- Any character, line ends excepted unless they are asked for. -/
def ofDot (f : Settings) : Option Expr :=
  if !f.unicode then none
  else if f.dotAll then some (.oneOf .full)
  else if f.crlf then some (.oneOf (CharSet.parse "A D").compl)
  else some (.oneOf (CharSet.single 0x0A).compl)

def ofAssertion (f : Settings) : Assertion → Look
  | .lineStart => if f.multiLine then .lineStart f.crlf else .textStart
  | .lineEnd => if f.multiLine then .lineEnd f.crlf else .textEnd
  | .textStart => .textStart
  | .textEnd => .textEnd
  | .wordBoundary => .word .boundary f.unicode
  | .notWordBoundary => .word .notBoundary f.unicode
  | .wordStart => .word .start f.unicode
  | .wordEnd => .word .finish f.unicode
  | .wordStartHalf => .word .startHalf f.unicode
  | .wordEndHalf => .word .finishHalf f.unicode

mutual

/-- The expression a node stands for.  Flags set inside a group end with it. -/
def ofNode : Node → StateT Settings Option Expr
  | .empty => pure .empty
  | .flags fs => do
    modify (·.set fs)
    return .empty
  | .literal l => do ofLiteral (← get) l
  | .dot => do ofDot (← get)
  | .assertion a => do return .look (ofAssertion (← get) a)
  | .property p => do return ofSet (← (← get).property p)
  | .shorthand s negated => do return ofSet (← (← get).shorthand s negated)
  | .bracket negated body => do
    let f ← get
    let s ← setOf f body
    return ofSet (← f.negate negated (f.fold s))
  | .repetition least most greedy body => do
    let e ← ofNode body
    return mkRepetition least most (greedy != (← get).swapGreed) e
  | .group kind body => do
    let outer ← get
    if let .plain fs := kind then set (outer.set fs)
    let e ← ofNode body
    set outer
    match kind with
    | .capture i => return .capture i e
    | .plain _ => return e
  | .alternation branches => do return mkAlternation (← ofNodes branches)
  | .concat items => do return mkConcat (← ofNodes items)

def ofNodes : List Node → StateT Settings Option (List Expr)
  | [] => pure []
  | x :: xs => do
    let e ← ofNode x
    return e :: (← ofNodes xs)

end

end Expr

end DeviceStats.Regex
