import DeviceStats.Unicode.CharSet

/-!
# Regex/Node — a regular expression as it is written

The tree keeps every choice of the writer that decides how the expression is read: flags, escapes
and negations.  What each node matches is settled by `Regex/Expr`.
-/

namespace DeviceStats.Regex

/-- A switch of the `(?flags)` form. -/
inductive Flag
  | caseInsensitive | multiLine | dotAll | swapGreed | unicode | crlf | verbose
deriving DecidableEq, Repr

/-- Switches in the order they are written, each turned on or off. -/
abbrev Flags := List (Flag × Bool)

/-- What switches say about a flag, if anything. -/
def Flags.state? (fs : Flags) (f : Flag) : Option Bool := (fs.find? (·.1 == f)).map (·.2)

/-- A literal character.  `byte` records the spelling `\xNN`, which names a byte where characters
are not decoded. -/
structure Literal where
  char : Char
  byte : Bool := false
deriving DecidableEq, Repr

inductive Assertion
  | lineStart | lineEnd | textStart | textEnd | wordBoundary | notWordBoundary
  | wordStart | wordEnd | wordStartHalf | wordEndHalf
deriving DecidableEq, Repr

/-- The classes with a one-letter escape. -/
inductive Shorthand
  | digit | space | word
deriving DecidableEq, Repr

/-- A class named by properties: `\pL`, `\p{Name}`, `\p{Name=Value}`. -/
structure Property where
  name : String
  value : Option String
  negated : Bool
deriving DecidableEq, Repr

/-- How two classes in brackets combine. -/
inductive SetOp
  | intersection | difference | symmetricDifference
deriving DecidableEq, Repr

/-- A class in brackets, or a part of one. -/
inductive SetNode
  | nothing
  | literal (l : Literal)
  | range (lo hi : Literal)
  | ascii (name : String) (negated : Bool)
  | property (p : Property)
  | shorthand (s : Shorthand) (negated : Bool)
  | bracket (negated : Bool) (body : SetNode)
  | union (items : List SetNode)
  | op (kind : SetOp) (lhs rhs : SetNode)
deriving Repr

/-- A group is counted, or only groups and may switch flags. -/
inductive GroupKind
  | capture (index : Nat)
  | plain (flags : Flags)
deriving Repr

inductive Node
  | empty
  | flags (fs : Flags)
  | literal (l : Literal)
  | dot
  | assertion (a : Assertion)
  | property (p : Property)
  | shorthand (s : Shorthand) (negated : Bool)
  | bracket (negated : Bool) (body : SetNode)
  | repetition (least : Nat) (most : Option Nat) (greedy : Bool) (body : Node)
  | group (kind : GroupKind) (body : Node)
  | alternation (branches : List Node)
  | concat (items : List Node)
deriving Repr

/-! ## Nesting -/

mutual

/-- How deep brackets, unions and operators nest. -/
def SetNode.depth : SetNode → Nat
  | .bracket _ body => body.depth + 1
  | .union items => SetNode.depthList items + 1
  | .op _ lhs rhs => max lhs.depth rhs.depth + 1
  | _ => 0

def SetNode.depthList : List SetNode → Nat
  | [] => 0
  | x :: xs => max x.depth (SetNode.depthList xs)

end

mutual

/-- How deep everything but single characters, assertions and shorthands nests. -/
def Node.depth : Node → Nat
  | .bracket _ body => body.depth + 1
  | .repetition _ _ _ body => body.depth + 1
  | .group _ body => body.depth + 1
  | .alternation branches => Node.depthList branches + 1
  | .concat items => Node.depthList items + 1
  | _ => 0

def Node.depthList : List Node → Nat
  | [] => 0
  | x :: xs => max x.depth (Node.depthList xs)

end

end DeviceStats.Regex
