import DeviceStats.Json.Value
import DeviceStats.Pattern

/-!
# Match/Tree — trees that locations address

Data and outlines of data are trees: a branch has named children, a leaf has none.  A key of a
location stands for the child of that name or, if there is none, for every child whose name it
matches as a pattern.
-/

namespace DeviceStats.Match

open Json (Value)

/-- A tree is seen through its children; a leaf has none to see. -/
class Tree (α : Type) where
  children? : α → Option (Named α)
  /-- A branch with other children; a leaf stays as it is. -/
  withChildren : α → Named α → α

instance : Tree Value where
  children? := Value.obj?
  withChildren
    | .obj _, fields => .obj fields
    | v, _ => v

namespace Tree

variable {α : Type} [Tree α]

def isBranch (t : α) : Bool := (children? t).isSome

/-- The children, of which a leaf has none. -/
def children (t : α) : Named α := (children? t).getD []

def keys (t : α) : List String := (children t).keys

def child? (t : α) (key : String) : Option α := (children t).get? key

def hasChild (t : α) (key : String) : Bool := (children t).has key

def erase (t : α) (key : String) : α := withChildren t ((children t).erase key)

/-- Puts a child in the place of the one of that name. -/
def setChild (t : α) (key : String) (c : α) : α := withChildren t ((children t).insert key c)

/-- The node at the end of a path. -/
def at? (t : α) (path : List String) : Option α := path.foldlM child? t

/-- Changes the node at the end of a path, if there is one. -/
def modifyAt (f : α → α) : List String → α → α
  | [], t => f t
  | key :: path, t =>
    match child? t key with
    | some c => setChild t key (modifyAt f path c)
    | none => t

end Tree

/-! ## Keys that match -/

variable {α : Type} [Tree α]

/-- The keys of a tree that a key stands for: itself if it is one of them, else those it matches as
a pattern. -/
def matchingKeys (t : α) (key : String) : List String :=
  if Tree.hasChild t key then [key]
  else
    let p := Pattern.ofString key
    (Tree.keys t).filter p.isMatch

/-- The keys of a tree that stand for a key: itself if it is one of them, else those that match it
as patterns. -/
def keysMatching (t : α) (key : String) : List String :=
  if Tree.hasChild t key then [key]
  else (Tree.keys t).filter fun k => (Pattern.ofString k).isMatch key

end DeviceStats.Match
