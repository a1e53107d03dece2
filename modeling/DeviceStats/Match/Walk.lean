import DeviceStats.Match.Tree

/-!
# Match/Walk — visits to what locations pass

A walk visits every node that a key of the locations stands for, on every level, whatever the
locations end in.  A visit may change the node and may send the walk on from one of its children.
-/

namespace DeviceStats.Match

open Json (Value)

variable {α : Type} [Tree α] {m : Type → Type} [Monad m]

/-- What a visit makes of a node, and the child from which the walk goes on if not from the node. -/
abbrev Visit (α : Type) (m : Type → Type) := String → α → m (α × Option String)

/-- Goes on from a node or from one of its children; leaves are not entered. -/
def onward (next : α → m α) (t : α) (redirect : Option String) : m α :=
  match redirect with
  | none => if Tree.isBranch t then next t else pure t
  | some key =>
    match Tree.child? t key with
    | some c => do
      if Tree.isBranch c then return Tree.setChild t key (← next c) else return t
    | none => pure t

mutual

def walk (visit : Visit α m) : Value → α → m α
  | .obj fields, t => walkFields visit fields t
  | _, t => pure t

def walkFields (visit : Visit α m) : List (String × Value) → α → m α
  | [], t => pure t
  | (key, sub) :: rest, t => do
    let t ← (matchingKeys t key).foldlM (fun t k => do
      match Tree.child? t k with
      | none => return t
      | some c =>
        let (c, redirect) ← visit k c
        let c ← match sub with
          | .obj _ => onward (walk visit sub) c redirect
          | _ => pure c
        return Tree.setChild t k c) t
    walkFields visit rest t

end

end DeviceStats.Match
