import DeviceStats.Match.Tree

/-!
# Match/Prune — nodes taken out of trees

`remove` takes out what locations address, `retain` takes out everything else.  Both ask before they
take a node out.
-/

namespace DeviceStats.Match

open Json (Value)

variable {α : Type} [Tree α] {m : Type → Type} [Monad m]

/-- Whether a node may be taken out from under its key. -/
abbrev Consent (α : Type) (m : Type → Type) := String → α → m Bool

/-! ## Removing -/

/-- Takes a child out if that is allowed; how many were taken out so far counts up. -/
def removeChild (consent : Consent α m) (state : Nat × α) (key : String) : m (Nat × α) := do
  match Tree.child? state.2 key with
  | none => return state
  | some c =>
    if ← consent key c then return (state.1 + 1, Tree.erase state.2 key) else return state

/-- Changes a child that is a branch. -/
def enterChild (next : α → m (Nat × α)) (state : Nat × α) (key : String) : m (Nat × α) := do
  match Tree.child? state.2 key with
  | none => return state
  | some c =>
    if Tree.isBranch c then
      let (n, c) ← next c
      return (state.1 + n, Tree.setChild state.2 key c)
    else return state

mutual

/-- Takes out what locations address; how many nodes that were. -/
def remove (consent : Consent α m) : Value → α → m (Nat × α)
  | .obj fields, t => removeFields consent fields (0, t)
  | _, t => pure (0, t)

def removeFields (consent : Consent α m) : List (String × Value) → Nat × α → m (Nat × α)
  | [], state => pure state
  | (key, sub) :: rest, state => do
    let step :=
      match sub with
      | .obj _ => enterChild (remove consent sub)
      | _ => removeChild consent
    removeFields consent rest (← (matchingKeys state.2 key).foldlM step state)

end

/-! ## Retaining -/

/-- Takes out the children whose keys are not retained, as far as that is allowed. -/
def pruneOthers (consent : Consent α m) (retained : List String) (t : α) : m α :=
  (Tree.keys t).foldlM (fun t key => do
    if retained.contains key then return t
    else
      match Tree.child? t key with
      | none => return t
      | some c => if ← consent key c then return Tree.erase t key else return t) t

/-- Adds a key that is not among others yet. -/
def addKey (retained : List String) (key : String) (keep : Bool) : List String :=
  if keep && !retained.contains key then retained ++ [key] else retained

mutual

/-- Takes out what locations do not address; whether a key was retained.  With `strict` a branch is
retained only if something in it is. -/
def retain (strict : Bool) (consent : Consent α m) : Value → α → m (Bool × α)
  | .obj fields, t => do
    let (retained, t) ← retainFields strict consent fields ([], t)
    let t ← pruneOthers consent retained t
    return (!retained.isEmpty, t)
  | _, t => pure (true, t)

/-- Retains inside the children that locations go through; the keys to retain so far. -/
def retainFields (strict : Bool) (consent : Consent α m) :
    List (String × Value) → List String × α → m (List String × α)
  | [], state => pure state
  | (key, sub) :: rest, (retained, t) => do
    let keys := matchingKeys t key
    match sub with
    | .obj _ =>
      let step := fun (retained, t) k => do
        match Tree.child? t k with
        | none => return (retained, t)
        | some c =>
          if Tree.isBranch c then
            let (kept, c) ← retain strict consent sub c
            return (addKey retained k (kept || !strict), Tree.setChild t k c)
          else return (addKey retained k (!strict), t)
      retainFields strict consent rest (← keys.foldlM step (retained, t))
    | _ =>
      let retained := keys.foldl (fun r k => addKey r k true) retained
      retainFields strict consent rest (retained, t)

end

/-- Takes out what locations do not address; no locations leave a tree as it is. -/
def preserve (strict : Bool) (consent : Consent α m) (locations : Value) (t : α) : m α := do
  match locations with
  | .obj _ => return (← retain strict consent locations t).2
  | _ => return t

end DeviceStats.Match
