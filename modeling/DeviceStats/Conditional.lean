import DeviceStats.Facts
import DeviceStats.Json.Size
import DeviceStats.Template
import DeviceStats.Version

/-!
# Conditional — declarations that depend on the device

An object with a name `if` is conditional: under `if` stand conditions, under `then` and `else` what
the object gains when all of them hold and when not.  `render` fills the templates of a value and
settles its conditionals, outermost first, so that no object with the name `if` is left.  Only the
branches that are chosen are looked into.
-/

namespace DeviceStats

open Json (Value Object)

/-- What can be asked of a device. -/
inductive Conditional
  | versionAtLeast
  | moduleInUse
  | shellDisabled
deriving DecidableEq, Repr

/-- Why conditionals cannot be settled. -/
inductive ConditionError
  | unknown (name : String)
  | notObject (block : Value)
deriving Repr

def ConditionError.message : ConditionError → String
  | .unknown name => "Unknown conditional function: " ++ name
  | .notObject block => "Invalid declaration: 'if' block must be an object, got " ++ block.text

/-- Where two steps succeed together, each does. -/
theorem exists_ok_of_bind {ε α β : Type} {x : Except ε α} {f : α → Except ε β} {b : β}
    (h : x >>= f = .ok b) : ∃ a, x = .ok a ∧ f a = .ok b := by
  cases x with
  | error e => cases h
  | ok a => exact ⟨a, rfl, h⟩

namespace Conditional

def ofName? : String → Option Conditional
  | "deviceVersionGreaterOrEqual" => some .versionAtLeast
  | "isModuleProvisioned" => some .moduleInUse
  | "bashDisabled" => some .shellDisabled
  | _ => none

/-- Whether the device is as asked for.  A shell is asked to be disabled unless `false` is given. -/
def holds (facts : Facts) : Conditional → Value → Bool
  | .versionAtLeast, arg =>
    match facts.version?, arg.str? with
    | some device, some wanted => Version.atLeast device wanted
    | _, _ => false
  | .moduleInUse, arg => arg.str?.any facts.hasModule
  | .shellDisabled, arg => facts.shellDisabled == arg.bool?.getD true

/-- Whether all conditions of a list hold; every one must be known. -/
def allHold (facts : Facts) : List (String × Value) → Except ConditionError Bool
  | [] => .ok true
  | (name, arg) :: rest =>
    match ofName? name with
    | none => .error (.unknown name)
    | some c => do return (← allHold facts rest) && c.holds facts arg

/-- Whether all conditions of an `if` block hold. -/
def blockHolds (facts : Facts) : Value → Except ConditionError Bool
  | .obj conditions => allHold facts conditions
  | v => .error (.notObject v)

/-! ## Settling one block -/

/-- An object without its conditional part. -/
def bare (o : Object) : Object := ((o.erase "if").erase "then").erase "else"

/-- The branch of an object that is chosen. -/
def branch? (o : Object) (holds : Bool) : Option Value :=
  if holds then (o.erase "if").get? "then"
  else ((o.erase "if").erase "then").get? "else"

/-- An object with a branch put in: the entries of an object join it, and any other branch takes the
place of an object that has nothing else. -/
def joined (o : Object) : Option Value → Value
  | some (.obj chosen) => .obj (o.extend chosen)
  | some v => if o.isEmpty then v else .obj o
  | none => .obj o

/-- One conditional block settled. -/
def settle (facts : Facts) (o : Object) (block : Value) : Except ConditionError Value := do
  let holds ← blockHolds facts block
  return joined (bare o) (branch? o holds)

open Json.Value in
theorem sizeFields_bare_le (o : Object) : sizeFields (bare o) ≤ sizeFields (o.erase "if") := by
  have h1 := sizeFields_erase_le (o.erase "if") "then"
  have h2 := sizeFields_erase_le ((o.erase "if").erase "then") "else"
  unfold bare
  omega

open Json.Value in
/-- A branch takes no room in the object without it. -/
theorem sizeFields_bare_add_le {o : Object} {holds : Bool} {b : Value}
    (h : branch? o holds = some b) :
    sizeFields (bare o) + (b.size + 1) ≤ sizeFields (o.erase "if") := by
  have h1 := sizeFields_erase_le (o.erase "if") "then"
  have h2 := sizeFields_erase_le ((o.erase "if").erase "then") "else"
  unfold branch? at h
  unfold bare
  split at h
  · have := sizeFields_erase_add_le h
    omega
  · have := sizeFields_erase_add_le h
    omega

open Json.Value in
/-- What an object becomes by a branch is no larger than both together. -/
theorem size_joined_some_le (o : Object) (b : Value) :
    (joined o (some b)).size ≤ sizeFields o + b.size + 1 := by
  cases b with
  | obj chosen =>
    have := sizeFields_extend_le o chosen
    simp only [joined, size]
    omega
  | _ =>
    simp only [joined]
    split <;> simp only [size] <;> omega

open Json.Value in
/-- **Settling makes a value smaller**: the `if` block is gone, and a branch takes less room inside
the object than under its name. -/
theorem size_settle_lt {facts : Facts} {o : Object} {block v : Value}
    (hif : Named.get? o "if" = some block) (h : settle facts o block = .ok v) :
    v.size < (Value.obj o).size := by
  obtain ⟨holds, -, hv⟩ := exists_ok_of_bind h
  obtain rfl : joined (bare o) (branch? o holds) = v := Except.ok.inj hv
  have hblock := sizeFields_erase_add_le hif
  cases hb : branch? o holds with
  | none =>
    have hbare := sizeFields_bare_le o
    simp only [joined, size]
    omega
  | some b =>
    have hbare := sizeFields_bare_add_le hb
    have hjoined := size_joined_some_le (bare o) b
    simp only [size]
    omega

/-! ## Settling all -/

mutual

/-- A value with all its conditionals settled. -/
def resolve (facts : Facts) (v : Value) : Except ConditionError Value :=
  match v with
  | .obj o =>
    match _hif : Named.get? o "if" with
    | some block =>
      match _h : settle facts o block with
      | .error e => .error e
      | .ok v => resolve facts v
    | none => do return .obj (← resolveFields facts o)
  | .arr items => do return .arr (← resolveItems facts items)
  | v => .ok v
termination_by v.size
decreasing_by
  · exact size_settle_lt _hif _h
  · simp [Value.size]
  · simp [Value.size]

def resolveItems (facts : Facts) (items : List Value) : Except ConditionError (List Value) :=
  match items with
  | [] => .ok []
  | v :: vs => do
    let v ← resolve facts v
    return v :: (← resolveItems facts vs)
termination_by Value.sizeItems items
decreasing_by
  · simp only [Value.sizeItems]
    omega
  · simp only [Value.sizeItems]
    omega

def resolveFields (facts : Facts) (fields : List (String × Value)) :
    Except ConditionError (List (String × Value)) :=
  match fields with
  | [] => .ok []
  | (k, v) :: rest => do
    let v ← resolve facts v
    return (k, v) :: (← resolveFields facts rest)
termination_by Value.sizeFields fields
decreasing_by
  · simp only [Value.sizeFields]
    omega
  · simp only [Value.sizeFields]
    omega

end

/-- A declared value as it is meant for a device. -/
def render (facts : Facts) (v : Value) : Except ConditionError Value :=
  resolve facts (Template.fill facts v)

end Conditional

end DeviceStats
