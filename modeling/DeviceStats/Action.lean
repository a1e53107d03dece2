import DeviceStats.Match.Deep
import DeviceStats.Match.Prune
import DeviceStats.Tag.Placement

/-!
# Action — what a declaration does with collected data

An action tags data, keeps only what locations address, or takes that out.  It may depend on a
condition: trees of keys and patterns that the data has to match.  Actions run in order, each on
what the one before it has left.
-/

namespace DeviceStats

open Json (Value Object Decoder Field DecodeError)
open Match (matchingKeys)

/-! ## Actions -/

/-- A tree that data may match. -/
abbrev ConditionTree := Object

inductive Condition
  | all (tree : ConditionTree)
  | any (trees : List ConditionTree)

namespace Condition

def trees : Condition → List ConditionTree
  | .all tree => [tree]
  | .any trees => trees

end Condition

inductive Effect
  | setTag (tags : Object) (locations? : Option Object)
  | includeData (locations : Object)
  | excludeData (locations : Object)

structure Action where
  enabled : Bool
  condition? : Option Condition
  effect : Effect

/-! ## Declared form -/

/-- Why a record is no action. -/
inductive ActionFault
  | twoConditions
  | allNotObject
  | anyNotObjects
  | locationsNotObject (v : Value)
  | includeWithoutLocations
  | excludeWithoutLocations
  | noEffect
  | severalEffects

def ActionFault.message : ActionFault → String
  | .twoConditions => "ifAllMatch and ifAnyMatch are mutually exclusive"
  | .allNotObject => "ifAllMatch must be an object"
  | .anyNotObjects => "ifAnyMatch must be an array of objects"
  | .locationsNotObject v => "locations must be an object, got " ++ v.text
  | .includeWithoutLocations => "includeData requires locations"
  | .excludeWithoutLocations => "excludeData requires locations"
  | .noEffect => "one of setTag, includeData or excludeData is required"
  | .severalEffects => "setTag, includeData and excludeData are mutually exclusive"

/-- An action that is refused, by its place in a list. -/
structure ActionError where
  index : Nat
  cause : DecodeError ActionFault

def ActionError.message (e : ActionError) : String :=
  s!"Invalid data action #{e.index}: " ++
    match e.cause with
    | .mismatch m => m.message
    | .refused f => f.message

namespace Action

/-- The record of an action before its fields are seen together. -/
structure Draft where
  enabled : Bool := true
  all? : Option Value := none
  any? : Option (List Value) := none
  setTag? : Option Object := none
  include? : Option Value := none
  exclude? : Option Value := none
  locations? : Option Value := none

open Json.Decoder (boolean list named value)

def Draft.decode : Decoder Value ActionFault Draft :=
  Decoder.record "RawDataAction" [
    .given "enable" boolean fun d enabled => { d with enabled },
    .given "ifAllMatch" (Decoder.optional value) fun d all? => { d with all? },
    .given "ifAnyMatch" (Decoder.optional (list value)) fun d any? => { d with any? },
    .given "setTag" (Decoder.optional (named value)) fun d setTag? => { d with setTag? },
    .given "includeData" (Decoder.optional value) fun d include? => { d with include? },
    .given "excludeData" (Decoder.optional value) fun d exclude? => { d with exclude? },
    .given "locations" (Decoder.optional value) fun d locations? => { d with locations? }]
    {}

def Draft.condition? (d : Draft) : Except ActionFault (Option Condition) :=
  match d.all?, d.any? with
  | some _, some _ => .error .twoConditions
  | some (.obj tree), none => .ok (some (.all tree))
  | some _, none => .error .allNotObject
  | none, some trees =>
    match trees.mapM Value.obj? with
    | some trees => .ok (some (.any trees))
    | none => .error .anyNotObjects
  | none, none => .ok none

def Draft.places? (d : Draft) : Except ActionFault (Option Object) :=
  match d.locations? with
  | some (.obj o) => .ok (some o)
  | some v => .error (.locationsNotObject v)
  | none => .ok none

def Draft.effect (d : Draft) (locations? : Option Object) : Except ActionFault Effect :=
  match d.setTag?, d.include?, d.exclude? with
  | some tags, none, none => .ok (.setTag tags locations?)
  | none, some _, none =>
    match locations? with
    | some l => .ok (.includeData l)
    | none => .error .includeWithoutLocations
  | none, none, some _ =>
    match locations? with
    | some l => .ok (.excludeData l)
    | none => .error .excludeWithoutLocations
  | none, none, none => .error .noEffect
  | _, _, _ => .error .severalEffects

def Draft.action (d : Draft) : Except ActionFault Action := do
  let condition? ← d.condition?
  let locations? ← d.places?
  return ⟨d.enabled, condition?, ← d.effect locations?⟩

def decode : Decoder Value ActionFault Action := fun v => do
  (← Draft.decode v).action.mapError .refused

/-- Reads actions from the place `index` on. -/
def decodeFrom (index : Nat) : List Value → Except ActionError (List Action)
  | [] => .ok []
  | v :: vs => do
    let a ← (decode v).mapError (⟨index, ·⟩)
    return a :: (← decodeFrom (index + 1) vs)

/-- Reads a list of actions; the first that is refused is reported. -/
def decodeAll (vs : List Value) : Except ActionError (List Action) := decodeFrom 0 vs

/-- The written form of an action.  What an effect is given under its name does not count, so it is
written empty. -/
def encode (a : Action) : Value :=
  let condition : List (String × Value) :=
    match a.condition? with
    | some (.all tree) => [("ifAllMatch", .obj tree)]
    | some (.any trees) => [("ifAnyMatch", .arr (trees.map .obj))]
    | none => []
  let effect : List (String × Value) :=
    match a.effect with
    | .setTag tags locations? =>
      ("setTag", .obj tags) :: (locations?.map fun l => ("locations", Value.obj l)).toList
    | .includeData locations => [("includeData", .obj []), ("locations", .obj locations)]
    | .excludeData locations => [("excludeData", .obj []), ("locations", .obj locations)]
  .obj (("enable", .bool a.enabled) :: condition ++ effect)

end Action

/-! ## Conditions -/

namespace Condition

/-- Whether a value is what a leaf asks for: the same value, or a scalar whose text the leaf matches
as a pattern. -/
def leafHolds (leaf actual : Value) : Bool :=
  actual.same leaf ||
    match leaf, actual with
    | .str pattern, .str s => (Pattern.ofString pattern).isMatch s
    | .str pattern, .num n => (Pattern.ofString pattern).isMatch n.text
    | .str pattern, .bool b => (Pattern.ofString pattern).isMatch (if b then "true" else "false")
    | _, _ => false

/-- Whether a value matches a tree: for each key of the tree, some value under a key it stands for
matches what is below. -/
def treeHolds : List (String × Value) → Value → Bool
  | [], _ => true
  | (key, .obj sub) :: rest, v =>
    ((matchingKeys v key).any fun k => (v.get? k).any fun actual => treeHolds sub actual) &&
      treeHolds rest v
  | (key, leaf) :: rest, v =>
    ((matchingKeys v key).any fun k => (v.get? k).any fun actual => leafHolds leaf actual) &&
      treeHolds rest v

/-- Whether a value matches what stands for a tree; only an object is one. -/
def valueHolds (tree v : Value) : Bool := tree.obj?.any fun tree => treeHolds tree v

def holds (c : Condition) (v : Value) : Bool :=
  match c with
  | .all tree => treeHolds tree v
  | .any trees => trees.any fun tree => treeHolds tree v

end Condition

/-! ## Effects -/

namespace Action

/-- Everything may be taken out of collected data. -/
def consent : Match.Consent Value Id := fun _ _ => true

/-- Whether an action takes place on a value. -/
def applies (a : Action) (v : Value) : Bool := a.enabled && a.condition?.all (·.holds v)

/-- What the effect of an action makes of a value. -/
def change (definitions : TagDefinitions) (scope : Tag.Scope) (effect : Effect) (v : Value) :
    Value :=
  match effect with
  | .setTag tags locations? => Tag.place definitions tags scope (locations?.map .obj) v
  | .includeData locations => Match.preserve true consent (.obj locations) v |> Id.run
  | .excludeData locations => (Match.remove consent (.obj locations) v |> Id.run).2

def apply (definitions : TagDefinitions) (scope : Tag.Scope) (v : Value) (a : Action) : Value :=
  if a.applies v then change definitions scope a.effect v else v

/-- Actions applied in order. -/
def applyAll (definitions : TagDefinitions) (scope : Tag.Scope) (actions : List Action)
    (v : Value) : Value :=
  actions.foldl (apply definitions scope) v

end Action

end DeviceStats
