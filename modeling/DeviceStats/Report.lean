import DeviceStats.Declaration
import DeviceStats.Queue.Machine
import DeviceStats.Request

/-!
# Report — what a collection cycle yields

A report holds the values of the collected properties, each at the path of its property, and the
reason for every property without one.  Values are put in their places in the order of declaration,
so of two that claim one place the later stays.
-/

namespace DeviceStats

open Json (Value Object)

/-- Why a selected property was not run. -/
inductive Unrun
  /-- A stop was requested before it was pushed. -/
  | unscheduled
  | refused (e : Queue.QueueError)
  /-- The cycle stopped while it waited. -/
  | discarded
deriving DecidableEq, Repr

def Unrun.message : Unrun → String
  | .unscheduled => "collection stopped before scheduling"
  | .refused e => e.message
  | .discarded => "collection stopped before the property ran"

/-- Why a property has no value. -/
inductive Cause
  | declaration (e : PropertyError)
  | fetch (e : LoadError)
  | transform (e : TransformError)
  | scheduling (r : Unrun)

namespace Cause

def message : Cause → String
  | .declaration e => e.message
  | .fetch e => e.message
  | .transform e => e.message
  | .scheduling r => r.message

/-- The name of the stage that failed. -/
def stage : Cause → String
  | .declaration _ => "declaration"
  | .fetch _ => "fetch"
  | .transform _ => "transform"
  | .scheduling _ => "scheduling"

def isFetch : Cause → Bool
  | .fetch _ => true
  | _ => false

end Cause

/-- A property without a value. -/
structure Failure where
  property : String
  cause : Cause

/-- What a property that ran came to. -/
abbrev Outcome := Except Cause Value

structure Report where
  stats : Object := []
  failures : List Failure := []

namespace Report

/-- The first failure of a property. -/
def failure? (r : Report) (property : String) : Option Failure :=
  r.failures.find? (·.property == property)

/-! ## Values in their places -/

/-- Puts a value in the place of its property.  A group that is no object is replaced. -/
def place (stats : Object) (p : Property) (v : Value) : Object :=
  match p.parent? with
  | none => Named.insert stats p.name v
  | some parent =>
    match Named.get? stats parent with
    | some (.obj group) => Named.insert stats parent (.obj (Named.insert group p.name v))
    | _ => Named.insert stats parent (.obj [(p.name, v)])

/-- What an outcome puts into the stats.  A property marked as custom has an empty object where its
request failed. -/
def value? (p : Property) : Outcome → Option Value
  | .ok v => some v
  | .error cause => if p.descriptor.custom && cause.isFetch then some (.obj []) else none

/-- Stats and failures with one more property.  Without an outcome it was not run. -/
def add (r : Report) (p : Property) (outcome? : Option Outcome) (unrun : Unrun) : Report :=
  match outcome? with
  | none => { r with failures := r.failures ++ [⟨p.name, .scheduling unrun⟩] }
  | some outcome =>
    let stats :=
      match value? p outcome with
      | some v => place r.stats p v
      | none => r.stats
    match outcome with
    | .ok _ => { r with stats }
    | .error cause => ⟨stats, r.failures ++ [⟨p.name, cause⟩]⟩

/-- The report on selected properties, which follow rejected ones. -/
def assemble (rejections : List (String × PropertyError))
    (results : List (Property × Option Outcome × Unrun)) : Report :=
  results.foldl (fun r (p, outcome?, unrun) => r.add p outcome? unrun)
    { failures := rejections.map fun (name, e) => ⟨name, .declaration e⟩ }

/-- The report after the actions of a declaration. -/
def act (r : Report) (d : Declaration) (selected : List Property) : Report :=
  let scope := Tag.Scope.report (Declaration.collections selected)
  match Action.applyAll d.definitions scope d.actions (.obj r.stats) with
  | .obj stats => { r with stats }
  | _ => { r with stats := [] }

end Report

end DeviceStats
