import DeviceStats.Step

/-!
# Pipeline — from a response to a value

A pipeline runs declared steps in their order or, if none are declared, a fixed sequence: reduce,
look up the child, filter, rename, format timestamps, tag.  Declared steps run on the response as it
came; it is reduced, and the child looked up, at the first step that reduces, or at the end.
-/

namespace DeviceStats

open Json (Value)

/-- The options of the fixed sequence. -/
structure Sequence where
  reduction : Reduction := {}
  filter? : Option KeyFilter := none
  renames? : Option Renaming := none
  timestamps? : Option (List String) := none
  tagging? : Option Tagging := none

inductive Stages
  | sequence (s : Sequence)
  | steps (steps : List Step)

structure Pipeline where
  /-- The path of the child below the response. -/
  childKey? : Option String
  stages : Stages
  defaults : TagDefaults

namespace Pipeline

/-- The fixed sequence with no options. -/
def plain (childKey? : Option String) : Pipeline := ⟨childKey?, .sequence {}, {}⟩

def child (key? : Option String) (v : Value) : Except TransformError Value :=
  match key? with
  | some key => Reduction.descend v key
  | none => .ok v

/-- What an option changes, if it is given. -/
def change {α : Type} (option? : Option α) (f : α → Value → Value) (v : Value) : Value :=
  match option? with
  | some a => f a v
  | none => v

def runSequence (p : Pipeline) (s : Sequence) (v : Value) : Except TransformError Value := do
  let v ← s.reduction.apply v
  let v ← child p.childKey? v
  let v := change s.filter? KeyFilter.apply v
  let v := change s.renames? Renaming.apply v
  let v := change s.timestamps? Timestamps.apply v
  return change s.tagging? (Tagging.apply p.defaults) v

/-- Runs steps; `reduced` says whether one before them has reduced the response. -/
def runSteps (p : Pipeline) : Bool → List Step → Value → Except TransformError Value
  | true, [], v => .ok v
  | false, [], v => do child p.childKey? (← Reduction.apply {} v)
  | reduced, s :: rest, v => do
    let v ← s.apply p.defaults v
    if s.reduces && !reduced then runSteps p true rest (← child p.childKey? v)
    else runSteps p reduced rest v

/-- The value of a response. -/
def normalize (p : Pipeline) (v : Value) : Except TransformError Value :=
  match p.stages with
  | .sequence s => runSequence p s v
  | .steps steps => runSteps p false steps v

end Pipeline

end DeviceStats
