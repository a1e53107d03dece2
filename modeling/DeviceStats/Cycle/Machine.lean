import DeviceStats.Report

/-!
# Cycle/Machine — a collection cycle

A cycle pushes its properties onto a queue.  The handler of a property asks for the response that
its request key names: the first to ask has it loaded, the others wait for it.  When the response
is there, each makes its value of it and ends its task.  The cycle itself waits until the queue is
drained; at a request to stop it throws away what waits and lets what runs come to its end.

`Event` lists all that can happen, in whatever order, and `step?` says what each event makes of a
cycle.  What a device answers is part of an event.
-/

namespace DeviceStats

open Json (Value Object)

/-- What a device makes of a request. -/
abbrev Answer := Except LoadError Value

/-- A collection in state form without items gets an empty list of them. -/
def withItems (v : Value) : Value :=
  match v with
  | .obj o =>
    let isState := ((Named.get? o "kind").bind Value.str?).any fun kind =>
      "state".toList.isSuffixOf kind.toList
    if isState && o.length == 2 && !Named.has o "items" then .obj (Named.insert o "items" (.arr []))
    else v
  | _ => v

/-- What is known of a request. -/
inductive Cell
  /-- A task had it sent. -/
  | loading (r : Request) (task : Queue.TaskId)
  | answered (a : Answer)

namespace Cell

def isLoading : Cell → Bool
  | .loading .. => true
  | .answered _ => false

end Cell

/-- A property whose handler was called and has not ended. -/
structure Pursuit where
  task : Queue.TaskId
  /-- The property's place among the selected ones. -/
  place : Nat
  /-- Whether it asked for its response. -/
  asked : Bool := false

/-- What the cycle itself is at. -/
inductive Phase
  /-- It pushes properties, the next one from this place. -/
  | pushing (next : Nat)
  /-- It waits until the queue is drained or a stop is requested. -/
  | waiting
  /-- It has stopped the queue and waits for what runs. -/
  | leaving
  | done
deriving DecidableEq, Repr

structure Cycle where
  selected : List Property
  queue : Queue.Machine Nat
  phase : Phase := .pushing 0
  stopRequested : Bool := false
  /-- The first place that was not pushed, and why. -/
  refused? : Option (Nat × Unrun) := none
  /-- Requests by key. -/
  cells : Named Cell := []
  /-- The keys of the requests that were sent, in order. -/
  loads : List String := []
  pursuits : List Pursuit := []
  /-- What the properties came to, by place. -/
  outcomes : List (Nat × Outcome) := []

namespace Cycle

/-- A cycle that has not begun. -/
def new (selected : List Property) (workers limit : Nat) (stopRequested : Bool) : Cycle :=
  { selected, queue := .new workers limit, stopRequested }

/-! ## Views -/

/-- How many requests are out. -/
def inFlight (c : Cycle) : Nat := c.cells.countP fun cell => cell.2.isLoading

def pursuit? (c : Cycle) (task : Queue.TaskId) : Option Pursuit :=
  c.pursuits.find? (·.task == task)

/-- The request of the property at a place. -/
def request? (c : Cycle) (place : Nat) : Option Request :=
  c.selected[place]?.map Request.ofProperty

def outcome? (c : Cycle) (place : Nat) : Option Outcome :=
  (c.outcomes.find? (·.1 == place)).map (·.2)

/-- Why the property at a place was not run. -/
def unrun (c : Cycle) (place : Nat) : Unrun :=
  match c.refused? with
  | some (first, reason) => if first ≤ place then reason else .discarded
  | none => .discarded

/-- What every selected property came to, in order. -/
def results (c : Cycle) : List (Property × Option Outcome × Unrun) :=
  c.selected.mapIdx fun i p => (p, c.outcome? i, c.unrun i)

/-! ## The cycle itself -/

/-- An event of the queue. -/
def inQueue? (c : Cycle) (e : Queue.Machine.Event Nat) : Option Cycle :=
  (c.queue.step? e).map fun queue => { c with queue }

/-- The cycle has pushed what it could and comes to wait for the queue. -/
def wait (c : Cycle) : Cycle :=
  { c with phase := .waiting, queue := c.queue.await .drained }

/-- Pushes the next property. -/
def push? (c : Cycle) : Option Cycle :=
  match c.phase with
  | .pushing next =>
    if c.selected.length ≤ next then some c.wait
    else if c.stopRequested then some { c with refused? := some (next, .unscheduled) }.wait
    else
      match c.queue.push next 0 false with
      | .ok (_, queue) => some { c with queue, phase := .pushing (next + 1) }
      | .error e => some { c with refused? := some (next, .refused e) }.wait
  | _ => none

/-- The cycle looks whether what it waits for has come; it waits once for a drained queue, and once
more after a stop. -/
def look? (c : Cycle) : Option Cycle :=
  let attempt (waiter : Nat) : Option Cycle :=
    (c.queue.look? waiter).map fun queue =>
      let reached := queue.waiters[waiter]?.any (·.waiting == .done)
      { c with queue, phase := if reached then .done else c.phase }
  match c.phase with
  | .waiting => attempt 0
  | .leaving => attempt 1
  | _ => none

/-- The cycle sees that a stop was requested, and stops the queue. -/
def heed? (c : Cycle) : Option Cycle :=
  match c.phase with
  | .waiting =>
    if c.stopRequested then some { c with phase := .leaving, queue := c.queue.halt.await .idle }
    else none
  | _ => none

/-! ## Properties on their way -/

/-- A worker calls the handler for its property. -/
def begin? (c : Cycle) (worker : Nat) : Option Cycle :=
  match c.queue.workers[worker]? with
  | some w =>
    match w.stage, c.queue.begin? worker with
    | .claimed t, some queue =>
      some { c with queue, pursuits := c.pursuits ++ [⟨t.id, t.payload, false⟩] }
    | _, _ => none
  | none => none

/-- A property asks for its response; its request is sent unless one with its key was. -/
def ask? (c : Cycle) (task : Queue.TaskId) : Option Cycle :=
  match c.pursuit? task with
  | some p =>
    match p.asked, c.request? p.place with
    | false, some r =>
      let c := { c with pursuits := c.pursuits.map fun q =>
        if q.task = task then { q with asked := true } else q }
      if Named.has c.cells r.key then some c
      else some { c with
        cells := Named.insert c.cells r.key (.loading r task), loads := c.loads ++ [r.key] }
    | _, _ => none
  | none => none

/-- A request is answered. -/
def answer? (c : Cycle) (key : String) (a : Answer) : Option Cycle :=
  match Named.get? c.cells key with
  | some (.loading ..) =>
    some { c with cells := Named.insert c.cells key (.answered (a.map withItems)) }
  | _ => none

/-- What an answer means for a property. -/
def outcomeOf (p : Property) (a : Answer) : Outcome :=
  match a with
  | .ok v => (p.pipeline.normalize v).mapError .transform
  | .error e => .error (.fetch e)

/-- A property whose response is there comes to its end. -/
def take? (c : Cycle) (task : Queue.TaskId) : Option Cycle :=
  match c.pursuit? task with
  | some p =>
    match p.asked, c.selected[p.place]? with
    | true, some property =>
      match Named.get? c.cells (Request.ofProperty property).key with
      | some (.answered a) =>
        some { c with
          pursuits := c.pursuits.filter fun q => q.task != task
          outcomes := c.outcomes ++ [(p.place, outcomeOf property a)]
          queue := c.queue.operate task .give }
      | _ => none
    | _, _ => none
  | none => none

/-! ## Events -/

inductive Event
  | push
  | look
  | heed
  | requestStop
  | pass
  | begin (worker : Nat)
  | finish (worker : Nat)
  | turn (worker : Nat)
  | notice
  | ask (task : Queue.TaskId)
  | answer (key : String) (a : Answer)
  | take (task : Queue.TaskId)

/-- The cycle after an event, if it can happen. -/
def step? (c : Cycle) : Event → Option Cycle
  | .push => c.push?
  | .look => c.look?
  | .heed => c.heed?
  | .requestStop => some { c with stopRequested := true }
  | .pass => c.inQueue? .pass
  | .begin worker => c.begin? worker
  | .finish worker => c.inQueue? (.finish worker)
  | .turn worker => c.inQueue? (.turn worker)
  | .notice => c.inQueue? .notice
  | .ask task => c.ask? task
  | .answer key a => c.answer? key a
  | .take task => c.take? task

/-- A cycle after a list of events, if each can happen in its turn. -/
def run? (c : Cycle) (events : List Event) : Option Cycle := events.foldlM step? c

end Cycle

end DeviceStats
