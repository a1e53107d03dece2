import DeviceStats.Queue.Thread

/-!
# Queue/Script — handlers that follow a script

A scripted task says when and how it ends: in its call, in its future, after some time, by failing,
or by a signal that is kept for later.
-/

namespace DeviceStats.Queue

/-- How a task ends. -/
inductive Script
  | now
  /-- Signals twice in its call and notes what counts. -/
  | twice
  | later
  | drop
  | dropLater
  /-- Leaves its signal to be given from outside. -/
  | hold
  | panic
  | panicHeld
  | panicLater
  | error
  | errorAfterDone
  | sleep (ms : Nat)
deriving DecidableEq, Repr

/-- A task by name. -/
structure Scripted where
  name : String
  script : Script
deriving DecidableEq, Repr

/-- A note of a task that signals twice: which of the two counted. -/
structure Note where
  name : String
  first : Bool
  second : Bool

/-- What the scripted handler remembers. -/
structure Stagehand where
  /-- The tasks whose handler was called, with their scripts. -/
  scripts : List (TaskId × Script) := []
  /-- Tasks that sleep. -/
  asleep : List TaskId := []
  /-- Tasks whose signal is kept outside. -/
  held : List TaskId := []
  notes : List Note := []

/-- The script of a task whose handler was called. -/
def Stagehand.script? (s : Stagehand) (id : TaskId) : Option Script :=
  (s.scripts.find? fun entry => entry.1 == id).map Prod.snd

namespace Script

/-- What the call of a task does. -/
def call (c : Call Scripted) (signal : Signal) (s : Stagehand) : Turn × Stagehand :=
  let id := c.task.id
  let s := { s with scripts := s.scripts ++ [(id, c.task.payload.script)] }
  let keeping := { s with held := s.held ++ [id] }
  match c.task.payload.script with
  | .now => ({ ops := [.give, .release] }, s)
  | .twice =>
    let after := signal.after .give
    ({ ops := [.give, .give, .release] },
      { s with notes := s.notes ++ [⟨c.task.payload.name, signal.counts, after.counts⟩] })
  | .drop => ({ ops := [.release] }, s)
  | .hold => ({}, keeping)
  | .panic => ({ ops := [.release, .fail], leavesFuture := false }, s)
  | .panicHeld => ({ ops := [.share, .release, .fail], leavesFuture := false }, keeping)
  | .panicLater => ({}, keeping)
  | .error => ({}, keeping)
  | .errorAfterDone => ({ ops := [.give] }, keeping)
  | .later => ({}, s)
  | .dropLater => ({}, s)
  | .sleep _ => ({}, s)

/-- What the future of a task does. -/
def poll (id : TaskId) (s : Stagehand) : Turn × Stagehand :=
  match s.script? id with
  | some .later => ({ ops := [.give, .release] }, s)
  | some .dropLater => ({ ops := [.release] }, s)
  | some .panicLater => ({ ops := [.fail] }, s)
  | some .error => ({ ops := [.fail] }, s)
  | some .errorAfterDone => ({ ops := [.fail] }, s)
  | some (.sleep ms) =>
    if ms = 0 || s.asleep.contains id then ({ ops := [.give, .release] }, s)
    else ({ alarm? := some ms }, { s with asleep := s.asleep ++ [id] })
  | _ => ({}, s)

def handler : Handler Stagehand Scripted := ⟨call, poll⟩

end Script

/-- A queue of scripted tasks. -/
abbrev Trial := Thread Stagehand Scripted

namespace Trial

def new (concurrency limit : Nat) : Trial := { machine := .new concurrency limit, state := {} }

def push (r : Trial) (task : Scripted) (priority : Int) (outside : Bool) :
    Except QueueError TaskId × Trial :=
  ((r.machine.push task priority outside).map (·.1), r.request (.push task priority outside))

/-- Gives the signal of a task that is kept; whether that counts. -/
def give? (r : Trial) (id : TaskId) : Option Bool × Trial :=
  if r.state.held.contains id then
    (some ((r.machine.signal? id).any Signal.counts), r.operate id .give)
  else (none, r)

/-- Lets go of the signal of a task that is kept; whether there was one. -/
def release (r : Trial) (id : TaskId) : Bool × Trial :=
  if r.state.held.contains id then
    let state := { r.state with held := r.state.held.erase id }
    (true, Thread.operate { r with state } id .release)
  else (false, r)

/-- A caller comes to wait and looks; whether it has to wait on. -/
def await (r : Trial) (e : Machine.Event Scripted) : Bool × Trial :=
  let k := r.machine.waiters.length
  let r := (r.fire e).fire (.look k)
  (r.machine.waiters[k]?.any (·.waiting != .done), r)

def drain (r : Trial) : Bool × Trial := r.await .drain

def stop (r : Trial) : Bool × Trial := r.await .stop

def stopWorker (r : Trial) (i : Nat) : Except QueueError Bool × Trial :=
  match r.machine.haltWorker i with
  | .error e => (.error e, r)
  | .ok _ =>
    let (waits, r) := r.await (.stopWorker i)
    (.ok waits, r)

def startWorker (r : Trial) (i : Nat) : Except QueueError Unit × Trial :=
  ((r.machine.startWorker i).map fun _ => (), r.request (.startWorker i))

def tick (r : Trial) : Trial := Thread.tick Script.handler r

def advance (r : Trial) (ms : Nat) : Trial := Thread.advance Script.handler ms r

end Trial

end DeviceStats.Queue
