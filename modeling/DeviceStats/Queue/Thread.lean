import DeviceStats.Queue.Machine
import DeviceStats.Queue.Line

/-!
# Queue/Thread — a queue on a single thread

Running one job makes others ready: a dispatch pass the workers that it gave tasks, a handler call
the future it leaves behind, a signal the worker that waits for it, the end of a task the callers
that wait.  A worker whose task has ended by the time its handler returns goes straight on to its
next task.

The machine changes by `fire` alone, so a thread's machine is always one that events lead to.
-/

namespace DeviceStats.Queue

/-- Something that can be ready to run. -/
inductive Job
  | pass
  | worker (i : Nat)
  | future (id : TaskId)
  | waiter (k : Nat)
deriving DecidableEq, Repr

/-- What a piece of a handler does when it runs. -/
structure Turn where
  /-- What it does with the signal of its task. -/
  ops : List SignalOp := []
  /-- After how long its future is ready again. -/
  alarm? : Option Nat := none
  /-- Whether a call leaves a future to run. -/
  leavesFuture : Bool := true

/-- A handler with a state of its own: what its call does, and what its future does when it is
ready. -/
structure Handler (σ α : Type) where
  call : Call α → Signal → σ → Turn × σ
  poll : TaskId → σ → Turn × σ

structure Thread (σ α : Type) where
  machine : Machine α
  line : Line Job := {}
  state : σ

namespace Thread

variable {σ α : Type}

/-- Lets an event happen to the machine, if it can. -/
def fire (r : Thread σ α) (e : Machine.Event α) : Thread σ α :=
  match r.machine.step? e with
  | some machine => { r with machine }
  | none => r

/-! ## What becomes ready -/

/-- The callers that were told to look again. -/
def told (m : Machine α) : List Job :=
  (List.range m.waiters.length).filterMap fun k =>
    if m.waiters[k]?.any (·.waiting == .told) then some (.waiter k) else none

/-- The worker that waits for the signal of a task. -/
def waitingWorker? (m : Machine α) (id : TaskId) : Option Job :=
  (m.workers.findIdx? fun w =>
    match w.stage with
    | .running t => t.id == id
    | _ => false).map .worker

def enqueueAll (r : Thread σ α) (js : List Job) : Thread σ α :=
  { r with line := r.line.enqueueAll js }

/-- An event that may ask for a dispatch pass. -/
def request (r : Thread σ α) (e : Machine.Event α) : Thread σ α :=
  let r' := r.fire e
  if r.machine.passes < r'.machine.passes then r'.enqueueAll [.pass] else r'

/-- Something done with the signal of a task; the worker that waits for it goes on if it is given.
-/
def operate (r : Thread σ α) (id : TaskId) (op : SignalOp) : Thread σ α :=
  let r' := r.fire (.operate id op)
  if !r.machine.isGiven id && r'.machine.isGiven id then
    r'.enqueueAll (waitingWorker? r'.machine id).toList
  else r'

def operateAll (r : Thread σ α) (id : TaskId) (ops : List SignalOp) : Thread σ α :=
  ops.foldl (fun r op => r.operate id op) r

/-- Sets the alarm that a turn of a handler asks for. -/
def follow (r : Thread σ α) (id : TaskId) (t : Turn) : Thread σ α :=
  match t.alarm? with
  | some ms => { r with line := r.line.setAlarm ms (.future id) }
  | none => r

/-! ## Running one job -/

/-- A worker calls the handler of its claimed task. -/
def callHandler (h : Handler σ α) (i : Nat) (t : Task α) (r : Thread σ α) : Thread σ α :=
  let r := r.fire (.begin i)
  let (turn, state) := h.call ⟨t, i⟩ ((r.machine.signal? t.id).getD {}) r.state
  let r := turn.ops.foldl (fun r op => r.fire (.operate t.id op)) { r with state }
  let r := if turn.leavesFuture then r.enqueueAll [.future t.id] else r
  r.follow t.id turn

/-- A worker whose task has ended tells so, takes the next task or becomes free. -/
def endTask (i : Nat) (r : Thread σ α) : Thread σ α :=
  let r := ((r.fire (.finish i)).fire (.turn i)).fire .notice
  r.enqueueAll (told r.machine)

/-- A worker goes on: it calls the handler of a claimed task, or sees its task end.  While tasks end
at once it goes on with the next; `fuel` bounds how many. -/
def advanceWorker (h : Handler σ α) (i : Nat) : Nat → Thread σ α → Thread σ α
  | 0, r => r
  | fuel + 1, r =>
    match r.machine.workers[i]? with
    | none => r
    | some w =>
      match w.stage with
      | .claimed t => advanceWorker h i fuel (callHandler h i t r)
      | .running t =>
        if r.machine.isGiven t.id then advanceWorker h i fuel (endTask i r) else r
      | _ => r

/-- A dispatch pass, and the workers that got tasks in line. -/
def runPass (r : Thread σ α) : Thread σ α :=
  let r' := r.fire .pass
  r'.enqueueAll ((Machine.entered r.machine.workers r'.machine.workers).map .worker)

def pollFuture (h : Handler σ α) (id : TaskId) (r : Thread σ α) : Thread σ α :=
  let (turn, state) := h.poll id r.state
  (({ r with state } : Thread σ α).operateAll id turn.ops).follow id turn

def runJob (h : Handler σ α) (j : Job) (r : Thread σ α) : Thread σ α :=
  match j with
  | .pass => r.runPass
  | .worker i => advanceWorker h i (2 * (r.machine.pending.length + 2)) r
  | .future id => pollFuture h id r
  | .waiter k => r.fire (.look k)

/-! ## Running on -/

/-- Runs what is ready until nothing is; `fuel` bounds how many jobs run. -/
def settle (h : Handler σ α) : Nat → Thread σ α → Thread σ α
  | 0, r => r
  | fuel + 1, r =>
    match r.line.next? with
    | none => r
    | some (j, line) => settle h fuel (runJob h j { r with line })

/-- How many jobs can become ready at most: each task is passed, begun, polled and finished, and
every end of a task may call each waiting caller. -/
def bound (r : Thread σ α) : Nat :=
  let known := r.machine.nextId + r.machine.waiters.length
  let due := r.line.ready.length + r.line.alarms.length
  4 * (known + due + 4) * (known + due + 4)

def tick (h : Handler σ α) (r : Thread σ α) : Thread σ α := settle h r.bound r

/-- Lets time pass up to a moment, stopping at every alarm on the way. -/
def passTime (h : Handler σ α) (time : Nat) : Nat → Thread σ α → Thread σ α
  | 0, r => r
  | fuel + 1, r =>
    let r := tick h r
    match r.line.nextAlarm? with
    | some due =>
      if due ≤ time then passTime h time fuel { r with line := r.line.moveTo due }
      else { r with line := r.line.moveTo time }
    | none => { r with line := r.line.moveTo time }

def advance (h : Handler σ α) (ms : Nat) (r : Thread σ α) : Thread σ α :=
  tick h (passTime h (r.line.now + ms) r.bound r)

end Thread

end DeviceStats.Queue
