import DeviceStats.Queue.Signal

/-!
# Queue/Machine — a queue of tasks and its workers

Tasks wait in the order of their service: higher priorities first, and in the order of their
arrival within one priority.  A dispatch pass hands waiting tasks to free workers.  A worker calls
the handler of its task, waits for the task's signal, and then takes the next task itself or
becomes free.  Callers may wait until the queue is drained, until it has stopped, or until a worker
is free; they look again when a task ends and when a worker becomes free.

`Event` lists all that can happen, each as one indivisible step, in whatever order; `step?` says
what an event makes of a machine, or that it cannot happen.
-/

namespace DeviceStats.Queue

abbrev TaskId := Nat

structure Task (α : Type) where
  id : TaskId
  priority : Int
  payload : α
deriving Repr

/-- What a worker is at. -/
inductive Stage (α : Type)
  | free
  /-- It has a task whose handler is not called yet. -/
  | claimed (t : Task α)
  /-- It waits for the signal of its task. -/
  | running (t : Task α)
  /-- It saw the signal of its task, which it still holds. -/
  | ended (t : Task α)
deriving Repr

def Stage.task? {α : Type} : Stage α → Option (Task α)
  | .free => none
  | .claimed t => some t
  | .running t => some t
  | .ended t => some t

structure Worker (α : Type) where
  stage : Stage α := .free
  /-- Out of rotation after its task. -/
  stopping : Bool := false
  /-- Out of rotation. -/
  stopped : Bool := false
deriving Repr

namespace Worker

variable {α : Type}

def isBusy (w : Worker α) : Bool := w.stage.task?.isSome

/-- Whether a task may be handed to it. -/
def available (w : Worker α) : Bool := !w.isBusy && !w.stopping && !w.stopped

end Worker

/-- What a caller waits for. -/
inductive Goal
  | drained
  | idle
  | freed (worker : Nat)
deriving DecidableEq, Repr

/-- Where a waiting caller is at. -/
inductive Waiting
  /-- It will look. -/
  | told
  /-- It looked in vain and will be told when to look again. -/
  | listening
  | done
deriving DecidableEq, Repr

structure Waiter where
  goal : Goal
  waiting : Waiting := .told
deriving DecidableEq, Repr

/-- A call of the handler. -/
structure Call (α : Type) where
  task : Task α
  worker : Nat
deriving Repr

inductive QueueError
  | full (limit : Nat)
  | stopped
  | noWorker (worker : Nat)
  | noRuntime
deriving DecidableEq, Repr

def QueueError.message : QueueError → String
  | .full limit => s!"Task queue is full (max size {limit})"
  | .stopped => "Task queue is stopped"
  | .noWorker worker => s!"Worker not found: {worker}"
  | .noRuntime => "No Tokio runtime available to run tasks"

structure Machine (α : Type) where
  /-- How many tasks may wait. -/
  limit : Nat
  /-- Waiting tasks, the next to be served first. -/
  pending : List (Task α) := []
  workers : List (Worker α)
  nextId : TaskId := 1
  /-- A dispatch pass is due, so none is asked for. -/
  passDue : Bool := false
  stopped : Bool := false
  /-- Dispatch passes asked for that have not run. -/
  passes : Nat := 0
  signals : List (TaskId × Signal) := []
  waiters : List Waiter := []
  /-- Workers that became free and have not told so. -/
  notices : Nat := 0
  /-- The calls of the handler so far, in order. -/
  calls : List (Call α) := []
  /-- Tasks that have ended. -/
  ended : List TaskId := []
  /-- Tasks thrown away by a stop. -/
  discarded : List TaskId := []
deriving Repr

namespace Machine

variable {α : Type}

/-- A queue with at least one worker. -/
def new (concurrency limit : Nat) : Machine α :=
  { limit, workers := List.replicate (max concurrency 1) {} }

/-! ## Views -/

def size (m : Machine α) : Nat := m.pending.length

def inFlight (m : Machine α) : Nat := m.workers.countP Worker.isBusy

def isIdle (m : Machine α) : Bool := m.workers.all fun w => !w.isBusy

/-- Whether what waits will be served. -/
def serves (m : Machine α) : Bool := !m.stopped && m.workers.any Worker.available

/-- Nothing runs, and nothing waits that will be served. -/
def isDrained (m : Machine α) : Bool := m.isIdle && (m.pending.isEmpty || !m.serves)

def reached (m : Machine α) : Goal → Bool
  | .drained => m.isDrained
  | .idle => m.isIdle
  | .freed worker => !m.workers[worker]?.any Worker.isBusy

def signal? (m : Machine α) (id : TaskId) : Option Signal :=
  (m.signals.find? (·.1 == id)).map (·.2)

/-- Whether the signal of a task has been given. -/
def isGiven (m : Machine α) (id : TaskId) : Bool := (m.signal? id).any fun s => !s.opened

/-! ## Small changes -/

def setWorker (m : Machine α) (i : Nat) (w : Worker α) : Machine α :=
  { m with workers := m.workers.set i w }

/-- Asks for a dispatch pass unless one is due. -/
def schedule (m : Machine α) : Machine α :=
  if m.passDue then m else { m with passDue := true, passes := m.passes + 1 }

/-- Tells all who listen. -/
def tell (m : Machine α) : Machine α :=
  { m with waiters := m.waiters.map fun w =>
      if w.waiting = .listening then { w with waiting := .told } else w }

/-! ## Pushing -/

/-- Puts the newest task in its place: behind those of its priority. -/
def place (t : Task α) : List (Task α) → List (Task α)
  | [] => [t]
  | p :: ps => if p.priority < t.priority then t :: p :: ps else p :: place t ps

/-- Why a task is refused. -/
def refusal? (m : Machine α) (outside : Bool) : Option QueueError :=
  if outside then some .noRuntime
  else if m.stopped then some .stopped
  else if m.limit ≤ m.pending.length then some (.full m.limit)
  else none

def accept (m : Machine α) (payload : α) (priority : Int) : Machine α :=
  { m with
    pending := place ⟨m.nextId, priority, payload⟩ m.pending
    nextId := m.nextId + 1 }.schedule

/-- Takes a task in.  `outside` is a push from where no task can run. -/
def push (m : Machine α) (payload : α) (priority : Int) (outside : Bool) :
    Except QueueError (TaskId × Machine α) :=
  match m.refusal? outside with
  | some e => .error e
  | none => .ok (m.nextId, m.accept payload priority)

/-! ## Serving -/

/-- Hands waiting tasks to available workers, in the order of the workers. -/
def assign : List (Worker α) → List (Task α) → List (Worker α) × List (Task α)
  | [], ts => ([], ts)
  | w :: ws, [] => (w :: ws, [])
  | w :: ws, t :: ts =>
    if w.available then
      let (ws, ts) := assign ws ts
      ({ w with stage := .claimed t } :: ws, ts)
    else
      let (ws, ts) := assign ws (t :: ts)
      (w :: ws, ts)

/-- A dispatch pass. -/
def pass (m : Machine α) : Machine α :=
  let m := { m with passDue := false, passes := m.passes - 1 }
  if m.stopped then m
  else
    let (workers, pending) := assign m.workers m.pending
    { m with workers, pending }

/-- The numbers of the workers that got a task between two moments. -/
def entered (before after : List (Worker α)) : List Nat :=
  (before.zip after).zipIdx.filterMap fun (w, i) =>
    if !w.1.isBusy && w.2.isBusy then some i else none

/-- A worker calls the handler of its task, which gets the task's signal. -/
def begin? (m : Machine α) (i : Nat) : Option (Machine α) :=
  match m.workers[i]? with
  | some w =>
    match w.stage with
    | .claimed t =>
      let m := m.setWorker i { w with stage := .running t }
      some { m with signals := m.signals ++ [(t.id, {})], calls := m.calls ++ [⟨t, i⟩] }
    | _ => none
  | none => none

/-- Something is done with the signal of a task. -/
def operate (m : Machine α) (id : TaskId) (op : SignalOp) : Machine α :=
  { m with signals := m.signals.map fun s => if s.1 = id then (s.1, s.2.after op) else s }

/-- A worker sees that the signal of its task was given, and tells those who wait. -/
def finish? (m : Machine α) (i : Nat) : Option (Machine α) :=
  match m.workers[i]? with
  | some w =>
    match w.stage with
    | .running t =>
      if m.isGiven t.id then some (m.setWorker i { w with stage := .ended t }).tell else none
    | _ => none
  | none => none

/-- A worker without a task takes the next one, or becomes free and will tell so. -/
def next (m : Machine α) (i : Nat) (w : Worker α) : Machine α :=
  let rest (w : Worker α) : Machine α := { m.setWorker i w with notices := m.notices + 1 }
  if w.stopping then rest { stopping := false, stopped := true }
  else
    match m.stopped, m.pending with
    | false, t :: ts => { m.setWorker i { w with stage := .claimed t } with pending := ts }
    | _, _ => rest { w with stage := .free }

/-- A worker is done with its task. -/
def turn? (m : Machine α) (i : Nat) : Option (Machine α) :=
  match m.workers[i]? with
  | some w =>
    match w.stage with
    | .ended t => some ({ m with ended := m.ended ++ [t.id] }.next i w)
    | _ => none
  | none => none

/-- A worker that became free tells those who wait. -/
def notice? (m : Machine α) : Option (Machine α) :=
  if m.notices = 0 then none else some { m with notices := m.notices - 1 }.tell

/-! ## Stopping -/

/-- Stops the queue; what waits is thrown away. -/
def halt (m : Machine α) : Machine α :=
  { m with stopped := true, discarded := m.discarded ++ m.pending.map (·.id), pending := [] }

/-- Takes a worker out of rotation, after its task if it has one. -/
def haltWorker (m : Machine α) (i : Nat) : Except QueueError (Machine α) :=
  match m.workers[i]? with
  | some w =>
    let w := if w.isBusy then { w with stopping := true } else { w with stopped := true }
    .ok (m.setWorker i w)
  | none => .error (.noWorker i)

/-- Puts a worker back into rotation. -/
def startWorker (m : Machine α) (i : Nat) : Except QueueError (Machine α) :=
  match m.workers[i]? with
  | some w =>
    let m := m.setWorker i { w with stopping := false, stopped := false }
    .ok (if m.pending.isEmpty then m else m.schedule)
  | none => .error (.noWorker i)

/-! ## Waiting -/

/-- A caller comes to wait. -/
def await (m : Machine α) (goal : Goal) : Machine α :=
  { m with waiters := m.waiters ++ [⟨goal, .told⟩] }

/-- A caller looks. -/
def look? (m : Machine α) (k : Nat) : Option (Machine α) :=
  match m.waiters[k]? with
  | some w =>
    if w.waiting = .told then
      let waiting := if m.reached w.goal then Waiting.done else .listening
      some { m with waiters := m.waiters.set k { w with waiting } }
    else none
  | none => none

/-! ## Events -/

/-- All that can happen to a queue. -/
inductive Event (α : Type)
  | push (payload : α) (priority : Int) (outside : Bool)
  | pass
  | begin (worker : Nat)
  | operate (id : TaskId) (op : SignalOp)
  | finish (worker : Nat)
  | turn (worker : Nat)
  | notice
  | drain
  | stop
  | stopWorker (worker : Nat)
  | startWorker (worker : Nat)
  | look (waiter : Nat)
deriving Repr

/-- The machine after an event.  A refused call changes nothing. -/
def step? (m : Machine α) : Event α → Option (Machine α)
  | .push payload priority outside =>
    match m.push payload priority outside with
    | .ok (_, m) => some m
    | .error _ => some m
  | .pass => if m.passes = 0 then none else some m.pass
  | .begin worker => m.begin? worker
  | .operate id op => some (m.operate id op)
  | .finish worker => m.finish? worker
  | .turn worker => m.turn? worker
  | .notice => m.notice?
  | .drain => some (m.await .drained)
  | .stop => some (m.halt.await .idle)
  | .stopWorker worker =>
    match m.haltWorker worker with
    | .ok m => some (m.await (.freed worker))
    | .error _ => some m
  | .startWorker worker =>
    match m.startWorker worker with
    | .ok m => some m
    | .error _ => some m
  | .look waiter => m.look? waiter

/-- A machine after a list of events, if each can happen in its turn. -/
def run? (m : Machine α) (events : List (Event α)) : Option (Machine α) := events.foldlM step? m

end Machine

end DeviceStats.Queue
