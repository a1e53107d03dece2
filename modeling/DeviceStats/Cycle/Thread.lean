import DeviceStats.Cycle.Machine
import DeviceStats.Queue.Line

/-!
# Cycle/Thread — a collection cycle on a single thread

A device answers after some time, or too late.  Jobs run in the order in which they became ready.
The cycle itself looks after every batch of jobs, and when nothing is ready; only then time passes.

The cycle changes by `fire` alone, so a thread's cycle is always one that events lead to.
-/

namespace DeviceStats

/-- How a device reacts to a request. -/
structure Reply where
  answer : Answer
  /-- How many milliseconds the answer takes. -/
  delay : Nat := 0
  /-- Whether a stop is requested as soon as the request is sent. -/
  stops : Bool := false

abbrev Device := Request → Reply

/-- How cycles are run. -/
structure Tuning where
  workers : Nat := 4
  /-- How many properties may wait. -/
  maxQueue : Nat := 1000
  /-- After how many milliseconds a request is given up. -/
  timeout : Nat := 30000
deriving DecidableEq, Repr

/-- Whether a reply comes before its request is given up. -/
def Reply.inTime (reply : Reply) (timeout : Nat) : Bool := reply.delay ≤ timeout

/-- What comes of a reply when its request is given up after some time. -/
def Reply.within (reply : Reply) (timeout : Nat) (r : Request) : Answer :=
  if reply.inTime timeout then reply.answer else .error (.timeout r.endpoint)

namespace Cycle

/-- Something that can be ready to run. -/
inductive Job
  | pass
  | worker (i : Nat)
  | pursuit (task : Queue.TaskId)
deriving DecidableEq, Repr

structure Thread where
  cycle : Cycle
  line : Queue.Line Job := {}
  /-- How many requests were given up.  The device does not learn of that. -/
  abandoned : Nat := 0
  /-- The most requests that the device had at once. -/
  peak : Nat := 0

namespace Thread

/-- Lets an event happen to the cycle, if it can. -/
def fire (r : Thread) (e : Event) : Thread :=
  match r.cycle.step? e with
  | some cycle => { r with cycle, peak := max r.peak (cycle.inFlight + r.abandoned) }
  | none => r

def enqueueAll (r : Thread) (js : List Job) : Thread :=
  { r with line := r.line.enqueueAll js }

/-! ## Running one job -/

/-- A dispatch pass, and the workers that got properties in line. -/
def runPass (r : Thread) : Thread :=
  let r' := r.fire .pass
  let fresh := Queue.Machine.entered r.cycle.queue.workers r'.cycle.queue.workers
  r'.enqueueAll (fresh.map .worker)

/-- The task that a worker has and whose handler is not called. -/
def claim? (r : Thread) (i : Nat) : Option Queue.TaskId :=
  match r.cycle.queue.workers[i]? with
  | some w =>
    match w.stage with
    | .claimed t => some t.id
    | _ => none
  | none => none

/-- A worker calls the handler of a claimed property. -/
def callHandler (r : Thread) (i : Nat) : Thread :=
  match r.claim? i with
  | some task => (r.fire (.begin i)).enqueueAll [.pursuit task]
  | none => r

/-- A worker ends the property that it ran, if any, and goes on with the next. -/
def advanceWorker (r : Thread) (i : Nat) : Thread :=
  (((r.fire (.finish i)).fire (.turn i)).fire .notice).callHandler i

/-- A property makes its value of the response; the worker that waits for it goes on. -/
def conclude (r : Thread) (task : Queue.TaskId) : Thread :=
  let worker := r.cycle.queue.workers.findIdx? fun w => (w.stage.task?.map (·.id)) == some task
  (r.fire (.take task)).enqueueAll (worker.toList.map .worker)

/-- A request is answered, and those who wait for it go on. -/
def answer (d : Device) (timeout : Nat) (r : Thread) (request : Request) (task : Queue.TaskId) :
    Thread :=
  let awaits (p : Pursuit) : Bool :=
    p.asked && p.task != task && (r.cycle.request? p.place).any (·.key == request.key)
  let others := (r.cycle.pursuits.filter awaits).map (·.task)
  let reply := d request
  let r := r.fire (.answer request.key (reply.within timeout request))
  let abandoned := if reply.inTime timeout then r.abandoned else r.abandoned + 1
  (({ r with abandoned } : Thread).enqueueAll (others.map .pursuit)).conclude task

/-- The request that a task has sent and that is out. -/
def sent? (r : Thread) (task : Queue.TaskId) : Option Request :=
  r.cycle.cells.findSome? fun
    | (_, .loading request holder) => if holder = task then some request else none
    | _ => none

/-- A property asks for its response, and sends the request if it is the first. -/
def ask (d : Device) (timeout : Nat) (r : Thread) (task : Queue.TaskId) : Thread :=
  let r := r.fire (.ask task)
  match r.sent? task with
  | none => r.conclude task
  | some request =>
    let reply := d request
    let r := if reply.stops then r.fire .requestStop else r
    let time := min reply.delay timeout
    if time = 0 then answer d timeout r request task
    else { r with line := r.line.setAlarm time (.pursuit task) }

/-- A property goes on. -/
def advancePursuit (d : Device) (timeout : Nat) (r : Thread) (task : Queue.TaskId) : Thread :=
  match r.sent? task with
  | some request => answer d timeout r request task
  | none =>
    match r.cycle.pursuit? task with
    | some p => if p.asked then r.conclude task else ask d timeout r task
    | none => r

def runJob (d : Device) (timeout : Nat) (r : Thread) : Job → Thread
  | .pass => r.runPass
  | .worker i => r.advanceWorker i
  | .pursuit task => advancePursuit d timeout r task

/-! ## Running on -/

/-- Runs the jobs that are ready, up to so many. -/
def runBatch (d : Device) (timeout : Nat) : Nat → Thread → Thread
  | 0, r => r
  | n + 1, r =>
    match r.line.next? with
    | none => r
    | some (j, line) => runBatch d timeout n (runJob d timeout { r with line } j)

/-- After how many jobs the cycle itself looks. -/
def batch : Nat := 61

/-- The cycle itself looks for what it waits for. -/
def attend (r : Thread) : Thread := ((r.fire .look).fire .heed).fire .look

/-- Runs jobs until the cycle is over; `fuel` bounds the number of batches. -/
def drive (d : Device) (timeout : Nat) : Nat → Thread → Thread
  | 0, r => r
  | fuel + 1, r =>
    let r := (runBatch d timeout batch r).attend
    if r.cycle.phase = .done then r
    else if !r.line.ready.isEmpty then drive d timeout fuel r
    else
      match r.line.nextAlarm? with
      | some due => drive d timeout fuel { r with line := r.line.moveTo due }
      | none => r

/-- Pushes all properties. -/
def pushAll (r : Thread) : Thread :=
  let r' := (List.range (r.cycle.selected.length + 1)).foldl (fun r _ => r.fire .push) r
  if r'.cycle.queue.passes = 0 then r' else r'.enqueueAll [.pass]

/-- A whole cycle.  Every property takes at most six jobs: two of its worker, three of its own and a
dispatch pass. -/
def whole (d : Device) (t : Tuning) (selected : List Property) (stopRequested : Bool) : Thread :=
  let start : Thread := { cycle := .new selected t.workers t.maxQueue stopRequested }
  let r := start.pushAll.attend
  if r.cycle.phase = .done then r else drive d t.timeout (8 * (selected.length + 2)) r

end Thread

end Cycle

end DeviceStats
