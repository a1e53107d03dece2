/-!
# Queue/Line — what is ready to run, and a clock

Jobs stand in one line and run in that order.  Alarms put a job into the line at their time; alarms
of one time ring in the order in which they were set.  The clock moves only from alarm to alarm, or
to a moment without one.
-/

namespace DeviceStats.Queue

structure Alarm (ι : Type) where
  due : Nat
  job : ι
deriving Repr

structure Line (ι : Type) where
  /-- What is ready, in the order in which it will run. -/
  ready : List ι := []
  /-- What will be ready, in the order of time. -/
  alarms : List (Alarm ι) := []
  now : Nat := 0
deriving Repr

namespace Line

variable {ι : Type} [BEq ι]

/-- Puts a job at the end, unless it stands in line. -/
def enqueue (l : Line ι) (j : ι) : Line ι :=
  if l.ready.contains j then l else { l with ready := l.ready ++ [j] }

def enqueueAll (l : Line ι) (js : List ι) : Line ι := js.foldl enqueue l

/-- Takes the first job out. -/
def next? (l : Line ι) : Option (ι × Line ι) :=
  match l.ready with
  | [] => none
  | j :: rest => some (j, { l with ready := rest })

def insert (a : Alarm ι) : List (Alarm ι) → List (Alarm ι)
  | [] => [a]
  | b :: rest => if a.due < b.due then a :: b :: rest else b :: insert a rest

/-- Sets an alarm after so many milliseconds. -/
def setAlarm (l : Line ι) (ms : Nat) (j : ι) : Line ι :=
  { l with alarms := insert ⟨l.now + ms, j⟩ l.alarms }

/-- Moves the clock; the alarms up to that time ring. -/
def moveTo (l : Line ι) (time : Nat) : Line ι :=
  let due := l.alarms.takeWhile (·.due ≤ time)
  ({ l with alarms := l.alarms.drop due.length, now := time } : Line ι).enqueueAll
    (due.map Alarm.job)

/-- The time of the next alarm. -/
def nextAlarm? (l : Line ι) : Option Nat := l.alarms.head?.map (·.due)

end Line

end DeviceStats.Queue
