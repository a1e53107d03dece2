import DeviceStats.Collector
import DeviceStats.Event
import DeviceStats.Fixtures
import DeviceStats.Json.Printer

/-!
# Agent — a declaration at work

An agent has a declaration and the facts of a device, both read from files, and collects from
fixtures.  It runs cycles until a stop is requested, and passes events through the actions of its
declaration.
-/

namespace DeviceStats

open Json (Value Object)

/-- Why an agent cannot begin. -/
inductive AgentError
  | declaration (e : DeclarationError)
  | contextUnreadable (path : String) (e : FileError)
  | contextMalformed (f : Json.Fault)
  | contextNotObject (path : String)

namespace AgentError

def message : AgentError → String
  | .declaration e => e.message
  | .contextUnreadable path e =>
    "Configuration error: cannot read context " ++ path ++ ": " ++ e.message
  | .contextMalformed f => "JSON error: " ++ f.message
  | .contextNotObject path => "Configuration error: context " ++ path ++ " must be a JSON object"

/-- What an error comes from, where that is told by itself. -/
def cause? : AgentError → Option String
  | .contextMalformed f => some f.message
  | _ => none

end AgentError

/-! ## Files of an agent -/

/-- Reads a declaration from a file. -/
def Declaration.ofFile (disk : Disk) (path : String) : Except DeclarationError Declaration :=
  match disk path with
  | .error e => .error (.noFile path e.message)
  | .ok text => Declaration.ofText text

/-- Reads facts from a file.  Without a path nothing is known. -/
def Facts.ofFile (disk : Disk) : Option String → Except AgentError Facts
  | none => .ok ⟨[]⟩
  | some path =>
    match disk path with
    | .error e => .error (.contextUnreadable path e)
    | .ok text =>
      match Value.ofText text with
      | .error f => .error (.contextMalformed f)
      | .ok (.obj values) => .ok ⟨values⟩
      | .ok _ => .error (.contextNotObject path)

/-! ## Printed reports -/

/-- What tells a cycle from others, as it is printed. -/
structure Stamp where
  id : Value
  startedAt : Value
  duration : Value

def Failure.encode (f : Failure) : Value :=
  .obj [("property", .str f.property), ("stage", .str f.cause.stage),
    ("message", .str f.cause.message)]

def Report.encode (stamp : Stamp) (r : Report) : Value :=
  .obj [("cycleId", stamp.id), ("startedAt", stamp.startedAt), ("durationMs", stamp.duration),
    ("stats", .obj r.stats), ("errors", .arr (r.failures.map Failure.encode))]

/-! ## Agents -/

structure Agent where
  collector : Collector
  declaration : Declaration
  facts : Facts
  device : Device

namespace Agent

/-- An agent that collects from fixtures. -/
def ofFiles (disk : Disk) (declarationPath fixturesPath : String) (contextPath? : Option String)
    (tuning : Tuning) : Except AgentError Agent := do
  let declaration ← (Declaration.ofFile disk declarationPath).mapError .declaration
  let facts ← Facts.ofFile disk contextPath?
  return ⟨{ tuning }, declaration, facts, Fixtures.device disk fixturesPath⟩

/-- Runs a cycle. -/
def runCycle (a : Agent) : Report × Agent :=
  let (c, collector) := a.collector.collect a.device a.declaration a.facts
  (c.report, { a with collector })

def setStop (a : Agent) (stopRequested : Bool) : Agent :=
  { a with collector := { a.collector with stopRequested } }

/-- Runs cycles until a stop is requested, which happens at the latest when `limit` reports have
come in.  The first report always comes in if no stop was requested before. -/
def runEvery (a : Agent) : Nat → List Report × Agent
  | 0 => ([], a)
  | limit + 1 =>
    if a.collector.stopRequested then ([], a)
    else
      let (report, a) := a.runCycle
      if limit = 0 then ([report], a.setStop true)
      else
        let (reports, a) := runEvery a limit
        (report :: reports, a)

/-- The event of a line after the actions of the declaration. -/
def event (a : Agent) (line : String) : Value :=
  Event.process a.declaration.definitions a.declaration.actions line

end Agent

end DeviceStats
