import DeviceStats.Agent
import DeviceStats.CommandLine

/-!
# Command — what the program prints

Each command reads the declaration and answers with a text for each of the two outputs and a code:
0 where all went well, 1 where a file does not serve, 2 where the arguments say nothing to run.
-/

namespace DeviceStats

/-- What a command finds around it. -/
structure Surroundings where
  env : Environment
  disk : Disk
  input : String := ""
  stamp : Stamp

structure Output where
  code : Nat
  out : String := ""
  err : String := ""
deriving DecidableEq, Repr

namespace Command

/-- The files that an invocation reads, as far as what is read already tells. -/
def wanted (s : Surroundings) (i : Invocation) : List String :=
  let path := Settings.declarationPath s.env s.disk i.declaration?
  let dir := Settings.fixturesPath s.env i.fixtures?
  let fixtures :=
    match Declaration.ofFile s.disk path, Facts.ofFile s.disk i.context? with
    | .ok d, .ok facts => (d.properties facts).filterMap fun p => Fixtures.path? dir p.endpoint
    | _, _ => []
  Settings.localDeclaration :: path :: i.context?.toList ++ fixtures

/-! ## Failing -/

/-- Text of several lines, the first behind a head and the others behind blanks. -/
def indented (head blanks text : String) : String :=
  head ++ ("\n" ++ blanks).intercalate (Text.segments '\n' text)

/-- What could not be done, and what it comes from.  Several causes are numbered. -/
def explained (what : String) (causes : List String) : String :=
  let lines :=
    match causes with
    | [cause] => [indented "    " "    " cause]
    | _ => causes.mapIdx fun i cause => indented s!"    {i}: " "       " cause
  "Error: " ++ what ++ "\n\nCaused by:\n" ++ "\n".intercalate lines ++ "\n"

def fail (what : String) (e : AgentError) : Output :=
  { code := 1, err := explained what (e.message :: e.cause?.toList) }

/-! ## Running -/

/-- The agent that collects. -/
def start (s : Surroundings) (i : Invocation) (workers? : Option Nat) : Except Output Agent :=
  let path := Settings.declarationPath s.env s.disk i.declaration?
  let tuning := Settings.tuning s.env
  let tuning :=
    match workers? with
    | some workers => { tuning with workers := max 1 workers }
    | none => tuning
  (Agent.ofFiles s.disk path (Settings.fixturesPath s.env i.fixtures?) i.context? tuning).mapError
    (fail ("cannot start collection from " ++ path))

/-- A report in one line, or with one entry a line. -/
def printed (stamp : Stamp) (pretty : Bool) (r : Report) : String :=
  (if pretty then (r.encode stamp).pretty else (r.encode stamp).text) ++ "\n"

/-- Runs one cycle. -/
def runCollect (s : Surroundings) (i : Invocation) (workers? : Option Nat) (pretty : Bool) :
    Output :=
  match start s i workers? with
  | .error o => o
  | .ok a => { code := 0, out := printed s.stamp pretty a.runCycle.1 }

/-- What can be wrong with a declaration: it cannot be read, or one of its properties cannot be
used. -/
inductive Flaw
  | agent (e : AgentError)
  | property (e : PropertyError)

def Flaw.message : Flaw → String
  | .agent e => e.message
  | .property e => e.message

/-- The declaration of an invocation and how many of its properties are in use. -/
def check (s : Surroundings) (i : Invocation) (path : String) :
    Except Flaw (Declaration × Nat) := do
  let d ← (Declaration.ofFile s.disk path).mapError fun e => Flaw.agent (.declaration e)
  let facts ← (Facts.ofFile s.disk i.context?).mapError .agent
  return (d, ← (d.validate facts).mapError .property)

def runValidate (s : Surroundings) (i : Invocation) : Output :=
  let path := Settings.declarationPath s.env s.disk i.declaration?
  match check s i path with
  | .error flaw => { code := 1, err := "Invalid declaration: " ++ flaw.message ++ "\n" }
  | .ok (d, enabled) =>
    { code := 0
      out := s!"Valid declaration: {path}\n  Stats: {d.stats.length}\n  Enabled: {enabled}\n" ++
        s!"  Tag definitions: {d.definitions.length}\n  Data actions: {d.actions.length}\n" }

/-- Passes the lines of the input through the actions of the declaration.  Blank lines are left
out. -/
def runEvents (s : Surroundings) (i : Invocation) : Output :=
  let path := Settings.declarationPath s.env s.disk i.declaration?
  match Declaration.ofFile s.disk path with
  | .error e => fail ("cannot load " ++ path) (.declaration e)
  | .ok d =>
    let lines := (Text.lines s.input.toList).filter fun line => !line.all Text.isBlank
    { code := 0
      out := "".intercalate (lines.map fun line =>
        (Event.process d.definitions d.actions (String.ofList line)).text ++ "\n") }

def usage : String :=
  "Declarative stats collection against recorded endpoint responses\n\n" ++
  "Usage: telemetry-agent [-d DECLARATION] [-f FIXTURES] [--context CONTEXT] " ++
  "[--log-level LEVEL] [COMMAND]\n\n" ++
  "Commands:\n" ++
  "  collect [-i INTERVAL] [--workers WORKERS] [--pretty]\n" ++
  "  validate\n" ++
  "  events\n" ++
  "  help\n"

def runRefused : Refusal → Output
  | .help => { code := 0, out := usage }
  | .version => { code := 0, out := "telemetry-agent 0.1.0\n" }
  | .wrong => { code := 2, err := "error: unusable arguments\n\n" ++ usage }

/-- Runs what the arguments say.  Of a collection that is to be repeated this is the first cycle. -/
def run (s : Surroundings) (args : List String) : Output :=
  match CommandLine.read args with
  | .error r => runRefused r
  | .ok i =>
    match i.command with
    | .collect _ workers? pretty => runCollect s i workers? pretty
    | .validate => runValidate s i
    | .events => runEvents s i

end Command

end DeviceStats
