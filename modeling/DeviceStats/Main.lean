import DeviceStats.Command
import DeviceStats.Time.Moment
import Std.Time.DateTime.Timestamp

/-!
# Main — the program

Reads the arguments, the environment and the files that an invocation asks for, and prints what its
command says.
-/

namespace DeviceStats.Program

open Json (Value)

def readError (e : IO.Error) : FileError :=
  match e with
  | .noFileOrDirectory .. => .missing
  | .inappropriateType _ 20 _ => .notFolder
  | .inappropriateType _ 21 _ => .isFolder
  | e => .other (toString e)

def readFile (path : String) : IO (Except FileError String) := do
  try return .ok (← IO.FS.readFile path)
  catch e => return .error (readError e)

/-- Files that were read, as a disk. -/
def diskOf (read : List (String × Except FileError String)) : Disk := fun path =>
  ((read.find? (·.1 == path)).map (·.2)).getD (.error .missing)

/-- The files that an invocation asks for: each round of reading tells what the next one needs. -/
def readWanted (s : Surroundings) (i : Invocation) : IO Disk := do
  let mut read := []
  for _ in [0, 1, 2] do
    let wanted := Command.wanted { s with disk := diskOf read } i
    for path in wanted do
      unless read.any (·.1 == path) do
        read := read ++ [(path, ← readFile path)]
  return diskOf read

def readEnvironment : IO Environment := do
  let found ← Settings.names.mapM fun name => return (name, ← IO.getEnv name)
  return fun name => (found.find? (·.1 == name)).bind (·.2)

partial def readInput (stream : IO.FS.Stream) (sofar : String := "") : IO String := do
  let line ← stream.getLine
  if line.isEmpty then return sofar else readInput stream (sofar ++ line)

/-- A random identity: 32 digits in five groups, of version four. -/
def newId : IO String := do
  let bytes := (← IO.getRandomBytes 16).toList.map UInt8.toNat
  let bytes := bytes.mapIdx fun i b =>
    if i = 6 then 64 + b % 16 else if i = 8 then 128 + b % 64 else b
  let digits := bytes.flatMap fun b => [Json.hexDigit (b / 16), Json.hexDigit (b % 16)]
  let group (start size : Nat) : String := String.ofList ((digits.drop start).take size)
  return "-".intercalate [group 0 8, group 8 4, group 12 4, group 16 4, group 20 12]

/-- The present moment. -/
def present : IO Time.Moment := do
  let nanos := (← Std.Time.Timestamp.now).toNanosecondsSinceUnixEpoch.val
  return ⟨nanos / 1000000000, (nanos % 1000000000).toNat⟩

/-- Runs a cycle and prints its report. -/
def printCycle (a : Agent) (pretty : Bool) : IO Agent := do
  let id ← newId
  let startedAt ← present
  let start ← IO.monoMsNow
  let (report, a) := a.runCycle
  let duration := (← IO.monoMsNow) - start
  IO.print (Command.printed ⟨.str id, .str startedAt.iso, .ofNat duration⟩ pretty report)
  (← IO.getStdout).flush
  return a

/-- Runs cycles without end, with seconds between them. -/
partial def repeatCycles (a : Agent) (seconds : Nat) (pretty : Bool) : IO Unit := do
  let a ← printCycle a pretty
  IO.sleep (1000 * max 1 seconds).toUInt32
  repeatCycles a seconds pretty

def print (o : Output) : IO UInt32 := do
  IO.print o.out
  IO.eprint o.err
  return o.code.toUInt32

def collect (s : Surroundings) (i : Invocation) (interval? workers? : Option Nat) (pretty : Bool) :
    IO UInt32 := do
  match Command.start s i workers? with
  | .error o => print o
  | .ok a =>
    match interval? with
    | some seconds => repeatCycles a seconds pretty
    | none => let _ ← printCycle a pretty
    return 0

def run (args : List String) : IO UInt32 := do
  let s : Surroundings :=
    ⟨← readEnvironment, fun _ => .error .missing, "", ⟨.null, .null, .null⟩⟩
  match CommandLine.read args with
  | .error r => print (Command.runRefused r)
  | .ok i =>
    let s := { s with disk := ← readWanted s i }
    match i.command with
    | .collect interval? workers? pretty => collect s i interval? workers? pretty
    | .validate => print (Command.runValidate s i)
    | .events => print (Command.runEvents { s with input := ← readInput (← IO.getStdin) } i)

end DeviceStats.Program

def main (args : List String) : IO UInt32 := DeviceStats.Program.run args
