import DeviceStats.Cycle.Thread
import DeviceStats.Files
import DeviceStats.Text.Blank

/-!
# Settings — what the environment says

Variables set how cycles are run and where the declaration and the fixtures stand.  A variable that
does not hold a number leaves its setting as it is.
-/

namespace DeviceStats

/-- Variables by name. -/
abbrev Environment := String → Option String

namespace Settings

/-- The largest number that is read. -/
def maxNumber : Nat := Nat.pow 2 64 - 1

def digitsValue? : Nat → List Char → Option Nat
  | n, [] => some n
  | n, c :: cs => if c.isDigit then digitsValue? (n * 10 + (c.toNat - '0'.toNat)) cs else none

/-- The number that a text writes in digits, perhaps behind a plus sign. -/
def number? (text : String) : Option Nat :=
  let digits :=
    match text.toList with
    | '+' :: cs => cs
    | cs => cs
  match digits with
  | [] => none
  | _ => (digitsValue? 0 digits).filter (· ≤ maxNumber)

/-- The number in a variable, if it holds one, with blanks around it at most. -/
def numberOf (env : Environment) (name : String) (otherwise : Nat) : Nat :=
  (((env name).map Text.trim).bind number?).getD otherwise

/-- The variables that are looked at. -/
def names : List String :=
  ["TELEMETRY_WORKERS", "TELEMETRY_MAX_QUEUE", "TELEMETRY_FETCH_TIMEOUT_SECS",
    "TELEMETRY_DECLARATION", "TELEMETRY_FIXTURES", "HOME", "USERPROFILE"]

/-- How cycles are run: at least one worker, and a time limit in seconds. -/
def tuning (env : Environment) : Tuning :=
  { workers := max 1 (numberOf env "TELEMETRY_WORKERS" 4)
    maxQueue := numberOf env "TELEMETRY_MAX_QUEUE" 1000
    timeout := 1000 * numberOf env "TELEMETRY_FETCH_TIMEOUT_SECS" 30 }

/-- The folder of the user. -/
def home (env : Environment) : String :=
  ((env "HOME").orElse fun _ => env "USERPROFILE").getD "."

def localDeclaration : String := "telemetry/declaration.json"

/-- Where the declaration stands: where the caller says, where the environment says, in the working
directory if it is there, or else in the folder of the user. -/
def declarationPath (env : Environment) (disk : Disk) (given? : Option String) : String :=
  match given?.orElse fun _ => env "TELEMETRY_DECLARATION" with
  | some path => path
  | none =>
    if disk.holds localDeclaration then localDeclaration
    else Path.below (Path.below (home env) ".telemetry") "declaration.json"

/-- Where the fixtures stand. -/
def fixturesPath (env : Environment) (given? : Option String) : String :=
  (given?.orElse fun _ => env "TELEMETRY_FIXTURES").getD "telemetry/fixtures"

end Settings

end DeviceStats
