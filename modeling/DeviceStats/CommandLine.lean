import DeviceStats.Settings

/-!
# CommandLine — arguments of the program

Options may stand before the name of a command, and a command has options of its own.  An option is
written long with two dashes or short with one; its value follows, in the same argument or in the
next, which must not look like an option.  No option may be given twice.
-/

namespace DeviceStats

/-- An option that arguments may give. -/
structure Switch where
  name : String
  short? : Option Char := none
  /-- Which values it takes, if it takes one. -/
  accepts? : Option (String → Bool) := some fun _ => true

/-- Why arguments say nothing to run. -/
inductive Refusal
  | help
  | version
  | wrong
deriving DecidableEq, Repr

inductive Command
  | collect (interval? workers? : Option Nat) (pretty : Bool)
  | validate
  | events
deriving DecidableEq, Repr

structure Invocation where
  declaration? : Option String := none
  fixtures? : Option String := none
  context? : Option String := none
  command : Command

namespace CommandLine

/-- Options by name with their values; an option without one has the empty value. -/
abbrev Given := List (String × String)

/-! ## Options -/

/-- One more option with its value. -/
def add (given : Given) (s : Switch) (value : String) : Except Refusal Given :=
  if given.any (·.1 == s.name) then .error .wrong
  else if s.accepts?.all fun accepts => accepts value then .ok (given ++ [(s.name, value)])
  else .error .wrong

/-- An option without a value. -/
def raise (given : Given) (s : Switch) : Except Refusal Given :=
  if s.name = "help" then .error .help
  else if s.name = "version" then .error .version
  else add given s ""

/-- Options so far, and one that waits for its value. -/
abbrev Reading := Given × Option Switch

/-- A long option, perhaps with its value behind an equals sign. -/
def long (switches : List Switch) (given : Given) (arg : List Char) : Except Refusal Reading :=
  let (name, value?) :=
    match Text.splitFirst? ['='] arg with
    | some (name, value) => (String.ofList name, some (String.ofList value))
    | none => (String.ofList arg, none)
  match switches.find? (·.name == name) with
  | none => .error .wrong
  | some s =>
    match s.accepts?.isSome, value? with
    | true, some value => do return (← add given s value, none)
    | true, none => .ok (given, some s)
    | false, some _ => .error .wrong
    | false, none => do return (← raise given s, none)

/-- Short options in one argument; the first that takes a value takes all that is left. -/
def short (switches : List Switch) (given : Given) : List Char → Except Refusal Reading
  | [] => .ok (given, none)
  | c :: cs =>
    match switches.find? (·.short? == some c) with
    | none => .error .wrong
    | some s =>
      if s.accepts?.isSome then
        match cs with
        | [] => .ok (given, some s)
        | '=' :: value => do return (← add given s (String.ofList value), none)
        | value => do return (← add given s (String.ofList value), none)
      else do short switches (← raise given s) cs

/-- Reads options up to the first argument that is none.  `waiting?` is an option that waits for its
value. -/
def options (switches : List Switch) :
    Option Switch → Given → List String → Except Refusal (Given × List String)
  | some _, _, [] => .error .wrong
  | none, given, [] => .ok (given, [])
  | waiting?, given, arg :: rest =>
    match waiting?, arg.toList with
    | some _, '-' :: _ :: _ => .error .wrong
    | some s, _ => do options switches none (← add given s arg) rest
    | none, ['-', '-'] => if rest.isEmpty then .ok (given, []) else .error .wrong
    | none, '-' :: '-' :: cs => do
      let (given, waiting?) ← long switches given cs
      options switches waiting? given rest
    | none, '-' :: c :: cs => do
      let (given, waiting?) ← short switches given (c :: cs)
      options switches waiting? given rest
    | none, _ => .ok (given, arg :: rest)

/-! ## Commands -/

def help : Switch := { name := "help", short? := some 'h', accepts? := none }

def isNumber (value : String) : Bool := (Settings.number? value).isSome

def switches : List Switch := [
  { name := "declaration", short? := some 'd' },
  { name := "fixtures", short? := some 'f' },
  { name := "context" },
  { name := "log-level" },
  { name := "version", short? := some 'V', accepts? := none },
  help]

def collectSwitches : List Switch := [
  { name := "interval", short? := some 'i', accepts? := some isNumber },
  { name := "workers", accepts? := some isNumber },
  { name := "pretty", accepts? := none },
  help]

def value? (given : Given) (name : String) : Option String := Named.get? given name

/-- Options of a command, behind which nothing else stands. -/
def onlyOptions (switches : List Switch) (args : List String) : Except Refusal Given := do
  match ← options switches none [] args with
  | (given, []) => return given
  | _ => .error .wrong

def command : List String → Except Refusal Command
  | [] => .ok (.collect none none false)
  | "collect" :: args => do
    let given ← onlyOptions collectSwitches args
    let number? (name : String) : Option Nat := (value? given name).bind Settings.number?
    return .collect (number? "interval") (number? "workers") (value? given "pretty").isSome
  | "validate" :: args => do
    let _ ← onlyOptions [help] args
    return .validate
  | "events" :: args => do
    let _ ← onlyOptions [help] args
    return .events
  | ["help"] => .error .help
  | ["help", name] =>
    if ["collect", "validate", "events", "help"].contains name then .error .help else .error .wrong
  | _ => .error .wrong

/-- What arguments say. -/
def read (args : List String) : Except Refusal Invocation := do
  let (given, rest) ← options switches none [] args
  return {
    declaration? := value? given "declaration"
    fixtures? := value? given "fixtures"
    context? := value? given "context"
    command := ← command rest }

end CommandLine

end DeviceStats
