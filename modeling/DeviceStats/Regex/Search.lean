import DeviceStats.Regex.Program
import Std.Data.TreeSet

/-!
# Regex/Search — running a program over a text

All ways to match are followed at once, in order of preference, one byte at a time.  The leftmost
match wins, and among those with one start the most preferred: when a way accepts, the less
preferred ones are given up, and no later start is tried.
-/

namespace DeviceStats.Regex

/-- Where the groups start and end, as far as they do. -/
abbrev Marks := Array (Option Nat)

/-- A way to match: the state it is in and the groups it has passed. -/
structure Thread where
  state : Nat
  marks : Marks

/-- A text with its bytes at hand. -/
structure Subject where
  text : String
  bytes : ByteArray

namespace Subject

def ofString (s : String) : Subject := ⟨s, s.toUTF8⟩

def size (s : Subject) : Nat := s.bytes.size

def byte? (s : Subject) (i : Nat) : Option UInt8 := s.bytes[i]?

/-- Whether a character starts at a position, or the text ends there. -/
def isBoundary (s : Subject) (i : Nat) : Bool := (s.byte? i).all Text.Utf8.isStart

def charBefore? (s : Subject) (i : Nat) : Option Char :=
  if i = 0 then none else some (String.Pos.Raw.get s.text (String.Pos.Raw.prev s.text ⟨i⟩))

def charAfter? (s : Subject) (i : Nat) : Option Char :=
  if i < s.size then some (String.Pos.Raw.get s.text ⟨i⟩) else none

/-- Whether a character belongs to a word. -/
def isWord (unicode : Bool) (c : Option Char) : Bool :=
  c.any fun c =>
    if c.toNat < 0x80 then c.isAlphanum || c == '_' else unicode && Unicode.Property.word.mem c

/-- Whether a condition holds at a position between two characters. -/
def holds (s : Subject) (i : Nat) (l : Look) : Bool :=
  let before := s.charBefore? i
  let after := s.charAfter? i
  match l with
  | .textStart => i == 0
  | .textEnd => i == s.size
  | .lineStart false => before.all (· == '\n')
  | .lineEnd false => after.all (· == '\n')
  | .lineStart true =>
    before.all fun c => c == '\n' || (c == '\r' && after != some '\n')
  | .lineEnd true =>
    after.all fun c => c == '\r' || (c == '\n' && before != some '\r')
  | .word edge unicode =>
    let a := isWord unicode before
    let b := isWord unicode after
    match edge with
    | .boundary => a != b
    | .notBoundary => a == b
    | .start => !a && b
    | .finish => a && !b
    | .startHalf => !a
    | .finishHalf => !b

end Subject

namespace Program

/-- How many threads can be met while following all steps that read nothing. -/
def reach (p : Program) : Nat :=
  p.states.foldl (fun n s =>
    match s with
    | .union alternatives _ => n + alternatives.size + 1
    | _ => n + 2) 1

/-- Follows the steps that read nothing, most preferred thread first.  Each state is entered once,
by the most preferred way to it; what is left are the states that read or accept. -/
def settle (p : Program) (s : Subject) (i : Nat) :
    Nat → List Thread → Std.TreeSet Nat → Array Thread → Std.TreeSet Nat × Array Thread
  | _, [], seen, out => (seen, out)
  | 0, _, seen, out => (seen, out)
  | fuel + 1, t :: rest, seen, out =>
    if seen.contains t.state then p.settle s i fuel rest seen out
    else
      let seen := seen.insert t.state
      match p.states[t.state]? with
      | some (.goto n) => p.settle s i fuel ({ t with state := n } :: rest) seen out
      | some (.look l n) =>
        if s.holds i l then p.settle s i fuel ({ t with state := n } :: rest) seen out
        else p.settle s i fuel rest seen out
      | some (.mark k n) =>
        p.settle s i fuel (⟨n, t.marks.setIfInBounds k (some i)⟩ :: rest) seen out
      | some (.union alternatives backwards) =>
        let ways := alternatives.toList.map fun n => { t with state := n }
        p.settle s i fuel ((if backwards then ways.reverse else ways) ++ rest) seen out
      | some _ => p.settle s i fuel rest seen (out.push t)
      | none => p.settle s i fuel rest seen out

/-- The threads up to the first that accepts, and the groups of that one. -/
def untilAccept (p : Program) : List Thread → List Thread × Option Marks
  | [] => ([], none)
  | t :: rest =>
    match p.states[t.state]? with
    | some .accept => ([], some t.marks)
    | _ =>
      let (kept, found) := p.untilAccept rest
      (t :: kept, found)

/-- Where a thread leads on a byte. -/
def advance? (p : Program) (b : Nat) (t : Thread) : Option Thread :=
  let fits (r : Text.Utf8.ByteRange) : Bool := r.lo ≤ b && b ≤ r.hi
  match p.states[t.state]? with
  | some (.read r) => if fits r.bytes then some { t with state := r.next } else none
  | some (.choose ts) => (ts.find? (fits ·.bytes)).map fun r => { t with state := r.next }
  | _ => none

/-- Runs over what is left of the text from a position on, with the threads that arrive there and
the best match so far. -/
def run (p : Program) (s : Subject) (reach : Nat) :
    Nat → Nat → List Thread → Option Marks → Option Marks
  | 0, _, _, best => best
  | left + 1, i, arriving, best =>
    let fresh :=
      if best.isNone && s.isBoundary i then [⟨p.start, Array.replicate p.slots none⟩] else []
    let threads := (p.settle s i (reach + arriving.length) (arriving ++ fresh) ∅ #[]).2
    let (kept, found) := p.untilAccept threads.toList
    let best := found <|> best
    match s.byte? i with
    | none => best
    | some b =>
      if kept.isEmpty && best.isSome then best
      else p.run s reach left (i + 1) (kept.filterMap (p.advance? b.toNat)) best

/-- The groups of the leftmost, most preferred match in a text. -/
def search (p : Program) (s : Subject) : Option Marks :=
  p.run s p.reach (s.size + 1) 0 [] none

/-- The text of a group of a match; nothing where the group takes no part in it. -/
def group? (s : Subject) (marks : Marks) (i : Nat) : Option String :=
  match marks[2 * i]?.join, marks[2 * i + 1]?.join with
  | some a, some b => some (String.Pos.Raw.extract s.text ⟨a⟩ ⟨b⟩)
  | _, _ => none

end Program

end DeviceStats.Regex
