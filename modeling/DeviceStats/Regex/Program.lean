import DeviceStats.Regex.Expr
import DeviceStats.Regex.Reader
import Std.Data.HashMap

/-!
# Regex/Program — an expression as a machine that reads bytes

A program is a list of states.  Some read a byte, the others lead on without reading; a `union`
prefers its earlier alternatives.  Programs are built in either direction.  Only the forward one is
run, but an expression counts as too large when either of them would take more than `sizeLimit`
bytes, each state, transition and alternative having its fixed share.

Equal ends of the characters of a class share their states as far as a small table remembers them:
the table holds one entry per slot, and a later entry takes the slot of an earlier one.
-/

namespace DeviceStats.Regex

open DeviceStats.Unicode (CharSet)
open DeviceStats.Text

/-- A step on a byte between two values. -/
structure Transition where
  bytes : Utf8.ByteRange
  next : Nat
deriving DecidableEq, Repr

inductive State
  | goto (next : Nat)
  | read (t : Transition)
  | choose (ts : List Transition)
  | look (l : Look) (next : Nat)
  /-- Notes the position: where a group starts at its even slot, where it ends at the odd one. -/
  | mark (slot : Nat) (next : Nat)
  /-- Tries alternatives in order, or in the opposite order. -/
  | union (alternatives : Array Nat) (backwards : Bool)
  | accept
deriving Repr, Inhabited

/-- What a state and its fixed parts take. -/
def State.size : State → Nat
  | .choose ts => 32 + 8 * ts.length
  | .union alternatives _ => 32 + 4 * alternatives.size
  | _ => 32

/-- The size beyond which no expression is compiled. -/
def sizeLimit : Nat := 10 * Nat.pow 2 20

/-! ## Building -/

/-- The states so far and their size. -/
structure Builder where
  states : Array State := #[]
  size : Nat := 0

/-- A building step, which fails when the program grows too large. -/
abbrev Build := StateT Builder Option

/-- A part of a program: where it starts and which state to lead on from. -/
structure Part where
  start : Nat
  finish : Nat

namespace Build

def add (s : State) : Build Nat := do
  let id ← modifyGet fun b =>
    (b.states.size, { b with states := b.states.push s, size := b.size + s.size })
  if sizeLimit < (← get).size then failure
  return id

/-- Leads one state on to another. -/
def patch (source target : Nat) : Build Unit := do
  modify fun b =>
    match b.states[source]? with
    | some (.goto _) => { b with states := b.states.set! source (.goto target) }
    | some (.read t) => { b with states := b.states.set! source (.read { t with next := target }) }
    | some (.look l _) => { b with states := b.states.set! source (.look l target) }
    | some (.mark i _) => { b with states := b.states.set! source (.mark i target) }
    | some (.union _ _) =>
      { states := b.states.modify source fun
          | .union alternatives backwards => .union (alternatives.push target) backwards
          | s => s
        size := b.size + 4 }
    | _ => b
  if sizeLimit < (← get).size then failure

def single (s : State) : Build Part := do
  let id ← add s
  return ⟨id, id⟩

def addUnion (greedy : Bool) : Build Nat := add (.union #[] (!greedy))

def nothing : Build Part := single (.goto 0)

/-- Parts that follow each other. -/
def chain : List Part → Build Part
  | [] => nothing
  | p :: ps => go p.start p.finish ps
where
  go (start finish : Nat) : List Part → Build Part
    | [] => return ⟨start, finish⟩
    | p :: ps => do
      patch finish p.start
      go start p.finish ps

/-! ### Texts and classes -/

def readByte (b : Nat) : Build Part := single (.read ⟨⟨b, b⟩, 0⟩)

def literal (backwards : Bool) (bytes : List Nat) : Build Part := do
  chain (← (if backwards then bytes.reverse else bytes).mapM readByte)

/-- The slot of a list of numbers in a table, by the hash that multiplies as it goes. -/
def slot (numbers : List Nat) (slots : Nat) : Nat :=
  let h := numbers.foldl (fun (h : UInt64) n => (h ^^^ n.toUInt64) * 1099511628211)
    14695981039346656037
  h.toNat % slots

/-- A class of single bytes. -/
def byteClass (ranges : List (Nat × Nat)) : Build Part := do
  let finish ← add (.goto 0)
  let start ← add (.choose (ranges.map fun r => ⟨⟨r.1, r.2⟩, finish⟩))
  return ⟨start, finish⟩

/-- A position inside the characters read so far: the steps that are settled, last one first, and
the byte range whose continuation is still open. -/
structure Level where
  settled : List Transition := []
  «open» : Option Utf8.ByteRange := none

def Level.settle (l : Level) (next : Nat) : Level :=
  match l.open with
  | some r => { settled := ⟨r, next⟩ :: l.settled }
  | none => l

/-- States of a class under construction: the levels from the first byte down, and the states that
the table remembers. -/
structure Classes where
  levels : List Level
  known : Std.HashMap Nat (List Transition × Nat) := ∅

def knownSlots : Nat := 10000

/-- The state that offers the given steps, built unless the table remembers it. -/
def offer (c : Classes) (ts : List Transition) : Build (Nat × Classes) := do
  let i := slot (ts.flatMap fun t => [t.bytes.lo, t.bytes.hi, t.next]) knownSlots
  let fresh : Build (Nat × Classes) := do
    let id ← add (.choose ts)
    return (id, { c with known := c.known.insert i (ts, id) })
  match c.known[i]? with
  | some (ts', id) => if ts' = ts then return (id, c) else fresh
  | none => fresh

/-- Settles every level below the first `keep + 1` and leads the last kept one on to them. -/
def settleBelow (target : Nat) (c : Classes) (keep : Nat) : Build Classes := do
  let rec go : List Level → Nat → Classes → Build (Nat × Classes)
    | [], next, c => return (next, c)
    | l :: deeper, next, c => do
      let (below, c) ← go deeper next c
      offer c (l.settle below).settled.reverse
  let (next, c) ← go (c.levels.drop (keep + 1)) target c
  let kept := c.levels.take (keep + 1)
  let kept := kept.mapIdx fun i l => if i = kept.length - 1 then l.settle next else l
  return { c with levels := kept }

/-- How many leading bytes of a sequence the open levels share with it. -/
def shared : List Utf8.ByteRange → List Level → Nat
  | r :: rs, l :: ls => if l.open = some r then shared rs ls + 1 else 0
  | _, _ => 0

/-- Adds the characters of one sequence, which come after all those added before. -/
def addSequence (target : Nat) (c : Classes) (seq : List Utf8.ByteRange) : Build Classes := do
  let keep := shared seq c.levels
  let c ← settleBelow target c keep
  match seq.drop keep with
  | [] => return c
  | r :: rs =>
    let levels := c.levels.mapIdx fun i l => if i = keep then { l with «open» := some r } else l
    return { c with levels := levels ++ rs.map fun r => { «open» := some r } }

def sequencesOf (s : CharSet) : List (List Utf8.ByteRange) :=
  s.ranges.flatMap fun r => Utf8.sequences r.1 r.2

/-- A class of characters, read from their first byte on. -/
def charClass (s : CharSet) : Build Part := do
  let finish ← add (.goto 0)
  let c ← (sequencesOf s).foldlM (addSequence finish) { levels := [{}] }
  let c ← settleBelow finish c 0
  let (start, _) ← offer c ((c.levels.head?.map (·.settled.reverse)).getD [])
  return ⟨start, finish⟩

def backSlots : Nat := 1000

/-- A class of characters, read from their last byte back. -/
def charClassBack (s : CharSet) : Build Part := do
  let start ← addUnion true
  let finish ← add (.goto 0)
  let step (acc : Nat × Std.HashMap Nat (List Nat × Nat)) (r : Utf8.ByteRange) :
      Build (Nat × Std.HashMap Nat (List Nat × Nat)) := do
    let (next, known) := acc
    let key := [next, r.lo, r.hi]
    let i := slot key backSlots
    let fresh : Build (Nat × Std.HashMap Nat (List Nat × Nat)) := do
      let id ← add (.read ⟨r, next⟩)
      return (id, known.insert i (key, id))
    match known[i]? with
    | some (key', id) => if key' = key then return (id, known) else fresh
    | none => fresh
  let _ ← (sequencesOf s).foldlM (fun known seq => do
    let (id, known) ← seq.foldlM step (finish, known)
    patch start id
    return known) (∅ : Std.HashMap Nat (List Nat × Nat))
  return ⟨start, finish⟩

def classOf (backwards : Bool) (s : CharSet) : Build Part :=
  if s.isAscii then byteClass s.ranges
  else if backwards then charClassBack s
  else charClass s

/-! ### Alternative texts

Texts to choose between are kept in a tree, so that what they start with is read once.  The steps
of a node come in groups: a group ends where a text ends, since that text is preferred to the
longer ones given after it. -/

inductive Trie
  | node (closed : List (List (Nat × Trie))) (current : List (Nat × Trie))

namespace Trie

def empty : Trie := .node [] []

def isLeaf : Trie → Bool
  | .node closed current => closed.all (·.isEmpty) && current.isEmpty

/-- Puts a step in its place by byte. -/
def put (b : Nat) (t : Trie) : List (Nat × Trie) → List (Nat × Trie)
  | [] => [(b, t)]
  | (c, u) :: rest =>
    if b < c then (b, t) :: (c, u) :: rest
    else if b = c then (b, t) :: rest
    else (c, u) :: put b t rest

/-- Adds a text that is less preferred than those added before. -/
def insert : List Nat → Trie → Trie
  | [], .node closed current =>
    if current.isEmpty && closed.all (·.isEmpty) && !closed.isEmpty then .node closed current
    else .node (closed ++ [current]) []
  | b :: bs, .node closed current =>
    .node closed (put b (insert bs (((current.find? (·.1 == b)).map (·.2)).getD empty)) current)

end Trie

mutual

/-- The state where a tree is entered. -/
def trie (finish : Nat) : Trie → Build Nat
  | .node closed current => do
    let before ← trieGroups finish closed
    let last ← trieGroup finish current
    add (.union (before ++ last).toArray false)

def trieGroups (finish : Nat) : List (List (Nat × Trie)) → Build (List Nat)
  | [] => return []
  | g :: gs => do
    let here ← trieGroup finish g
    return here ++ finish :: (← trieGroups finish gs)

/-- The state that offers the steps of a group, unless there are none. -/
def trieGroup (finish : Nat) (g : List (Nat × Trie)) : Build (List Nat) := do
  match ← trieSteps finish g with
  | [] => return []
  | [t] => return [← add (.read t)]
  | ts => return [← add (.choose ts)]

def trieSteps (finish : Nat) : List (Nat × Trie) → Build (List Transition)
  | [] => return []
  | (b, t) :: rest => do
    let next ← if t.isLeaf then pure finish else trie finish t
    return ⟨⟨b, b⟩, next⟩ :: (← trieSteps finish rest)

end

def literals (backwards : Bool) (texts : List (List Nat)) : Build Part := do
  let t := texts.foldl
    (fun t bs => t.insert (if backwards then bs.reverse else bs)) Trie.empty
  let finish ← add (.goto 0)
  let start ← trie finish t
  return ⟨start, finish⟩

/-! ### Repetitions and alternatives -/

/-- A part built `n` times over. -/
def exactly (part : Build Part) (n : Nat) : Build Part :=
  match n with
  | 0 => nothing
  | n + 1 => do
    let p ← part
    go p.start p.finish n
where
  go (start finish : Nat) : Nat → Build Part
    | 0 => return ⟨start, finish⟩
    | n + 1 => do
      let p ← part
      patch finish p.start
      go start p.finish n

/-- A part that may be repeated without end.  `consumes` says that it never matches the empty text;
otherwise leaving has to be a choice of its own, or the preference between the ways to match would
be lost. -/
def atLeast (part : Build Part) (consumes greedy : Bool) (n : Nat) : Build Part :=
  match n with
  | 0 =>
    if consumes then do
      let u ← addUnion greedy
      let p ← part
      patch u p.start
      patch p.finish u
      return ⟨u, u⟩
    else do
      let p ← part
      let plus ← addUnion greedy
      patch p.finish plus
      patch plus p.start
      let question ← addUnion greedy
      let out ← add (.goto 0)
      patch question p.start
      patch question out
      patch plus out
      return ⟨question, out⟩
  | 1 => do
    let p ← part
    let u ← addUnion greedy
    patch p.finish u
    patch u p.start
    return ⟨p.start, u⟩
  | n + 2 => do
    let before ← exactly part (n + 1)
    let p ← part
    let u ← addUnion greedy
    patch before.finish p.start
    patch p.finish u
    patch u p.start
    return ⟨before.start, u⟩

def optional (part : Build Part) (greedy : Bool) : Build Part := do
  let u ← addUnion greedy
  let p ← part
  let out ← add (.goto 0)
  patch u p.start
  patch u out
  patch p.finish out
  return ⟨u, out⟩

/-- A part repeated between two counts: each further one can be left out with all that follow. -/
def between (part : Build Part) (greedy : Bool) (least most : Nat) : Build Part := do
  let before ← exactly part least
  let out ← add (.goto 0)
  let rec go (finish : Nat) : Nat → Build Nat
    | 0 => return finish
    | n + 1 => do
      let u ← addUnion greedy
      let p ← part
      patch finish u
      patch u p.start
      patch u out
      go p.finish n
  let finish ← go before.finish (most - least)
  patch finish out
  return ⟨before.start, out⟩

def literalBytes? : Expr → Option (List Nat)
  | .literal bs => some bs
  | _ => none

mutual

def expr (backwards : Bool) : Expr → Build Part
  | .empty => nothing
  | .literal bs => literal backwards bs
  | .oneOf s => classOf backwards s
  | .look l => single (.look l 0)
  | .repetition least most greedy body =>
    let part := expr backwards body
    match most with
    | none => atLeast part ((body.minLength.getD 0) > 0) greedy least
    | some m =>
      if least = 0 ∧ m = 1 then optional part greedy
      else if least = m then exactly part least
      else between part greedy least m
  | .capture i body => do
    if backwards then expr backwards body
    else
      let start ← add (.mark (2 * i) 0)
      let p ← expr backwards body
      let finish ← add (.mark (2 * i + 1) 0)
      patch start p.start
      patch p.finish finish
      return ⟨start, finish⟩
  | .concat items => do
    if backwards then chain (← exprsBack backwards items) else chain (← exprs backwards items)
  | .alternation branches => do
    match branches.mapM literalBytes? with
    | some texts => literals backwards texts
    | none => alternatives backwards branches

def exprs (backwards : Bool) : List Expr → Build (List Part)
  | [] => return []
  | x :: xs => do
    let p ← expr backwards x
    return p :: (← exprs backwards xs)

/-- The parts in the opposite order. -/
def exprsBack (backwards : Bool) : List Expr → Build (List Part)
  | [] => return []
  | x :: xs => do
    let later ← exprsBack backwards xs
    return later ++ [← expr backwards x]

def alternatives (backwards : Bool) : List Expr → Build Part
  | [] => single (.goto 0)
  | [x] => expr backwards x
  | x :: y :: rest => do
    let p ← expr backwards x
    let q ← expr backwards y
    let start ← addUnion true
    let finish ← add (.goto 0)
    patch start p.start
    patch p.finish finish
    patch start q.start
    patch q.finish finish
    joinMore backwards start finish rest
    return ⟨start, finish⟩

def joinMore (backwards : Bool) (start finish : Nat) : List Expr → Build Unit
  | [] => return ()
  | x :: xs => do
    let p ← expr backwards x
    patch start p.start
    patch p.finish finish
    joinMore backwards start finish xs

end

/-- A whole program: a search for the start, unless it is fixed, and the expression. -/
def whole (backwards : Bool) (e : Expr) : Build Nat := do
  let anchored := if backwards then e.anchoredEnd else e.anchoredStart
  let search ←
    if anchored then nothing else atLeast (byteClass [(0, 0xFF)]) true false 0
  let p ← expr backwards (.capture 0 e)
  let accept ← add .accept
  patch p.finish accept
  patch search.finish p.start
  return p.start

end Build

/-! ## Programs -/

structure Program where
  states : Array State
  start : Nat
  /-- Two slots for each group, the whole match being the first. -/
  slots : Nat

mutual

def Expr.lastGroup : Expr → Nat
  | .repetition _ _ _ body => body.lastGroup
  | .capture i body => max i body.lastGroup
  | .concat items => Expr.lastGroupList items
  | .alternation branches => Expr.lastGroupList branches
  | _ => 0

def Expr.lastGroupList : List Expr → Nat
  | [] => 0
  | x :: xs => max x.lastGroup (Expr.lastGroupList xs)

end

/-- The program of an expression that is not too large. -/
def Program.ofExpr? (e : Expr) : Option Program := do
  let (start, forward) ← (Build.whole false e).run {}
  let _ ← (Build.whole true e).run {}
  return ⟨forward.states, start, 2 * (e.lastGroup + 1)⟩

/-- The program of a text that is a regular expression and not too large. -/
def Program.compile? (text : String) : Option Program := do
  let node ← Node.read? text
  let (e, _) ← (Expr.ofNode node).run {}
  Program.ofExpr? e

end DeviceStats.Regex
