import DeviceStats.Regex.Node
import DeviceStats.Text.Blank
import DeviceStats.Unicode.Property

/-!
# Regex/Reader — reading a written regular expression

`Node.read?` gives the tree of an expression, or nothing where the text is no expression.  The
reader descends through groups and brackets; `fuel` bounds the descent and starts above the length
of the text, which every step that descends shortens.

In verbose mode blanks and `#` comments between the parts of an expression do not count.
-/

namespace DeviceStats.Regex

open DeviceStats.Text (isBlank)

/-- What is still to be read, and what reading it depends on. -/
structure Cursor where
  rest : List Char
  verbose : Bool := false
  /-- How many groups have been counted. -/
  groups : Nat := 0
  /-- The group names in use. -/
  names : List String := []

/-- A reading step: it moves the cursor or fails. -/
abbrev Read := StateT Cursor Option

namespace Read

/-! ## Blanks and comments -/

mutual

/-- The text after leading blanks and comments. -/
def pastBlanks : List Char → List Char
  | [] => []
  | c :: cs => if isBlank c then pastBlanks cs else if c = '#' then pastComment cs else c :: cs

/-- The text after a comment and what blanks follow it. -/
def pastComment : List Char → List Char
  | [] => []
  | c :: cs => if c = '\n' then pastBlanks cs else pastComment cs

end

/-- The character found by looking past blanks and one `#`.  A look past a comment does not read
it: the first character that is no blank counts, inside the comment or not. -/
def lookPast : List Char → Bool → Option Char
  | [], _ => none
  | c :: cs, inComment =>
    if isBlank c then lookPast cs inComment
    else if c = '#' ∧ !inComment then lookPast cs true
    else some c

/-! ## Single steps -/

def fail {α : Type} : Read α := fun _ => none

def rest : Read (List Char) := do return (← get).rest

def peek : Read (Option Char) := do return (← get).rest.head?

/-- Passes one character; whether another follows. -/
def bump : Read Bool := modifyGet fun s =>
  let r := s.rest.drop 1
  (!r.isEmpty, { s with rest := r })

/-- Passes blanks and comments in verbose mode. -/
def blanks : Read Unit :=
  modify fun s => if s.verbose then { s with rest := pastBlanks s.rest } else s

/-- Passes one character and what blanks follow it; whether another character follows. -/
def step : Read Bool := do
  let _ ← bump
  blanks
  return !(← rest).isEmpty

/-- Passes one character and fails at the end of the text. -/
def stepOrFail : Read Unit := do unless (← step) do fail

/-- The next character. -/
def current : Read Char := do
  match ← peek with
  | some c => return c
  | none => fail

/-- Passes a given text if it comes next. -/
def passIf (text : List Char) : Read Bool := do
  if text.isPrefixOf (← rest) then
    modify fun s => { s with rest := s.rest.drop text.length }
    return true
  else return false

/-- The character after the next one, seen past blanks in verbose mode. -/
def peekPast : Read (Option Char) := do
  let s ← get
  let after := s.rest.drop 1
  return if s.verbose then (lookPast after false) <|> after.head? else after.head?

/-- Repeats a step up to `fuel` times, as long as it says to go on. -/
def loop {σ : Type} (fuel : Nat) (init : σ) (body : σ → Read (Bool × σ)) : Read σ :=
  match fuel with
  | 0 => fail
  | n + 1 => do
    let (more, s) ← body init
    if more then loop n s body else return s

/-! ## Numbers -/

def isDecimal (c : Char) : Bool := '0' ≤ c && c ≤ '9'

def hexValue? (c : Char) : Option Nat :=
  if isDecimal c then some (c.toNat - '0'.toNat)
  else if 'a' ≤ c && c ≤ 'f' then some (c.toNat - 'a'.toNat + 10)
  else if 'A' ≤ c && c ≤ 'F' then some (c.toNat - 'A'.toNat + 10)
  else none

/-- The character with a given code point, if there is one. -/
def charOf? (n : Nat) : Option Char := if n.isValidChar then some (Char.ofNat n) else none

/-- A count below `2 ^ 32`, or `none` where no digit comes.  Blanks may stand around it. -/
def decimal : Read (Option Nat) := do
  modify fun s => { s with rest := s.rest.dropWhile isBlank }
  let fuel := (← rest).length + 1
  let digits ← loop fuel ([] : List Nat) fun ds => do
    match ← peek with
    | some c => if isDecimal c then let _ ← step; return (true, (c.toNat - '0'.toNat) :: ds)
                else return (false, ds)
    | none => return (false, ds)
  loop fuel () fun _ => do
    match ← peek with
    | some c => if isBlank c then let _ ← step; return (true, ()) else return (false, ())
    | none => return (false, ())
  if digits.isEmpty then return none
  let n := digits.foldr (fun d n => n * 10 + d) 0
  if n < Nat.pow 2 32 then return some n else fail

/-! ## Escapes -/

/-- The punctuation that means something in an expression. -/
def isMeta (c : Char) : Bool := c ∈ "\\.+*?()|[]\x7b\x7d^$#&-~".toList

/-- Whether a backslash before the character merely quotes it. -/
def isEscapable (c : Char) : Bool :=
  isMeta c || (c.toNat < 0x80 && !c.isAlphanum && c != '<' && c != '>')

/-- The digits of `\x41`, `\u0041` or `\U00000041`. -/
def hexFixed (count : Nat) : Read Nat := do
  let rec go : Nat → Nat → Read Nat
    | 0, n => return n
    | k + 1, n => do
      let some d := hexValue? (← current) | fail
      let more ← step
      if !more && k > 0 then fail
      go k (n * 16 + d)
  go count 0

/-- The digits of `\x{41}`. -/
def hexBraced : Read Nat := do
  let fuel := (← rest).length + 1
  let (n, count) ← loop fuel (0, 0) fun (n, count) => do
    stepOrFail
    let c ← current
    if c = '\x7d' then return (false, (n, count))
    let some d := hexValue? c | fail
    return (true, (n * 16 + d, count + 1))
  let _ ← step
  if count = 0 then fail
  return n

/-- A character by its number, after the letter `x`, `u` or `U`. -/
def hexLiteral (letter : Char) : Read Literal := do
  stepOrFail
  let braced := (← current) = '\x7b'
  let n ← if braced then hexBraced
    else hexFixed (if letter = 'x' then 2 else if letter = 'u' then 4 else 8)
  match charOf? n with
  | some c => return { char := c, byte := !braced && letter == 'x' }
  | none => fail

/-- Splits a text at the first place where the other one begins. -/
def splitAt? (sep : List Char) : List Char → Option (List Char × List Char)
  | [] => none
  | c :: cs =>
    if sep.isPrefixOf (c :: cs) then some ([], (c :: cs).drop sep.length)
    else (splitAt? sep cs).map fun (a, b) => (c :: a, b)

/-- The property a braced text names: `Name!=Value`, `Name:Value`, `Name=Value` or `Name`. -/
def propertyOf (text : List Char) (negated : Bool) : Property :=
  let mk (p : List Char × List Char) (n : Bool) : Property :=
    ⟨String.ofList p.1, some (String.ofList p.2), n⟩
  match splitAt? ['!', '='] text, splitAt? [':'] text, splitAt? ['='] text with
  | some p, _, _ => mk p (!negated)
  | none, some p, _ => mk p negated
  | none, none, some p => mk p negated
  | none, none, none => ⟨String.ofList text, none, negated⟩

/-- A class named by properties, after the letter `p` or `P`. -/
def property (letter : Char) : Read Property := do
  let negated := letter == 'P'
  stepOrFail
  let c ← current
  if c = '\x7b' then
    let fuel := (← rest).length + 1
    let text ← loop fuel ([] : List Char) fun acc => do
      stepOrFail
      let c ← current
      return if c = '\x7d' then (false, acc) else (true, c :: acc)
    let _ ← bump
    return propertyOf text.reverse negated
  else
    if c = '\\' then fail
    let _ ← step
    return ⟨c.toString, none, negated⟩

/-- What a backslash can introduce. -/
inductive Escape
  | literal (l : Literal)
  | assertion (a : Assertion)
  | property (p : Property)
  | shorthand (s : Shorthand) (negated : Bool)

/-- The boundary that `\b{name}` asks for.  A brace that no letter or hyphen follows is left for
a repetition to read. -/
def namedBoundary : Read Assertion := do
  let start ← get
  let isName (c : Char) : Bool := c.isAlpha || c == '-'
  stepOrFail
  unless isName (← current) do
    set start
    return .wordBoundary
  let fuel := (← rest).length + 1
  let name ← loop fuel ([] : List Char) fun acc => do
    match ← peek with
    | some c => if isName c then let _ ← step; return (true, c :: acc) else return (false, acc)
    | none => fail
  unless (← current) = '\x7d' do fail
  let _ ← bump
  match String.ofList name.reverse with
  | "start" => return .wordStart
  | "end" => return .wordEnd
  | "start-half" => return .wordStartHalf
  | "end-half" => return .wordEndHalf
  | _ => fail

def shorthand? (c : Char) : Option (Shorthand × Bool) :=
  match c with
  | 'd' => some (.digit, false)
  | 'D' => some (.digit, true)
  | 's' => some (.space, false)
  | 'S' => some (.space, true)
  | 'w' => some (.word, false)
  | 'W' => some (.word, true)
  | _ => none

/-- The control characters with an escape of their own. -/
def control? (c : Char) : Option Char :=
  match c with
  | 'a' => some '\x07'
  | 'f' => some '\x0C'
  | 't' => some '\t'
  | 'n' => some '\n'
  | 'r' => some '\r'
  | 'v' => some '\x0B'
  | _ => none

/-- An escape, from its backslash on. -/
def escape : Read Escape := do
  unless (← bump) do fail
  let c ← current
  if c = 'x' ∨ c = 'u' ∨ c = 'U' then return .literal (← hexLiteral c)
  if c = 'p' ∨ c = 'P' then return .property (← property c)
  let _ ← bump
  if let some (s, negated) := shorthand? c then return .shorthand s negated
  if isEscapable c then return .literal ⟨c, false⟩
  if let some c := control? c then return .literal ⟨c, false⟩
  match c with
  | 'A' => return .assertion .textStart
  | 'z' => return .assertion .textEnd
  | 'B' => return .assertion .notWordBoundary
  | '<' => return .assertion .wordStart
  | '>' => return .assertion .wordEnd
  | 'b' =>
    if (← peek) = some '\x7b' then return .assertion (← namedBoundary)
    else return .assertion .wordBoundary
  | _ => fail

/-! ## Classes in brackets -/

/-- The names of the classes written `[:name:]`. -/
def asciiNames : List String :=
  ["alnum", "alpha", "ascii", "blank", "cntrl", "digit", "graph", "lower", "print", "punct",
    "space", "upper", "word", "xdigit"]

/-- A class such as `[:alpha:]`, if one comes next. -/
def asciiClass? : Read (Option SetNode) := do
  let start ← get
  unless ← passIf ['[', ':'] do return none
  let negated ← passIf ['^']
  let name := (← rest).takeWhile (· != ':')
  modify fun s => { s with rest := s.rest.drop name.length }
  let name := String.ofList name
  if (← passIf [':', ']']) && asciiNames.contains name then return some (.ascii name negated)
  set start
  return none

/-- One literal or escape of a class. -/
def setItem : Read Escape := do
  let c ← current
  if c = '\\' then escape
  else
    let _ ← bump
    return .literal ⟨c, false⟩

def Escape.toSetNode : Escape → Read SetNode
  | .literal l => return .literal l
  | .property p => return .property p
  | .shorthand s negated => return .shorthand s negated
  | .assertion _ => fail

def Escape.toLiteral : Escape → Read Literal
  | .literal l => return l
  | _ => fail

/-- An item of a class, or a range from one literal to another. -/
def setRange : Read SetNode := do
  let first ← setItem
  blanks
  let c ← current
  let next ← peekPast
  if c ≠ '-' ∨ next = some ']' ∨ next = some '-' then first.toSetNode
  else
    stepOrFail
    let last ← setItem
    let lo ← first.toLiteral
    let hi ← last.toLiteral
    if lo.char ≤ hi.char then return .range lo hi else fail

/-- The items before an operator or a closing bracket as one class, last item first. -/
def unionOf : List SetNode → SetNode
  | [] => .nothing
  | [x] => x
  | xs => .union xs.reverse

/-- A class whose operators have been read so far: a pending left side and the items after it. -/
structure SetState where
  pending : Option (SetOp × SetNode) := none
  items : List SetNode := []

/-- Operators bind to the left and all alike. -/
def SetState.close (s : SetState) : SetNode :=
  match s.pending with
  | some (k, lhs) => .op k lhs (unionOf s.items)
  | none => unionOf s.items

/-- The operator that comes next. -/
def setOp? : Read (Option SetOp) := do
  if ← passIf ['&', '&'] then return some .intersection
  if ← passIf ['-', '-'] then return some .difference
  if ← passIf ['~', '~'] then return some .symmetricDifference
  return none

/-- A class from its opening bracket through its closing one.  A hyphen or a closing bracket right
after the opening one is literal. -/
def bracket : Nat → Read (Bool × SetNode)
  | 0 => fail
  | depth + 1 => do
    stepOrFail
    let negated := (← current) = '^'
    if negated then stepOrFail
    let fuel := (← rest).length + 2
    let items ← loop fuel ([] : List SetNode) fun items => do
      if (← current) = '-' then
        stepOrFail
        return (true, .literal ⟨'-', false⟩ :: items)
      else return (false, items)
    let items ←
      if items.isEmpty ∧ (← current) = ']' then do
        stepOrFail
        pure [SetNode.literal ⟨']', false⟩]
      else pure items
    let body ← loop fuel { items : SetState } fun s => do
      blanks
      match ← current with
      | '[' =>
        match ← asciiClass? with
        | some x => return (true, { s with items := x :: s.items })
        | none =>
          let (negated, body) ← bracket depth
          return (true, { s with items := .bracket negated body :: s.items })
      | ']' =>
        let _ ← bump
        return (false, s)
      | _ =>
        match ← setOp? with
        | some k => return (true, { pending := some (k, s.close), items := [] })
        | none => return (true, { s with items := (← setRange) :: s.items })
    return (negated, body.close)

/-! ## Groups -/

def flag? (c : Char) : Option Flag :=
  match c with
  | 'i' => some .caseInsensitive
  | 'm' => some .multiLine
  | 's' => some .dotAll
  | 'U' => some .swapGreed
  | 'u' => some .unicode
  | 'R' => some .crlf
  | 'x' => some .verbose
  | _ => none

/-- The flags before a colon or a closing parenthesis.  Each may be given once, and `-` turns off
those that follow it. -/
def flags : Read Flags := do
  let fuel := (← rest).length + 1
  let (fs, _, dangling) ← loop fuel (([] : Flags), false, false) fun (fs, off, dangling) => do
    let c ← current
    if c = ':' ∨ c = ')' then return (false, (fs, off, dangling))
    if c = '-' then
      if off then fail
      unless (← bump) do fail
      return (true, (fs, true, true))
    let some f := flag? c | fail
    if fs.any (·.1 == f) then fail
    unless (← bump) do fail
    return (true, ((f, !off) :: fs, off, false))
  if dangling then fail
  return fs.reverse

/-- Whether a group name may hold a character, at its start or later. -/
def isNameChar (c : Char) (atStart : Bool) : Bool :=
  let alphabetic := Unicode.Property.alphabetic.mem c
  if atStart then c == '_' || alphabetic
  else c == '_' || c == '.' || c == '[' || c == ']' || alphabetic || Unicode.Category.number.mem c

/-- A group name and the `>` after it.  No two groups share a name. -/
def groupName : Read Unit := do
  let name := (← rest).takeWhile (· != '>')
  modify fun s => { s with rest := s.rest.drop name.length }
  if (← peek).isNone then fail
  let _ ← bump
  match name with
  | [] => fail
  | c :: cs =>
    unless isNameChar c true && cs.all (isNameChar · false) do fail
    let name := String.ofList name
    if (← get).names.contains name then fail
    modify fun s => { s with names := name :: s.names }

/-- The next number for a group that is counted. -/
def nextGroup : Read Nat := modifyGet fun s => (s.groups + 1, { s with groups := s.groups + 1 })

/-- What follows an opening parenthesis: flags to set, or a group to read. -/
def groupHead : Read (Flags ⊕ GroupKind) := do
  let _ ← bump
  blanks
  for bad in ["?=", "?!", "?<=", "?<!"] do
    if bad.toList.isPrefixOf (← rest) then fail
  if (← passIf "?P<".toList) || (← passIf "?<".toList) then
    let index ← nextGroup
    groupName
    return .inr (.capture index)
  if ← passIf ['?'] then
    let fs ← flags
    let c ← current
    let _ ← bump
    if c = ')' then
      if fs.isEmpty then fail
      return .inl fs
    return .inr (.plain fs)
  return .inr (.capture (← nextGroup))

/-! ## Repetitions -/

/-- Replaces the last item by a repetition of it.  There must be one, and no mere flags. -/
def repeatLast (items : List Node) (wrap : Node → Node) : Read (List Node) :=
  match items with
  | [] | .flags _ :: _ => fail
  | x :: xs => return wrap x :: xs

/-- Passes a `?` that makes a repetition prefer less. -/
def lazyMark : Read Bool := passIf ['?']

/-- The bounds in braces, from the opening brace on. -/
def bounds : Read (Nat × Option Nat) := do
  stepOrFail
  let least ← decimal
  match ← current with
  | '\x7d' =>
    let some n := least | fail
    let _ ← step
    return (n, some n)
  | ',' =>
    stepOrFail
    if (← current) = '\x7d' then
      let some n := least | fail
      let _ ← step
      return (n, none)
    let some n := least | fail
    let some m ← decimal | fail
    unless (← current) = '\x7d' ∧ n ≤ m do fail
    let _ ← step
    return (n, some m)
  | _ => fail

/-! ## Expressions -/

/-- The items of a branch as one node, last item first. -/
def concatOf : List Node → Node
  | [] => .empty
  | [x] => x
  | xs => .concat xs.reverse

/-- Branches as one node, last branch first. -/
def alternationOf : List Node → Node
  | [x] => x
  | xs => .alternation xs.reverse

/-- An expression up to a closing parenthesis or the end of the text. -/
def expression : Nat → Read Node
  | 0 => fail
  | depth + 1 => do
    let fuel := (← rest).length + 1
    let start : List Node × List Node := ([], [])
    let (branches, items) ← loop fuel start fun (branches, items) => do
      blanks
      let put (x : Node) : Read (Bool × List Node × List Node) :=
        return (true, branches, x :: items)
      match ← peek with
      | none | some ')' => return (false, branches, items)
      | some '|' =>
        let _ ← bump
        return (true, concatOf items :: branches, [])
      | some '(' =>
        match ← groupHead with
        | .inl fs =>
          if let some v := Flags.state? fs .verbose then modify fun s => { s with verbose := v }
          put (.flags fs)
        | .inr kind =>
          let outer := (← get).verbose
          if let .plain fs := kind then
            if let some v := Flags.state? fs .verbose then modify fun s => { s with verbose := v }
          let body ← expression depth
          unless (← peek) = some ')' do fail
          let _ ← bump
          modify fun s => { s with verbose := outer }
          put (.group kind body)
      | some '[' =>
        let (negated, body) ← bracket ((← rest).length + 1)
        put (.bracket negated body)
      | some '?' =>
        let _ ← bump
        let greedy := !(← lazyMark)
        return (true, branches, ← repeatLast items (.repetition 0 (some 1) greedy))
      | some '*' =>
        let _ ← bump
        let greedy := !(← lazyMark)
        return (true, branches, ← repeatLast items (.repetition 0 none greedy))
      | some '+' =>
        let _ ← bump
        let greedy := !(← lazyMark)
        return (true, branches, ← repeatLast items (.repetition 1 none greedy))
      | some '\x7b' =>
        let (least, most) ← bounds
        let greedy := !(← lazyMark)
        return (true, branches, ← repeatLast items (.repetition least most greedy))
      | some '\\' =>
        match ← escape with
        | .literal l => put (.literal l)
        | .assertion a => put (.assertion a)
        | .property p => put (.property p)
        | .shorthand s negated => put (.shorthand s negated)
      | some '.' =>
        let _ ← bump
        put .dot
      | some '^' =>
        let _ ← bump
        put (.assertion .lineStart)
      | some '$' =>
        let _ ← bump
        put (.assertion .lineEnd)
      | some c =>
        let _ ← bump
        put (.literal ⟨c, false⟩)
    return alternationOf (concatOf items :: branches)

end Read

/-- The deepest nesting an expression may have. -/
def maxDepth : Nat := 250

/-- The tree of a text that is a regular expression. -/
def Node.read? (text : String) : Option Node := do
  let cs := text.toList
  let (node, s) ← (Read.expression (cs.length + 1)).run { rest := cs }
  if s.rest.isEmpty && node.depth ≤ maxDepth then some node else none

end DeviceStats.Regex
