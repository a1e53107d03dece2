import DeviceStats.Json.Value
import DeviceStats.Json.Printer

/-!
# Json/Source — the grammar of JSON text

A source is a text read by the grammar alone: numbers and strings are kept as written, names may
repeat, and nesting has no limit.  Where a text breaks the grammar, reading stops; the source then
holds all that stands before, with the fault in its place.

Not every source has a value: besides faults of grammar, a number may lie beyond the binary numbers,
a string may hold half a surrogate pair, and containers may nest too deep.  `Source.value` is the
value of a source, or the first fault in the order of the text.
-/

namespace DeviceStats.Json

/-- What is wrong with a text. -/
inductive Fault
  | cutList
  | cutObject
  | cutString
  | cutValue
  /-- The text ends inside a number. -/
  | cutNumber
  /-- The text ends behind a comma. -/
  | cutAfterComma
  | noColon
  | noListEnd
  | noObjectEnd
  | noWord
  | noValue
  | noKey
  | badEscape
  | badHex
  | badNumber
  | numberRange
  | control
  | loneSurrogate
  | halfPair
  | trailingComma
  | trailing
  | nesting
deriving DecidableEq, Repr

def Fault.message : Fault → String
  | .cutList => "EOF while parsing a list"
  | .cutObject => "EOF while parsing an object"
  | .cutString => "EOF while parsing a string"
  | .cutValue => "EOF while parsing a value"
  | .cutNumber => "EOF while parsing a value"
  | .cutAfterComma => "EOF while parsing a value"
  | .noColon => "expected `:`"
  | .noListEnd => "expected `,` or `]`"
  | .noObjectEnd => "expected `,` or `\x7d`"
  | .noWord => "expected ident"
  | .noValue => "expected value"
  | .noKey => "key must be a string"
  | .badEscape => "invalid escape"
  | .badHex => "invalid escape"
  | .badNumber => "invalid number"
  | .numberRange => "number out of range"
  | .control => "control character (\\u0000-\\u001F) found while parsing a string"
  | .loneSurrogate => "lone leading surrogate in hex escape"
  | .halfPair => "unexpected end of hex escape"
  | .trailingComma => "trailing comma"
  | .trailing => "trailing characters"
  | .nesting => "recursion limit exceeded"

/-- A written number: sign, digits before the point, digits after it and exponent. -/
structure Numeral where
  negative : Bool
  whole : List Nat
  fraction : Option (List Nat)
  /-- Whether the exponent is negative, and its digits. -/
  exponent : Option (Bool × List Nat)
deriving Repr

/-- A character of a written string, or a code unit given by its number. -/
inductive Piece
  | char (c : Char)
  | unit (n : Nat)
deriving Repr

/-- A value as written.  A fault stands in the place of a closing mark or of a whole value. -/
inductive Source
  | null
  | bool (b : Bool)
  | num (n : Numeral)
  | str (pieces : List Piece) (fault? : Option Fault)
  | arr (items : List Source) (fault? : Option Fault)
  | obj (fields : List (List Piece × Source)) (fault? : Option Fault)
  | broken (f : Fault)
deriving Repr

/-! ## Strings -/

namespace Piece

/-- The text of a written string, or its first fault.  Code units above the first plane come in
pairs.  Behind the first half of a pair the end of the text and a bad number are told as what they
are, and all else as a missing half. -/
def decode (fault? : Option Fault) : List Piece → Except Fault (List Char)
  | [] =>
    match fault? with
    | none => .ok []
    | some f => .error f
  | .char c :: ps => (decode fault? ps).map (c :: ·)
  | .unit n :: ps =>
    if 0xD800 ≤ n ∧ n < 0xDC00 then
      match ps with
      | .unit m :: ps =>
        if 0xDC00 ≤ m ∧ m < 0xE000 then
          (decode fault? ps).map (Char.ofNat (0x10000 + (n - 0xD800) * 0x400 + (m - 0xDC00)) :: ·)
        else .error .loneSurrogate
      | .char _ :: _ => .error .halfPair
      | [] =>
        match fault? with
        | some .cutString => .error .cutString
        | some .badHex => .error .badHex
        | _ => .error .halfPair
    else if 0xDC00 ≤ n ∧ n < 0xE000 then .error .loneSurrogate
    else (decode fault? ps).map (Char.ofNat n :: ·)

def text (ps : List Piece) (fault? : Option Fault) : Except Fault String :=
  (decode fault? ps).map String.ofList

end Piece

/-! ## Reading by the grammar -/

namespace Source

def isSpace (c : Char) : Bool := c == ' ' || c == '\n' || c == '\t' || c == '\r'

def skip (cs : List Char) : List Char := cs.dropWhile isSpace

def digit? (c : Char) : Option Nat :=
  if '0' ≤ c ∧ c ≤ '9' then some (c.toNat - '0'.toNat) else none

def hex? (c : Char) : Option Nat :=
  if '0' ≤ c ∧ c ≤ '9' then some (c.toNat - '0'.toNat)
  else if 'a' ≤ c ∧ c ≤ 'f' then some (c.toNat - 'a'.toNat + 10)
  else if 'A' ≤ c ∧ c ≤ 'F' then some (c.toNat - 'A'.toNat + 10)
  else none

/-- The digits a text starts with, and the rest. -/
def digits : List Char → List Nat × List Char
  | [] => ([], [])
  | c :: cs =>
    match digit? c with
    | some d =>
      let (ds, rest) := digits cs
      (d :: ds, rest)
    | none => ([], c :: cs)

/-- Digits, of which there is at least one. -/
def someDigits (cs : List Char) : Except Fault (List Nat × List Char) :=
  match digits cs with
  | ([], []) => .error .cutNumber
  | ([], _) => .error .badNumber
  | (ds, rest) => .ok (ds, rest)

/-- The digits after a point. -/
def readFraction : List Char → Except Fault (Option (List Nat) × List Char)
  | '.' :: cs => (someDigits cs).map fun (ds, rest) => (some ds, rest)
  | cs => .ok (none, cs)

def readExponentDigits (negative : Bool) (cs : List Char) :
    Except Fault (Option (Bool × List Nat) × List Char) :=
  (someDigits cs).map fun (ds, rest) => (some (negative, ds), rest)

def readExponent : List Char → Except Fault (Option (Bool × List Nat) × List Char)
  | c :: cs =>
    if c = 'e' ∨ c = 'E' then
      match cs with
      | '+' :: cs => readExponentDigits false cs
      | '-' :: cs => readExponentDigits true cs
      | cs => readExponentDigits false cs
    else .ok (none, c :: cs)
  | [] => .ok (none, [])

/-- A number.  No zero stands before another digit. -/
def readNumeral (negative : Bool) (cs : List Char) : Except Fault (Numeral × List Char) := do
  let (whole, cs) ← someDigits cs
  match whole with
  | 0 :: _ :: _ => .error .badNumber
  | _ =>
    let (fraction, cs) ← readFraction cs
    let (exponent, cs) ← readExponent cs
    return (⟨negative, whole, fraction, exponent⟩, cs)

/-- The code unit that four digits write. -/
def unit? (a b c d : Char) : Option Nat := do
  return ((← hex? a) * 16 + (← hex? b)) * 256 + (← hex? c) * 16 + (← hex? d)

/-- The character that an escape writes. -/
def escaped? : Char → Option Char
  | '"' => some '"'
  | '\\' => some '\\'
  | '/' => some '/'
  | 'b' => some '\x08'
  | 'f' => some '\x0C'
  | 'n' => some '\n'
  | 'r' => some '\r'
  | 't' => some '\t'
  | _ => none

/-- What is wrong with four digits: too little text is left for them, which is counted in bytes, or
they are no digits. -/
def unitFault (cs : List Char) : Fault :=
  if (cs.take 4).foldl (fun n c => n + c.utf8Size) 0 < 4 then .cutString else .badHex

/-- The rest of a string after its opening quote. -/
def readPieces : List Char → List Piece × Except Fault (List Char)
  | [] => ([], .error .cutString)
  | '"' :: cs => ([], .ok cs)
  | ['\\'] => ([], .error .cutString)
  | '\\' :: 'u' :: a :: b :: c :: d :: cs =>
    match unit? a b c d with
    | some n =>
      let (ps, rest) := readPieces cs
      (.unit n :: ps, rest)
    | none => ([], .error .badHex)
  | '\\' :: 'u' :: cs => ([], .error (unitFault cs))
  | '\\' :: c :: cs =>
    match escaped? c with
    | some e =>
      let (ps, rest) := readPieces cs
      (.char e :: ps, rest)
    | none => ([], .error .badEscape)
  | c :: cs =>
    if c.toNat < 0x20 then ([], .error .control)
    else
      let (ps, rest) := readPieces cs
      (.char c :: ps, rest)

/-- A word of the grammar after its first letter. -/
def readWord (s : Source) : List Char → List Char → Source × Option (List Char)
  | [], cs => (s, some cs)
  | _ :: _, [] => (.broken .cutValue, none)
  | e :: word, c :: cs => if c = e then readWord s word cs else (.broken .noWord, none)

def readNumber (negative : Bool) (cs : List Char) : Source × Option (List Char) :=
  match readNumeral negative cs with
  | .ok (n, rest) => (.num n, some rest)
  | .error f => (.broken f, none)

mutual

/-- One value, without the blanks before it, and the rest of the text unless reading stopped.
`fuel` bounds the nesting. -/
def read : Nat → List Char → Source × Option (List Char)
  | 0, _ => (.broken .nesting, none)
  | fuel + 1, cs =>
    match cs with
    | [] => (.broken .cutValue, none)
    | 'n' :: rest => readWord .null ['u', 'l', 'l'] rest
    | 't' :: rest => readWord (.bool true) ['r', 'u', 'e'] rest
    | 'f' :: rest => readWord (.bool false) ['a', 'l', 's', 'e'] rest
    | '"' :: rest =>
      match readPieces rest with
      | (ps, .ok rest) => (.str ps none, some rest)
      | (ps, .error f) => (.str ps (some f), none)
    | '[' :: rest =>
      match skip rest with
      | [] => (.arr [] (some .cutList), none)
      | ']' :: rest => (.arr [] none, some rest)
      | rest =>
        let (items, fault?, rest) := readItems fuel rest
        (.arr items fault?, rest)
    | '\x7b' :: rest =>
      match skip rest with
      | [] => (.obj [] (some .cutObject), none)
      | '\x7d' :: rest => (.obj [] none, some rest)
      | rest =>
        let (fields, fault?, rest) := readFields fuel rest
        (.obj fields fault?, rest)
    | '-' :: rest => readNumber true rest
    | c :: rest =>
      if (digit? c).isSome then readNumber false (c :: rest) else (.broken .noValue, none)

/-- Values up to a closing bracket, or to a fault in its place. -/
def readItems : Nat → List Char → List Source × Option Fault × Option (List Char)
  | 0, _ => ([], some .nesting, none)
  | fuel + 1, cs =>
    match read fuel cs with
    | (v, none) => ([v], none, none)
    | (v, some rest) =>
      match skip rest with
      | [] => ([v], some .cutList, none)
      | ']' :: rest => ([v], none, some rest)
      | ',' :: rest =>
        match skip rest with
        | [] => ([v], some .cutAfterComma, none)
        | ']' :: _ => ([v], some .trailingComma, none)
        | rest =>
          let (vs, fault?, rest) := readItems fuel rest
          (v :: vs, fault?, rest)
      | _ => ([v], some .noListEnd, none)

/-- Named values up to a closing brace, or to a fault in its place. -/
def readFields : Nat → List Char → List (List Piece × Source) × Option Fault × Option (List Char)
  | 0, _ => ([], some .nesting, none)
  | fuel + 1, cs =>
    match cs with
    | '"' :: rest =>
      match readPieces rest with
      | (key, .error f) =>
        match Piece.text key (some f) with
        | .error f => ([], some f, none)
        | .ok _ => ([], some f, none)
      | (key, .ok rest) =>
        match skip rest with
        | [] => ([], some .cutObject, none)
        | ':' :: rest =>
          match read fuel (skip rest) with
          | (v, none) => ([(key, v)], none, none)
          | (v, some rest) =>
            match skip rest with
            | [] => ([(key, v)], some .cutObject, none)
            | '\x7d' :: rest => ([(key, v)], none, some rest)
            | ',' :: rest =>
              match skip rest with
              | [] => ([(key, v)], some .cutAfterComma, none)
              | '\x7d' :: _ => ([(key, v)], some .trailingComma, none)
              | rest =>
                let (more, fault?, rest) := readFields fuel rest
                ((key, v) :: more, fault?, rest)
            | _ => ([(key, v)], some .noObjectEnd, none)
        | _ => ([], some .noColon, none)
    | _ => ([], some .noKey, none)

end

/-- The source that a text starts with, and the rest of the text without blanks unless reading
stopped. -/
def ofText (text : String) : Source × Option (List Char) :=
  let cs := text.toList
  let (s, rest?) := read (2 * cs.length + 2) (skip cs)
  (s, rest?.map skip)

end Source

/-! ## Numbers -/

namespace Numeral

/-- The largest significand that is kept; digits that would exceed it only count for the exponent
before the point and for nothing after it. -/
def maxSignificand : Nat := Nat.pow 2 64 - 1

/-- Appends digits while the significand stays in bounds; how many were left over. -/
def append : Nat → List Nat → Nat × Nat
  | n, [] => (n, 0)
  | n, d :: ds =>
    if n * 10 + d ≤ maxSignificand then append (n * 10 + d) ds else (n, ds.length + 1)

def value (ds : List Nat) : Nat := ds.foldl (fun n d => n * 10 + d) 0

/-- The binary number `significand · 10 ^ exponent`, rounded once for the significand and once for
each scaling by a power of ten; nothing where it lies beyond the binary numbers.  A power is itself
rounded to binary, and the largest one used is the 308th. -/
def scaled : Nat → Bool → UInt64 → Int → Option UInt64
  | 0, _, _, _ => none
  | fuel + 1, negative, bits, exponent =>
    match Decimal.Binary.decode? bits with
    | none => none
    | some b =>
      let (num, den) := b.magnitude
      let power (k : Nat) : Nat × Nat :=
        match Decimal.Binary.decode? (Decimal.Binary.nearest false (Nat.pow 10 k) 1) with
        | some p => p.magnitude
        | none => (Nat.pow 10 k, 1)
      if exponent.natAbs ≤ 308 then
        let (p, r) := power exponent.natAbs
        if 0 ≤ exponent then
          let product := Decimal.Binary.nearest negative (num * p) (den * r)
          (Decimal.Binary.decode? product).map fun _ => product
        else some (Decimal.Binary.nearest negative (num * r) (den * p))
      else if num = 0 then some bits
      else if 0 ≤ exponent then none
      else
        let (p, r) := power 308
        scaled fuel negative (Decimal.Binary.nearest negative (num * r) (den * p)) (exponent + 308)

/-- The number a numeral stands for.  Without point and exponent it is whole if it fits 64 bits;
`-0` is binary, since whole numbers have one zero. -/
def number? (n : Numeral) : Option Number :=
  let zero : UInt64 := if n.negative then 0x8000000000000000 else 0
  let (significand, dropped) := append 0 n.whole
  let bits := Decimal.Binary.nearest n.negative significand 1
  -- the exponent of the significand so far
  let parts : Nat × Int :=
    match n.fraction with
    | none => (significand, dropped)
    | some ds =>
      let (s, left) := append significand ds
      (s, (dropped : Int) - (ds.length - left : Nat))
  match n.fraction, n.exponent with
  | none, none =>
    if dropped = 0 then
      if !n.negative then some (.int significand)
      else if significand ≠ 0 ∧ significand ≤ Nat.pow 2 63 then some (.int (-significand))
      else some (.float bits)
    else (scaled 8 n.negative bits dropped).map .float
  | _, _ =>
    let bits := Decimal.Binary.nearest n.negative parts.1 1
    match n.exponent with
    | none => (scaled 8 n.negative bits parts.2).map .float
    | some (down, ds) =>
      let e := value ds
      if e ≤ Nat.pow 2 31 - 1 then
        -- zero is reached long before the steps run out
        let exponent := if down then parts.2 - e else parts.2 + e
        (scaled 8 n.negative bits exponent).map .float
      else if parts.1 ≠ 0 ∧ !down then none
      else some (.float zero)

end Numeral

/-! ## Values -/

/-- How deep containers may nest. -/
def maxNesting : Nat := 127

namespace Source

/-- Ends a container: with what it holds, or with the fault that stands in place of its closing
mark. -/
def close {α : Type} (fault? : Option Fault) (a : α) : Except Fault α :=
  match fault? with
  | none => .ok a
  | some f => .error f

mutual

/-- The value of a source, with a limit on how deep its containers nest. -/
def valueWithin : Nat → Source → Except Fault Value
  | _, .null => .ok .null
  | _, .bool b => .ok (.bool b)
  | _, .num n =>
    match n.number? with
    | some n => .ok (.num n)
    | none => .error .numberRange
  | _, .str ps fault? => (Piece.text ps fault?).map .str
  | 0, .arr _ _ => .error .nesting
  | 0, .obj _ _ => .error .nesting
  | depth + 1, .arr items fault? => do
    let vs ← itemsWithin depth items
    close fault? (.arr vs)
  | depth + 1, .obj fields fault? => do
    let fs ← fieldsWithin depth fields
    close fault? (.obj (Named.ofPairs fs))
  | _, .broken f => .error f

def itemsWithin (depth : Nat) : List Source → Except Fault (List Value)
  | [] => .ok []
  | s :: ss => do
    let v ← valueWithin depth s
    return v :: (← itemsWithin depth ss)

def fieldsWithin (depth : Nat) : List (List Piece × Source) → Except Fault (List (String × Value))
  | [] => .ok []
  | (k, s) :: rest => do
    let key ← Piece.text k none
    let v ← valueWithin depth s
    return (key, v) :: (← fieldsWithin depth rest)

end

def value (s : Source) : Except Fault Value := valueWithin maxNesting s

mutual

/-- What is wrong with the grammar of a source that nobody asks for.  There a number that ends the
text counts as a bad one, and a closing mark behind a comma as what should stand there. -/
def skipFault? : Source → Option Fault
  | .null => none
  | .bool _ => none
  | .num _ => none
  | .str _ fault? => fault?
  | .arr items fault? =>
    (itemsFault? items).orElse fun _ =>
      fault?.map fun
        | .trailingComma => .noValue
        | f => f
  | .obj fields fault? =>
    (fieldsFault? fields).orElse fun _ =>
      fault?.map fun
        | .trailingComma => .noKey
        | .cutAfterComma => .cutObject
        | f => f
  | .broken .cutNumber => some .badNumber
  | .broken f => some f

def itemsFault? : List Source → Option Fault
  | [] => none
  | s :: ss => (skipFault? s).orElse fun _ => itemsFault? ss

def fieldsFault? : List (List Piece × Source) → Option Fault
  | [] => none
  | (_, s) :: rest => (skipFault? s).orElse fun _ => fieldsFault? rest

end

end Source

/-- Reads a value: the text holds one and nothing else but blanks. -/
def Value.ofText (text : String) : Except Fault Value := do
  let (s, rest?) := Source.ofText text
  let v ← s.value
  match rest? with
  | some (_ :: _) => .error .trailing
  | _ => return v

def Value.ofText? (text : String) : Option Value := (Value.ofText text).toOption

end DeviceStats.Json
