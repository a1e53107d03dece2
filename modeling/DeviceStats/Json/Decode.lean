import DeviceStats.Json.Source
import DeviceStats.Text.Visible

/-!
# Json/Decode — records read from values and texts

A record is read field by field, from an object in the order of its names or from an array in the
order of the fields.  Reading a record from a text differs from reading it from the value of the
text in two ways: a name may stand twice, which is refused, and what no field asks for need not
have a value.  Both are inputs, which show one layer at a time.  What is wrong with a record and
with the grammar of its text is told in the order of the text.

`Mismatch` is what can be wrong with an input, and a decoder may refuse what it reads for a reason
of its own.
-/

namespace DeviceStats.Json

/-! ## What can be wrong -/

/-- What an input holds where something else is meant. -/
inductive Found
  | null
  | bool (b : Bool)
  | num (n : Number)
  | str (s : String)
  | map
  | sequence
  | bareVariant

/-- What is meant. -/
inductive Shape
  | string
  | boolean
  | map
  | sequence
  | size
  | record (name : String)
  | stringOrMap
  | singleKeyMap
  | variantWithContent

/-- How many items are meant. -/
inductive Extent
  | fewer
  | record (name : String) (fields : Nat)

inductive Mismatch
  | wrongType (found : Found) (meant : Shape)
  | wrongValue (found : Found) (meant : Shape)
  | wrongLength (length : Nat) (meant : Extent)
  | missingField (name : String)
  | duplicateField (name : String)
  | unknownVariant (name : String) (known : List String)
  | noVariant (choice : String)
  | malformed (f : Fault)

def Found.phrase : Found → String
  | .null => "null"
  | .bool true => "boolean `true`"
  | .bool false => "boolean `false`"
  | .num (.int n) => s!"integer `{n}`"
  | .num (.float bits) => "floating point `" ++ Number.textOfBits bits ++ "`"
  | .str s => "string " ++ Text.shown s
  | .map => "map"
  | .sequence => "sequence"
  | .bareVariant => "unit variant"

def Shape.phrase : Shape → String
  | .string => "a string"
  | .boolean => "a boolean"
  | .map => "a map"
  | .sequence => "a sequence"
  | .size => "usize"
  | .record name => "struct " ++ name
  | .stringOrMap => "string or map"
  | .singleKeyMap => "map with a single key"
  | .variantWithContent => "newtype variant"

def Extent.phrase : Extent → String
  | .fewer => "fewer elements in array"
  | .record name fields => s!"struct {name} with {fields} element" ++ if fields = 1 then "" else "s"

def Mismatch.message : Mismatch → String
  | .wrongType found meant => s!"invalid type: {found.phrase}, expected {meant.phrase}"
  | .wrongValue found meant => s!"invalid value: {found.phrase}, expected {meant.phrase}"
  | .wrongLength length meant => s!"invalid length {length}, expected {meant.phrase}"
  | .missingField name => s!"missing field `{name}`"
  | .duplicateField name => s!"duplicate field `{name}`"
  | .unknownVariant name known =>
    s!"unknown variant `{name}`, expected one of " ++
      ", ".intercalate (known.map fun k => "`" ++ k ++ "`")
  | .noVariant choice => s!"data did not match any variant of untagged enum {choice}"
  | .malformed f => f.message

/-- Why an input is no record: it has the wrong form, or it is refused for what it says. -/
inductive DecodeError (ε : Type)
  | mismatch (m : Mismatch)
  | refused (cause : ε)

/-! ## Inputs -/

/-- The outermost layer of an input.  A fault may stand in place of a closing mark. -/
inductive Layer (α : Type)
  | null
  | bool (b : Bool)
  | num (n : Number)
  | str (s : String)
  | arr (items : List α) (fault? : Option Fault)
  | obj (fields : List (String × α)) (fault? : Option Fault)

def Layer.found {α : Type} : Layer α → Found
  | .null => .null
  | .bool b => .bool b
  | .num n => .num n
  | .str s => .str s
  | .arr .. => .sequence
  | .obj .. => .map

/-- Something records are read from. -/
class Input (α : Type) where
  layer : α → Except Fault (Layer α)
  value : α → Except Fault Value
  /-- What is wrong with an input that nobody asks for. -/
  skipFault? : α → Option Fault
  /-- What is wrong with an array of the given length that has more items than a record fields. -/
  overlong : Nat → Mismatch

instance : Input Value where
  layer
    | .null => .ok .null
    | .bool b => .ok (.bool b)
    | .num n => .ok (.num n)
    | .str s => .ok (.str s)
    | .arr items => .ok (.arr items none)
    | .obj fields => .ok (.obj fields none)
  value := .ok
  skipFault? _ := none
  overlong length := .wrongLength length .fewer

/-- A part of a text, with how much deeper containers may nest in it. -/
structure Passage where
  depth : Nat
  source : Source

/-- The fields of a passage up to the first name that is no text, and the fault that ends them. -/
def Passage.fields (depth : Nat) (fault? : Option Fault) :
    List (List Piece × Source) → List (String × Passage) × Option Fault
  | [] => ([], fault?)
  | (k, s) :: rest =>
    match Piece.text k none with
    | .error f => ([], some f)
    | .ok key =>
      let (fs, f?) := fields depth fault? rest
      ((key, ⟨depth, s⟩) :: fs, f?)

instance : Input Passage where
  layer p :=
    match p.source, p.depth with
    | .null, _ => .ok .null
    | .bool b, _ => .ok (.bool b)
    | .num n, _ =>
      match n.number? with
      | some n => .ok (.num n)
      | none => .error .numberRange
    | .str ps fault?, _ => (Piece.text ps fault?).map .str
    | .arr items fault?, depth + 1 => .ok (.arr (items.map (⟨depth, ·⟩)) fault?)
    | .obj fields fault?, depth + 1 =>
      let (fs, f?) := Passage.fields depth fault? fields
      .ok (.obj fs f?)
    | .broken f, _ => .error f
    | _, 0 => .error .nesting
  value p := p.source.valueWithin p.depth
  skipFault? p := p.source.skipFault?
  overlong _ := .malformed .trailing

/-! ## Decoders -/

/-- Reads a `β` from an input. -/
abbrev Decoder (α ε β : Type) := α → Except (DecodeError ε) β

namespace Decoder

variable {α ε β σ : Type} [Input α]

def mismatch (m : Mismatch) : Except (DecodeError ε) β := .error (.mismatch m)

def malformed (f : Fault) : DecodeError ε := .mismatch (.malformed f)

def layer (a : α) : Except (DecodeError ε) (Layer α) := (Input.layer a).mapError malformed

def value : Decoder α ε Value := fun a => (Input.value a).mapError malformed

/-- Ends a container, with the fault that stands in place of its closing mark if there is one. -/
def close (fault? : Option Fault) (b : β) : Except (DecodeError ε) β :=
  (Source.close fault? b).mapError malformed

def string : Decoder α ε String := fun a => do
  match ← layer a with
  | .str s => return s
  | l => mismatch (.wrongType l.found .string)

def boolean : Decoder α ε Bool := fun a => do
  match ← layer a with
  | .bool b => return b
  | l => mismatch (.wrongType l.found .boolean)

/-- A whole number that is not negative. -/
def size : Decoder α ε Nat := fun a => do
  match ← layer a with
  | .num (.int n) =>
    if 0 ≤ n then return n.toNat else mismatch (.wrongValue (.num (.int n)) .size)
  | l => mismatch (.wrongType l.found .size)

def list (item : Decoder α ε β) : Decoder α ε (List β) := fun a => do
  match ← layer a with
  | .arr items fault? =>
    let bs ← items.mapM item
    close fault? bs
  | l => mismatch (.wrongType l.found .sequence)

/-- Named values.  A name keeps its first place and its last value. -/
def named (item : Decoder α ε β) : Decoder α ε (Named β) := fun a => do
  match ← layer a with
  | .obj fields fault? =>
    let pairs ← fields.mapM fun kv => do return (kv.1, ← item kv.2)
    close fault? (Named.ofPairs pairs)
  | l => mismatch (.wrongType l.found .map)

/-- Null stands for nothing. -/
def optional (item : Decoder α ε β) : Decoder α ε (Option β) := fun a => do
  match ← layer a with
  | .null => return none
  | _ => return some (← item a)

end Decoder

/-! ## Records -/

/-- A field of a record: its name, whether it must be given, and what a given value makes of the
record read so far. -/
structure Field (α ε σ : Type) where
  name : String
  required : Bool
  read : α → σ → Except (DecodeError ε) σ

namespace Field

variable {α ε β σ : Type}

/-- A field that must be given. -/
def needed (name : String) (decoder : Decoder α ε β) (set : σ → β → σ) : Field α ε σ :=
  ⟨name, true, fun a s => do return set s (← decoder a)⟩

/-- A field that keeps what the record starts with unless it is given. -/
def given (name : String) (decoder : Decoder α ε β) (set : σ → β → σ) : Field α ε σ :=
  ⟨name, false, fun a s => do return set s (← decoder a)⟩

end Field

namespace Decoder

variable {α ε σ : Type}

/-- Reads named inputs into a record, in their order; `seen` holds the fields already given. -/
def readNamed [Input α] (fields : List (Field α ε σ)) :
    List (String × α) → List String → σ → Except (DecodeError ε) (List String × σ)
  | [], seen, s => .ok (seen, s)
  | (name, a) :: rest, seen, s =>
    match fields.find? (·.name == name) with
    | none =>
      match Input.skipFault? a with
      | some f => .error (malformed f)
      | none => readNamed fields rest seen s
    | some f =>
      if seen.contains name then mismatch (.duplicateField name)
      else do readNamed fields rest (name :: seen) (← f.read a s)

/-- Reads inputs into a record, the first into the first field and so on; `i` fields are read
already.  The inputs that are left are given back. -/
def readPlaced (record : String) (count : Nat) (fault? : Option Fault) :
    Nat → List (Field α ε σ) → List α → σ → Except (DecodeError ε) (List α × σ)
  | _, [], items, s => .ok (items, s)
  | i, f :: fs, [], s =>
    match fault? with
    | some fault => .error (malformed fault)
    | none =>
      if f.required then mismatch (.wrongLength i (.record record count))
      else readPlaced record count fault? (i + 1) fs [] s
  | i, f :: fs, a :: items, s => do readPlaced record count fault? (i + 1) fs items (← f.read a s)

/-- What is wrong behind the last field of a record that is an array: what is no end of it there
counts as trailing. -/
def endFault : Fault → Fault
  | .cutList => .cutList
  | .trailingComma => .trailingComma
  | _ => .trailing

/-- Reads a record, starting from the one of which no field is given. -/
def record [Input α] (name : String) (fields : List (Field α ε σ)) (start : σ) : Decoder α ε σ :=
  fun a => do
    match ← layer a with
    | .obj entries fault? =>
      let read ← readNamed fields entries [] start
      let (seen, s) ← close fault? read
      match fields.find? fun f => f.required && !seen.contains f.name with
      | some f => mismatch (.missingField f.name)
      | none => return s
    | .arr items fault? =>
      let (left, s) ← readPlaced name fields.length fault? 0 fields items start
      if left.isEmpty then close (fault?.map endFault) s
      else mismatch (Input.overlong α items.length)
    | l => mismatch (.wrongType l.found (.record name))

/-- Reads a text that holds one input and nothing else but blanks. -/
def ofText {β : Type} (decoder : Decoder Passage ε β) (text : String) :
    Except (DecodeError ε) β := do
  let (source, rest?) := Source.ofText text
  let b ← decoder ⟨maxNesting, source⟩
  match rest? with
  | some (_ :: _) => .error (malformed .trailing)
  | _ => return b

end Decoder

/-! ## Choices -/

/-- The name and content of a value that says which of several variants it is: an object with that
one name, or the bare name. -/
def Decoder.variant {ε : Type} (known : List String) (v : Value) :
    Except (DecodeError ε) (String × Value) :=
  match v with
  | .str name =>
    if known.contains name then mismatch (.wrongType .bareVariant .variantWithContent)
    else mismatch (.unknownVariant name known)
  | .obj [(name, content)] =>
    if known.contains name then .ok (name, content) else mismatch (.unknownVariant name known)
  | .obj _ => mismatch (.wrongValue .map .singleKeyMap)
  | .null => mismatch (.wrongType .null .stringOrMap)
  | .bool b => mismatch (.wrongType (.bool b) .stringOrMap)
  | .num n => mismatch (.wrongType (.num n) .stringOrMap)
  | .arr _ => mismatch (.wrongType .sequence .stringOrMap)

/-- The first of several decoders that succeeds. -/
def Decoder.choice {α ε β : Type} (name : String) (options : List (Decoder α ε β)) :
    Decoder α ε β := fun a =>
  match options.findSome? fun d => (d a).toOption with
  | some b => .ok b
  | none => mismatch (.noVariant name)

end DeviceStats.Json
