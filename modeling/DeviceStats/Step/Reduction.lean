import DeviceStats.Json.Size
import DeviceStats.Pattern
import DeviceStats.Step.Error
import DeviceStats.Text.Split

/-!
# Step/Reduction — device responses as plain objects

A device answers with nested `entries` whose keys are addresses, and wraps single values in objects
of one key.  A reduction lifts the entries, shortens their keys and takes wrappers off.  On request
it turns arrays into objects by a key of their elements, and puts the contents of a first entry in
place of that entry.
-/

namespace DeviceStats

open Json (Value Object Decoder Field)

/-! ## Options -/

/-- How elements of an array get names: by the value under a key, after an optional prefix. -/
structure ArrayKey where
  key : String
  lead? : Option String
  /-- Whether an array with an element that lacks the key stays an array. -/
  lenient : Bool
deriving DecidableEq, Repr

namespace ArrayKey

def decode : StepDecoder ArrayKey :=
  Decoder.record "ConvertArrayToMap" [
    .needed "keyName" Decoder.string fun a key => { a with key },
    .given "keyNamePrefix" (Decoder.optional Decoder.string) fun a lead? => { a with lead? },
    .given "skipWhenKeyMissing" Decoder.boolean fun a lenient => { a with lenient }]
    ⟨"", none, false⟩

def encode (a : ArrayKey) : Value :=
  .obj (("keyName", .str a.key) ::
    ((a.lead?.map fun p => ("keyNamePrefix", Value.str p)).toList ++
      [("skipWhenKeyMissing", .bool a.lenient)]))

/-- The text that names an element: a text or the written form of a number. -/
def textOf? (a : ArrayKey) (item : Value) : Option String :=
  match item.get? a.key with
  | some (.str s) => some s
  | some (.num n) => some n.text
  | _ => none

def nameOf (a : ArrayKey) (item : Value) : String :=
  a.lead?.getD "" ++ (a.textOf? item).getD ""

end ArrayKey

/-- Which first entries are replaced by their contents. -/
structure FirstEntry where
  pattern : String
  except? : Option String
deriving DecidableEq, Repr

namespace FirstEntry

def decode : StepDecoder FirstEntry :=
  Decoder.record "IncludeFirstEntry" [
    .needed "pattern" Decoder.string fun f pattern => { f with pattern },
    .given "excludePattern" (Decoder.optional Decoder.string) fun f except? => { f with except? }]
    ⟨"", none⟩

def encode (f : FirstEntry) : Value :=
  .obj (("pattern", .str f.pattern) ::
    (f.except?.map fun p => ("excludePattern", Value.str p)).toList)

/-- Whether an entry is replaced, judged by its key. -/
def lifts (f : FirstEntry) (key : String) : Bool :=
  (Pattern.ofString f.pattern).isMatch key &&
    !f.except?.any fun p => (Pattern.ofString p).isMatch key

end FirstEntry

structure Reduction where
  arrayKey? : Option ArrayKey := none
  firstEntry? : Option FirstEntry := none
deriving DecidableEq, Repr

namespace Reduction

/-! ## Keys of entries -/

def dropTrailing (c : Char) (cs : List Char) : List Char := (cs.reverse.dropWhile (· == c)).reverse

def dropEnding (ending cs : List Char) : List Char :=
  if ending.isSuffixOf cs then cs.take (cs.length - ending.length) else cs

/-- The last segment of an address, before a final `/stats`. -/
def lastSegment (cs : List Char) : List Char :=
  let path := dropEnding "/stats".toList (dropTrailing '/' cs)
  match Text.splitLast? ['/'] path with
  | some (_, segment) => segment
  | none => path

/-- The short form of a key: an address is its last segment, and a path written with tildes is
written with slashes. -/
def shortChars (cs : List Char) : List Char :=
  let short := if Text.occurs "://".toList cs then lastSegment cs else cs
  match short with
  | '~' :: _ => short.map fun c => if c = '~' then '/' else c
  | _ => short

def shortKey (key : String) : String := String.ofList (shortChars key.toList)

/-! ## Reducing -/

/-- Names that wrap single values. -/
def wrappers : List String := ["nestedStats", "value", "description", "color"]

/-- An `entries` that is no object goes to the end, and the last name to its place. -/
def entriesLast (o : Object) : Object :=
  match o.get? "entries" with
  | some v => (o.eraseSwap "entries").insert "entries" v
  | none => o

/-- The value inside an object of one wrapping name. -/
def wrapped? : Object → Option Value
  | [(k, v)] => if wrappers.contains k then some v else none
  | _ => none

/-- What an object is reduced to is found in one of these parts. -/
inductive View
  | entries (o : Object)
  | items (key : ArrayKey) (items : List Value)
  | wrapped (v : Value)
  | plain

def view (r : Reduction) (o : Object) : View :=
  match Named.get? o "entries" with
  | some (.obj entries) => .entries entries
  | _ =>
    match r.arrayKey?, Named.get? o "items" with
    | some key, some (.arr items) => .items key items
    | _, _ =>
      match wrapped? o with
      | some v => .wrapped v
      | none => .plain

open Json.Value in
/-- Entries are smaller than the object that they are lifted from, … -/
theorem sizeFields_view_entries {r : Reduction} {o entries : Object}
    (h : view r o = .entries entries) : sizeFields entries < sizeFields o := by
  unfold view at h
  split at h
  · rename_i e he
    cases h
    have := sizeFields_erase_add_le he
    simp only [size] at this
    omega
  · split at h
    · cases h
    · split at h <;> cases h

open Json.Value in
/-- … items with keys are, … -/
theorem sizeItems_view_items {r : Reduction} {o : Object} {key : ArrayKey} {items : List Value}
    (h : view r o = .items key items) : sizeItems items < sizeFields o := by
  unfold view at h
  split at h
  · cases h
  · split at h
    · rename_i hi
      cases h
      have := sizeFields_erase_add_le hi
      simp only [size] at this
      omega
    · split at h <;> cases h

open Json.Value in
/-- … and so is what is wrapped: reducing ends. -/
theorem size_view_wrapped {r : Reduction} {o : Object} {v : Value}
    (h : view r o = .wrapped v) : v.size < sizeFields o := by
  unfold view at h
  split at h
  · cases h
  · split at h
    · cases h
    · split at h
      · rename_i w hw
        cases h
        unfold wrapped? at hw
        split at hw
        · split at hw
          · cases hw
            simp only [sizeFields]
            omega
          · cases hw
        · cases hw
      · cases h

mutual

/-- A value reduced.  `top` says whether it is a whole response, of which an array becomes an
object, too. -/
def reduce (r : Reduction) (top : Bool) (v : Value) : Except TransformError Value :=
  match v with
  | .obj o =>
    match _h : view r o with
    | .entries entries => do return .obj (← reduceEntries r entries)
    | .items key items => reduceKeyed r key items
    | .wrapped inner => reduce r false inner
    | .plain => do return .obj (entriesLast (← reduceFields r o))
  | .arr items =>
    match r.arrayKey?, top with
    | some key, true => reduceKeyed r key items
    | _, _ => do return .arr (← reduceItems r items)
  | v => .ok v
termination_by 2 * v.size
decreasing_by
  · have := sizeFields_view_entries _h
    simp only [Value.size]
    omega
  · have := sizeItems_view_items _h
    simp only [Value.size]
    omega
  · have := size_view_wrapped _h
    simp only [Value.size]
    omega
  all_goals
    simp only [Value.size]
    omega

/-- The elements of an array under their names.  Of elements with one name the last is kept. -/
def reduceKeyed (r : Reduction) (key : ArrayKey) (items : List Value) :
    Except TransformError Value :=
  if items.all fun item => (key.textOf? item).isSome then do
    return .obj (Named.ofPairs ((items.map key.nameOf).zip (← reduceItems r items)))
  else if key.lenient then do return .arr (← reduceItems r items)
  else .error (.arrayKeyMissing key.key)
termination_by 2 * Value.sizeItems items + 1

def reduceItems (r : Reduction) (items : List Value) : Except TransformError (List Value) :=
  match items with
  | [] => .ok []
  | v :: vs => do
    let v ← reduce r false v
    return v :: (← reduceItems r vs)
termination_by 2 * Value.sizeItems items
decreasing_by
  all_goals
    simp only [Value.sizeItems]
    omega

def reduceFields (r : Reduction) (fields : Object) : Except TransformError Object :=
  match fields with
  | [] => .ok []
  | (k, v) :: rest => do
    let v ← reduce r false v
    return (k, v) :: (← reduceFields r rest)
termination_by 2 * Value.sizeFields fields
decreasing_by
  all_goals
    simp only [Value.sizeFields]
    omega

/-- Entries under their short keys.  A first entry that is lifted gives its contents, or itself if
it is no object. -/
def reduceEntries (r : Reduction) (entries : Object) : Except TransformError Object := do
  let reduced ← reduceFields r entries
  let short := reduced.map fun kv => (shortKey kv.1, kv.2)
  match r.firstEntry?, reduced with
  | some first, (key, .obj inner) :: _ =>
    if first.lifts key then return Named.extend (Named.ofPairs inner) (short.drop 1)
    else return Named.ofPairs short
  | _, _ => return Named.ofPairs short
termination_by 2 * Value.sizeFields entries + 1

end

/-- A response reduced. -/
def apply (r : Reduction) (v : Value) : Except TransformError Value := reduce r true v

/-! ## Descending -/

/-- The names of a path written with `::` between them; empty ones do not count. -/
def pathOf (key : String) : List String :=
  ((Text.splitOn [':', ':'] key.toList).filter (!·.isEmpty)).map String.ofList

/-- The value at the end of a written path. -/
def descend (v : Value) (key : String) : Except TransformError Value :=
  match (pathOf key).foldlM Value.get? v with
  | some v => .ok v
  | none => .error (.keyNotFound key)

end Reduction

end DeviceStats
