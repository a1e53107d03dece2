import DeviceStats.Tag.Resolution

/-!
# Tag/Injection — tags for every nested object

Every object below a value gets the tags it does not have yet, innermost first.  Skipped keys and
keys that name tags are neither tagged nor looked into.
-/

namespace DeviceStats.Tag

open Json (Value Object Decoder Field)

/-- What is left alone, and which field of an item is its subject. -/
structure InjectOptions where
  skip : List String := []
  subjectField? : Option String := none
deriving DecidableEq, Repr

namespace InjectOptions

def decode : StepDecoder InjectOptions :=
  Decoder.record "TagOptions" [
    .given "skip" (Decoder.list Decoder.string) fun o skip => { o with skip },
    .given "classifyByKeys" (Decoder.optional Decoder.string) fun o subjectField? =>
      { o with subjectField? }]
    {}

/-- What is empty is not written. -/
def encode (o : InjectOptions) : Value :=
  .obj ((if o.skip.isEmpty then [] else [("skip", .arr (o.skip.map .str))]) ++
    (o.subjectField?.map fun f => ("classifyByKeys", Value.str f)).toList)

end InjectOptions

variable (definitions : TagDefinitions) (tags : Object) (opts : InjectOptions)

/-- Whether an item is left alone for its key. -/
def isSkipped (key : String) : Bool := opts.skip.contains key || tags.has key

mutual

/-- A value with the objects inside it tagged. -/
def inject : Value → Value
  | .obj fields => .obj (injectFields fields)
  | v => v

def injectFields : List (String × Value) → List (String × Value)
  | [] => []
  | (k, v) :: rest =>
    let item := if isSkipped tags opts k || !v.isObj then v
      else
        let item := inject v
        apply false definitions tags (subjectOf k item opts.subjectField?) item
    (k, item) :: injectFields rest

end

end DeviceStats.Tag
