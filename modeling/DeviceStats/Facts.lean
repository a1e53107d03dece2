import DeviceStats.Json.Value
import DeviceStats.Text.Split

/-!
# Facts — what is known of a device

The facts are an object.  Templates look facts up along dotted paths; conditions ask for the
version, for modules in use and for the shell.
-/

namespace DeviceStats

open Json (Value Object)

/-- What is known of a device. -/
structure Facts where
  values : Object

namespace Facts

/-- The facts in a value; a value that is no object holds none. -/
def ofValue (v : Value) : Facts := ⟨v.obj?.getD []⟩

/-- The value at the end of a dotted path. -/
def lookup? (facts : Facts) (path : String) : Option Value :=
  (Text.segments '.' path).foldlM Value.get? (.obj facts.values)

def version? (facts : Facts) : Option String := (facts.values.get? "deviceVersion").bind Value.str?

/-- Whether a module is listed with a level other than `none`.  The level stands by itself or in an
object under `level`. -/
def hasModule (facts : Facts) (name : String) : Bool :=
  match (facts.values.get? "provisioning").bind (·.get? name) with
  | none => false
  | some entry =>
    match ((entry.get? "level").bind Value.str?).or entry.str? with
    | some level => level != "none"
    | none => false

def shellDisabled (facts : Facts) : Bool :=
  ((facts.values.get? "bashDisabled").bind Value.bool?).getD false

end Facts

end DeviceStats
