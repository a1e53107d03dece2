import DeviceStats.Outline.Node

/-!
# Outline/Fingerprint — what a selection depends on, in one number

Which properties are selected depends on their places, on the actions and on the folders switched
off.  The canonical text writes these, and the fingerprint is its 64-bit FNV-1a hash.
-/

namespace DeviceStats

open Json (Value)

namespace Fnv

def offset : UInt64 := 0xCBF29CE484222325

def prime : UInt64 := 0x100000001B3

/-- One byte is mixed in by exclusive or and a product. -/
def step (h : UInt64) (b : UInt8) : UInt64 := (h ^^^ b.toUInt64) * prime

def hash (text : String) : UInt64 := text.toUTF8.data.toList.foldl step offset

end Fnv

namespace Fingerprint

/-- What a selection sees of a property. -/
def shape (p : Property) : Value :=
  .arr [.str p.name, (p.parent?.map Value.str).getD .null, .bool p.inFolder]

/-- What a selection depends on, as a value. -/
def canonical (properties : List Property) (actions : List Action) (disabledFolders : NameSet) :
    Value :=
  .obj [
    ("properties", .arr (properties.map shape)),
    ("actions", .arr (actions.map Action.encode)),
    ("options", .obj [("disabledFolders", .arr (disabledFolders.map .str))])]

def ofInputs (properties : List Property) (actions : List Action) (disabledFolders : NameSet) :
    UInt64 :=
  Fnv.hash (canonical properties actions disabledFolders).text

end Fingerprint

end DeviceStats
