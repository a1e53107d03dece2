import DeviceStats.Path

/-!
# Files — texts by path

`Files` is a tree of texts below the working directory; a path is followed from there name by name.
All that a program asks of files is what reading a path gives, which is a `Disk`.
-/

namespace DeviceStats

/-- Why a path cannot be read. -/
inductive FileError
  | missing
  | notFolder
  | isFolder
  | nameTooLong
  | zeroInPath
  | other (cause : String)
deriving DecidableEq, Repr

def FileError.message : FileError → String
  | .missing => "No such file or directory (os error 2)"
  | .notFolder => "Not a directory (os error 20)"
  | .isFolder => "Is a directory (os error 21)"
  | .nameTooLong => "File name too long (os error 36)"
  | .zeroInPath => "file name contained an unexpected NUL byte"
  | .other cause => cause

/-- What reading a path gives. -/
abbrev Disk := String → Except FileError String

/-- Whether there is something at a path. -/
def Disk.holds (disk : Disk) (path : String) : Bool :=
  match disk path with
  | .ok _ => true
  | .error .isFolder => true
  | .error (.other _) => true
  | .error _ => false

/-- Texts by the names on the way to them. -/
structure Files where
  entries : List (List (List Char) × String)

namespace Files

def ofList (files : List (String × String)) : Files :=
  ⟨files.map fun (path, text) =>
    ((Path.segments path.toList).filter fun s => !Path.isIdle s, text)⟩

def text? (f : Files) (names : List (List Char)) : Option String :=
  (f.entries.find? (·.1 == names)).map (·.2)

/-- Whether there are texts below some names. -/
def isFolder (f : Files) (names : List (List Char)) : Bool :=
  f.entries.any fun entry => names.isPrefixOf entry.1

/-- How many bytes a name may take. -/
def maxName : Nat := 255

/-- How many bytes a path may take. -/
def maxPath : Nat := 4095

def isUp (segment : List Char) : Bool := segment == ['.', '.']

/-- Outside the working directory there is nothing but the folders above it. -/
def outside (segments : Path.Segments) : FileError :=
  if segments.all fun s => Path.isIdle s || isUp s then .isFolder else .missing

/-- Follows segments from a folder on. -/
def follow (f : Files) : List (List Char) → Path.Segments → Except FileError String
  | _, [] => .error .isFolder
  | folder, s :: rest =>
    if Path.isIdle s then follow f folder rest
    else if isUp s then
      match folder with
      | [] => .error (outside rest)
      | _ => follow f folder.dropLast rest
    else if maxName < (String.ofList s).utf8ByteSize then .error .nameTooLong
    else
      let names := folder ++ [s]
      match f.text? names with
      | some text => if rest.isEmpty then .ok text else .error .notFolder
      | none => if f.isFolder names then follow f names rest else .error .missing

def read (f : Files) : Disk := fun path =>
  let chars := path.toList
  if chars.contains '\x00' then .error .zeroInPath
  else if maxPath < path.utf8ByteSize then .error .nameTooLong
  else
    match chars with
    | [] => .error .missing
    | '/' :: _ => .error (outside (Path.segments chars))
    | _ => f.follow [] (Path.segments chars)

end Files

end DeviceStats
