import DeviceStats.Text.Split

/-!
# Path — paths as texts

A path is a text whose segments stand between slashes.  Empty segments and single dots name
nothing, except at its start, where an empty segment is the root and a dot the working directory.
The text is kept as it is: `components` is what it means, and `withLastName` changes its last name
alone.
-/

namespace DeviceStats.Path

/-- What a path goes through. -/
inductive Component
  | root
  | current
  | parent
  | normal (name : List Char)
deriving DecidableEq, Repr

abbrev Segments := List (List Char)

def segments (path : List Char) : Segments := Text.splitOnChar '/' path

/-! ## Meaning -/

/-- What a segment names behind the first one. -/
def component? (segment : List Char) : Option Component :=
  if segment = [] ∨ segment = ['.'] then none
  else if segment = ['.', '.'] then some .parent
  else some (.normal segment)

/-- What the first segment names. -/
def firstComponent? (first : List Char) (more : Bool) : Option Component :=
  if first = [] then if more then some .root else none
  else if first = ['.'] then some .current
  else component? first

def components (path : List Char) : List Component :=
  match segments path with
  | [] => []
  | first :: rest => (firstComponent? first !rest.isEmpty).toList ++ rest.filterMap component?

/-- Whether a path stays below where it starts and goes somewhere. -/
def descends (path : List Char) : Bool :=
  !path.isEmpty && (components path).all fun c =>
    match c with
    | .normal _ => true
    | _ => false

/-! ## Text -/

/-- A path below another. -/
def append (dir path : List Char) : List Char :=
  if dir = [] ∨ dir.getLast? = some '/' then dir ++ path else dir ++ '/' :: path

/-- A text without the slashes at either end. -/
def strip (path : List Char) : List Char :=
  ((path.dropWhile (· == '/')).reverse.dropWhile (· == '/')).reverse

/-- Whether a segment names nothing. -/
def isIdle (segment : List Char) : Bool := segment == [] || segment == ['.']

/-- Segments without those at their end that name nothing, the first one apart. -/
def trimEnd : Segments → Segments
  | [] => []
  | first :: rest => first :: (rest.reverse.dropWhile isIdle).reverse

/-- The text of segments. -/
def ofSegments (segments : Segments) : List Char :=
  if segments = [[]] then ['/'] else Text.join ['/'] segments

/-- A path whose last name is changed. -/
def withLastName (change : List Char → List Char) (path : List Char) : List Char :=
  let named := trimEnd (segments path)
  append (ofSegments (trimEnd named.dropLast)) (change (named.getLast?.getD []))

/-- A path below another, as strings. -/
def below (dir path : String) : String := String.ofList (append dir.toList path.toList)

end DeviceStats.Path
