/-!
# Named — named values in order

A list of named values in the order in which the names were first given.  A name stands at most once
in it: `insert` replaces a value in its place, and the other operations keep names apart as well.
-/

namespace DeviceStats

/-- Named values in order. -/
abbrev Named (α : Type) := List (String × α)

namespace Named

variable {α β : Type}

def get? (o : Named α) (key : String) : Option α := (o.find? (·.1 == key)).map (·.2)

def has (o : Named α) (key : String) : Bool := o.any (·.1 == key)

def keys (o : Named α) : List String := o.map (·.1)

/-- Gives a name a value: in its place if the name is there, at the end if not. -/
def insert (o : Named α) (key : String) (v : α) : Named α :=
  match o with
  | [] => [(key, v)]
  | (k, w) :: rest => if k = key then (k, v) :: rest else (k, w) :: insert rest key v

/-- Gives several names their values, one after the other. -/
def extend (o : Named α) (more : Named α) : Named α :=
  more.foldl (fun o kv => insert o kv.1 kv.2) o

/-- Named values from a list that may repeat names: each name keeps its first place and its last
value. -/
def ofPairs (pairs : List (String × α)) : Named α := extend [] pairs

/-- Takes a name out; the others keep their order. -/
def erase (o : Named α) (key : String) : Named α := o.filter (·.1 != key)

/-- Takes a name out and moves the last entry into its place. -/
def eraseSwap (o : Named α) (key : String) : Named α :=
  match o.findIdx? (·.1 == key), o.getLast? with
  | some i, some last => if i + 1 = o.length then o.dropLast else (o.set i last).dropLast
  | _, _ => o

/-- The values changed one by one. -/
def mapValues (f : α → β) (o : Named α) : Named β := o.map fun kv => (kv.1, f kv.2)

/-! ## What the operations do to the names -/

@[simp] theorem get?_nil (key : String) : get? ([] : Named α) key = none := rfl

theorem get?_cons (k : String) (v : α) (o : Named α) (key : String) :
    get? ((k, v) :: o) key = if k = key then some v else get? o key := by
  by_cases h : k = key <;> simp [get?, h]

/-- **Insertion is read back**, and no other name sees it. -/
theorem get?_insert (o : Named α) (key : String) (v : α) (other : String) :
    get? (insert o key v) other = if key = other then some v else get? o other := by
  induction o with
  | nil => simp [insert, get?_cons]
  | cons kv rest ih =>
    obtain ⟨k, w⟩ := kv
    by_cases h : k = key
    · subst h
      by_cases h' : k = other <;> simp [insert, get?_cons, h']
    · by_cases h' : k = other
      · subst h'
        simp [insert, get?_cons, h, Ne.symm h]
      · simp [insert, get?_cons, h, h', ih]

end Named

end DeviceStats
