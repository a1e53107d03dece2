/-!
# NameSet — sets of names in order

A set of names is the list of its members in rising order, each once.  Names are compared character
by character.
-/

namespace DeviceStats

abbrev NameSet := List String

namespace NameSet

/-- Adds a name. -/
def insert (name : String) : NameSet → NameSet
  | [] => [name]
  | n :: ns =>
    if name = n then n :: ns
    else if name < n then name :: n :: ns
    else n :: insert name ns

def ofList (names : List String) : NameSet := names.foldl (fun s n => insert n s) []

theorem mem_insert {name x : String} {s : NameSet} : x ∈ insert name s ↔ x = name ∨ x ∈ s := by
  induction s with
  | nil => simp [insert]
  | cons n ns ih =>
    unfold insert
    split
    · rename_i h
      simp [h]
    · split
      · simp
      · simp only [List.mem_cons, ih]
        grind

/-- **A set has the members of its list.** -/
theorem mem_ofList {x : String} {names : List String} : x ∈ ofList names ↔ x ∈ names := by
  suffices ∀ s : NameSet, x ∈ names.foldl (fun s n => insert n s) s ↔ x ∈ names ∨ x ∈ s by
    simpa [ofList] using this []
  induction names with
  | nil => simp
  | cons n ns ih =>
    intro s
    rw [List.foldl_cons, ih, mem_insert, List.mem_cons]
    grind

end NameSet

end DeviceStats
