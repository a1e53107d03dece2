import DeviceStats.Proofs.Json.Paths
import DeviceStats.Proofs.Step.KeyFilter

/-!
# Proofs/Step/FilteredPaths — what a key filter leaves, path by path

Dropping leaves exactly the paths on which no key is listed, and at the end of each what dropping
makes of the node (`node?_without`).  It sees of a list of names only which keys it lists, so one
list after another is the two together (`without_without`), in whatever order.  Keeping leaves the
paths whose first key is listed, with all that stands on them (`filter_paths`).
-/

namespace DeviceStats.KeyFilter

open Json (Value Object Segment)

variable {entries more : List Entry} {names : List String} {key : String}

/-! ## Listed keys -/

/-- Whether a key is among the names or is matched by one of them. -/
def Listed (names : List String) (key : String) : Prop :=
  ∃ name ∈ names, name = key ∨ (Pattern.ofString name).isMatch key = true

/-- Names are listed as texts or as patterns, whichever of the two fits. -/
theorem lists_ofName_iff : lists (names.map Entry.ofName) key = true ↔ Listed names key := by
  simp [lists, Listed, Entry.ofName]

instance (names : List String) : DecidablePred (Listed names) := fun _ =>
  decidable_of_iff _ lists_ofName_iff

theorem lists_ofName_eq_false_iff :
    lists (names.map Entry.ofName) key = false ↔ ¬ Listed names key := by
  rw [← lists_ofName_iff, Bool.not_eq_true]

theorem lists_append (entries more : List Entry) (key : String) :
    lists (entries ++ more) key = (lists entries key || lists more key) := List.any_append

/-! ## Dropping -/

/-- Dropping sees of its entries only which keys they list. -/
theorem without_congr (h : ∀ key, lists entries key = lists more key) (v : Value) :
    without entries v = without more v := by
  induction v using Value.partsInduction with
  | arr items ih =>
    rw [without, without, withoutItems_eq, withoutItems_eq]
    exact congrArg Value.arr (List.map_congr_left ih)
  | obj fields ih =>
    rw [without, without, withoutFields_eq, withoutFields_eq]
    simp only [h]
    exact congrArg Value.obj (List.map_congr_left fun kv hkv =>
      congrArg (kv.1, ·) (ih kv (List.mem_filter.mp hkv).1))
  | scalar v ha ho => rw [without_scalar ha ho, without_scalar ha ho]

/-- **Dropping one list and then another drops both.** -/
theorem without_without (entries more : List Entry) (v : Value) :
    without more (without entries v) = without (entries ++ more) v := by
  induction v using Value.partsInduction with
  | arr items ih =>
    simp only [without, withoutItems_eq, List.map_map]
    exact congrArg Value.arr (List.map_congr_left ih)
  | obj fields ih =>
    have hlisted (kv : String × Value) : (!lists more kv.1 && !lists entries kv.1) =
        !lists (entries ++ more) kv.1 := by
      rw [lists_append, Bool.not_or, Bool.and_comm]
    simp only [without, withoutFields_eq, List.filter_map, List.filter_filter, List.map_map,
      Function.comp_def, hlisted]
    exact congrArg Value.obj (List.map_congr_left fun kv hkv =>
      congrArg (kv.1, ·) (ih kv (List.mem_filter.mp hkv).1))
  | scalar v ha ho => simp only [without_scalar ha ho]

/-- Whether a step of a path does not lead through a listed key. -/
def clear (entries : List Entry) : Segment → Bool
  | .name key => !lists entries key
  | .index _ => true

/-- Only names on a path can be listed, places in arrays never are. -/
theorem all_clear_iff {p : List Segment} :
    p.all (clear entries) = true ↔ ∀ key, .name key ∈ p → lists entries key = false := by
  rw [List.all_eq_true]
  refine ⟨fun h key hkey => by simpa [clear] using h _ hkey, fun h s hs => ?_⟩
  cases s with
  | name key => simp [clear, h key hs]
  | index i => rfl

theorem keys_withoutFields (entries : List Entry) (o : Object) :
    Named.keys (withoutFields entries o) = (Named.keys o).filter fun k => !lists entries k := by
  rw [withoutFields_eq, Named.keys_map fun _ => without entries, Named.keys, Named.keys,
    List.filter_map]
  rfl

/-- Nothing stands under a key that is listed. -/
theorem get?_withoutFields_of_lists (h : lists entries key = true) (o : Object) :
    Named.get? (withoutFields entries o) key = none := by
  rw [Named.get?_eq_none_iff, keys_withoutFields, List.mem_filter, h]
  simp

/-- Dropping takes listed keys off a value and goes on in its other parts. -/
theorem part?_without (entries : List Entry) (v : Value) (s : Segment) :
    (without entries v).part? s =
      if clear entries s = true then (v.part? s).map (without entries) else none := by
  cases v with
  | obj o =>
    cases s with
    | name key =>
      cases h : lists entries key with
      | true => simp [without, Value.part?, get?_withoutFields_of_lists h, clear, h]
      | false => simp [without, Value.part?, get?_withoutFields h, clear, h]
    | index i => rfl
  | arr items =>
    cases s with
    | name key => simp [without, Value.part?]
    | index i => simp [without, Value.part?, withoutItems_eq, clear]
  | null | bool | num | str => simp [without, Value.part?]

/-- **The node at the end of a path** is gone if a key on the path is listed, else it is what
dropping makes of it. -/
theorem node?_without (entries : List Entry) (v : Value) (p : List Segment) :
    (without entries v).node? p =
      if p.all (clear entries) = true then (v.node? p).map (without entries) else none := by
  induction p generalizing v with
  | nil => rfl
  | cons s p ih =>
    rw [Value.node?_cons, Value.node?_cons, part?_without, List.all_cons]
    cases clear entries s with
    | false => rfl
    | true =>
      cases v.part? s with
      | none => simp
      | some x => exact ih x

/-- What is left of a value at the end of a path: a scalar as it is, an array of the same length, an
object with its keys in their order, without the listed ones. -/
inductive Remains (names : List String) : Value → Value → Prop
  | scalar {x : Value} (ha : x.arr? = none) (ho : x.obj? = none) : Remains names x x
  | arr {items items' : List Value} (h : items'.length = items.length) :
      Remains names (.arr items) (.arr items')
  | obj {o o' : Object}
      (h : Named.keys o' = (Named.keys o).filter fun key => decide ¬ Listed names key) :
      Remains names (.obj o) (.obj o')

/-- What dropping leaves of a node is of the node's own kind. -/
theorem remains_without (names : List String) (v : Value) :
    Remains names v (without (names.map Entry.ofName) v) := by
  cases v with
  | obj o =>
    refine .obj ((keys_withoutFields _ o).trans (List.filter_congr fun key _ => ?_))
    rw [Bool.eq_iff_iff, Bool.not_eq_true', lists_ofName_eq_false_iff, decide_eq_true_iff]
  | arr items => exact .arr (by rw [withoutItems_eq, List.length_map])
  | null | bool | num | str => exact .scalar rfl rfl

/-- **What dropping comes to**: of the paths of a value those are left on which no key is listed,
each with what remains of its node. -/
structure Dropped (names : List String) (v w : Value) : Prop where
  isSome_iff : ∀ p, (w.node? p).isSome = true ↔
    (v.node? p).isSome = true ∧ ∀ key, .name key ∈ p → ¬ Listed names key
  remains : ∀ p x y, v.node? p = some x → w.node? p = some y → Remains names x y

/-- Dropping does to the paths of a value what it should. -/
theorem dropped_apply (names : List String) (v : Value) :
    Dropped names v ((KeyFilter.drop names).apply v) := by
  have hnode := node?_without (names.map Entry.ofName) v
  refine ⟨fun p => ?_, fun p x y hx hy => ?_⟩
  · have hclear : p.all (clear (names.map Entry.ofName)) = true ↔
        ∀ key, .name key ∈ p → ¬ Listed names key := by
      simp only [all_clear_iff, lists_ofName_eq_false_iff]
    rw [← hclear, apply, hnode]
    split
    · rename_i h
      simp [h]
    · rename_i h
      simp [h]
  · rw [apply, hnode, hx] at hy
    split at hy
    · cases hy
      exact remains_without names x
    · cases hy

/-! ## Keeping -/

/-- **What keeping comes to**: of the paths of an object those are left whose first key is listed,
each with all that stands there, and the first keys in their order. -/
structure Kept (names : List String) (o : Object) (w : Value) : Prop where
  isSome_iff : ∀ p, (w.node? p).isSome = true ↔
    ((Value.obj o).node? p).isSome = true ∧ ∀ key q, p = .name key :: q → Listed names key
  node_eq : ∀ s p x, w.node? (s :: p) = some x → (Value.obj o).node? (s :: p) = some x
  keys_eq : ∃ o', w = .obj o' ∧
    Named.keys o' = (Named.keys o).filter fun key => decide (Listed names key)

theorem keys_filter_lists (names : List String) (o : Object) :
    Named.keys (o.filter fun kv => lists (names.map Entry.ofName) kv.1) =
      (Named.keys o).filter fun key => decide (Listed names key) := by
  rw [Named.keys, Named.keys, List.filter_map]
  refine congrArg _ (List.filter_congr fun kv _ => ?_)
  rw [Bool.eq_iff_iff, lists_ofName_iff, Function.comp, decide_eq_true_iff]

/-- **Under a listed key all is left**, and nothing under another one. -/
theorem node?_keep_name (names : List String) (o : Object) (key : String) (p : List Segment) :
    ((KeyFilter.keep names).apply (.obj o)).node? (.name key :: p) =
      if Listed names key then (Value.obj o).node? (.name key :: p) else none := by
  rw [apply, Value.node?_obj_name, Value.node?_obj_name]
  split
  · rename_i h
    rw [Named.get?_filter (lists_ofName_iff.mpr h)]
  · rename_i h
    have hgone : key ∉ Named.keys (o.filter fun kv => lists (names.map Entry.ofName) kv.1) := by
      rw [keys_filter_lists, List.mem_filter, decide_eq_true_iff]
      exact fun hmem => h hmem.2
    rw [Named.get?_eq_none_iff.mpr hgone, Option.bind_none]

/-- Keeping does to the paths of an object what it should. -/
theorem kept_apply (names : List String) (o : Object) :
    Kept names o ((KeyFilter.keep names).apply (.obj o)) := by
  have hindex (i : Nat) (p : List Segment) :
      ((KeyFilter.keep names).apply (.obj o)).node? (.index i :: p) = none := rfl
  have hgiven (i : Nat) (p : List Segment) : (Value.obj o).node? (.index i :: p) = none := rfl
  refine ⟨fun p => ?_, fun s p x hx => ?_, _, rfl, keys_filter_lists names o⟩
  · rcases p with _ | ⟨key | i, p⟩
    · simp [Value.node?]
    · rw [node?_keep_name]
      split <;> simp [*]
    · simp [hindex, hgiven]
  · rcases s with key | i
    · rw [node?_keep_name] at hx
      split at hx
      · exact hx
      · cases hx
    · rw [hindex] at hx
      cases hx

/-! ## Both -/

/-- Dropping twice is dropping both lists at once, … -/
theorem drop_drop (names more : List String) (v : Value) :
    (KeyFilter.drop more).apply ((KeyFilter.drop names).apply v) =
      (KeyFilter.drop (names ++ more)).apply v := by
  simp only [apply, without_without, List.map_append]

/-- … and it does not matter which of them comes first. -/
theorem drop_append_comm (names more : List String) (v : Value) :
    (KeyFilter.drop (more ++ names)).apply v = (KeyFilter.drop (names ++ more)).apply v := by
  refine without_congr (fun key => ?_) v
  rw [List.map_append, List.map_append, lists_append, lists_append, Bool.or_comm]

/-- A filter that has been applied changes nothing more. -/
theorem apply_idem (filter : KeyFilter) (v : Value) :
    filter.apply (filter.apply v) = filter.apply v := by
  cases filter with
  | keep names =>
    cases v with
    | obj o =>
      simp only [apply, List.filter_filter, Bool.and_self]
    | null | bool | num | str | arr => rfl
  | drop names => exact without_eq_self (each_unlisted_without v)

/-- **A key filter has an exact meaning on paths**, and so each is applied once and for all, and
dropping one list after another, in either order, drops both. -/
theorem filter_paths (names : List String) (v : Value) :
    Dropped names v ((KeyFilter.drop names).apply v) ∧
      (∀ o, v = .obj o → Kept names o ((KeyFilter.keep names).apply v)) ∧
      (v.obj? = none → (KeyFilter.keep names).apply v = v) ∧
      (∀ filter : KeyFilter, filter.apply (filter.apply v) = filter.apply v) ∧
      ∀ more, (KeyFilter.drop more).apply ((KeyFilter.drop names).apply v) =
          (KeyFilter.drop (names ++ more)).apply v ∧
        (KeyFilter.drop names).apply ((KeyFilter.drop more).apply v) =
          (KeyFilter.drop (names ++ more)).apply v := by
  refine ⟨dropped_apply names v, ?_, fun h => ?_, fun filter => apply_idem filter v,
    fun more => ⟨drop_drop names more v, ?_⟩⟩
  · rintro o rfl
    exact kept_apply names o
  · cases v with
    | obj => cases h
    | null | bool | num | str | arr => rfl
  · rw [drop_drop, drop_append_comm]

/-- One name is a pattern, the other one stands for itself. -/
theorem filter_paths_two_names :
    let names := ["^a", "x"]
    let o : Object :=
      [("abc", .int 1), ("list", .arr [.obj [("x", .int 2), ("y", .int 3)]]), ("bac", .int 4)]
    let left : List Segment := [.name "list", .index 0, .name "y"]
    let gone : List Segment := [.name "list", .index 0, .name "x"]
    (((KeyFilter.drop names).apply (.obj o)).node? left).isSome = true ∧
      (((KeyFilter.drop names).apply (.obj o)).node? gone).isSome = false ∧
      (((KeyFilter.keep names).apply (.obj o)).node? [.name "abc"]).isSome = true ∧
      (((KeyFilter.keep names).apply (.obj o)).node? left).isSome = false ∧
      (KeyFilter.keep names).apply (.arr [.obj o]) = .arr [.obj o] := by
  intro names o left gone
  obtain ⟨hdropped, hkept, -⟩ := filter_paths names (.obj o)
  obtain ⟨-, -, hother, -⟩ := filter_paths names (.arr [.obj o])
  have hunlisted : ∀ key ∈ ["list", "y", "bac"], ¬ Listed names key := by decide +kernel
  have hlisted : ∀ key ∈ ["abc", "x"], Listed names key := by decide +kernel
  refine ⟨(hdropped.isSome_iff left).mpr ⟨rfl, fun key hkey => hunlisted key ?_⟩, ?_,
    ((hkept o rfl).isSome_iff _).mpr ⟨rfl, ?_⟩, ?_, hother rfl⟩
  · simp only [left, List.mem_cons, Segment.name.injEq, List.not_mem_nil, reduceCtorEq] at hkey
    grind
  · refine Bool.eq_false_iff.mpr fun h => ?_
    exact ((hdropped.isSome_iff gone).mp h).2 "x" (by simp [gone]) (hlisted "x" (by simp))
  · rintro key q heq
    cases heq
    exact hlisted "abc" (by simp)
  · refine Bool.eq_false_iff.mpr fun h => ?_
    exact hunlisted "list" (by simp) (((hkept o rfl).isSome_iff left).mp h |>.2 _ _ rfl)

end DeviceStats.KeyFilter
