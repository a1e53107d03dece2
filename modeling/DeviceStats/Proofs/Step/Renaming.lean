import DeviceStats.Proofs.Json.Paths
import DeviceStats.Proofs.Text.Split
import DeviceStats.Step.Renaming

/-!
# Proofs/Step/Renaming — what is renamed, path by path

A key becomes what the maps make of it one after the other (`becomes_iff`).  Of several keys of an
object that get one name the last gives its value, so a node of a renamed value stands at the end of
exactly those paths of the value that lead through such keys only (`node?_apply_iff`); and the first
gives its place (`keys_apply`).
-/

namespace DeviceStats

open Json (Value Object Segment Distinct)

namespace Named

variable {α : Type} {front back : Named α} {key : String} {v : α}

/-- The keys that stand behind a key. -/
def keysBehind (o : Named α) (key : String) : List String :=
  ((keys o).dropWhile (· != key)).tail

theorem keysBehind_append_cons (h : key ∉ keys front) :
    keysBehind (front ++ (key, v) :: back) key = keys back := by
  have hskip : ∀ k ∈ keys front, (k != key) = true := fun k hk =>
    bne_iff_ne.mpr fun heq => h (heq ▸ hk)
  have hsplit : keys (front ++ (key, v) :: back) = keys front ++ key :: keys back := List.map_append
  rw [keysBehind, hsplit, List.dropWhile_append_of_pos hskip, List.dropWhile_cons_of_neg (by simp),
    List.tail_cons]

end Named

namespace Renaming

variable {r : Renaming} {v x y : Value} {o : Object} {key key' : String} {p q : List Segment}

/-! ## The new name of a key -/

/-- Whether a rule fires: its trigger is the key or, if the rule or else the renaming does not ask
for whole keys, stands somewhere in it. -/
def Fires (exact : Bool) (entry : String × RenameRule) (key : String) : Prop :=
  if entry.2.whole?.getD exact = true then key = entry.1 else entry.1.toList <:+: key.toList

/-- A rule is tried where its trigger fires, which is an equality or a pattern. -/
theorem fires_iff {exact : Bool} {entry : String × RenameRule} :
    fires exact entry.1 entry.2 key = true ↔ Fires exact entry key := by
  unfold fires Fires
  split
  · exact beq_iff_eq
  · exact Text.occurs_iff

theorem not_fires_iff {exact : Bool} {entry : String × RenameRule} :
    (!fires exact entry.1 entry.2 key) = true ↔ ¬ Fires exact entry key := by
  rw [← fires_iff, Bool.not_eq_true', Bool.not_eq_true]

/-- What a map makes of a key: the first rule that fires decides. -/
inductive BecomesIn (exact : Bool) : Named RenameRule → String → String → Prop
  | untouched {map : Named RenameRule} {key : String}
      (h : ∀ entry ∈ map, ¬ Fires exact entry key) : BecomesIn exact map key key
  | first {front back : Named RenameRule} {trigger key : String} {rule : RenameRule}
      (hfront : ∀ entry ∈ front, ¬ Fires exact entry key) (h : Fires exact (trigger, rule) key) :
      BecomesIn exact (front ++ (trigger, rule) :: back) key (rule.apply key)

/-- What maps make of a key, one after the other. -/
inductive Becomes (exact : Bool) : List (Named RenameRule) → String → String → Prop
  | nil {key : String} : Becomes exact [] key key
  | cons {map : Named RenameRule} {maps : List (Named RenameRule)} {key key' key'' : String}
      (h : BecomesIn exact map key key') (hmaps : Becomes exact maps key' key'') :
      Becomes exact (map :: maps) key key''

/-- A map looks for the first rule that fires. -/
theorem renameIn_eq (exact : Bool) (map : Named RenameRule) (key : String) :
    renameIn exact map key =
      (map.find? fun entry => fires exact entry.1 entry.2 key).elim key (·.2.apply key) := by
  unfold renameIn
  split
  · rename_i hsome
    exact (congrArg (Option.elim · key (·.2.apply key)) hsome).symm
  · rename_i hnone
    exact (congrArg (Option.elim · key (·.2.apply key)) hnone).symm

/-- Where no trigger fires, a key keeps its name. -/
theorem renameIn_of_not_fires {exact : Bool} {map : Named RenameRule}
    (h : ∀ entry ∈ map, ¬ Fires exact entry key) : renameIn exact map key = key := by
  have hnone : (map.find? fun entry => fires exact entry.1 entry.2 key) = none :=
    List.find?_eq_none.mpr fun entry hentry => mt fires_iff.mp (h entry hentry)
  rw [renameIn_eq, hnone, Option.elim_none]

/-- The first trigger that fires decides, whatever others would. -/
theorem renameIn_of_fires {exact : Bool} {front back : Named RenameRule} {trigger : String}
    {rule : RenameRule} (hfront : ∀ entry ∈ front, ¬ Fires exact entry key)
    (h : Fires exact (trigger, rule) key) :
    renameIn exact (front ++ (trigger, rule) :: back) key = rule.apply key := by
  have hfirst : ((front ++ (trigger, rule) :: back).find? fun entry =>
      fires exact entry.1 entry.2 key) = some (trigger, rule) := by
    refine List.find?_eq_some_iff_append.mpr ⟨fires_iff.mpr h, front, back, rfl, ?_⟩
    exact fun entry hentry => not_fires_iff.mpr (hfront entry hentry)
  rw [renameIn_eq, hfirst, Option.elim_some]

theorem becomesIn_renameIn (exact : Bool) (map : Named RenameRule) (key : String) :
    BecomesIn exact map key (renameIn exact map key) := by
  rw [renameIn_eq]
  cases hfind : map.find? fun entry => fires exact entry.1 entry.2 key with
  | some entry =>
    obtain ⟨h, front, back, rfl, hfront⟩ := List.find?_eq_some_iff_append.mp hfind
    exact .first (fun other hother => not_fires_iff.mp (hfront other hother)) (fires_iff.mp h)
  | none =>
    exact .untouched fun entry hentry => mt fires_iff.mpr (List.find?_eq_none.mp hfind entry hentry)

/-- A map of rules makes of a key just what its first firing rule says. -/
theorem becomesIn_iff {exact : Bool} {map : Named RenameRule} :
    BecomesIn exact map key key' ↔ renameIn exact map key = key' := by
  constructor
  · intro h
    cases h with
    | untouched h => exact renameIn_of_not_fires h
    | first hfront h => exact renameIn_of_fires hfront h
  · rintro rfl
    exact becomesIn_renameIn exact map key

/-- **The new name of a key is what the maps make of it**, one after the other. -/
theorem becomes_iff : Becomes r.exact r.maps key key' ↔ r.rename key = key' := by
  unfold rename
  generalize r.maps = maps
  induction maps generalizing key with
  | nil =>
    constructor
    · rintro ⟨⟩
      rfl
    · rintro rfl
      exact .nil
  | cons map maps ih =>
    rw [List.foldl_cons, ← ih]
    constructor
    · intro h
      cases h with
      | cons h hmaps => rwa [becomesIn_iff.mp h]
    · exact fun hmaps => .cons (becomesIn_iff.mpr rfl) hmaps

/-! ## Renamed values -/

theorem applyItems_eq (items : List Value) : applyItems r items = items.map (apply r) := by
  induction items with
  | nil => rfl
  | cons v vs ih => rw [applyItems, ih, List.map_cons]

/-- Fields are renamed and renamed within, in their order. -/
theorem applyFields_eq (fields : Object) :
    applyFields r fields = fields.map fun kv => (r.rename kv.1, apply r kv.2) := by
  induction fields with
  | nil => rfl
  | cons kv rest ih => rw [applyFields, ih, List.map_cons]

theorem keys_applyFields (fields : Object) :
    Named.keys (applyFields r fields) = (Named.keys fields).map r.rename := by
  rw [applyFields_eq, Named.keys, Named.keys, List.map_map, List.map_map]
  rfl

/-- Whether no key behind a key gets the same name. -/
def IsLast (r : Renaming) (o : Object) (key : String) : Prop :=
  ∀ later ∈ Named.keysBehind o key, r.rename later ≠ r.rename key

instance (r : Renaming) (o : Object) : DecidablePred (IsLast r o) := fun key =>
  inferInstanceAs (Decidable (∀ later ∈ Named.keysBehind o key, r.rename later ≠ r.rename key))

/-- **Under a name stands what stood under the last key that gets it.** -/
theorem get?_apply_iff (h : Distinct o) :
    Named.get? (Named.ofPairs (applyFields r o)) key' = some y ↔
      ∃ key x, Named.get? o key = some x ∧ apply r x = y ∧ r.rename key = key' ∧
        IsLast r o key := by
  rw [Named.get?_ofPairs, Named.get?_reverse_eq_some_iff, applyFields_eq]
  have hlast {front back : Object} {key : String} {x : Value} (hfront : key ∉ Named.keys front) :
      IsLast r (front ++ (key, x) :: back) key ↔
        r.rename key ∉ Named.keys (back.map fun kv => (r.rename kv.1, apply r kv.2)) := by
    rw [IsLast, Named.keysBehind_append_cons hfront, ← applyFields_eq, keys_applyFields,
      List.mem_map]
    simp
  constructor
  -- the renamed pairs are cut where the pairs are, and a key that stands once is found at its cut
  · rintro ⟨front', back', hsplit, hback⟩
    obtain ⟨front, rest, rfl, rfl, hrest⟩ := List.map_eq_append_iff.mp hsplit
    obtain ⟨⟨key, x⟩, back, rfl, hkv, rfl⟩ := List.map_eq_cons_iff.mp hrest
    obtain ⟨rfl, rfl⟩ := Prod.mk.inj hkv
    have hfront : key ∉ Named.keys front := by
      rw [Distinct, Named.keys, List.map_append] at h
      exact fun hmem => (List.nodup_append.mp h).2.2 key hmem key List.mem_cons_self rfl
    exact ⟨key, x, Named.get?_append_cons hfront, rfl, rfl, (hlast hfront).mpr hback⟩
  · rintro ⟨key, x, hget, rfl, rfl, h⟩
    obtain ⟨front, back, rfl, hfront⟩ := Named.get?_eq_some_iff_append.mp hget
    exact ⟨_, _, List.map_append, (hlast hfront).mp h⟩

/-- **The first key that gets a name gives it its place.** -/
theorem keys_apply (r : Renaming) (o : Object) :
    Named.keys (Named.ofPairs (applyFields r o)) = ((Named.keys o).map r.rename).eraseDups := by
  rw [Named.keys_ofPairs, keys_applyFields]

/-! ## Paths -/

/-- A step of a path with a key renamed. -/
def renameStep (r : Renaming) : Segment → Segment
  | .name key => .name (r.rename key)
  | .index i => .index i

/-- Whether a path leads through such keys only as are the last of their object with their new
name. -/
def Survives (r : Renaming) (v : Value) (p : List Segment) : Prop :=
  ∀ before key behind o, p = before ++ .name key :: behind → v.node? before = some (.obj o) →
    IsLast r o key

theorem survives_nil (r : Renaming) (v : Value) : Survives r v [] := fun _ _ _ _ h =>
  absurd h.symm (List.append_ne_nil_of_right_ne_nil _ (List.cons_ne_nil _ _))

/-- Whether a step into a value leads by the last key of its new name. -/
def IsLastAt (r : Renaming) (v : Value) (s : Segment) : Prop :=
  ∀ key o, s = .name key → v = .obj o → IsLast r o key

/-- A path survives if it is the last one at each of its names. -/
theorem survives_cons_iff {s : Segment} (hx : v.part? s = some x) :
    Survives r v (s :: p) ↔ IsLastAt r v s ∧ Survives r x p := by
  constructor
  · intro h
    refine ⟨?_, fun before key behind o hp hnode => ?_⟩
    · rintro key o rfl rfl
      exact h [] key p o rfl rfl
    · refine h (s :: before) key behind o (congrArg (s :: ·) hp) ?_
      rw [Value.node?_cons, hx]
      exact hnode
  · rintro ⟨hfirst, hrest⟩ before key behind o hp hnode
    cases before with
    | nil =>
      obtain ⟨rfl, rfl⟩ := List.cons.inj hp
      exact hfirst key o rfl (Option.some.inj hnode)
    | cons t before =>
      obtain ⟨rfl, hp'⟩ := List.cons.inj hp
      rw [Value.node?_cons, hx] at hnode
      exact hrest before key behind o hp' hnode

/-- Renaming leaves elements of arrays in their places. -/
theorem part?_index_apply (r : Renaming) (v : Value) (i : Nat) :
    (apply r v).part? (.index i) = (v.part? (.index i)).map (apply r) := by
  cases v with
  | arr items => rw [apply, applyItems_eq, Value.part?, Value.part?, List.getElem?_map]
  | null | bool | num | str | obj => rfl

/-- Under a new name stands the last of the values whose names became it. -/
theorem part?_name_apply_iff (h : v.Each {} Distinct) :
    (apply r v).part? (.name key') = some y ↔ ∃ key x, v.part? (.name key) = some x ∧
      apply r x = y ∧ r.rename key = key' ∧ IsLastAt r v (.name key) := by
  cases v with
  | obj o =>
    have hlast (key : String) : IsLastAt r (.obj o) (.name key) ↔ IsLast r o key := by
      refine ⟨fun h => h key o rfl rfl, ?_⟩
      rintro h _ _ ⟨⟩ ⟨⟩
      exact h
    simp only [hlast]
    exact get?_apply_iff (Value.each_obj.mp h).1
  | null | bool | num | str | arr =>
    refine ⟨fun hy => ?_, ?_⟩
    · cases hy
    · rintro ⟨key, x, hx, -⟩
      cases hx

/-- What stands at one step into a renamed value. -/
theorem part?_apply_iff {t : Segment} (h : v.Each {} Distinct) : (apply r v).part? t = some y ↔
    ∃ s x, v.part? s = some x ∧ apply r x = y ∧ renameStep r s = t ∧ IsLastAt r v s := by
  rcases t with key' | i
  · rw [part?_name_apply_iff h]
    constructor
    · rintro ⟨key, x, hx, hy, rfl, hlast⟩
      exact ⟨.name key, x, hx, hy, rfl, hlast⟩
    · rintro ⟨key | i, x, hx, hy, hs, hlast⟩
      · exact ⟨key, x, hx, hy, Segment.name.inj hs, hlast⟩
      · cases hs
  · rw [part?_index_apply, Option.map_eq_some_iff]
    constructor
    · rintro ⟨x, hx, hy⟩
      refine ⟨.index i, x, hx, hy, rfl, ?_⟩
      rintro _ _ ⟨⟩
    · rintro ⟨key | j, x, hx, hy, hs, -⟩
      · cases hs
      · exact ⟨x, Segment.index.inj hs ▸ hx, hy⟩

/-- **A node of a renamed value** stands at the end of exactly the paths of the value that are
renamed to its path and survive. -/
theorem node?_apply_iff (h : v.Each {} Distinct) : (apply r v).node? q = some y ↔
    ∃ p x, v.node? p = some x ∧ apply r x = y ∧ p.map (renameStep r) = q ∧ Survives r v p := by
  induction q generalizing v with
  | nil =>
    constructor
    · intro hy
      exact ⟨[], v, rfl, Option.some.inj hy, rfl, survives_nil r v⟩
    · rintro ⟨p, x, hx, rfl, hp, -⟩
      obtain rfl := List.map_eq_nil_iff.mp hp
      cases hx
      rfl
  | cons t q ih =>
    rw [Value.node?_cons, Option.bind_eq_some_iff]
    constructor
    · rintro ⟨w, hw, hy⟩
      obtain ⟨s, u, hu, rfl, rfl, hlast⟩ := (part?_apply_iff h).mp hw
      obtain ⟨p, x, hx, rfl, rfl, hp⟩ := (ih (h.part? hu)).mp hy
      refine ⟨s :: p, x, ?_, rfl, rfl, (survives_cons_iff hu).mpr ⟨hlast, hp⟩⟩
      rw [Value.node?_cons, hu]
      exact hx
    · rintro ⟨p, x, hx, rfl, hp, hsurvives⟩
      obtain ⟨s, p, rfl, rfl, rfl⟩ := List.map_eq_cons_iff.mp hp
      rw [Value.node?_cons, Option.bind_eq_some_iff] at hx
      obtain ⟨u, hu, hx⟩ := hx
      obtain ⟨hlast, hp⟩ := (survives_cons_iff hu).mp hsurvives
      exact ⟨apply r u, (part?_apply_iff h).mpr ⟨s, u, hu, rfl, rfl, hlast⟩,
        (ih (h.part? hu)).mpr ⟨p, x, hx, rfl, rfl, hp⟩⟩

/-- A scalar, an empty array or an empty object. -/
def IsLeaf : Value → Prop
  | .arr items => items = []
  | .obj fields => fields = []
  | _ => True

theorem ofPairs_applyFields_eq_nil_iff :
    Named.ofPairs (applyFields r o) = [] ↔ o = [] := by
  rw [Named.ofPairs_eq_nil_iff, applyFields_eq, List.map_eq_nil_iff]

/-- Leaves are as they were, and nothing else becomes one. -/
theorem apply_eq_leaf_iff (h : IsLeaf y) : apply r x = y ↔ x = y := by
  cases x with
  | arr items =>
    cases y with
    | arr items' =>
      obtain rfl : items' = [] := h
      simp [apply, applyItems_eq]
    | null | bool | num | str | obj => exact ⟨nofun, nofun⟩
  | obj fields =>
    cases y with
    | obj fields' =>
      obtain rfl : fields' = [] := h
      simp [apply, ofPairs_applyFields_eq_nil_iff]
    | null | bool | num | str | arr => exact ⟨nofun, nofun⟩
  | null | bool | num | str => rfl

/-- **Renaming has an exact meaning on paths**: with the name that the maps give each key, one after
the other, the leaves of a renamed value are those of the value at the paths that lead through the
last keys of their names only; and every object has its new names in the order in which they first
come up. -/
theorem renamed_paths (r : Renaming) {v : Value} (h : v.Each {} Distinct) :
    (∀ key key', Becomes r.exact r.maps key key' ↔ r.rename key = key') ∧
      (∀ q leaf, IsLeaf leaf → ((apply r v).node? q = some leaf ↔
        ∃ p, v.node? p = some leaf ∧ p.map (renameStep r) = q ∧ Survives r v p)) ∧
      ∀ q o', (apply r v).node? q = some (.obj o') →
        ∃ p o, v.node? p = some (.obj o) ∧ p.map (renameStep r) = q ∧ Survives r v p ∧
          Named.keys o' = ((Named.keys o).map r.rename).eraseDups := by
  refine ⟨fun key key' => becomes_iff, fun q leaf hleaf => ?_, fun q o' ho' => ?_⟩
  · rw [node?_apply_iff h]
    constructor
    · rintro ⟨p, x, hx, happly, hp, hsurvives⟩
      obtain rfl := (apply_eq_leaf_iff hleaf).mp happly
      exact ⟨p, hx, hp, hsurvives⟩
    · rintro ⟨p, hx, hp, hsurvives⟩
      exact ⟨p, leaf, hx, (apply_eq_leaf_iff hleaf).mpr rfl, hp, hsurvives⟩
  · obtain ⟨p, x, hx, happly, hp, hsurvives⟩ := (node?_apply_iff h).mp ho'
    cases x with
    | obj o =>
      obtain rfl := Value.obj.inj happly
      exact ⟨p, o, hx, hp, hsurvives, keys_apply r o⟩
    | null | bool | num | str | arr => cases happly

/-- Two keys get one name, the second its value and the first its place; a key below them is renamed
by another map. -/
theorem renamed_paths_one_name :
    let r : Renaming := ⟨[[("ab", .bare "t")], [("x", .replace "x" "z" (some true))]], false⟩
    let o : Object := [("ab", .obj [("x", .int 1)]), ("xs", .arr []), ("abc", .obj [("x", .int 2)])]
    Becomes r.exact r.maps "abc" "t" ∧
      (apply r (.obj o)).node? [.name "t", .name "z"] = some (.int 2) ∧
      (apply r (.obj o)).node? [.name "xs"] = some (.arr []) ∧
      ∀ o', apply r (.obj o) = .obj o' → Named.keys o' = ["t", "xs"] := by
  intro r o
  have hd : (Value.obj o).Each {} Distinct := by decide
  obtain ⟨hname, hleaf, hobj⟩ := renamed_paths r hd
  have habc : IsLast r o "abc" := by decide +kernel
  have hxs : IsLast r o "xs" := by decide +kernel
  have hx : IsLast r [("x", .int 2)] "x" := by decide +kernel
  refine ⟨(hname _ _).mpr (by decide +kernel),
    (hleaf _ (.int 2) trivial).mpr ⟨[.name "abc", .name "x"], rfl, by decide +kernel, ?_⟩,
    (hleaf _ (.arr []) rfl).mpr ⟨[.name "xs"], rfl, by decide +kernel, ?_⟩, fun o' ho' => ?_⟩
  · refine (survives_cons_iff rfl).mpr ⟨?_, (survives_cons_iff rfl).mpr ⟨?_, survives_nil _ _⟩⟩
    · rintro _ _ ⟨⟩ ⟨⟩
      exact habc
    · rintro _ _ ⟨⟩ ⟨⟩
      exact hx
  · refine (survives_cons_iff rfl).mpr ⟨?_, survives_nil _ _⟩
    rintro _ _ ⟨⟩ ⟨⟩
    exact hxs
  · obtain ⟨p, o'', hnode, hp, -, hkeys⟩ := hobj [] o' (congrArg some ho')
    obtain rfl := List.map_eq_nil_iff.mp hp
    obtain rfl := Value.obj.inj (Option.some.inj hnode)
    rw [hkeys]
    decide +kernel

end Renaming

end DeviceStats
