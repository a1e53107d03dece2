import DeviceStats.Proofs.Json.Names
import DeviceStats.Proofs.Json.Objects

/-!
# Proofs/Json/Paths — nodes of a value, found by their paths

A path goes through objects by names and through arrays by places; `Value.node?` is the node at its
end.  A changed value is compared with what it was path by path: a node is the same or, if it is an
object, has further names behind those it had (`Extends`), everywhere or but for some paths
(`Framed`).  `Value.only` leaves the entries whose paths are chosen, so that what has been added can
be taken out again (`only_map_append`).
-/

namespace DeviceStats.Json

open Match (Tree)

/-- A step of a path into a value. -/
inductive Segment
  | name (key : String)
  | index (i : Nat)
deriving DecidableEq, Repr

/-- The path through objects by names. -/
def named (names : List String) : List Segment := names.map .name

namespace Value

/-- What stands under a name of an object or at a place of an array. -/
def part? : Value → Segment → Option Value
  | .obj fields, .name key => Named.get? fields key
  | .arr items, .index i => items[i]?
  | _, _ => none

/-- The node at the end of a path. -/
def node? (v : Value) (p : List Segment) : Option Value := p.foldlM part? v

variable {v w x : Value} {o : Object} {p q : List Segment} {s : Segment} {k : String}

theorem node?_cons (v : Value) (s : Segment) (p : List Segment) :
    v.node? (s :: p) = (v.part? s).bind (·.node? p) := rfl

/-- A path in two parts leads where the second leads from the first's end. -/
theorem node?_append (v : Value) (p q : List Segment) :
    v.node? (p ++ q) = (v.node? p).bind (·.node? q) := List.foldlM_append

theorem node?_concat (v : Value) (p : List Segment) (s : Segment) :
    v.node? (p ++ [s]) = (v.node? p).bind (·.part? s) := by
  rw [node?_append]
  refine congrArg _ (funext fun x => ?_)
  rw [node?_cons]
  cases x.part? s <;> rfl

theorem node?_obj_name (o : Object) (k : String) (p : List Segment) :
    (obj o).node? (.name k :: p) = (Named.get? o k).bind (·.node? p) := rfl

/-- By a name one goes into an object. -/
theorem part?_name_eq_some (h : v.part? (.name k) = some x) :
    ∃ o, v = .obj o ∧ Named.get? o k = some x := by
  cases v with
  | obj o => exact ⟨o, rfl, h⟩
  | null | bool | num | str | arr => cases h

/-- By a place one does not go into an object. -/
theorem obj?_of_part?_index {i : Nat} (h : v.part? (.index i) = some x) : v.obj? = none := by
  cases v with
  | arr => rfl
  | null | bool | num | str | obj => cases h

/-- What holds of each object of a value holds of each object of its parts. -/
theorem Each.part? {Q : Object → Prop} (h : v.Each {} Q) (hx : v.part? s = some x) :
    x.Each {} Q := by
  rcases s with k | i
  · obtain ⟨o, rfl, hget⟩ := part?_name_eq_some hx
    exact (each_obj.mp h).2 (k, x) (Named.mem_of_get?_eq_some hget) rfl
  · cases v with
    | arr items => exact each_arr.mp h rfl x (List.mem_of_getElem? hx)
    | null | bool | num | str | obj => cases hx

/-- A part by name is a child of the tree. -/
theorem part?_name (v : Value) (k : String) : v.part? (.name k) = Tree.child? v k := by
  cases v <;> rfl

/-- The path by names alone is that of a tree. -/
theorem node?_named (v : Value) (t : List String) : v.node? (named t) = Tree.at? v t := by
  induction t generalizing v with
  | nil => rfl
  | cons k t ih =>
    rw [named, List.map_cons, node?_cons, part?_name, Tree.at?_cons]
    exact congrArg _ (funext ih)

/-! ## Nodes that are extended -/

/-- The same value, or an object that has further names behind those it has. -/
inductive Extends : Value → Value → Prop
  | refl (v : Value) : Extends v v
  | obj {o o' : Object} (h : Named.keys o <+: Named.keys o') : Extends (.obj o) (.obj o')

/-- Further names twice are further names. -/
theorem Extends.trans (h : Extends v w) (h' : Extends w x) : Extends v x := by
  cases h with
  | refl => exact h'
  | obj h =>
    cases h' with
    | refl => exact .obj h
    | obj h' => exact .obj (h.trans h')

/-- Only objects are extended. -/
theorem Extends.eq_of_obj?_eq_none (h : Extends v w) (hv : v.obj? = none) : w = v := by
  cases h with
  | refl => rfl
  | obj h => cases hv

/-- **Nodes are alike** if neither is there or the second extends the first. -/
abbrev Alike (x y : Option Value) : Prop := Option.Rel Extends x y

theorem Alike.refl (x : Option Value) : Alike x x := by
  cases x with
  | none => exact .none
  | some x => exact .some (.refl x)

theorem Alike.trans {x y z : Option Value} (h : Alike x y) (h' : Alike y z) : Alike x z := by
  cases h with
  | none => exact h'
  | some h =>
    cases h' with
    | some h' => exact .some (h.trans h')

/-- What is there before is there after, and extended. -/
theorem Alike.exists_of_eq_some {x : Value} {y : Option Value} (h : Alike (some x) y) :
    ∃ y', y = some y' ∧ Extends x y' := by
  cases h with
  | some h => exact ⟨_, rfl, h⟩

/-- What is there after was there before, and is extended. -/
theorem Alike.exists_of_some_eq {x : Option Value} {y : Value} (h : Alike x (some y)) :
    ∃ x', x = some x' ∧ Extends x' y := by
  cases h with
  | some h => exact ⟨_, rfl, h⟩

/-- An object is extended by further names, and at a path through a name it is what stands there. -/
theorem Alike.of_obj {o' : Object} (hkeys : Named.keys o <+: Named.keys o')
    (h : ∀ k q, p = .name k :: q →
      Alike ((Named.get? o k).bind (·.node? q)) ((Named.get? o' k).bind (·.node? q))) :
    Alike ((obj o).node? p) ((obj o').node? p) := by
  cases p with
  | nil => exact .some (.obj hkeys)
  | cons s q =>
    cases s with
    | name k => exact h k q rfl
    | index i => exact .none

/-! ## Changes in a frame -/

/-- But for some paths, a node and what it has become are alike. -/
def Framed (R : List Segment → Prop) (v w : Value) : Prop :=
  ∀ p, ¬ R p → Alike (v.node? p) (w.node? p)

variable {R : List Segment → Prop}

theorem Framed.refl (v : Value) : Framed R v v := fun _ _ => .refl _

/-- Frames compose: outside both nothing but further names has come. -/
theorem Framed.trans (h : Framed R v w) (h' : Framed R w x) : Framed R v x :=
  fun p hp => (h p hp).trans (h' p hp)

/-- Changes one after the other stay in a frame if each does when those before it have. -/
theorem Framed.foldl {β : Type} {f : Value → β → Value} {bs : List β} (h : Framed R v w)
    (hstep : ∀ w, ∀ b ∈ bs, Framed R v w → Framed R w (f w b)) : Framed R v (bs.foldl f w) := by
  induction bs generalizing w with
  | nil => exact h
  | cons b bs ih =>
    have hw := hstep w b List.mem_cons_self h
    exact ih (h.trans hw) fun w b hb => hstep w b (List.mem_cons_of_mem _ hb)

/-- **A change at the end of a path** changes no more than it changes there. -/
theorem framed_modifyAt {f : Value → Value} {t : List String}
    (h : ∀ x, Tree.at? v t = some x → Framed (fun p => R (named t ++ p)) x (f x)) :
    Framed R v (Tree.modifyAt f t v) := by
  induction t generalizing v R with
  | nil => exact h v rfl
  | cons k t ih =>
    cases hc : Tree.child? v k with
    | none =>
      rw [Tree.modifyAt, hc]
      exact .refl v
    | some c =>
      obtain ⟨o, rfl, hget⟩ := part?_name_eq_some ((part?_name v k).trans hc)
      have hmodify : Tree.modifyAt f (k :: t) (obj o) =
          obj (Named.insert o k (Tree.modifyAt f t c)) := by
        rw [Tree.modifyAt, hc]
        rfl
      have hkeys := Named.keys_insert (Tree.mem_keys_of_child? hc) (Tree.modifyAt f t c)
      intro p hp
      rw [hmodify]
      refine .of_obj (hkeys ▸ List.prefix_refl _) fun i q hq => ?_
      subst hq
      rw [Named.get?_insert]
      split
      · rename_i hi
        subst hi
        rw [hget]
        refine ih (R := fun p => R (.name k :: p)) (fun x hx => h x ?_) q hp
        rw [Tree.at?_cons, hc]
        exact hx
      · exact .refl _

/-! ## Entries that are chosen -/

mutual

/-- The entries whose paths are chosen, at every depth; arrays keep all their elements. -/
def only (chosen : List Segment → Bool) : Value → Value
  | .arr items => .arr (onlyItems chosen 0 items)
  | .obj fields => .obj (onlyFields chosen fields)
  | v => v

def onlyItems (chosen : List Segment → Bool) (i : Nat) : List Value → List Value
  | [] => []
  | v :: vs => only (fun p => chosen (.index i :: p)) v :: onlyItems chosen (i + 1) vs

def onlyFields (chosen : List Segment → Bool) : List (String × Value) → List (String × Value)
  | [] => []
  | (k, v) :: rest =>
    if chosen [.name k] then (k, only (fun p => chosen (.name k :: p)) v) :: onlyFields chosen rest
    else onlyFields chosen rest

end

variable {chosen : List Segment → Bool}

theorem onlyItems_eq_self {items : List Value} {i : Nat}
    (h : ∀ (j : Nat) (v : Value), items[j]? = some v →
      v.only (fun p => chosen (.index (i + j) :: p)) = v) : onlyItems chosen i items = items := by
  induction items generalizing i with
  | nil => rfl
  | cons v vs ih =>
    have hrest : onlyItems chosen (i + 1) vs = vs := by
      refine ih fun j w hw => ?_
      rw [Nat.add_right_comm]
      exact h (j + 1) w hw
    rw [onlyItems, hrest]
    exact congrArg (· :: vs) (h 0 v rfl)

/-- Entries are chosen one by one, so the chosen ones of two parts are those of each. -/
theorem onlyFields_append (fields more : Object) : onlyFields chosen (fields ++ more) =
    onlyFields chosen fields ++ onlyFields chosen more := by
  induction fields with
  | nil => rfl
  | cons kv rest ih =>
    rw [List.cons_append, onlyFields, onlyFields, ih]
    split <;> rfl

/-- Where no name is chosen, no entry is left. -/
theorem onlyFields_eq_nil {fields : Object} (h : ∀ kv ∈ fields, chosen [.name kv.1] = false) :
    onlyFields chosen fields = [] := by
  induction fields with
  | nil => rfl
  | cons kv rest ih =>
    obtain ⟨hkv, hrest⟩ := List.forall_mem_cons.mp h
    rw [onlyFields, hkv, ih hrest]
    rfl

/-- Where each name is chosen, and under it what was there before a change, the choice undoes the
change. -/
theorem onlyFields_map {fields : Object} {f : String → Value → Value}
    (h : ∀ kv ∈ fields, chosen [.name kv.1] = true ∧
      (f kv.1 kv.2).only (fun p => chosen (.name kv.1 :: p)) = kv.2) :
    onlyFields chosen (fields.map fun kv => (kv.1, f kv.1 kv.2)) = fields := by
  induction fields with
  | nil => rfl
  | cons kv rest ih =>
    obtain ⟨⟨hchosen, hkv⟩, hrest⟩ := List.forall_mem_cons.mp h
    rw [List.map_cons, onlyFields, if_pos hchosen, hkv, ih hrest]

/-- **What has been added is taken out again**: if entries are changed in a way that choosing what
was in them restores them, and others are added behind them, choosing what was there restores the
object. -/
theorem only_map_append (f : String → Value → Value) (new : Object) (hn : Distinct o)
    (hf : ∀ kv ∈ o, (f kv.1 kv.2).only (fun p => (kv.2.node? p).isSome) = kv.2)
    (hnew : ∀ kv ∈ new, Named.has o kv.1 = false) :
    (obj (o.map (fun kv => (kv.1, f kv.1 kv.2)) ++ new)).only (fun p => ((obj o).node? p).isSome) =
      obj o := by
  have hhas (k : String) : ((obj o).node? [.name k]).isSome = Named.has o k := by
    rw [← Named.isSome_get?, node?_obj_name]
    cases Named.get? o k <;> rfl
  rw [only, onlyFields_append, onlyFields_map, onlyFields_eq_nil, List.append_nil]
  · exact fun kv hkv => (hhas kv.1).trans (hnew kv hkv)
  · intro kv hkv
    have hget : Named.get? o kv.1 = some kv.2 := (Named.get?_eq_some_iff hn).mpr hkv
    simp only [node?_obj_name, hget, Option.bind_some]
    exact ⟨rfl, hf kv hkv⟩

/-- Choosing all that is there changes nothing. -/
theorem only_eq_self (h : v.Each {} Distinct) : v.only (fun p => (v.node? p).isSome) = v := by
  induction v using partsInduction with
  | arr items ih =>
    refine congrArg arr (onlyItems_eq_self fun j v hv => ?_)
    have hmem := List.mem_of_getElem? hv
    rw [Nat.zero_add]
    have hnode (p : List Segment) : (arr items).node? (.index j :: p) = v.node? p := by
      rw [node?_cons, part?, hv, Option.bind_some]
    simp only [hnode]
    exact ih v hmem (each_arr.mp h rfl v hmem)
  | obj o ih =>
    obtain ⟨hn, hvalues⟩ := each_obj.mp h
    have hmap := only_map_append (fun _ v => v) [] hn
      (fun kv hkv => ih kv hkv (hvalues kv hkv rfl)) (List.forall_mem_nil _)
    rwa [map_fields_eq_self (f := fun _ v => v) fun _ _ => rfl, List.append_nil] at hmap
  | scalar v ha ho =>
    cases v with
    | arr | obj => simp [arr?, obj?] at ha ho
    | null | bool | num | str => rfl

end Value

end DeviceStats.Json
