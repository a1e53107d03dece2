import DeviceStats.Json.Size

/-!
# Proofs/Json/Objects — the objects that a change comes by

What a change does at every depth it does to each object that it comes by.  Some changes stop at
certain names or do not look into arrays; a `Descent` says where one goes, and `Value.objects` lists
the objects on its way.  A property of objects that all of them have (`Value.Each`) is followed into
a value by two lemmas, one for objects and one for arrays.
-/

namespace DeviceStats.Json

/-- How a change goes down into a value: by default everywhere. -/
structure Descent where
  /-- Whether what stands under a name is left alone. -/
  stops : String → Bool := fun _ => false
  /-- Whether elements of arrays are looked into. -/
  arrays : Bool := true

/-- No name stands in an object twice. -/
def Distinct (o : Object) : Prop := (Named.keys o).Nodup

instance : DecidablePred Distinct := fun o => inferInstanceAs (Decidable (Named.keys o).Nodup)

namespace Value

/-- A value that is asked for an object and gives one is that object. -/
theorem eq_obj_of_obj?_eq_some {v : Value} {o : Object} (h : v.obj? = some o) : v = .obj o := by
  cases v with
  | obj fields => exact congrArg Value.obj (Option.some.inj h)
  | null | bool | num | str | arr => cases h

/-- An element is smaller than the array: descents into arrays end. -/
theorem size_item_lt {items : List Value} {v : Value} (h : v ∈ items) :
    v.size < sizeItems items := by
  induction items with
  | nil => cases h
  | cons w ws ih =>
    rw [sizeItems]
    rcases List.mem_cons.mp h with rfl | h
    · omega
    · have := ih h
      omega

/-- What stands under a name is smaller than the object: descents into objects end. -/
theorem size_field_lt {fields : Object} {kv : String × Value} (h : kv ∈ fields) :
    kv.2.size < sizeFields fields := by
  induction fields with
  | nil => cases h
  | cons kw rest ih =>
    rw [sizeFields]
    rcases List.mem_cons.mp h with rfl | h
    · omega
    · have := ih h
      omega

/-- Induction on the parts of a value. -/
@[elab_as_elim]
theorem partsInduction {motive : Value → Prop}
    (arr : ∀ items, (∀ v ∈ items, motive v) → motive (.arr items))
    (obj : ∀ fields : Object, (∀ kv ∈ fields, motive kv.2) → motive (.obj fields))
    (scalar : ∀ v, v.arr? = none → v.obj? = none → motive v) : ∀ v, motive v
  | .arr items => arr items fun v _ => partsInduction arr obj scalar v
  | .obj fields => obj fields fun kv _ => partsInduction arr obj scalar kv.2
  | .null | .bool _ | .num _ | .str _ => scalar _ rfl rfl
termination_by v => v.size
decreasing_by
  · exact Nat.lt_succ_of_lt (size_item_lt ‹_›)
  · exact Nat.lt_succ_of_lt (size_field_lt ‹_›)

variable (d : Descent)

mutual

/-- The objects that a descent comes by. -/
def objects : Value → List Object
  | .arr items => if d.arrays then objectsOfItems items else []
  | .obj fields => fields :: objectsOfFields fields
  | _ => []

def objectsOfItems : List Value → List Object
  | [] => []
  | v :: vs => objects v ++ objectsOfItems vs

def objectsOfFields : List (String × Value) → List Object
  | [] => []
  | (k, v) :: rest => (if d.stops k then [] else objects v) ++ objectsOfFields rest

end

variable {d}

/-- The objects in an array are those in its elements. -/
theorem mem_objectsOfItems {o : Object} {items : List Value} :
    o ∈ objectsOfItems d items ↔ ∃ v ∈ items, o ∈ objects d v := by
  induction items with
  | nil => simp [objectsOfItems]
  | cons v vs ih => simp [objectsOfItems, ih]

/-- The objects in an object's fields are those under the names that the descent does not stop
at. -/
theorem mem_objectsOfFields {o : Object} {fields : Object} :
    o ∈ objectsOfFields d fields ↔ ∃ kv ∈ fields, d.stops kv.1 = false ∧ o ∈ objects d kv.2 := by
  induction fields with
  | nil => simp [objectsOfFields]
  | cons kv rest ih =>
    cases h : d.stops kv.1 <;> simp [objectsOfFields, ih, h]

/-- Whether every object on the way has a property. -/
def Each (d : Descent) (Q : Object → Prop) (v : Value) : Prop := ∀ o ∈ objects d v, Q o

instance (Q : Object → Prop) [DecidablePred Q] (v : Value) : Decidable (v.Each d Q) :=
  inferInstanceAs (Decidable (∀ o ∈ objects d v, Q o))

variable {Q : Object → Prop}

/-- An array has the property if its elements do, or if the descent leaves arrays alone. -/
theorem each_arr {items : List Value} :
    Each d Q (.arr items) ↔ (d.arrays = true → ∀ v ∈ items, Each d Q v) := by
  cases h : d.arrays with
  | false => simp [Each, objects, h]
  | true =>
    simp only [Each, objects, h, if_true, mem_objectsOfItems, true_implies]
    exact ⟨fun hall v hv o ho => hall o ⟨v, hv, ho⟩, fun hall o ⟨v, hv, ho⟩ => hall v hv o ho⟩

theorem each_map {f : Value → Value} {items : List Value}
    (h : d.arrays = true → ∀ v ∈ items, Each d Q (f v)) : Each d Q (.arr (items.map f)) :=
  each_arr.mpr fun harrays => List.forall_mem_map.mpr (h harrays)

/-- An object has the property if it does so itself and what stands under its names does, where the
descent does not stop. -/
theorem each_obj {fields : Object} :
    Each d Q (.obj fields) ↔ Q fields ∧ ∀ kv ∈ fields, d.stops kv.1 = false → Each d Q kv.2 := by
  simp only [Each, objects, List.forall_mem_cons, mem_objectsOfFields]
  exact and_congr_right fun _ => ⟨fun hall kv hkv hs o ho => hall o ⟨kv, hkv, hs, ho⟩,
    fun hall o ⟨kv, hkv, hs, ho⟩ => hall kv hkv hs o ho⟩

/-- Where no object is, every object has the property. -/
theorem each_scalar {v : Value} (ha : v.arr? = none) (ho : v.obj? = none) : Each d Q v := by
  cases v with
  | arr | obj => simp [arr?, obj?] at ha ho
  | null | bool | num | str => exact List.forall_mem_nil Q

/-- The objects below an object on the way are on the way. -/
theorem Each.each {v : Value} (h : v.Each d Q) : v.Each d fun o => (Value.obj o).Each d Q := by
  induction v using partsInduction with
  | arr items ih => exact each_arr.mpr fun harrays v hv => ih v hv (each_arr.mp h harrays v hv)
  | obj fields ih =>
    exact each_obj.mpr ⟨h, fun kv hkv hstops => ih kv hkv ((each_obj.mp h).2 kv hkv hstops)⟩
  | scalar v ha ho => exact each_scalar ha ho

theorem Each.imp {Q' : Object → Prop} {v : Value} (himp : ∀ o, Q o → Q' o) (h : v.Each d Q) :
    v.Each d Q' := fun o ho => himp o (h o ho)

theorem Each.and {Q' : Object → Prop} {v : Value} (h : v.Each d Q) (h' : v.Each d Q') :
    v.Each d fun o => Q o ∧ Q' o := fun o ho => ⟨h o ho, h' o ho⟩

/-- A change that leaves each element as it is leaves the array as it is. -/
theorem map_items_eq_self {f : Value → Value} {items : List Value} (h : ∀ v ∈ items, f v = v) :
    items.map f = items := (List.map_congr_left h).trans (List.map_id' items)

theorem map_fields_eq_self {f : String → Value → Value} {fields : Object}
    (h : ∀ kv ∈ fields, f kv.1 kv.2 = kv.2) : fields.map (fun kv => (kv.1, f kv.1 kv.2)) = fields :=
  (List.map_congr_left fun kv hkv => congrArg (kv.1, ·) (h kv hkv)).trans (List.map_id' fields)

end Value

end DeviceStats.Json
