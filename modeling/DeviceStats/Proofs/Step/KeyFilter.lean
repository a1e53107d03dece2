import DeviceStats.Proofs.Json.Names
import DeviceStats.Proofs.Json.Objects
import DeviceStats.Step.KeyFilter

/-!
# Proofs/Step/KeyFilter — dropped keys stay away

Dropping leaves no listed key anywhere (`each_unlisted_without`), and where there is none it changes
nothing (`without_eq_self_iff`).  What else holds of the objects of a value holds of those that are
left of them (`each_without`, `each_keep`).
-/

namespace DeviceStats.KeyFilter

open Json (Value Object Descent)

variable {entries : List Entry} {d : Descent} {Q : Object → Prop} {v : Value}

/-! ## Dropping -/

theorem withoutItems_eq (items : List Value) :
    withoutItems entries items = items.map (without entries) := by
  induction items with
  | nil => rfl
  | cons v vs ih => rw [withoutItems, ih, List.map_cons]

/-- Dropping listed keys is a filter on the names, with the rest changed below. -/
theorem withoutFields_eq (fields : Object) : withoutFields entries fields =
    (fields.filter fun kv => !lists entries kv.1).map fun kv => (kv.1, without entries kv.2) := by
  induction fields with
  | nil => rfl
  | cons kv rest ih =>
    obtain ⟨k, v⟩ := kv
    cases h : lists entries k <;> simp [withoutFields, ih, h]

theorem without_scalar (ha : v.arr? = none) (ho : v.obj? = none) : without entries v = v := by
  cases v with
  | arr | obj => simp [Value.arr?, Value.obj?] at ha ho
  | null | bool | num | str => rfl

/-- No name of an object is listed. -/
def Unlisted (entries : List Entry) (o : Object) : Prop := ∀ kv ∈ o, lists entries kv.1 = false

instance (entries : List Entry) : DecidablePred (Unlisted entries) := fun o =>
  inferInstanceAs (Decidable (∀ kv ∈ o, lists entries kv.1 = false))

/-- An entry that stays has a key that is not listed, and a value without listed keys. -/
theorem mem_withoutFields {fields : Object} {kv : String × Value} :
    kv ∈ withoutFields entries fields ↔
      lists entries kv.1 = false ∧ ∃ x, (kv.1, x) ∈ fields ∧ without entries x = kv.2 := by
  obtain ⟨k, w⟩ := kv
  simp only [withoutFields_eq, List.mem_map, List.mem_filter, Bool.not_eq_true', Prod.mk.injEq,
    Prod.exists]
  constructor
  · rintro ⟨j, x, ⟨hmem, hj⟩, rfl, rfl⟩
    exact ⟨hj, x, hmem, rfl⟩
  · rintro ⟨hk, x, hmem, hx⟩
    exact ⟨k, x, ⟨hmem, hk⟩, rfl, hx⟩

/-- Under a key that is not listed stands what dropping makes of its value. -/
theorem get?_withoutFields {key : String} (h : lists entries key = false) (o : Object) :
    Named.get? (withoutFields entries o) key = (o.get? key).map (without entries) := by
  rw [withoutFields_eq, Named.get?_map fun _ => without entries]
  exact congrArg (Option.map (without entries))
    (Named.get?_filter (p := fun k => !lists entries k) (by simp [h]))

theorem str?_without (v : Value) : (without entries v).str? = v.str? := by
  cases v <;> rfl

theorem exists_of_without_eq_obj {o : Object} (h : without entries v = .obj o) :
    ∃ x, v = .obj x ∧ withoutFields entries x = o := by
  cases v with
  | obj x => exact ⟨x, rfl, Value.obj.inj h⟩
  | null | bool | num | str | arr => cases h

/-- What holds of the objects of a value, and of what is left of each, holds of the objects that are
left. -/
theorem each_without (hQ : ∀ o, Q o → Q (withoutFields entries o)) (h : v.Each d Q) :
    (without entries v).Each d Q := by
  induction v using Value.partsInduction with
  | arr items ih =>
    rw [without, withoutItems_eq]
    exact Value.each_map fun harrays v hv => ih v hv (Value.each_arr.mp h harrays v hv)
  | obj fields ih =>
    obtain ⟨hfields, hvalues⟩ := Value.each_obj.mp h
    refine Value.each_obj.mpr ⟨hQ fields hfields, fun kv hkv hstops => ?_⟩
    obtain ⟨-, x, hx, heq⟩ := mem_withoutFields.mp hkv
    exact heq ▸ ih _ hx (hvalues _ hx hstops)
  | scalar v ha ho =>
    rwa [without_scalar ha ho]

/-- **No listed key is left.** -/
theorem each_unlisted_without (v : Value) : (without entries v).Each {} (Unlisted entries) := by
  induction v using Value.partsInduction with
  | arr items ih =>
    rw [without, withoutItems_eq]
    exact Value.each_map fun _ => ih
  | obj fields ih =>
    refine Value.each_obj.mpr ⟨fun kv hkv => (mem_withoutFields.mp hkv).1, fun kv hkv _ => ?_⟩
    obtain ⟨-, x, hx, heq⟩ := mem_withoutFields.mp hkv
    exact heq ▸ ih _ hx
  | scalar v ha ho =>
    rw [without_scalar ha ho]
    exact Value.each_scalar ha ho

/-- A value without listed keys loses nothing. -/
theorem without_eq_self (h : v.Each {} (Unlisted entries)) : without entries v = v := by
  induction v using Value.partsInduction with
  | arr items ih =>
    have hitems := Value.each_arr.mp h rfl
    rw [without, withoutItems_eq]
    exact congrArg Value.arr (Value.map_items_eq_self fun v hv => ih v hv (hitems v hv))
  | obj fields ih =>
    obtain ⟨hfields, hvalues⟩ := Value.each_obj.mp h
    have hfilter : (fields.filter fun kv => !lists entries kv.1) = fields :=
      List.filter_eq_self.mpr fun kv hkv => by rw [hfields kv hkv, Bool.not_false]
    rw [without, withoutFields_eq, hfilter]
    exact congrArg Value.obj (Value.map_fields_eq_self (f := fun _ => without entries)
      fun kv hkv => ih kv hkv (hvalues kv hkv rfl))
  | scalar v ha ho => exact without_scalar ha ho

/-- **Dropping changes nothing exactly where no key is listed.** -/
theorem without_eq_self_iff : without entries v = v ↔ v.Each {} (Unlisted entries) :=
  ⟨fun h => h ▸ each_unlisted_without v, without_eq_self⟩

/-! ## Keeping -/

/-- What holds of an object, and of the names of it that are kept, holds after keeping. -/
theorem each_keep {names : List String}
    (hQ : ∀ o, Q o → Q (o.filter fun kv => lists (names.map Entry.ofName) kv.1)) (h : v.Each d Q) :
    ((KeyFilter.keep names).apply v).Each d Q := by
  cases v with
  | obj fields =>
    obtain ⟨hfields, hvalues⟩ := Value.each_obj.mp h
    exact Value.each_obj.mpr ⟨hQ fields hfields, fun kv hkv => hvalues kv (List.mem_filter.mp hkv).1⟩
  | null | bool | num | str | arr => exact h

end DeviceStats.KeyFilter
