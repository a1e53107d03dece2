import DeviceStats.Declaration
import DeviceStats.Proofs.Json.Printer
import DeviceStats.Proofs.Json.Records
import DeviceStats.Proofs.Property.Rendering

/-!
# Proofs/Property/Finite — what is compiled from finite values has finite arguments

Templates are filled and conditionals settled without a new number, and a descriptor takes its
arguments as they are.
-/

namespace DeviceStats

open Json (Value Object Decoder Field)
open Json.Value (isFinite areFinite fieldsFinite)

/-! ## Finite values -/

namespace Json.Value

/-- An array is finite if each of its elements is. -/
theorem areFinite_iff {vs : List Value} : areFinite vs = true ↔ ∀ v ∈ vs, v.isFinite = true := by
  induction vs with
  | nil => simp [areFinite]
  | cons v vs ih => rw [areFinite, Bool.and_eq_true, ih, List.forall_mem_cons]

/-- An object is finite if what stands under each of its names is. -/
theorem fieldsFinite_iff {fields : List (String × Value)} :
    fieldsFinite fields = true ↔ ∀ kv ∈ fields, kv.2.isFinite = true := by
  induction fields with
  | nil => simp [fieldsFinite]
  | cons kv rest ih => rw [fieldsFinite, Bool.and_eq_true, ih, List.forall_mem_cons]

/-- The parts that a decoder is given of a finite value are finite. -/
theorem forall_layer {v : Value} {l : Layer Value} (hv : v.isFinite = true)
    (h : Input.layer v = .ok l) : l.Forall fun a => a.isFinite = true := by
  cases v with
  | obj fields =>
    cases h
    exact fieldsFinite_iff.mp hv
  | arr items =>
    cases h
    exact areFinite_iff.mp hv
  | _ =>
    cases h
    trivial

end Json.Value

open Json.Value (areFinite_iff fieldsFinite_iff)

/-! ## Templates and conditionals -/

namespace Template

variable (facts : Facts)

mutual

/-- Filling in a template changes texts alone, so no number appears or goes. -/
theorem isFinite_fill : (v : Value) → (fill facts v).isFinite = v.isFinite
  | .null | .bool _ | .num _ | .str _ => rfl
  | .arr items => areFinite_fillItems items
  | .obj fields => fieldsFinite_fillFields fields

theorem areFinite_fillItems : (vs : List Value) → areFinite (fillItems facts vs) = areFinite vs
  | [] => rfl
  | v :: vs => by rw [fillItems, areFinite, areFinite, isFinite_fill v, areFinite_fillItems vs]

theorem fieldsFinite_fillFields : (fields : List (String × Value)) →
    fieldsFinite (fillFields facts fields) = fieldsFinite fields
  | [] => rfl
  | (k, v) :: rest => by
    rw [fillFields, fieldsFinite, fieldsFinite, isFinite_fill v, fieldsFinite_fillFields rest]

end

end Template

namespace Conditional

open Json.Decoder (mem_of_mapM_eq_ok)

variable {facts : Facts} {o : Object}

theorem fieldsFinite_erase (h : fieldsFinite o = true) (key : String) :
    fieldsFinite (o.erase key) = true :=
  fieldsFinite_iff.mpr fun kv hkv => fieldsFinite_iff.mp h kv (List.mem_of_mem_filter hkv)

/-- A finite value may be written over another or added at the end. -/
theorem fieldsFinite_insert (h : fieldsFinite o = true) (key : String) {v : Value}
    (hv : v.isFinite = true) : fieldsFinite (Named.insert o key v) = true := by
  induction o with
  | nil => simpa [Named.insert, fieldsFinite] using hv
  | cons kv o ih =>
    obtain ⟨k, w⟩ := kv
    obtain ⟨hw, ho⟩ := Bool.and_eq_true_iff.mp h
    rw [Named.insert]
    split
    · rw [fieldsFinite, hv, ho, Bool.and_self]
    · rw [fieldsFinite, hw, ih ho, Bool.and_self]

/-- Merging an object into another keeps both finite, whichever value of a shared name stays. -/
theorem fieldsFinite_extend {more : Object} (h : fieldsFinite o = true)
    (hmore : fieldsFinite more = true) : fieldsFinite (o.extend more) = true := by
  unfold Named.extend
  induction more generalizing o with
  | nil => exact h
  | cons kv more ih =>
    obtain ⟨hv, hmore⟩ := Bool.and_eq_true_iff.mp hmore
    exact ih (fieldsFinite_insert h kv.1 hv) hmore

theorem isFinite_of_get? {key : String} {v : Value} (h : fieldsFinite o = true)
    (hv : Named.get? o key = some v) : v.isFinite = true := by
  obtain ⟨kv, hkv, rfl⟩ := Option.map_eq_some_iff.mp hv
  exact fieldsFinite_iff.mp h kv (List.mem_of_find?_eq_some hkv)

/-- The value of a conditional is put together from the rest of its object and the chosen branch. -/
theorem isFinite_settle {block v : Value} (h : settle facts o block = .ok v)
    (ho : fieldsFinite o = true) : v.isFinite = true := by
  obtain ⟨holds, -, h⟩ := exists_ok_of_bind h
  obtain rfl : joined (bare o) (branch? o holds) = v := Except.ok.inj h
  have hif := fieldsFinite_erase ho "if"
  have hthen := fieldsFinite_erase hif "then"
  have hbare : fieldsFinite (bare o) = true := fieldsFinite_erase hthen "else"
  have hbranch (b : Value) (hb : branch? o holds = some b) : b.isFinite = true := by
    unfold branch? at hb
    split at hb
    · exact isFinite_of_get? hif hb
    · exact isFinite_of_get? hthen hb
  cases hb : branch? o holds with
  | none => exact hbare
  | some b =>
    have hfinite := hbranch b hb
    unfold joined
    cases b with
    | obj chosen => exact fieldsFinite_extend hbare hfinite
    | _ =>
      simp only
      split
      · exact hfinite
      · exact hbare

/-- **Settling all conditionals makes no number.** -/
theorem isFinite_resolve {v w : Value} (h : resolve facts v = .ok w) (hv : v.isFinite = true) :
    w.isFinite = true := by
  induction v using settlingInduction facts generalizing w with
  | block o block hif ih =>
    rw [resolve_of_block hif] at h
    obtain ⟨u, hu, h⟩ := exists_ok_of_bind h
    exact ih u hu h (isFinite_settle hu hv)
  | plain o hif ih =>
    rw [resolve_plain hif] at h
    obtain ⟨fields, hfields, h⟩ := exists_ok_of_bind h
    cases h
    refine fieldsFinite_iff.mpr fun kw hkw => ?_
    obtain ⟨kv, hkv, hkw⟩ := mem_of_mapM_eq_ok hfields hkw
    exact ih kv hkv (exists_of_resolveField hkw).2 (fieldsFinite_iff.mp hv kv hkv)
  | arr items ih =>
    rw [resolve_arr] at h
    obtain ⟨ws, hws, h⟩ := exists_ok_of_bind h
    cases h
    refine areFinite_iff.mpr fun w hw => ?_
    obtain ⟨v, hmem, hw⟩ := mem_of_mapM_eq_ok hws hw
    exact ih v hmem hw (areFinite_iff.mp hv v hmem)
  | scalar v ha ho =>
    rw [resolve_scalar ha ho] at h
    cases h
    exact hv

end Conditional

/-! ## Properties -/

open Json.Decoder (keeps_given keeps_needed keeps_optional record_keeps value_iff)

/-- Whether the arguments of a descriptor are finite, if it has any. -/
def Descriptor.ArgsFinite (d : Descriptor) : Prop := ∀ a ∈ d.keyArgs?, a.isFinite = true

/-- The decoder of a descriptor hands on its arguments unchanged. -/
theorem Descriptor.argsFinite_of_decode {v : Value} {d : Descriptor} (h : decode v = .ok d)
    (hv : v.isFinite = true) : d.ArgsFinite := by
  refine record_keeps (Q := fun a => a.isFinite = true) ?_ (fun _ => Value.forall_layer hv) h nofun
  simp only [List.forall_mem_cons, List.not_mem_nil, false_imp_iff, implies_true, and_true]
  exact ⟨keeps_needed fun _ _ => id, keeps_given fun _ _ => id, keeps_given fun _ _ => id,
    keeps_given fun _ _ => id, keeps_given fun _ _ => id,
    keeps_optional (R := fun a : Value => a.isFinite = true)
      (fun v w _ hv h => value_iff.mp h ▸ hv) fun _ _ hb _ => hb,
    keeps_given fun _ _ => id, keeps_given fun _ _ => id, keeps_given fun _ _ => id,
    keeps_given fun _ _ => id, keeps_given fun _ _ => id, keeps_given fun _ _ => id,
    keeps_given fun _ _ => id⟩

/-- **The arguments of what is compiled are finite** if the declared values are. -/
theorem Declaration.argsFinite_of_mem {d : Declaration} {facts : Facts}
    (hd : fieldsFinite d.stats = true) {p : Property} (hp : p ∈ d.properties facts) :
    p.descriptor.ArgsFinite := by
  obtain ⟨⟨name, verdict⟩, hverdict, hcompiled⟩ := List.mem_filterMap.mp hp
  obtain ⟨⟨name', declared⟩, hdeclared, heq⟩ := List.mem_map.mp hverdict
  obtain ⟨rfl, hcompile⟩ := Prod.mk.inj heq
  have hok : verdict = .ok (some p) := by
    cases verdict with
    | error e => cases hcompiled
    | ok p? => exact congrArg Except.ok hcompiled
  obtain ⟨rendered, hrender, hdecode, -⟩ := Property.exists_of_compile? (hcompile.trans hok)
  have hfinite : declared.isFinite = true := fieldsFinite_iff.mp hd _ hdeclared
  refine Descriptor.argsFinite_of_decode hdecode (Conditional.isFinite_resolve hrender ?_)
  rw [Template.isFinite_fill, hfinite]

end DeviceStats
