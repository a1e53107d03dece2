import DeviceStats.Proofs.Action.Written
import DeviceStats.Proofs.Json.Printer
import DeviceStats.Proofs.Property.Finite

/-!
# Proofs/Action/Finite — what is read from finite values is written so

An action takes its numbers from the values it is read from, so its written form is finite if they
are (`Action.isFinite_of_decodeAll`).
-/

namespace DeviceStats

open Json (Value Object)
open Json.Value (isFinite areFinite fieldsFinite areFinite_iff fieldsFinite_iff)
open Json.Decoder

namespace Action

/-- Whether all numbers in the record of an action are finite. -/
structure Draft.IsFinite (d : Draft) : Prop where
  all : ∀ v ∈ d.all?, v.isFinite = true
  any : ∀ vs ∈ d.any?, areFinite vs = true
  setTag : ∀ tags ∈ d.setTag?, fieldsFinite tags = true
  locations : ∀ v ∈ d.locations?, v.isFinite = true

/-- The record of an action takes its values from the fields that it is read from. -/
theorem Draft.isFinite_of_decode {v : Value} {d : Draft} (h : Draft.decode v = .ok d)
    (hv : v.isFinite = true) : d.IsFinite := by
  refine record_keeps (Q := fun a => a.isFinite = true) ?_ (fun _ => Value.forall_layer hv) h
    ⟨nofun, nofun, nofun, nofun⟩
  simp only [List.forall_mem_cons, List.not_mem_nil, false_imp_iff, implies_true, and_true]
  refine ⟨keeps_given fun _ _ h => ⟨h.all, h.any, h.setTag, h.locations⟩,
    keeps_optional (R := fun v => v.isFinite = true) (fun v w _ hv h => value_iff.mp h ▸ hv)
      fun _ _ hb h => ⟨hb, h.any, h.setTag, h.locations⟩,
    keeps_optional (R := fun vs => areFinite vs = true) ?_
      fun _ _ hb h => ⟨h.all, hb, h.setTag, h.locations⟩,
    keeps_optional (R := fun tags => fieldsFinite tags = true) ?_
      fun _ _ hb h => ⟨h.all, h.any, hb, h.locations⟩,
    keeps_given fun _ _ h => ⟨h.all, h.any, h.setTag, h.locations⟩,
    keeps_given fun _ _ h => ⟨h.all, h.any, h.setTag, h.locations⟩,
    keeps_optional (R := fun v => v.isFinite = true) (fun v w _ hv h => value_iff.mp h ▸ hv)
      fun _ _ hb h => ⟨h.all, h.any, h.setTag, hb⟩⟩
  · intro v vs _ hv h
    obtain rfl := list_value_iff.mp h
    exact hv
  · intro v tags _ hv h
    obtain ⟨fields, rfl, rfl⟩ := named_value_iff.mp h
    exact fieldsFinite_iff.mpr fun kv hkv =>
      fieldsFinite_iff.mp hv kv (Named.mem_of_mem_ofPairs hkv)

theorem fieldsFinite_singleton {name : String} {v : Value} (h : v.isFinite = true) :
    fieldsFinite [(name, v)] = true :=
  fieldsFinite_iff.mpr (List.forall_mem_singleton.mpr h)

/-- A condition is written with the trees that were given. -/
theorem Draft.IsFinite.condition {d : Draft} {c? : Option Condition} (hd : d.IsFinite)
    (h : d.condition? = .ok c?) : fieldsFinite (conditionEntries c?) = true := by
  unfold condition? at h
  split at h
  · cases h
  · rename_i tree hall _
    cases h
    exact fieldsFinite_singleton (hd.all _ hall)
  · cases h
  · rename_i vs _ hany
    split at h
    · rename_i trees htrees
      cases h
      rw [conditionEntries, ← mapM_obj?_eq_some_iff.mp htrees]
      exact fieldsFinite_singleton (hd.any _ hany)
    · cases h
  · cases h
    rfl

/-- Locations are the object that was given. -/
theorem Draft.IsFinite.places {d : Draft} {l? : Option Object} (hd : d.IsFinite)
    (h : d.places? = .ok l?) : ∀ l ∈ l?, fieldsFinite l = true := by
  unfold places? at h
  split at h
  · rename_i l hl
    cases h
    rintro _ ⟨⟩
    exact hd.locations _ hl
  · cases h
  · cases h
    exact nofun

/-- Of its effect an action writes the tags and the locations, and an empty payload for the
others. -/
theorem Draft.IsFinite.effect {d : Draft} {l? : Option Object} {e : Effect} (hd : d.IsFinite)
    (hl : ∀ l ∈ l?, fieldsFinite l = true) (h : d.effect l? = .ok e) :
    fieldsFinite (effectEntries e) = true := by
  unfold Draft.effect at h
  split at h
  · rename_i tags htags _ _
    cases h
    have htags : (Value.obj tags).isFinite = true := hd.setTag _ htags
    cases l? with
    | none => exact fieldsFinite_singleton htags
    | some l => exact Bool.and_eq_true_iff.mpr ⟨htags, fieldsFinite_singleton (hl l rfl)⟩
  · split at h <;> cases h
    exact Bool.and_eq_true_iff.mpr ⟨rfl, fieldsFinite_singleton (hl _ rfl)⟩
  · split at h <;> cases h
    exact Bool.and_eq_true_iff.mpr ⟨rfl, fieldsFinite_singleton (hl _ rfl)⟩
  · cases h
  · cases h

/-- An action has no number of its own. -/
theorem isFinite_encode_of_decode {v : Value} {a : Action} (h : decode v = .ok a)
    (hv : v.isFinite = true) : a.encode.isFinite = true := by
  obtain ⟨d, hread, ha⟩ := decode_eq_ok_iff.mp h
  have hd := Draft.isFinite_of_decode hread hv
  obtain ⟨-, hc, l?, hl, he⟩ := Draft.action_eq_ok_iff.mp ha
  exact fieldsFinite_iff.mpr (List.forall_mem_cons.mpr ⟨rfl, List.forall_mem_append.mpr
    ⟨fieldsFinite_iff.mp (hd.condition hc), fieldsFinite_iff.mp (hd.effect (hd.places hl) he)⟩⟩)

/-- **What is read from finite values is written so.** -/
theorem isFinite_of_decodeAll {vs : List Value} {as : List Action} (h : decodeAll vs = .ok as)
    (hvs : areFinite vs = true) : ∀ a ∈ as, a.encode.isFinite = true := by
  intro a ha
  have hmem : (Except.ok a : Except (Json.DecodeError ActionFault) Action) ∈ vs.map decode :=
    decodeFrom_eq_ok_iff.mp h ▸ List.mem_map_of_mem ha
  obtain ⟨v, hv, hread⟩ := List.mem_map.mp hmem
  exact isFinite_encode_of_decode hread (areFinite_iff.mp hvs v hv)

end Action

end DeviceStats
