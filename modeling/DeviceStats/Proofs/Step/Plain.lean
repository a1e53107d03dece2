import DeviceStats.Proofs.Json.Printer
import DeviceStats.Proofs.Property.Finite
import DeviceStats.Proofs.Step.Fixpoint

/-!
# Proofs/Step/Plain — a reduction of plain data

Where no object has entries to lift and none wraps a single value, a reduction has nothing to do.
It takes every object apart all the same, and an `entries` that is no object comes back at the end
of its object, with the last member in its old place.  So plain data keep their values, but not
always their order: they are `Rearranged`, and left as they are exactly if no `entries` stands
before another member (`apply_ordinary`).
-/

namespace DeviceStats.Reduction

open Json (Value Object Distinct)

variable {o : Object} {v : Value}

/-! ## Plain data -/

/-- An object that has no entries to lift and is no wrapper of a single value. -/
def Ordinary (o : Object) : Prop :=
  (∀ E, o.get? "entries" ≠ some (.obj E)) ∧ ∀ k ∈ wrappers, Named.keys o ≠ [k]

theorem ordinary_iff : Ordinary o ↔ IsPlain o := by
  rw [IsPlain, view_eq_plain_iff]
  refine and_congr_right fun _ => ⟨fun h => ⟨nofun, ?_⟩, fun h k hk hkeys => ?_⟩
  · rintro k v rfl
    exact Bool.eq_false_iff.mpr fun hk => h k (List.contains_iff_mem.mp hk) rfl
  · obtain ⟨⟨j, v⟩, ho, rfl⟩ := List.map_eq_singleton_iff.mp hkeys
    exact Bool.eq_false_iff.mp (h.2 j v ho) (List.contains_iff_mem.mpr hk)

instance : DecidablePred Ordinary := fun _ => decidable_of_iff _ ordinary_iff.symm

/-- Induction on the parts of plain data. -/
theorem ordinaryInduction {motive : Value → Prop}
    (scalar : ∀ v, v.arr? = none → v.obj? = none → motive v)
    (arr : ∀ items, (∀ v ∈ items, motive v) → motive (.arr items))
    (obj : ∀ o : Object, Distinct o → IsPlain o → (∀ kv ∈ o, motive kv.2) → motive (.obj o))
    (hn : v.Each {} Distinct) (h : v.Each {} Ordinary) : motive v := by
  induction v using Value.partsInduction with
  | scalar v ha ho => exact scalar v ha ho
  | arr items ih =>
    exact arr items fun v hv =>
      ih v hv (Value.each_arr.mp hn rfl v hv) (Value.each_arr.mp h rfl v hv)
  | obj o ih =>
    obtain ⟨hno, hnvalues⟩ := Value.each_obj.mp hn
    obtain ⟨ho, hvalues⟩ := Value.each_obj.mp h
    exact obj o hno (ordinary_iff.mp ho) fun kv hkv =>
      ih kv hkv (hnvalues kv hkv rfl) (hvalues kv hkv rfl)

/-! ## Where entries stand -/

/-- No `entries` stands before another member. -/
def AtEnd (o : Object) : Prop := "entries" ∉ Named.keys o.dropLast

instance : DecidablePred AtEnd := fun o =>
  inferInstanceAs (Decidable ("entries" ∉ Named.keys o.dropLast))

theorem atEnd_of_not_mem (h : "entries" ∉ Named.keys o) : AtEnd o :=
  fun hmem => h ((List.dropLast_sublist o).map _ |>.subset hmem)

theorem atEnd_concat {front : Object} (h : "entries" ∉ Named.keys front) (kv : String × Value) :
    AtEnd (front ++ [kv]) := by
  rwa [AtEnd, List.dropLast_concat]

theorem not_atEnd (front : Object) (v : Value) (back : Object) (last : String × Value) :
    ¬ AtEnd (front ++ ("entries", v) :: (back ++ [last])) := by
  rw [AtEnd, ← List.cons_append, ← List.append_assoc, List.dropLast_concat]
  simp [Named.keys]

/-- The members of an object once `entries` and the last one have changed places. -/
inductive Exchanged : Object → Object → Prop
  | kept {o : Object} (h : AtEnd o) : Exchanged o o
  | swapped (front : Object) (v : Value) (back : Object) (last : String × Value) :
    Exchanged (front ++ ("entries", v) :: (back ++ [last]))
      (front ++ last :: back ++ [("entries", v)])

theorem exchanged_entriesLast (hn : Distinct o) : Exchanged o (entriesLast o) := by
  obtain hmem | ⟨front, v, hfront, rfl⟩ | ⟨front, v, back, last, hfront, hback, rfl⟩ :=
    entries_cases hn
  · rw [entriesLast_of_not_mem hmem]
    exact .kept (atEnd_of_not_mem hmem)
  · rw [entriesLast_concat hfront]
    exact .kept (atEnd_concat hfront _)
  · rw [entriesLast_append hfront hback]
    exact .swapped front v back last

theorem entriesLast_eq_self_iff (hn : Distinct o) : entriesLast o = o ↔ AtEnd o := by
  obtain hmem | ⟨front, v, hfront, rfl⟩ | ⟨front, v, back, last, hfront, hback, rfl⟩ :=
    entries_cases hn
  · exact iff_of_true (entriesLast_of_not_mem hmem) (atEnd_of_not_mem hmem)
  · exact iff_of_true (entriesLast_concat hfront v) (atEnd_concat hfront _)
  · refine iff_of_false (fun h => hback ?_) (not_atEnd front v back last)
    rw [entriesLast_append hfront hback, List.append_assoc] at h
    obtain ⟨rfl, -⟩ := List.cons.inj (List.append_cancel_left h)
    simp [Named.keys]

/-! ## Rearranged values -/

/-- A value with members of its objects exchanged, and otherwise the same. -/
inductive Rearranged : Value → Value → Prop
  | scalar {v : Value} (ha : v.arr? = none) (ho : v.obj? = none) : Rearranged v v
  | arr {items items' : List Value} (h : List.Forall₂ Rearranged items items') :
    Rearranged (.arr items) (.arr items')
  | obj {o o' o'' : Object} (hkeys : Named.keys o' = Named.keys o)
    (hvalues : List.Forall₂ Rearranged (o.map (·.2)) (o'.map (·.2)))
    (hexchanged : Exchanged o' o'') : Rearranged (.obj o) (.obj o'')

/-- Reducing plain data exchanges members and does nothing else. -/
theorem rearranged_bare (hn : v.Each {} Distinct) (h : v.Each {} Ordinary) :
    Rearranged v (bare v) := by
  refine ordinaryInduction (motive := fun v => Rearranged v (bare v)) ?scalar ?arr ?obj hn h
  case scalar =>
    intro v ha ho
    rw [bare_scalar ha ho]
    exact .scalar ha ho
  case arr =>
    intro items ih
    rw [bare_arr]
    exact .arr (List.forall₂_map_right_iff.mpr (List.forall₂_same.mpr ih))
  case obj =>
    intro o hno hplain ih
    rw [bare_plain hplain]
    refine .obj (Named.keys_map (fun _ => bare) o) ?_ (exchanged_entriesLast (distinct_bare hno))
    rw [List.map_map, List.forall₂_map_left_iff, List.forall₂_map_right_iff, List.forall₂_same]
    exact ih

/-- Values are as finite as they were. -/
theorem isFinite_bare (hn : v.Each {} Distinct) (h : v.Each {} Ordinary) :
    v.isFinite = true → (bare v).isFinite = true := by
  refine ordinaryInduction (motive := fun v => v.isFinite = true → (bare v).isFinite = true)
    ?scalar ?arr ?obj hn h
  case scalar =>
    intro v ha ho hv
    rwa [bare_scalar ha ho]
  case arr =>
    intro items ih hv
    rw [bare_arr]
    exact Value.areFinite_iff.mpr (List.forall_mem_map.mpr fun v hmem =>
      ih v hmem (Value.areFinite_iff.mp hv v hmem))
  case obj =>
    intro o hno hplain ih hv
    rw [bare_plain hplain]
    refine Value.fieldsFinite_iff.mpr fun kw hkw => ?_
    obtain ⟨kv, hkv, rfl⟩ := List.mem_map.mp ((perm_plainly hno).mem_iff.mp hkw)
    exact ih kv hkv (Value.fieldsFinite_iff.mp hv kv hkv)

theorem bare_eq_self_iff (hn : v.Each {} Distinct) (h : v.Each {} Ordinary) :
    bare v = v ↔ v.Each {} AtEnd := by
  have hsteady : bare v = v ↔ Steady {} v := by
    rw [← apply_eq_self_iff hn, apply, reduce_eq, Except.ok.injEq]
  have hstill {o : Object} (hno : Distinct o) (ho : Ordinary o) : Still {} o ↔ AtEnd o :=
    (and_iff_right (ordinary_iff.mp ho)).trans (entriesLast_eq_self_iff hno)
  have hkept : Kept {} v := fun key _ hkey => absurd hkey (Option.some_ne_none key).symm
  rw [hsteady]
  exact ⟨fun hs o ho => (hstill (hn o ho) (h o ho)).mp (hs.objects o ho),
    fun hend => ⟨fun o ho => (hstill (hn o ho) (h o ho)).mpr (hend o ho), hkept⟩⟩

/-- **A reduction without options keeps the values of plain data and, but for `entries`, their
order.**  Where no object has entries to lift and none is a wrapper, the reduction succeeds and
gives the value rearranged: each object has its members under the same names in the same places,
except that an `entries` that is no object changes places with the last member.  So the value, and
with it its text, is the same exactly if no `entries` stands before another member. -/
theorem apply_ordinary (hn : v.Each {} Distinct) (h : v.Each {} Ordinary) :
    ∃ w, apply {} v = .ok w ∧ Rearranged v w ∧ (w = v ↔ v.Each {} AtEnd) ∧
      (v.isFinite = true → (w.text = v.text ↔ v.Each {} AtEnd)) := by
  have hself := bare_eq_self_iff hn h
  refine ⟨bare v, reduce_eq v true, rearranged_bare hn h, hself, fun hv => ?_⟩
  rw [← hself]
  exact ⟨Value.text_inj (isFinite_bare hn h hv) hv, congrArg Value.text⟩

/-- The `entries` of the outer object stay at the end; those of the inner one go there. -/
theorem apply_ordinary_nested :
    let v : Value := .obj [("a", .obj [("entries", .int 1), ("b", .null)]), ("entries", .arr [])]
    v.Each {} Distinct ∧ v.Each {} Ordinary ∧ v.isFinite = true ∧
      ∃ w, apply {} v = .ok w ∧ Rearranged v w ∧ w ≠ v ∧ w.text ≠ v.text := by
  intro v
  have hn : v.Each {} Distinct := by decide
  have h : v.Each {} Ordinary := by decide +kernel
  have hv : v.isFinite = true := by decide
  have hnot : ¬ v.Each {} AtEnd := by decide
  obtain ⟨w, hw, hrearranged, hself, htext⟩ := apply_ordinary hn h
  exact ⟨hn, h, hv, w, hw, hrearranged, mt hself.mp hnot, mt (htext hv).mp hnot⟩

/-- **Plain data need not keep their order**: a number under `entries` goes to the end, and the last
member to the front. -/
theorem not_apply_ordinary : ¬ ∀ v w : Value, v.Each {} Distinct → v.Each {} Ordinary →
    v.isFinite = true → apply {} v = .ok w → w.text = v.text := by
  intro hall
  let v : Value := .obj [("entries", .int 1), ("a", .int 2), ("b", .int 3)]
  have htext := hall v (bare v) (by decide) (by decide +kernel) (by decide) (reduce_eq v true)
  have hreduced : (bare v).text = "\x7b\"b\":3,\"a\":2,\"entries\":1\x7d" := by decide +kernel
  rw [hreduced] at htext
  exact absurd htext (by decide +kernel)

end DeviceStats.Reduction
