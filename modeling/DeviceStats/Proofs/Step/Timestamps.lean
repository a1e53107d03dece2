import DeviceStats.Proofs.Json.Names
import DeviceStats.Proofs.Json.Objects
import DeviceStats.Proofs.Text.Blank
import DeviceStats.Proofs.Time.Layouts
import DeviceStats.Step.Timestamps

/-!
# Proofs/Step/Timestamps — a written moment stays as it is written

A moment in its written form is read as it is written or not at all, so what has been written is not
written in another way (`written_written`).  Thus formatting leaves under its keys only what it
would not change (`each_inForm_apply`), and where there is nothing else it changes nothing
(`apply_eq_self_iff`): formatting twice is formatting once (`apply_apply`).
-/

namespace DeviceStats.Timestamps

open Json (Value Object Descent)
open Text (isBlank isBlank_of_isDigit trimChars trimChars_eq_self)
open Time (Moment)

/-! ## Written moments -/

/-- A written moment begins with a digit or a sign, … -/
theorem head_isoChars (m : Moment) : ∀ c ∈ m.isoChars.head?, isBlank c = false := by
  by_cases hyear : 0 ≤ m.date.year ∧ m.date.year ≤ 9999
  · rw [Moment.isoChars_eq hyear.1 hyear.2]
    have hne : Time.padded 4 m.date.year.toNat ≠ [] := by
      simp [Time.padded_eq, Nat.toDigits_ne_nil]
    rw [List.head?_append_of_ne_nil _ hne]
    exact fun c hc => isBlank_of_isDigit (Time.isDigit_of_mem_padded c (List.mem_of_mem_head? hc))
  · obtain ⟨c, cs, hcs, hc⟩ := Moment.exists_isoChars_eq_sign hyear
    rw [hcs]
    rintro _ ⟨⟩
    rcases hc with rfl | rfl <;> rfl

/-- … and ends with a letter, so trimming leaves it as it is. -/
theorem getLast_isoChars (m : Moment) : ∀ c ∈ m.isoChars.getLast?, isBlank c = false := by
  intro c hc
  rw [Moment.isoChars, List.getLast?_concat] at hc
  cases hc
  rfl

/-- A written moment is not a number of seconds, so it is read in the layouts. -/
theorem ofText?_iso (m : Moment) : ofText? m.iso = Moment.ofChars? m.isoChars := by
  have htrim : trimChars m.iso.toList = m.isoChars := by
    rw [Moment.iso, String.toList_ofList]
    exact trimChars_eq_self (head_isoChars m) (getLast_isoChars m)
  have hempty : m.isoChars.isEmpty = false :=
    List.isEmpty_eq_false_iff.mpr (List.ne_nil_of_mem m.mem_isoChars)
  have hletter : m.isoChars.all Char.isDigit = false :=
    List.all_eq_false.mpr ⟨'Z', m.mem_isoChars, by decide⟩
  simp [ofText?, htrim, hempty, hletter]

theorem onClock_of_ofSeconds? {n : Int} {m : Moment} (h : Moment.ofSeconds? n = some m) :
    m.OnClock := by
  unfold Moment.ofSeconds? at h
  split at h
  · cases h
    exact ⟨Nat.succ_pos _, nofun⟩
  · cases h

theorem onClock_of_ofText? {s : String} {m : Moment} (h : ofText? s = some m) : m.OnClock := by
  simp only [ofText?] at h
  split at h
  · cases h
  · split at h
    · exact onClock_of_ofSeconds? h
    · exact Moment.onClock_of_ofChars? h

/-- Whatever a moment is read from, a text or a number, a clock can show it. -/
theorem onClock_of_moment? {v : Value} {m : Moment} (h : moment? v = some m) : m.OnClock := by
  unfold moment? at h
  split at h
  · exact onClock_of_ofSeconds? h
  · exact onClock_of_ofText? h
  · cases h

/-- A written moment is read as it is written or, outside the years 0 to 9999, not at all. -/
theorem iso?_iso {m : Moment} (h : m.OnClock) : iso? (.str m.iso) =
    if 0 ≤ m.date.year ∧ m.date.year ≤ 9999 then some m.iso else none := by
  have hread : iso? (.str m.iso) = (Moment.ofChars? m.isoChars).map Moment.iso :=
    congrArg (Option.map Moment.iso) (ofText?_iso m)
  rw [hread]
  split
  · rename_i hyear
    rw [h.ofChars?_isoChars hyear.1 hyear.2, Option.map_some, Moment.iso, m.isoChars_wholeMillis]
    rfl
  · rename_i hyear
    rw [Moment.ofChars?_isoChars_eq_none hyear, Option.map_none]

/-- **A value in its written form is not written in another way.** -/
theorem written_written (v : Value) : written (written v) = written v := by
  cases hm : moment? v with
  | none =>
    have hv : written v = v := by simp only [written, iso?, hm, Option.map_none]
    rw [hv, hv]
  | some m =>
    have hv : written v = .str m.iso := by simp only [written, iso?, hm, Option.map_some]
    rw [hv]
    have h := iso?_iso (onClock_of_moment? hm)
    split at h <;> simp only [written, h]

/-! ## Formatting -/

variable {keys : List String} {d : Descent} {Q : Object → Prop} {v : Value}

theorem applyItems_eq (items : List Value) : applyItems keys items = items.map (apply keys) := by
  induction items with
  | nil => rfl
  | cons v vs ih => rw [applyItems, ih, List.map_cons]

/-- What formatting puts under a name. -/
def formatted (keys : List String) (k : String) (v : Value) : Value :=
  if keys.contains k then written v else apply keys v

theorem applyFields_eq (fields : Object) :
    applyFields keys fields = fields.map fun kv => (kv.1, formatted keys kv.1 kv.2) := by
  induction fields with
  | nil => rfl
  | cons kv rest ih => rw [applyFields, ih, List.map_cons]; rfl

theorem apply_scalar (ha : v.arr? = none) (ho : v.obj? = none) : apply keys v = v := by
  cases v with
  | arr | obj => simp [Value.arr?, Value.obj?] at ha ho
  | null | bool | num | str => rfl

/-- An entry that was formatted keeps its name. -/
theorem mem_applyFields {fields : Object} {kv : String × Value} :
    kv ∈ applyFields keys fields ↔ ∃ x, (kv.1, x) ∈ fields ∧ formatted keys kv.1 x = kv.2 := by
  obtain ⟨k, w⟩ := kv
  simp only [applyFields_eq, List.mem_map, Prod.mk.injEq, Prod.exists]
  constructor
  · rintro ⟨j, x, hmem, rfl, rfl⟩
    exact ⟨x, hmem, rfl⟩
  · rintro ⟨x, hmem, hx⟩
    exact ⟨k, x, hmem, rfl, hx⟩

/-- Under a name stands what formatting makes of the value there. -/
theorem get?_applyFields (key : String) (o : Object) :
    Named.get? (applyFields keys o) key = (o.get? key).map (formatted keys key) := by
  rw [applyFields_eq, Named.get?_map]

/-- A text is changed only under a given key. -/
theorem str?_formatted {k : String} (hk : keys.contains k = false) (v : Value) :
    (formatted keys k v).str? = v.str? := by
  rw [formatted, hk]
  cases v <;> rfl

theorem eq_of_written_eq_obj {o : Object} (h : written v = .obj o) : v = .obj o := by
  unfold written at h
  split at h
  · cases h
  · exact h

/-- An object comes from an object: a moment is written as a text. -/
theorem exists_of_formatted_eq_obj {k : String} {o : Object} (h : formatted keys k v = .obj o) :
    ∃ x, v = .obj x ∧ (x = o ∨ applyFields keys x = o) := by
  unfold formatted at h
  split at h
  · exact ⟨o, eq_of_written_eq_obj h, .inl rfl⟩
  · cases v with
    | obj x => exact ⟨x, rfl, .inr (Value.obj.inj h)⟩
    | null | bool | num | str | arr => cases h

/-- A written moment has no objects, so they keep what they have. -/
theorem each_written (h : v.Each d Q) : (written v).Each d Q := by
  unfold written
  split
  · exact Value.each_scalar rfl rfl
  · exact h

/-- What holds of the objects of a value, and of each when it is formatted, holds after formatting. -/
theorem each_apply (hQ : ∀ o, Q o → Q (applyFields keys o)) (h : v.Each d Q) :
    (apply keys v).Each d Q := by
  induction v using Value.partsInduction with
  | arr items ih =>
    rw [apply, applyItems_eq]
    exact Value.each_map fun harrays v hv => ih v hv (Value.each_arr.mp h harrays v hv)
  | obj fields ih =>
    obtain ⟨hfields, hvalues⟩ := Value.each_obj.mp h
    refine Value.each_obj.mpr ⟨hQ fields hfields, fun kv hkv hstops => ?_⟩
    obtain ⟨x, hx, heq⟩ := mem_applyFields.mp hkv
    rw [← heq, formatted]
    split
    · exact each_written (hvalues _ hx hstops)
    · exact ih _ hx (hvalues _ hx hstops)
  | scalar v ha ho => rwa [apply_scalar ha ho]

/-- What stands under the given keys is in its written form. -/
def InForm (keys : List String) (o : Object) : Prop :=
  ∀ kv ∈ o, keys.contains kv.1 = true → written kv.2 = kv.2

/-- Where formatting looks for keys: not below a key that it has found. -/
def descent (keys : List String) : Descent := { stops := keys.contains }

/-- **What formatting leaves is in its written form.** -/
theorem each_inForm_apply (v : Value) : (apply keys v).Each (descent keys) (InForm keys) := by
  induction v using Value.partsInduction with
  | arr items ih =>
    rw [apply, applyItems_eq]
    exact Value.each_map fun _ => ih
  | obj fields ih =>
    refine Value.each_obj.mpr ⟨fun kv hkv hk => ?_, fun kv hkv hstops => ?_⟩
    · obtain ⟨x, -, heq⟩ := mem_applyFields.mp hkv
      rw [← heq, formatted, if_pos hk, written_written]
    · obtain ⟨x, hx, heq⟩ := mem_applyFields.mp hkv
      have hk : ¬ keys.contains kv.1 = true := Bool.eq_false_iff.mp hstops
      rw [← heq, formatted, if_neg hk]
      exact ih _ hx
  | scalar v ha ho =>
    rw [apply_scalar ha ho]
    exact Value.each_scalar ha ho

/-- Where everything is in its written form, formatting changes nothing. -/
theorem apply_eq_self (h : v.Each (descent keys) (InForm keys)) : apply keys v = v := by
  induction v using Value.partsInduction with
  | arr items ih =>
    have hitems := Value.each_arr.mp h rfl
    rw [apply, applyItems_eq]
    exact congrArg Value.arr (Value.map_items_eq_self fun v hv => ih v hv (hitems v hv))
  | obj fields ih =>
    obtain ⟨hfields, hvalues⟩ := Value.each_obj.mp h
    have hfixed : ∀ kv ∈ fields, formatted keys kv.1 kv.2 = kv.2 := by
      intro kv hkv
      unfold formatted
      split
      · rename_i hk
        exact hfields kv hkv hk
      · rename_i hk
        exact ih kv hkv (hvalues kv hkv (Bool.eq_false_iff.mpr hk))
    rw [apply, applyFields_eq]
    exact congrArg Value.obj (Value.map_fields_eq_self hfixed)
  | scalar v ha ho => exact apply_scalar ha ho

/-- **Formatting changes nothing exactly where all is in its written form.** -/
theorem apply_eq_self_iff : apply keys v = v ↔ v.Each (descent keys) (InForm keys) :=
  ⟨fun h => h ▸ each_inForm_apply v, apply_eq_self⟩

/-- **Formatting twice is formatting once**, since the text that a value is written as is read as
that text or, if the year is not one of 0 to 9999, as no moment. -/
theorem apply_apply (keys : List String) (v : Value) :
    apply keys (apply keys v) = apply keys v ∧
      ∀ s, iso? v = some s → (iso? (.str s) = some s ∨ iso? (.str s) = none) ∧
        ∀ m, moment? v = some m →
          ((iso? (.str s)).isSome ↔ 0 ≤ m.date.year ∧ m.date.year ≤ 9999) := by
  refine ⟨apply_eq_self (each_inForm_apply v), fun s hs => ?_⟩
  obtain ⟨m, hm, rfl⟩ := Option.map_eq_some_iff.mp hs
  rw [iso?_iso (onClock_of_moment? hm)]
  refine ⟨?_, fun m' hm' => ?_⟩
  · split
    · exact .inl rfl
    · exact .inr rfl
  · obtain rfl := Option.some.inj (hm.symm.trans hm')
    rw [Option.isSome_ite]

/-- A leap second on a clock that is ahead is written in universal time and read again; the start of
the year 10000 is not. -/
theorem apply_apply_two_texts :
    let leap : Value := .str "2017-01-01T01:59:60.1239+02:00"
    let late : Value := .str "+10000-1-1 0:0:0"
    iso? leap = some "2016-12-31T23:59:60.123Z" ∧
      iso? (.str "2016-12-31T23:59:60.123Z") = some "2016-12-31T23:59:60.123Z" ∧
      iso? late = some "+10000-01-01T00:00:00.000Z" ∧
      iso? (.str "+10000-01-01T00:00:00.000Z") = none := by
  intro leap late
  have hleap : iso? leap = some "2016-12-31T23:59:60.123Z" := by decide +kernel
  have hlate : iso? late = some "+10000-01-01T00:00:00.000Z" := by decide +kernel
  obtain ⟨hread, hyear⟩ := (apply_apply [] leap).2 _ hleap
  obtain ⟨-, hyear'⟩ := (apply_apply [] late).2 _ hlate
  have hmoment : moment? leap = some ⟨1483228799, 1123900000⟩ := by decide +kernel
  have hmoment' : moment? late = some ⟨253402300800, 0⟩ := by decide +kernel
  refine ⟨hleap, hread.resolve_right fun hnone => ?_, hlate, ?_⟩
  · have hsome := (hyear _ hmoment).mpr (by decide)
    rw [hnone] at hsome
    cases hsome
  · refine Option.not_isSome_iff_eq_none.mp fun hsome => ?_
    exact absurd ((hyear' _ hmoment').mp hsome) (by decide)

end DeviceStats.Timestamps
