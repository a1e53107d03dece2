import DeviceStats.Proofs.Step.Tagging

/-!
# Proofs/Tag/Repetition — tagging what is tagged

Tagging again sees the tags of the first time: as items, which they are not, as entries that are
there, and as the text under the subject field.  Only the last can matter.  A tag that writes the
subject field gives the item another subject, for which a tag without a value may have one.  So what
is tagged stays as it is exactly if no item gets a further tag by its second subject
(`inject_inject_iff`); at the latest the second time nothing is left to do, since then the subject
field is there or will never be.
-/

namespace DeviceStats.Tag

open Json (Value Object Distinct)

variable {definitions : TagDefinitions} {tags : Object} {opts : InjectOptions}
variable {k n : String} {o : Object} {v : Value} {P P' : String → Object → Prop}

/-! ## What holds of all items -/

/-- What holds of each item and its key. -/
def EachItem (tags : Object) (opts : InjectOptions) (P : String → Object → Prop) (v : Value) :
    Prop :=
  v.Each (descent tags opts) fun o => ∀ kv ∈ o, isSkipped tags opts kv.1 = false →
    ∀ inner, kv.2 = .obj inner → P kv.1 inner

/-- The items of an object are those under its names and the items of these. -/
theorem eachItem_obj : EachItem tags opts P (.obj o) ↔ ∀ kv ∈ o, isSkipped tags opts kv.1 = false →
    (∀ inner, kv.2 = .obj inner → P kv.1 inner) ∧ EachItem tags opts P kv.2 := by
  refine Value.each_obj.trans ⟨fun ⟨hitems, hvalues⟩ kv hkv hk => ?_, fun h => ⟨?_, ?_⟩⟩
  · exact ⟨hitems kv hkv hk, hvalues kv hkv hk⟩
  · exact fun kv hkv hk => (h kv hkv hk).1
  · exact fun kv hkv hk => (h kv hkv hk).2

theorem eachItem_of_obj?_eq_none (h : v.obj? = none) : EachItem tags opts P v := by
  cases v with
  | obj => cases h
  | arr items => exact Value.each_arr.mpr fun harrays => absurd harrays Bool.false_ne_true
  | null | bool | num | str => exact Value.each_scalar rfl rfl

theorem eachItem_of_forall (h : ∀ k o, P k o) (v : Value) : EachItem tags opts P v :=
  fun _ _ kv _ _ inner _ => h kv.1 inner

/-- The tags that an item gets are no items. -/
theorem eachItem_tagged : EachItem tags opts P (.obj (tagged definitions tags opts k o)) ↔
    EachItem tags opts P (inject definitions tags opts (.obj o)) := by
  obtain ⟨new, hnew, hwrites⟩ := exists_tagged_eq_append definitions tags opts k o
  rw [inject, hnew, eachItem_obj, eachItem_obj, List.forall_mem_append]
  refine and_iff_left fun kv hkv hk => ?_
  exact absurd ((isSkipped_of_writes (hwrites kv hkv).2).symm.trans hk) (by decide)

/-- **What holds of the items of a tagged value** is what holds of its items once they are
tagged. -/
theorem eachItem_inject
    (h : ∀ k o, P k (tagged definitions tags opts k o) ↔ P' k o) (v : Value) :
    EachItem tags opts P (inject definitions tags opts v) ↔ EachItem tags opts P' v := by
  induction v using Value.partsInduction with
  | obj fields ih =>
    rw [inject, eachItem_obj, eachItem_obj, injectFields_eq, List.forall_mem_map]
    refine forall₂_congr fun kv hkv => forall_congr' fun hk => ?_
    cases hobj : kv.2.obj? with
    | none =>
      have hno : ∀ inner, kv.2 ≠ .obj inner := fun inner hinner => by simp [hinner, Value.obj?] at hobj
      rw [item_eq_self_of_obj?_eq_none hobj]
      refine iff_of_true ⟨?_, eachItem_of_obj?_eq_none hobj⟩ ⟨?_, eachItem_of_obj?_eq_none hobj⟩ <;>
        exact fun inner hinner => absurd hinner (hno inner)
    | some inner =>
      have hinner := Value.eq_obj_of_obj?_eq_some hobj
      have hrest := ih kv hkv
      rw [hinner] at hrest ⊢
      rw [item_eq_tagged hk, eachItem_tagged, hrest]
      simp only [Value.obj.injEq, forall_eq', h]
  | arr items => exact iff_of_true (eachItem_of_obj?_eq_none rfl) (eachItem_of_obj?_eq_none rfl)
  | scalar v ha ho =>
    rw [inject_eq_self_of_obj?_eq_none ho]
    exact iff_of_true (eachItem_of_obj?_eq_none ho) (eachItem_of_obj?_eq_none ho)

/-- Tagging changes nothing exactly where each item is complete. -/
theorem inject_eq_self_iff_eachItem : inject definitions tags opts v = v ↔
    EachItem tags opts (fun k o => Complete definitions tags (subjectIn opts k o) o) v :=
  inject_eq_self_iff

/-! ## The second subject -/

/-- The subject of an item once it is tagged: the text under the subject field, be it that of the
item or that of a tag. -/
def subjectAfter (definitions : TagDefinitions) (tags : Object) (opts : InjectOptions) (k : String)
    (o : Object) : String :=
  ((opts.subjectField?.bind fun f => (Named.get? o f).or
    ((tags.get? f).bind (resolve definitions (subjectIn opts k o)))).bind Value.str?).getD k

/-- The second subject of an item gives a value to no tag that is missing and had none. -/
def Stable (definitions : TagDefinitions) (tags : Object) (opts : InjectOptions) (k : String)
    (o : Object) : Prop :=
  ∀ tag ∈ tags, o.has tag.1 = false → resolve definitions (subjectIn opts k o) tag.2 = none →
    resolve definitions (subjectAfter definitions tags opts k o) tag.2 = none

theorem subjectIn_of_eq_none (hf : opts.subjectField? = none) (k : String) (o : Object) :
    subjectIn opts k o = k := by
  rw [subjectIn, subjectOf, hf]
  rfl

theorem subjectAfter_of_eq_none (hf : opts.subjectField? = none) (k : String) (o : Object) :
    subjectAfter definitions tags opts k o = k := by
  rw [subjectAfter, hf]
  rfl

theorem subjectIn_of_eq_some {f : String} (hf : opts.subjectField? = some f) (k : String)
    (o : Object) : subjectIn opts k o = ((Named.get? o f).bind Value.str?).getD k := by
  rw [subjectIn, subjectOf, hf]
  rfl

theorem subjectAfter_of_eq_some {f : String} (hf : opts.subjectField? = some f) (k : String)
    (o : Object) : subjectAfter definitions tags opts k o = (((Named.get? o f).or
      ((tags.get? f).bind (resolve definitions (subjectIn opts k o)))).bind Value.str?).getD k := by
  rw [subjectAfter, hf, Option.bind_some]

theorem subjectIn_tagged (htags : Distinct tags) (k : String) (o : Object) :
    subjectIn opts k (tagged definitions tags opts k o) =
      subjectAfter definitions tags opts k o := by
  cases hf : opts.subjectField? with
  | none => rw [subjectIn_of_eq_none hf, subjectAfter_of_eq_none hf]
  | some f =>
    rw [subjectIn_of_eq_some hf, subjectAfter_of_eq_some hf, get?_tagged htags]
    cases Named.get? o f with
    | none => rfl
    | some w => exact congrArg (Option.getD · k) (str?_item f w)

/-- The second subject is the last one: if the subject field is not there by then, no tag had a
value for it, and the key remains the subject. -/
theorem subjectAfter_tagged (htags : Distinct tags) (k : String) (o : Object) :
    subjectAfter definitions tags opts k (tagged definitions tags opts k o) =
      subjectIn opts k (tagged definitions tags opts k o) := by
  cases hf : opts.subjectField? with
  | none => rw [subjectIn_of_eq_none hf, subjectAfter_of_eq_none hf]
  | some f =>
    rw [subjectAfter_of_eq_some hf]
    cases hget : Named.get? (tagged definitions tags opts k o) f with
    | some w => rw [subjectIn_of_eq_some hf, hget, Option.some_or]
    | none =>
      have hafter : subjectIn opts k (tagged definitions tags opts k o) = k := by
        rw [subjectIn_of_eq_some hf, hget]
        rfl
      rw [get?_tagged htags, Option.or_eq_none_iff, Option.map_eq_none_iff] at hget
      have hbefore : subjectIn opts k o = k := by
        rw [subjectIn_of_eq_some hf, hget.1]
        rfl
      rw [hafter, Option.none_or, ← hbefore, hget.2]
      rfl

theorem has_tagged_eq_false_iff (htags : Distinct tags) {tag : String × Value} (htag : tag ∈ tags) :
    (tagged definitions tags opts k o).has tag.1 = false ↔
      o.has tag.1 = false ∧ resolve definitions (subjectIn opts k o) tag.2 = none := by
  rw [← Named.get?_eq_none_iff_has, ← Named.get?_eq_none_iff_has, get?_tagged htags,
    (Named.get?_eq_some_iff htags).mpr htag, Option.bind_some, Option.or_eq_none_iff,
    Option.map_eq_none_iff]

/-- An item is complete once it is tagged exactly if it is stable. -/
theorem complete_tagged_iff (htags : Distinct tags) (k : String) (o : Object) :
    Complete definitions tags (subjectIn opts k (tagged definitions tags opts k o))
      (tagged definitions tags opts k o) ↔ Stable definitions tags opts k o := by
  rw [subjectIn_tagged htags]
  refine forall₂_congr fun tag htag => ?_
  rw [← and_imp, ← has_tagged_eq_false_iff htags htag, ← Bool.not_eq_true, or_iff_not_imp_left]

/-- A tagged item is stable, since its subject does not change any more. -/
theorem stable_tagged (htags : Distinct tags) (k : String) (o : Object) :
    Stable definitions tags opts k (tagged definitions tags opts k o) := by
  intro tag _ _ hnone
  rwa [subjectAfter_tagged htags]

theorem stable_of_apart (h : Apart tags opts) (k : String) (o : Object) :
    Stable definitions tags opts k o := by
  intro tag _ _ hnone
  suffices hsubject : subjectAfter definitions tags opts k o = subjectIn opts k o by
    rwa [hsubject]
  cases hf : opts.subjectField? with
  | none => rw [subjectIn_of_eq_none hf, subjectAfter_of_eq_none hf]
  | some f =>
    rw [subjectAfter_of_eq_some hf, subjectIn_of_eq_some hf,
      Named.get?_eq_none_iff_has.mpr (h f hf), Option.bind_none, Option.or_none]

/-! ## Tagging twice -/

/-- **Tagging twice is tagging once exactly if the second subject of each item is as good as the
first**; so it is where no tag writes the subject field, and the third time always. -/
theorem inject_inject_iff (definitions : TagDefinitions) (tags : Object) (opts : InjectOptions)
    (v : Value) (htags : Distinct tags) :
    let once := inject definitions tags opts v
    let twice := inject definitions tags opts once
    (twice = once ↔ EachItem tags opts (Stable definitions tags opts) v) ∧
      (Apart tags opts → twice = once) ∧ inject definitions tags opts twice = twice := by
  have hstable (w : Value) : inject definitions tags opts (inject definitions tags opts w) =
      inject definitions tags opts w ↔ EachItem tags opts (Stable definitions tags opts) w :=
    inject_eq_self_iff_eachItem.trans (eachItem_inject (complete_tagged_iff htags) w)
  refine ⟨hstable v, fun hapart => (hstable v).mpr ?_, (hstable _).mpr ?_⟩
  · exact eachItem_of_forall (stable_of_apart hapart) v
  · have hagain : EachItem tags opts (Stable definitions tags opts)
        (inject definitions tags opts v) ↔ EachItem tags opts (fun _ _ => True) v :=
      eachItem_inject (fun k o => iff_true_intro (stable_tagged htags k o)) v
    exact hagain.mpr (eachItem_of_forall (fun _ _ => trivial) v)

/-- A server that has a tenant of its own has the same subject both times. -/
theorem inject_inject_one_server :
    let tags : Object := [("tenant", .str "Common"),
      ("shared", .obj [("pattern", .str "^Common$")])]
    let opts : InjectOptions := { subjectField? := some "tenant" }
    let v : Value := .obj [("vs1", .obj [("tenant", .str "Lab")])]
    Distinct tags ∧ ¬ Apart tags opts ∧
      inject [] tags opts (inject [] tags opts v) = inject [] tags opts v := by
  intro tags opts v
  have htags : Distinct tags := by decide
  obtain ⟨hiff, -, -⟩ := inject_inject_iff [] tags opts v htags
  refine ⟨htags, fun hapart => absurd (hapart "tenant" rfl) (by decide),
    hiff.mpr (eachItem_obj.mpr ?_)⟩
  refine List.forall_mem_singleton.mpr fun _ => ⟨?_, eachItem_obj.mpr ?_⟩
  · rintro _ ⟨⟩ tag - - hnone
    exact hnone
  · exact List.forall_mem_singleton.mpr fun _ => ⟨nofun, eachItem_of_obj?_eq_none rfl⟩

/-- The tenant that a server gets makes it shared, but only the second time. -/
theorem not_inject_inject :
    ¬ ∀ (definitions : TagDefinitions) (tags : Object) (opts : InjectOptions) (v : Value),
      Distinct tags → v.Each {} Distinct →
        inject definitions tags opts (inject definitions tags opts v) =
          inject definitions tags opts v := by
  intro h
  let tags : Object := [("tenant", .str "Common"), ("shared", .obj [("pattern", .str "^Common$")])]
  let opts : InjectOptions := { subjectField? := some "tenant" }
  let v : Value := .obj [("vs1", .obj [])]
  have hsame := h [] tags opts v (by decide) (by decide +kernel)
  have honce : (((inject [] tags opts v).get? "vs1").bind (·.get? "shared")).isSome = false := by
    decide +kernel
  have htwice : (((inject [] tags opts (inject [] tags opts v)).get? "vs1").bind
      (·.get? "shared")).isSome = true := by
    decide +kernel
  rw [hsame, honce] at htwice
  cases htwice

end DeviceStats.Tag
