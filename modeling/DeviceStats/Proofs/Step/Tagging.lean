import DeviceStats.Proofs.Json.Names
import DeviceStats.Proofs.Json.Objects
import DeviceStats.Step.Tagging

/-!
# Proofs/Step/Tagging — tagged items stay as they are

An item is complete when each tag is there or has no value for its subject.  Tags that are written
into an item complete it, and into a complete one nothing is written (`writeAll_eq_self`).  So
tagging leaves complete items everywhere (`each_inTags_inject`), unless it writes the field that
holds the subject, and where all items are complete it changes nothing (`inject_eq_self`).
-/

namespace DeviceStats.Tag

open Json (Value Object Descent Distinct)

variable {definitions : TagDefinitions} {tags : Object} {opts : InjectOptions}
variable {subject k n : String} {o : Object} {d : Descent} {Q : Object → Prop} {v : Value}

/-! ## Tags written into an item -/

/-- Each tag is there or has no value. -/
def Complete (definitions : TagDefinitions) (tags : Object) (subject : String) (o : Object) : Prop :=
  ∀ tag ∈ tags, o.has tag.1 = true ∨ resolve definitions subject tag.2 = none

/-- The values that tags can have. -/
def Writes (definitions : TagDefinitions) (tags : Object) (k : String) (w : Value) : Prop :=
  ∃ tag ∈ tags, ∃ subject, tag.1 = k ∧ resolve definitions subject tag.2 = some w

/-- Writes tags into the entries of an item. -/
def writeAll (definitions : TagDefinitions) (tags : Object) (subject : String) (o : Object) :
    Object :=
  tags.foldl (write false definitions subject) o

/-- A tag is written where it is missing and has a value. -/
theorem write_eq (tag : String × Value) : write false definitions subject o tag =
    if o.has tag.1 then o
    else match resolve definitions subject tag.2 with
      | some w => o ++ [(tag.1, w)]
      | none => o := by
  cases hhas : o.has tag.1 with
  | true => simp [write, hhas]
  | false =>
    have hmem : tag.1 ∉ Named.keys o := mt Named.has_eq_true_iff.mpr (Bool.eq_false_iff.mp hhas)
    cases hr : resolve definitions subject tag.2 <;>
      simp [write, hhas, hr, Named.insert_of_not_mem hmem]

/-- What each written tag keeps, all of them keep. -/
theorem writeAll_induction {motive : Object → Prop} (start : motive o)
    (step : ∀ o' tag w, motive o' → tag ∈ tags → resolve definitions subject tag.2 = some w →
      o'.has tag.1 = false → motive (o' ++ [(tag.1, w)])) :
    motive (writeAll definitions tags subject o) := by
  unfold writeAll
  induction tags generalizing o with
  | nil => exact start
  | cons tag tags ih =>
    refine ih ?_ fun o' tag' w ho htag => step o' tag' w ho (List.mem_cons_of_mem _ htag)
    rw [write_eq]
    split
    · exact start
    · rename_i hhas
      split
      · rename_i w hw
        exact step o tag w start List.mem_cons_self hw (Bool.eq_false_iff.mpr hhas)
      · exact start

theorem has_append {new : Object} (h : o.has k = true) : Named.has (o ++ new) k = true := by
  rw [Named.has, List.any_append, Bool.or_eq_true]
  exact .inl h

/-- Tags are written beside what is there, and replace nothing. -/
theorem has_writeAll (h : o.has k = true) : (writeAll definitions tags subject o).has k = true :=
  writeAll_induction (motive := fun o => o.has k = true) h fun _ _ _ ho _ _ _ => has_append ho

/-- Names that are no tags keep their values. -/
theorem get?_writeAll (h : tags.has k = false) :
    (writeAll definitions tags subject o).get? k = o.get? k := by
  refine writeAll_induction (motive := fun o' => o'.get? k = o.get? k) rfl ?_
  intro o' tag w ho htag _ _
  have hne : tag.1 ≠ k := by
    rintro rfl
    exact Bool.eq_false_iff.mp h (Named.has_eq_true_iff.mpr (List.mem_map_of_mem htag))
  rw [← ho, Named.get?, List.find?_append]
  simp [Named.get?, hne]

/-- Writing tags makes no name stand twice. -/
theorem nodup_writeAll (h : (Named.keys o).Nodup) :
    (Named.keys (writeAll definitions tags subject o)).Nodup := by
  refine writeAll_induction (motive := fun o => (Named.keys o).Nodup) h fun o' tag w ho _ _ hhas => ?_
  have hmem : tag.1 ∉ Named.keys o' := mt Named.has_eq_true_iff.mpr (Bool.eq_false_iff.mp hhas)
  rw [← Named.insert_of_not_mem hmem]
  exact Named.nodup_keys_insert ho tag.1 w

/-- An entry of a tagged item was there or is a tag's value. -/
theorem mem_writeAll {kv : String × Value} (h : kv ∈ writeAll definitions tags subject o) :
    kv ∈ o ∨ Writes definitions tags kv.1 kv.2 := by
  revert h
  refine writeAll_induction (motive := fun o' => kv ∈ o' → kv ∈ o ∨ Writes definitions tags kv.1 kv.2)
    .inl fun o' tag w ho htag hw _ h => ?_
  rcases List.mem_append.mp h with h | h
  · exact ho h
  · obtain rfl := List.mem_singleton.mp h
    exact .inr ⟨tag, htag, subject, rfl, hw⟩

theorem writeAll_cons (tag : String × Value) : writeAll definitions (tag :: tags) subject o =
    writeAll definitions tags subject (write false definitions subject o tag) := rfl

/-- The new tags stand behind the entries, under names that were missing. -/
theorem writeAll_eq_append : ∃ new : Object, writeAll definitions tags subject o = o ++ new ∧
    ∀ kv ∈ new, o.has kv.1 = false ∧ Writes definitions tags kv.1 kv.2 := by
  refine writeAll_induction (motive := fun o' => ∃ new : Object, o' = o ++ new ∧
    ∀ kv ∈ new, o.has kv.1 = false ∧ Writes definitions tags kv.1 kv.2)
    ⟨[], (List.append_nil o).symm, List.forall_mem_nil _⟩ ?_
  rintro _ tag w ⟨new, rfl, hnew⟩ htag hw hhas
  refine ⟨new ++ [(tag.1, w)], List.append_assoc .., List.forall_mem_append.mpr ⟨hnew, ?_⟩⟩
  refine List.forall_mem_singleton.mpr ⟨?_, tag, htag, subject, rfl, hw⟩
  exact Bool.eq_false_iff.mpr fun h => Bool.eq_false_iff.mp hhas (has_append h)

/-- A tag is written under its own name, where that was missing. -/
theorem get?_write_self (tag : String × Value) :
    (write false definitions subject o tag).get? tag.1 =
      (o.get? tag.1).or (resolve definitions subject tag.2) := by
  rw [write_eq]
  cases hget : Named.get? o tag.1 with
  | some w =>
    have hhas : Named.has o tag.1 = true := Named.isSome_get?.symm.trans (by rw [hget]; rfl)
    rw [if_pos hhas, hget, Option.some_or]
  | none =>
    have hhas : ¬ Named.has o tag.1 = true := by simp [← Named.isSome_get?, hget]
    rw [if_neg hhas, Option.none_or]
    cases resolve definitions subject tag.2 with
    | none => exact hget
    | some w => simp [Named.get?_append, Named.get?_cons, hget]

/-- A tag is written under its own name only. -/
theorem get?_write_of_ne {tag : String × Value} {n : String} (hn : tag.1 ≠ n) :
    (write false definitions subject o tag).get? n = o.get? n := by
  rw [write_eq]
  split
  · rfl
  · split
    · simp [Named.get?_append, Named.get?_cons, hn]
    · rfl

/-- **A written item has what it had and, under the names that were missing, the values of tags.** -/
theorem get?_writeAll_eq_or (htags : Distinct tags) (n : String) :
    (writeAll definitions tags subject o).get? n =
      (o.get? n).or ((tags.get? n).bind (resolve definitions subject)) := by
  induction tags generalizing o with
  | nil => simp [writeAll]
  | cons tag tags ih =>
    obtain ⟨hout, htags⟩ := List.nodup_cons.mp htags
    rw [writeAll_cons, ih htags, Named.get?_cons]
    by_cases hn : tag.1 = n
    · subst hn
      have hnone : Named.get? tags tag.1 = none := Named.get?_eq_none_iff.mpr hout
      rw [get?_write_self, if_pos rfl, Option.bind_some, hnone, Option.bind_none, Option.or_none]
    · rw [get?_write_of_ne hn, if_neg hn]

/-- **Written tags complete an item.** -/
theorem complete_writeAll :
    Complete definitions tags subject (writeAll definitions tags subject o) := by
  induction tags generalizing o with
  | nil => exact List.forall_mem_nil _
  | cons tag tags ih =>
    rw [writeAll_cons]
    refine List.forall_mem_cons.mpr ⟨?_, ih⟩
    cases hr : resolve definitions subject tag.2 with
    | none => exact .inr rfl
    | some w =>
      refine .inl (has_writeAll ?_)
      rw [write_eq, hr]
      split
      · assumption
      · simp [Named.has]

/-- **Into a complete item nothing is written.** -/
theorem writeAll_eq_self (h : Complete definitions tags subject o) :
    writeAll definitions tags subject o = o := by
  unfold writeAll
  induction tags with
  | nil => rfl
  | cons tag tags ih =>
    obtain ⟨htag, htags⟩ := List.forall_mem_cons.mp h
    have hwrite : write false definitions subject o tag = o := by
      rw [write_eq]
      rcases htag with hhas | hnone
      · rw [if_pos hhas]
      · rw [hnone, ite_self]
    rw [List.foldl_cons, hwrite]
    exact ih htags

/-! ## What a tagging reads of an item -/

/-- The subject of an item with given entries. -/
def subjectIn (opts : InjectOptions) (k : String) (o : Object) : String :=
  subjectOf k (.obj o) opts.subjectField?

/-- Of a changed item a tagging reads the same subject, and the tags are still there. -/
structure Agrees (tags : Object) (opts : InjectOptions) (o o' : Object) : Prop where
  has : ∀ tag ∈ tags, o.has tag.1 = true → o'.has tag.1 = true
  subject : ∀ f ∈ opts.subjectField?, (o'.get? f).bind Value.str? = (o.get? f).bind Value.str?

variable {o' : Object}

/-- What two changes leave of an item agrees with what was there before both. -/
theorem Agrees.trans {o'' : Object} (h : Agrees tags opts o o') (h' : Agrees tags opts o' o'') :
    Agrees tags opts o o'' where
  has tag htag hhas := h'.has tag htag (h.has tag htag hhas)
  subject f hf := (h'.subject f hf).trans (h.subject f hf)

/-- The subject of a changed item is that of the item before. -/
theorem Agrees.subjectIn_eq (h : Agrees tags opts o o') (k : String) :
    subjectIn opts k o' = subjectIn opts k o := by
  unfold subjectIn subjectOf
  cases hf : opts.subjectField? with
  | none => rfl
  | some f => exact congrArg (·.getD k) (h.subject f hf)

/-- An item stays complete where a tagging reads what it has read. -/
theorem Agrees.complete (h : Agrees tags opts o o')
    (hc : Complete definitions tags (subjectIn opts k o) o) :
    Complete definitions tags (subjectIn opts k o') o' := by
  rw [h.subjectIn_eq]
  exact fun tag htag => (hc tag htag).imp_left (h.has tag htag)

/-- A change of each entry for itself, which keeps the text under the subject field. -/
theorem Agrees.of_get? {g : String → Value → Value}
    (htags : ∀ tag ∈ tags, o'.get? tag.1 = (o.get? tag.1).map (g tag.1))
    (hsubject : ∀ f ∈ opts.subjectField?, o'.get? f = (o.get? f).map (g f) ∧
      ∀ v ∈ o.get? f, (g f v).str? = v.str?) : Agrees tags opts o o' where
  has tag htag hhas := by
    rw [← Named.isSome_get?] at hhas ⊢
    rwa [htags tag htag, Option.isSome_map]
  subject f hf := by
    obtain ⟨hget, hstr⟩ := hsubject f hf
    rw [hget]
    cases hv : o.get? f with
    | none => rfl
    | some v => exact hstr v hv

/-- A tagging that does not write the subject field is not seen by the other. -/
theorem agrees_writeAll {tags' : Object} (h : ∀ f ∈ opts.subjectField?, tags'.has f = false) :
    Agrees tags opts o (writeAll definitions tags' subject o) where
  has _ _ := has_writeAll
  subject f hf := by rw [get?_writeAll (h f hf)]

/-! ## Tagged values -/

/-- What tagging puts under a name. -/
def item (definitions : TagDefinitions) (tags : Object) (opts : InjectOptions) (k : String)
    (v : Value) : Value :=
  if isSkipped tags opts k || !v.isObj then v
  else
    let v := inject definitions tags opts v
    apply false definitions tags (subjectOf k v opts.subjectField?) v

/-- Items are tagged one by one, each under its own name. -/
theorem injectFields_eq (fields : Object) : injectFields definitions tags opts fields =
    fields.map fun kv => (kv.1, item definitions tags opts kv.1 kv.2) := by
  induction fields with
  | nil => rfl
  | cons kv rest ih => rw [injectFields, ih, List.map_cons]; rfl

/-- What is tagged keeps its name. -/
theorem mem_injectFields {fields : Object} {kv : String × Value} :
    kv ∈ injectFields definitions tags opts fields ↔
      ∃ x, (kv.1, x) ∈ fields ∧ item definitions tags opts kv.1 x = kv.2 := by
  obtain ⟨k, w⟩ := kv
  simp only [injectFields_eq, List.mem_map, Prod.mk.injEq, Prod.exists]
  constructor
  · rintro ⟨j, x, hmem, rfl, rfl⟩
    exact ⟨x, hmem, rfl⟩
  · rintro ⟨x, hmem, hx⟩
    exact ⟨k, x, hmem, rfl, hx⟩

theorem keys_injectFields (o : Object) :
    Named.keys (injectFields definitions tags opts o) = Named.keys o := by
  rw [injectFields_eq, Named.keys_map]

/-- Under a name stands what tagging makes of the value there. -/
theorem get?_injectFields (key : String) (o : Object) :
    Named.get? (injectFields definitions tags opts o) key =
      (o.get? key).map (item definitions tags opts key) := by
  rw [injectFields_eq, Named.get?_map]

/-- What is no item is left alone, and an item gets its tags after those inside it. -/
theorem item_cases (k : String) (v : Value) :
    (isSkipped tags opts k = true ∨ v.obj? = none) ∧ item definitions tags opts k v = v ∨
    ∃ o, v = .obj o ∧ isSkipped tags opts k = false ∧ item definitions tags opts k v =
      .obj (writeAll definitions tags (subjectIn opts k (injectFields definitions tags opts o))
        (injectFields definitions tags opts o)) := by
  cases hk : isSkipped tags opts k with
  | true => exact .inl ⟨.inl rfl, by simp [item, hk]⟩
  | false =>
    cases v with
    | obj o =>
      refine .inr ⟨o, rfl, rfl, ?_⟩
      simp only [item, hk, Value.isObj, Value.obj?, Option.isSome_some, Bool.not_true, Bool.or_self,
        Bool.false_eq_true, if_false]
      rfl
    | null | bool | num | str | arr => exact .inl ⟨.inr rfl, by simp [item, Value.isObj, Value.obj?]⟩

theorem item_eq_self_of_isSkipped (h : isSkipped tags opts k = true) :
    item definitions tags opts k v = v := by
  simp [item, h]

theorem item_eq_self_of_obj?_eq_none (h : v.obj? = none) :
    item definitions tags opts k v = v := by
  simp [item, Value.isObj, h]

theorem str?_item (k : String) (v : Value) : (item definitions tags opts k v).str? = v.str? := by
  rcases item_cases k v with ⟨-, hitem⟩ | ⟨o, rfl, -, hitem⟩ <;> rw [hitem]
  rfl

/-- Tags inside an item do not change its subject. -/
theorem subjectIn_injectFields (k : String) (o : Object) :
    subjectIn opts k (injectFields definitions tags opts o) = subjectIn opts k o :=
  Agrees.subjectIn_eq (o := o) (.of_get? (fun tag _ => get?_injectFields tag.1 o)
    fun f _ => ⟨get?_injectFields f o, fun v _ => str?_item f v⟩ : Agrees tags opts _ _) k

/-- What an item becomes: the items in it are tagged, and then it gets its own tags. -/
def tagged (definitions : TagDefinitions) (tags : Object) (opts : InjectOptions) (k : String)
    (o : Object) : Object :=
  writeAll definitions tags (subjectIn opts k o) (injectFields definitions tags opts o)

/-- An item is tagged from within: first the items in it, then itself. -/
theorem item_eq_tagged (hk : isSkipped tags opts k = false) :
    item definitions tags opts k (.obj o) = .obj (tagged definitions tags opts k o) := by
  have hsubject : subjectIn opts k (injectFields definitions tags opts o) = subjectIn opts k o :=
    subjectIn_injectFields k o
  rw [tagged, ← hsubject, item, hk]
  rfl

/-- Under the name of a tag stands what was there, and where nothing was the tag's value. -/
theorem get?_tagged (htags : Distinct tags) (k n : String) :
    (tagged definitions tags opts k o).get? n =
      ((o.get? n).map (item definitions tags opts n)).or
        ((tags.get? n).bind (resolve definitions (subjectIn opts k o))) := by
  rw [tagged, get?_writeAll_eq_or htags, get?_injectFields]

/-- A tagged item is its own entries, tagged within, with the new tags behind them. -/
theorem exists_tagged_eq_append (definitions : TagDefinitions) (tags : Object)
    (opts : InjectOptions) (k : String) (o : Object) : ∃ new : Object,
      tagged definitions tags opts k o = injectFields definitions tags opts o ++ new ∧
        ∀ kv ∈ new, o.has kv.1 = false ∧ Writes definitions tags kv.1 kv.2 := by
  obtain ⟨new, hnew, hwrites⟩ := writeAll_eq_append
  refine ⟨new, hnew, fun kv hkv => ⟨?_, (hwrites kv hkv).2⟩⟩
  rw [← Named.get?_eq_none_iff_has, ← Option.map_eq_none_iff, ← get?_injectFields]
  exact Named.get?_eq_none_iff_has.mpr (hwrites kv hkv).1

theorem get?_tagged_of_eq_some (h : o.get? n = some v) :
    (tagged definitions tags opts k o).get? n = some (item definitions tags opts n v) := by
  obtain ⟨new, hnew, -⟩ := exists_tagged_eq_append definitions tags opts k o
  rw [hnew, Named.get?_append, get?_injectFields, h, Option.map_some, Option.some_or]

theorem inject_eq_self_of_obj?_eq_none (h : v.obj? = none) : inject definitions tags opts v = v := by
  cases v with
  | obj => simp [Value.obj?] at h
  | null | bool | num | str | arr => rfl

/-- What holds of the objects in an item, and in tags, holds of the item with the tags. -/
theorem each_writeAll (hwrite : ∀ o subject, Q o → Q (writeAll definitions tags subject o))
    (hnew : ∀ k w, Writes definitions tags k w → d.stops k = false → w.Each d Q)
    (h : (Value.obj o).Each d Q) : (Value.obj (writeAll definitions tags subject o)).Each d Q := by
  obtain ⟨hfields, hvalues⟩ := Value.each_obj.mp h
  exact Value.each_obj.mpr ⟨hwrite o subject hfields, fun kv hkv hstops =>
    (mem_writeAll hkv).elim (fun hmem => hvalues kv hmem hstops) fun hw => hnew _ _ hw hstops⟩

/-- What holds of the objects of a value, of each when its items are tagged, of each with tags
written into it and of the objects in tags, holds after tagging. -/
theorem each_inject (hQ : ∀ o, Q o → Q (injectFields definitions tags opts o))
    (hwrite : ∀ o subject, Q o → Q (writeAll definitions tags subject o))
    (hnew : ∀ k w, Writes definitions tags k w → d.stops k = false → w.Each d Q)
    (h : v.Each d Q) : (inject definitions tags opts v).Each d Q := by
  induction v using Value.partsInduction with
  | obj fields ih =>
    obtain ⟨hfields, hvalues⟩ := Value.each_obj.mp h
    refine Value.each_obj.mpr ⟨hQ fields hfields, fun kv hkv hstops => ?_⟩
    obtain ⟨x, hx, heq⟩ := mem_injectFields.mp hkv
    rw [← heq]
    rcases item_cases kv.1 x with ⟨-, hitem⟩ | ⟨o, rfl, -, hitem⟩ <;> rw [hitem]
    · exact hvalues _ hx hstops
    · exact each_writeAll hwrite hnew (ih _ hx (hvalues _ hx hstops))
  | arr items ih => exact h
  | scalar v ha ho => rwa [inject_eq_self_of_obj?_eq_none ho]

/-- The objects under the names of an object are complete, but for those that are skipped. -/
def InTags (definitions : TagDefinitions) (tags : Object) (opts : InjectOptions) (o : Object) :
    Prop :=
  ∀ kv ∈ o, isSkipped tags opts kv.1 = false → ∀ inner, kv.2 = .obj inner →
    Complete definitions tags (subjectIn opts kv.1 inner) inner

/-- Where tagging goes: not into what is skipped and not into arrays. -/
def descent (tags : Object) (opts : InjectOptions) : Descent :=
  { stops := isSkipped tags opts, arrays := false }

/-- The field that holds the subject, if there is one, is no tag. -/
def Apart (tags : Object) (opts : InjectOptions) : Prop :=
  ∀ f ∈ opts.subjectField?, tags.has f = false

/-- A tag is not tagged in its turn. -/
theorem isSkipped_of_writes {w : Value} (h : Writes definitions tags k w) :
    isSkipped tags opts k = true := by
  obtain ⟨tag, htag, -, rfl, -⟩ := h
  rw [isSkipped, Bool.or_eq_true]
  exact .inr (Named.has_eq_true_iff.mpr (List.mem_map_of_mem htag))

/-- Tags that are written into an object leave the items in it as complete as they were. -/
theorem inTags_writeAll (h : InTags definitions tags opts o) :
    InTags definitions tags opts (writeAll definitions tags subject o) := by
  intro kv hkv hk
  rcases mem_writeAll hkv with hmem | hw
  · exact h kv hmem hk
  · exact absurd ((isSkipped_of_writes hw).symm.trans hk) (by decide)

/-- **Tagging leaves complete items.** -/
theorem each_inTags_inject (happart : Apart tags opts) (v : Value) :
    (inject definitions tags opts v).Each (descent tags opts) (InTags definitions tags opts) := by
  induction v using Value.partsInduction with
  | obj fields ih =>
    refine Value.each_obj.mpr ⟨fun kv hkv hk inner hinner => ?_, fun kv hkv hk => ?_⟩ <;>
      obtain ⟨x, hx, heq⟩ := mem_injectFields.mp hkv
    · rw [← heq] at hinner
      rcases item_cases kv.1 x with ⟨hno, hitem⟩ | ⟨o, -, -, hitem⟩
      · rw [hitem] at hinner
        simp [hk, hinner, Value.obj?] at hno
      · obtain rfl := Value.obj.inj (hitem.symm.trans hinner)
        rw [(agrees_writeAll happart : Agrees tags opts _ _).subjectIn_eq]
        exact complete_writeAll
    · rw [← heq]
      rcases item_cases kv.1 x with ⟨hno, hitem⟩ | ⟨o, rfl, -, hitem⟩ <;> rw [hitem]
      · have hobj := hno.resolve_left (Bool.eq_false_iff.mp hk)
        exact inject_eq_self_of_obj?_eq_none hobj ▸ ih _ hx
      · refine each_writeAll (fun _ _ => inTags_writeAll) (fun k w hw hstops => ?_) (ih _ hx)
        exact absurd ((isSkipped_of_writes hw).symm.trans hstops) (by decide)
  | arr items => exact Value.each_arr.mpr fun harrays => absurd harrays Bool.false_ne_true
  | scalar v ha ho =>
    rw [inject_eq_self_of_obj?_eq_none ho]
    exact Value.each_scalar ha ho

/-- Where all items are complete, no tag is missing anywhere. -/
theorem inject_eq_self (h : v.Each (descent tags opts) (InTags definitions tags opts)) :
    inject definitions tags opts v = v := by
  induction v using Value.partsInduction with
  | obj fields ih =>
    obtain ⟨hfields, hvalues⟩ := Value.each_obj.mp h
    have hfixed : ∀ kv ∈ fields, item definitions tags opts kv.1 kv.2 = kv.2 := by
      intro kv hkv
      rcases item_cases kv.1 kv.2 with ⟨-, hitem⟩ | ⟨o, ho, hk, hitem⟩
      · exact hitem
      · have hinner : injectFields definitions tags opts o = o := by
          have := ih kv hkv (hvalues kv hkv hk)
          rw [ho] at this
          exact Value.obj.inj this
        rw [hitem, ho, hinner, writeAll_eq_self (hfields kv hkv hk o ho)]
    rw [inject, injectFields_eq]
    exact congrArg Value.obj (Value.map_fields_eq_self hfixed)
  | arr items => rfl
  | scalar v ha ho => exact inject_eq_self_of_obj?_eq_none ho

/-- An item that stays as it is is complete, and so are the items in it. -/
theorem complete_of_tagged_eq_self (h : tagged definitions tags opts k o = o) :
    injectFields definitions tags opts o = o ∧ Complete definitions tags (subjectIn opts k o) o := by
  obtain ⟨new, hnew, -⟩ := exists_tagged_eq_append definitions tags opts k o
  have hlength : (injectFields definitions tags opts o).length = o.length := by
    rw [injectFields_eq, List.length_map]
  have hinner : injectFields definitions tags opts o = o :=
    (List.append_inj (hnew.symm.trans (h.trans (List.append_nil o).symm)) hlength).1
  have hcomplete : Complete definitions tags (subjectIn opts k o)
      (tagged definitions tags opts k o) := complete_writeAll
  rw [h] at hcomplete
  exact ⟨hinner, hcomplete⟩

/-- Where tagging changes nothing, each item has all its tags or they have no value. -/
theorem each_inTags_of_inject_eq_self (h : inject definitions tags opts v = v) :
    v.Each (descent tags opts) (InTags definitions tags opts) := by
  induction v using Value.partsInduction with
  | obj fields ih =>
    have hfixed : ∀ kv ∈ fields, isSkipped tags opts kv.1 = false → ∀ inner, kv.2 = .obj inner →
        tagged definitions tags opts kv.1 inner = inner := by
      intro kv hkv hk inner hinner
      have hmap := (injectFields_eq fields).symm.trans (Value.obj.inj h)
      have hitem : item definitions tags opts kv.1 kv.2 = kv.2 := congrArg Prod.snd
        (List.map_inj_left.mp (hmap.trans (List.map_id fields).symm) kv hkv)
      rw [hinner, item_eq_tagged hk] at hitem
      exact Value.obj.inj hitem
    refine Value.each_obj.mpr ⟨fun kv hkv hk inner hinner => ?_, fun kv hkv hk => ih kv hkv ?_⟩
    · exact (complete_of_tagged_eq_self (hfixed kv hkv hk inner hinner)).2
    · cases ho : kv.2.obj? with
      | none => exact inject_eq_self_of_obj?_eq_none ho
      | some inner =>
        have hinner := Value.eq_obj_of_obj?_eq_some ho
        rw [hinner]
        exact congrArg Value.obj (complete_of_tagged_eq_self (hfixed kv hkv hk inner hinner)).1
  | arr items => exact Value.each_arr.mpr fun harrays => absurd harrays Bool.false_ne_true
  | scalar v ha ho => exact Value.each_scalar ha ho

/-- **Tagging changes nothing exactly where all items are complete.** -/
theorem inject_eq_self_iff : inject definitions tags opts v = v ↔
    v.Each (descent tags opts) (InTags definitions tags opts) :=
  ⟨each_inTags_of_inject_eq_self, inject_eq_self⟩

/-! ## Names in tags -/

theorem keys_resolveFields (fields : Object) :
    (Named.keys (resolveFields definitions subject fields)).Sublist (Named.keys fields) := by
  induction fields with
  | nil => exact .slnil
  | cons kv rest ih =>
    rw [resolveFields]
    split
    · exact ih.cons_cons kv.1
    · exact ih.cons kv.1

/-- What a tag holds under a name was resolved from what its definition holds there. -/
theorem exists_of_mem_resolveFields {fields : Object} {kv : String × Value}
    (h : kv ∈ resolveFields definitions subject fields) :
    ∃ x, (kv.1, x) ∈ fields ∧ resolve definitions subject x = some kv.2 := by
  induction fields with
  | nil => cases h
  | cons kx rest ih =>
    rw [resolveFields] at h
    split at h
    · rename_i w hw
      rcases List.mem_cons.mp h with rfl | h
      · exact ⟨kx.2, List.mem_cons_self, hw⟩
      · obtain ⟨x, hx, hresolve⟩ := ih h
        exact ⟨x, List.mem_cons_of_mem _ hx, hresolve⟩
    · obtain ⟨x, hx, hresolve⟩ := ih h
      exact ⟨x, List.mem_cons_of_mem _ hx, hresolve⟩

/-- What a tag resolves to repeats no name that the tag does not repeat. -/
theorem each_distinct_resolve {w : Value} (h : v.Each {} Distinct)
    (hw : resolve definitions subject v = some w) : w.Each {} Distinct := by
  induction v using Value.partsInduction generalizing w with
  | arr items => exact Option.some.inj hw ▸ h
  | obj fields ih =>
    obtain ⟨hfields, hvalues⟩ := Value.each_obj.mp h
    rw [resolve] at hw
    split at hw
    · obtain ⟨t, -, rfl⟩ := Option.map_eq_some_iff.mp hw
      exact Value.each_scalar rfl rfl
    · obtain rfl := Option.some.inj hw
      refine Value.each_obj.mpr ⟨hfields.sublist (keys_resolveFields fields), fun kv hkv _ => ?_⟩
      obtain ⟨x, hx, hresolve⟩ := exists_of_mem_resolveFields hkv
      exact ih _ hx (hvalues _ hx rfl) hresolve
  | scalar v ha ho =>
    cases v with
    | arr | obj => simp [Value.arr?, Value.obj?] at ha ho
    | null | bool | num => exact Option.some.inj hw ▸ h
    | str name =>
      rw [resolve] at hw
      split at hw
      · obtain ⟨t, -, rfl⟩ := Option.map_eq_some_iff.mp hw
        exact Value.each_scalar rfl rfl
      · exact Option.some.inj hw ▸ h

end DeviceStats.Tag
