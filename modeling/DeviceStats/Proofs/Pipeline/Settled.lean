import DeviceStats.Pipeline
import DeviceStats.Proofs.Step.KeyFilter
import DeviceStats.Proofs.Step.Tagging
import DeviceStats.Proofs.Step.Timestamps

/-!
# Proofs/Pipeline/Settled — steps that leave each other's work alone

A value is settled for a step that would not change it.  A step settles what it is given, and a
later step leaves it settled if it respects the earlier one: no tag that it writes is something that
the earlier step would change, and it changes nothing that the earlier step reads of an item.
-/

namespace DeviceStats

open Json (Value Object Descent Distinct)

namespace Tagging

variable (defaults : TagDefaults) (t : Tagging)

/-- The tags that are written. -/
def tagsIn : Object := t.tags?.getD defaults.tags

/-- The definitions that tags are resolved with. -/
def definitionsIn : TagDefinitions := defaults.definitions.extend (t.definitions?.getD [])

/-- Whether a tag can come to have a value. -/
def Writes (k : String) (w : Value) : Prop :=
  Tag.Writes (t.definitionsIn defaults) (t.tagsIn defaults) k w

/-- Whether the subject field is looked at under a name. -/
def Reads (k : String) : Prop := (t.tagsIn defaults).has k = true ∨ k ∈ t.options.subjectField?

/-- Whether all items are complete. -/
def Settled (v : Value) : Prop :=
  v.Each (Tag.descent (t.tagsIn defaults) t.options)
    (Tag.InTags (t.definitionsIn defaults) (t.tagsIn defaults) t.options)

end Tagging

namespace Step

variable (defaults : TagDefaults)

/-- The tagging that a step asks for, if it is one. -/
def tagging? : Step → Option Tagging
  | .addKeysByTag step => step.tagging?
  | _ => none

/-- Whether a step filters, formats or tags. -/
def amends : Step → Bool
  | .filterKeys _ | .formatTimestamps _ | .addKeysByTag _ => true
  | _ => false

/-- What a step that amends makes of a value. -/
def effect (s : Step) (v : Value) : Value :=
  match s with
  | .filterKeys filter => filter.apply v
  | .formatTimestamps keys => Timestamps.apply keys v
  | .addKeysByTag step =>
    match step.tagging? with
    | some t => t.apply defaults v
    | none => v
  | _ => v

theorem effect_addKeysByTag {step : TaggingStep} {t : Tagging} (h : step.tagging? = some t)
    (v : Value) : effect defaults (.addKeysByTag step) v = t.apply defaults v := by
  rw [effect, h]

/-- Steps that filter, format or tag cannot fail. -/
theorem apply_eq_effect {s : Step} (h : s.amends = true) (v : Value) :
    s.apply defaults v = .ok (s.effect defaults v) := by
  cases s with
  | addKeysByTag step =>
    rw [apply, effect]
    cases step.tagging? <;> rfl
  | filterKeys | formatTimestamps => rfl
  | renameKeys | runFunctions | convertArrayToMap | includeFirstEntry => cases h

/-- A value that a step does not change. -/
def Settled : Step → Value → Prop
  | .filterKeys (.keep names), v => ∀ o, v = .obj o → ∀ kv ∈ o,
    KeyFilter.lists (names.map KeyFilter.Entry.ofName) kv.1 = true
  | .filterKeys (.drop names), v =>
    v.Each {} (KeyFilter.Unlisted (names.map KeyFilter.Entry.ofName))
  | .formatTimestamps keys, v => v.Each (Timestamps.descent keys) (Timestamps.InForm keys)
  | .addKeysByTag step, v => ∀ t ∈ step.tagging?, t.Settled defaults v
  | _, _ => True

/-- Whether a step looks below the outermost object. -/
def goesDown : Step → Bool
  | .filterKeys (.keep _) => false
  | _ => true

/-- Whether a step leaves alone what the tagging of another can write. -/
def Spares (s s' : Step) : Prop :=
  ∀ t ∈ s'.tagging?, ∀ k w, t.Writes defaults k w →
    s.effect defaults (.obj [(k, w)]) = .obj [(k, w)]

/-- Whether a step changes nothing that a tagging reads of an item. -/
def Keeps (t : Tagging) : Step → Prop
  | .filterKeys (.drop names) => ∀ k, t.Reads defaults k →
    KeyFilter.lists (names.map KeyFilter.Entry.ofName) k = false
  | .formatTimestamps keys => ∀ f ∈ t.options.subjectField?, keys.contains f = false
  | .addKeysByTag step => ∀ t' ∈ step.tagging?, ∀ f ∈ t.options.subjectField?,
    (t'.tagsIn defaults).has f = false
  | _ => True

/-- Whether a step does not write the field that it takes its subject from. -/
def Apart (s : Step) : Prop := ∀ t ∈ s.tagging?, Tag.Apart (t.tagsIn defaults) t.options

/-- Whether a later step leaves alone what an earlier one has done. -/
structure Respects (s s' : Step) : Prop where
  spares : s.goesDown = true → Spares defaults s s'
  keeps : ∀ t ∈ s.tagging?, s'.Keeps defaults t

/-- Steps that write no tags do not undo each other's work. -/
theorem respects_of_tagging?_eq_none {s s' : Step} (h : s.tagging? = none)
    (h' : s'.tagging? = none) : Respects defaults s s' :=
  ⟨fun _ _ ht => (nomatch h'.symm.trans ht), fun _ ht => (nomatch h.symm.trans ht)⟩

/-! ## Settled values stay as they are -/

variable {defaults} {s s' : Step} {v : Value}

theorem Settled.effect_eq_self (h : s.Settled defaults v) : s.effect defaults v = v := by
  cases s with
  | filterKeys filter => cases filter with
    | keep names => cases v with
      | obj o => exact congrArg Value.obj (List.filter_eq_self.mpr (h o rfl))
      | null | bool | num | str | arr => rfl
    | drop names => exact KeyFilter.without_eq_self h
  | formatTimestamps keys => exact Timestamps.apply_eq_self h
  | addKeysByTag step =>
    rw [effect]
    split
    · rename_i t ht
      exact Tag.inject_eq_self (h t ht)
    · rfl
  | renameKeys | runFunctions | convertArrayToMap | includeFirstEntry => rfl

/-- **A step settles what it is given.** -/
theorem settled_effect (hapart : s.Apart defaults) (v : Value) :
    s.Settled defaults (s.effect defaults v) := by
  cases s with
  | filterKeys filter => cases filter with
    | keep names =>
      intro o ho kv hkv
      cases v with
      | obj fields =>
        obtain rfl := Value.obj.inj ho
        exact (List.mem_filter.mp hkv).2
      | null | bool | num | str | arr => cases ho
    | drop names => exact KeyFilter.each_unlisted_without v
  | formatTimestamps keys => exact Timestamps.each_inForm_apply v
  | addKeysByTag step =>
    intro t ht
    rw [effect_addKeysByTag defaults ht]
    exact Tag.each_inTags_inject (hapart t ht) v
  | renameKeys | runFunctions | convertArrayToMap | includeFirstEntry => trivial

/-! ## Later steps -/

/-- What a step has to do with a property of objects for the property to be kept. -/
structure Carries (defaults : TagDefaults) (s : Step) (d : Descent) (Q : Object → Prop) : Prop where
  keep : ∀ (p : String → Bool) o, Q o → Q (o.filter fun kv => p kv.1)
  drop : ∀ names, s = .filterKeys (.drop names) → ∀ o, Q o →
    Q (KeyFilter.withoutFields (names.map KeyFilter.Entry.ofName) o)
  format : ∀ keys, s = .formatTimestamps keys → ∀ o, Q o → Q (Timestamps.applyFields keys o)
  items : ∀ t ∈ s.tagging?, ∀ o, Q o →
    Q (Tag.injectFields (t.definitionsIn defaults) (t.tagsIn defaults) t.options o)
  tags : ∀ t ∈ s.tagging?, ∀ o subject, Q o →
    Q (Tag.writeAll (t.definitionsIn defaults) (t.tagsIn defaults) subject o)
  new : ∀ t ∈ s.tagging?, ∀ k w, t.Writes defaults k w → d.stops k = false → w.Each d Q

variable {d : Descent} {Q : Object → Prop}

/-- A property that a step carries holds of its result. -/
theorem Carries.effect (hs : Carries defaults s d Q) (h : v.Each d Q) :
    (s.effect defaults v).Each d Q := by
  cases s with
  | filterKeys filter => cases filter with
    | keep names => exact KeyFilter.each_keep (hs.keep _) h
    | drop names => exact KeyFilter.each_without (hs.drop names rfl) h
  | formatTimestamps keys => exact Timestamps.each_apply (hs.format keys rfl) h
  | addKeysByTag step =>
    rw [Step.effect]
    split
    · rename_i t ht
      exact Tag.each_inject (hs.items t ht) (hs.tags t ht) (hs.new t ht) h
    · exact h
  | renameKeys | runFunctions | convertArrayToMap | includeFirstEntry => exact h

/-- A property of each name with its value. -/
theorem Carries.of_forall {P : String → Value → Prop}
    (drop : ∀ names, s = .filterKeys (.drop names) →
      ∀ k x, KeyFilter.lists (names.map KeyFilter.Entry.ofName) k = false → P k x →
        P k (KeyFilter.without (names.map KeyFilter.Entry.ofName) x))
    (format : ∀ keys, s = .formatTimestamps keys →
      ∀ k x, P k x → P k (Timestamps.formatted keys k x))
    (items : ∀ t ∈ s.tagging?, ∀ k x, P k x →
      P k (Tag.item (t.definitionsIn defaults) (t.tagsIn defaults) t.options k x))
    (new : ∀ t ∈ s.tagging?, ∀ k w, t.Writes defaults k w →
      (Value.obj [(k, w)]).Each d fun o => ∀ kv ∈ o, P kv.1 kv.2) :
    Carries defaults s d fun o => ∀ kv ∈ o, P kv.1 kv.2 where
  keep p o h kv hkv := h kv (List.mem_filter.mp hkv).1
  drop names hs o h kv hkv := by
    obtain ⟨hk, x, hx, heq⟩ := KeyFilter.mem_withoutFields.mp hkv
    exact heq ▸ drop names hs kv.1 x hk (h _ hx)
  format keys hs o h kv hkv := by
    obtain ⟨x, hx, heq⟩ := Timestamps.mem_applyFields.mp hkv
    exact heq ▸ format keys hs kv.1 x (h _ hx)
  items t ht o h kv hkv := by
    obtain ⟨x, hx, heq⟩ := Tag.mem_injectFields.mp hkv
    exact heq ▸ items t ht kv.1 x (h _ hx)
  tags t ht o subject h kv hkv := by
    rcases Tag.mem_writeAll hkv with hmem | hw
    · exact h kv hmem
    · exact (Value.each_obj.mp (new t ht _ _ hw)).1 _ List.mem_cons_self
  new t ht k w hw hk := (Value.each_obj.mp (new t ht k w hw)).2 _ List.mem_cons_self hk

/-- A later step writes no listed key, if dropping spares what it writes. -/
theorem carries_unlisted {names : List String} (h : Spares defaults (.filterKeys (.drop names)) s) :
    Carries defaults s {} (KeyFilter.Unlisted (names.map KeyFilter.Entry.ofName)) :=
  .of_forall (P := fun k _ => KeyFilter.lists (names.map KeyFilter.Entry.ofName) k = false)
    (fun _ _ _ _ _ => id) (fun _ _ _ _ => id) (fun _ _ _ _ => id)
    fun t ht k w hw => KeyFilter.without_eq_self_iff.mp (h t ht k w hw)

/-- A later step writes no moment in another form, if formatting spares what it writes. -/
theorem carries_inForm {keys : List String} (h : Spares defaults (.formatTimestamps keys) s) :
    Carries defaults s (Timestamps.descent keys) (Timestamps.InForm keys) := by
  refine .of_forall (P := fun k v => keys.contains k = true → Timestamps.written v = v)
    (fun names _ k x _ hx hk => ?_) (fun keys' _ k x hx hk => ?_) (fun t _ k x hx hk => ?_)
    fun t ht k w hw => Timestamps.apply_eq_self_iff.mp (h t ht k w hw)
  · cases x with
    | obj | arr => rfl
    | null | bool | num | str => exact hx hk
  · unfold Timestamps.formatted
    split
    · exact Timestamps.written_written x
    · cases x with
      | obj | arr => rfl
      | null | bool | num | str => exact hx hk
  · rcases Tag.item_cases k x with ⟨-, hitem⟩ | ⟨o, -, -, hitem⟩ <;> rw [hitem]
    · exact hx hk
    · rfl

/-- Names stay distinct if those in tags are. -/
theorem carries_distinct (h : ∀ t ∈ s.tagging?, (Value.obj (t.tagsIn defaults)).Each {} Distinct) :
    Carries defaults s {} Distinct where
  keep p o ho := ho.sublist (List.filter_sublist.map _)
  drop names _ o ho := by
    rw [Distinct, KeyFilter.withoutFields_eq, Named.keys_map fun _ => KeyFilter.without _]
    exact ho.sublist (List.filter_sublist.map _)
  format keys _ o ho := by
    rwa [Distinct, Timestamps.applyFields_eq, Named.keys_map]
  items t _ o ho := by
    rwa [Distinct, Tag.injectFields_eq, Named.keys_map]
  tags _ _ _ _ ho := Tag.nodup_writeAll ho
  new t ht k w hw _ := by
    obtain ⟨tag, htag, subject, -, hresolve⟩ := hw
    exact Tag.each_distinct_resolve ((Value.each_obj.mp (h t ht)).2 tag htag rfl) hresolve

/-! ## What a later step leaves of an item -/

variable {t : Tagging} {o : Object}

/-- Dropping keys that a tagging does not read leaves it the same item. -/
theorem agrees_withoutFields {names : List String}
    (h : Keeps defaults t (.filterKeys (.drop names))) :
    Tag.Agrees (t.tagsIn defaults) t.options o
      (KeyFilter.withoutFields (names.map KeyFilter.Entry.ofName) o) :=
  .of_get? (g := fun _ => KeyFilter.without (names.map KeyFilter.Entry.ofName))
    (fun tag htag => KeyFilter.get?_withoutFields
      (h tag.1 (.inl (Named.has_eq_true_iff.mpr (List.mem_map_of_mem htag)))) o)
    fun f hf => ⟨KeyFilter.get?_withoutFields (h f (.inr hf)) o, fun v _ => KeyFilter.str?_without v⟩

/-- Formatting leaves a tagging the same item, unless it formats the subject. -/
theorem agrees_applyFields {keys : List String} (h : Keeps defaults t (.formatTimestamps keys)) :
    Tag.Agrees (t.tagsIn defaults) t.options o (Timestamps.applyFields keys o) :=
  .of_get? (fun tag _ => Timestamps.get?_applyFields tag.1 o)
    fun f hf => ⟨Timestamps.get?_applyFields f o, fun v _ => Timestamps.str?_formatted (h f hf) v⟩

theorem Keeps.tagging {t' : Tagging} (h : s.Keeps defaults t) (ht : t' ∈ s.tagging?) :
    ∀ f ∈ t.options.subjectField?, (t'.tagsIn defaults).has f = false := by
  cases s with
  | addKeysByTag step => exact h t' ht
  | filterKeys | formatTimestamps | renameKeys | runFunctions | convertArrayToMap
  | includeFirstEntry => cases ht

/-- A second tagging leaves the first the same item, unless it writes the subject field. -/
theorem agrees_tagged {t' : Tagging} {k : String}
    (h : ∀ f ∈ t.options.subjectField?, (t'.tagsIn defaults).has f = false) :
    let inner := Tag.injectFields (t'.definitionsIn defaults) (t'.tagsIn defaults) t'.options o
    Tag.Agrees (t.tagsIn defaults) t.options o (Tag.writeAll (t'.definitionsIn defaults)
      (t'.tagsIn defaults) (Tag.subjectIn t'.options k inner) inner) :=
  .trans (.of_get? (fun tag _ => Tag.get?_injectFields tag.1 o)
    fun f _ => ⟨Tag.get?_injectFields f o, fun v _ => Tag.str?_item f v⟩) (Tag.agrees_writeAll h)

/-- Items stay complete through a later step that keeps what the tagging reads and writes only what
it spares. -/
theorem carries_inTags
    (hspares : ∀ t' ∈ s.tagging?, ∀ k w, t'.Writes defaults k w →
      t.apply defaults (.obj [(k, w)]) = .obj [(k, w)])
    (hkeeps : s.Keeps defaults t) :
    Carries defaults s (Tag.descent (t.tagsIn defaults) t.options)
      (Tag.InTags (t.definitionsIn defaults) (t.tagsIn defaults) t.options) := by
  refine .of_forall (P := fun k v => Tag.isSkipped (t.tagsIn defaults) t.options k = false →
      ∀ inner, v = .obj inner → Tag.Complete (t.definitionsIn defaults) (t.tagsIn defaults)
        (Tag.subjectIn t.options k inner) inner)
    (fun names hs k x hk hx hskip inner hinner => ?_)
    (fun keys hs k x hx hskip inner hinner => ?_)
    (fun t' ht' k x hx hskip inner hinner => ?_)
    fun t' ht' k w hw => Tag.inject_eq_self_iff.mp (hspares t' ht' k w hw)
  · subst hs
    obtain ⟨o, rfl, rfl⟩ := KeyFilter.exists_of_without_eq_obj hinner
    exact (agrees_withoutFields hkeeps).complete (hx hskip o rfl)
  · subst hs
    obtain ⟨o, rfl, rfl | rfl⟩ := Timestamps.exists_of_formatted_eq_obj hinner
    · exact hx hskip o rfl
    · exact (agrees_applyFields hkeeps).complete (hx hskip o rfl)
  · rcases Tag.item_cases k x with ⟨-, hitem⟩ | ⟨o, rfl, -, hitem⟩
    · exact hx hskip inner (hitem.symm.trans hinner)
    · obtain rfl := Value.obj.inj (hitem.symm.trans hinner)
      exact (agrees_tagged (hkeeps.tagging ht')).complete (hx hskip o rfl)

theorem obj?_effect (h : v.obj? = none) : (s.effect defaults v).obj? = none := by
  cases s with
  | filterKeys filter => cases filter <;> cases v <;> first | rfl | cases h
  | formatTimestamps keys => cases v <;> first | rfl | cases h
  | addKeysByTag step =>
    rw [Step.effect]
    split
    · exact congrArg Value.obj? (Tag.inject_eq_self_of_obj?_eq_none h) |>.trans h
    · exact h
  | renameKeys | runFunctions | convertArrayToMap | includeFirstEntry => exact h

/-- No step gives the outermost object new names. -/
theorem exists_effect_obj (defaults : TagDefaults) (s : Step) (o : Object) :
    ∃ o', s.effect defaults (.obj o) = .obj o' ∧ ∀ kv ∈ o', ∃ x, (kv.1, x) ∈ o := by
  cases s with
  | filterKeys filter => cases filter with
    | keep names => exact ⟨_, rfl, fun kv hkv => ⟨kv.2, (List.mem_filter.mp hkv).1⟩⟩
    | drop names =>
      exact ⟨_, rfl, fun kv hkv => (KeyFilter.mem_withoutFields.mp hkv).2.imp fun _ => And.left⟩
  | formatTimestamps keys =>
    exact ⟨_, rfl, fun kv hkv => (Timestamps.mem_applyFields.mp hkv).imp fun _ => And.left⟩
  | addKeysByTag step =>
    rw [Step.effect]
    split
    · exact ⟨_, rfl, fun kv hkv => (Tag.mem_injectFields.mp hkv).imp fun _ => And.left⟩
    · exact ⟨o, rfl, fun kv hkv => ⟨kv.2, hkv⟩⟩
  | renameKeys | runFunctions | convertArrayToMap | includeFirstEntry =>
    exact ⟨o, rfl, fun kv hkv => ⟨kv.2, hkv⟩⟩

/-- **A settled value stays settled** under a step that respects the one it is settled for. -/
theorem Settled.effect (h : s.Settled defaults v) (hr : Respects defaults s s') :
    s.Settled defaults (s'.effect defaults v) := by
  cases s with
  | filterKeys filter => cases filter with
    | keep names =>
      intro o' ho' kv hkv
      cases hobj : v.obj? with
      | none => exact nomatch (congrArg Value.obj? ho').symm.trans (obj?_effect hobj)
      | some o =>
        obtain rfl := Value.eq_obj_of_obj?_eq_some hobj
        obtain ⟨_, heffect, hnames⟩ := exists_effect_obj defaults s' o
        obtain rfl := Value.obj.inj (heffect.symm.trans ho')
        obtain ⟨x, hx⟩ := hnames kv hkv
        exact h o rfl (kv.1, x) hx
    | drop names => exact (carries_unlisted (hr.spares rfl)).effect h
  | formatTimestamps keys => exact (carries_inForm (hr.spares rfl)).effect h
  | addKeysByTag step =>
    intro t ht
    refine (carries_inTags (fun t' ht' k w hw => ?_) (hr.keeps t ht)).effect (h t ht)
    exact (effect_addKeysByTag defaults ht _).symm.trans (hr.spares rfl t' ht' k w hw)
  | renameKeys | runFunctions | convertArrayToMap | includeFirstEntry => trivial

/-! ## Runs of steps -/

/-- What steps that amend make of a value, one after the other. -/
def run (defaults : TagDefaults) (steps : List Step) (v : Value) : Value :=
  steps.foldl (fun v s => s.effect defaults v) v

variable {steps : List Step}

/-- **A run settles a value for each of its steps**, if each leaves alone what those before it have
done. -/
theorem settled_run (hapart : ∀ s ∈ steps, s.Apart defaults)
    (hpair : steps.Pairwise (Respects defaults)) :
    ∀ s ∈ steps, s.Settled defaults (run defaults steps v) := by
  induction steps using List.reverseRecOn with
  | nil => exact List.forall_mem_nil _
  | append_singleton steps s' ih =>
    obtain ⟨hbefore, -, hlast⟩ := List.pairwise_append.mp hpair
    have hrun : run defaults (steps ++ [s']) v = s'.effect defaults (run defaults steps v) := by
      rw [run, List.foldl_append]
      rfl
    intro s hs
    rw [hrun]
    rcases List.mem_append.mp hs with hmem | hmem
    · exact (ih (fun s hs => hapart s (List.mem_append_left _ hs)) hbefore s hmem).effect
        (hlast s hmem s' (List.mem_singleton_self s'))
    · obtain rfl := List.mem_singleton.mp hmem
      exact settled_effect (hapart s hs) _

theorem each_distinct_run (hv : v.Each {} Distinct) (h : ∀ s ∈ steps, ∀ t ∈ s.tagging?,
    (Value.obj (t.tagsIn defaults)).Each {} Distinct) :
    (run defaults steps v).Each {} Distinct := by
  induction steps generalizing v with
  | nil => exact hv
  | cons s steps ih =>
    obtain ⟨hs, hsteps⟩ := List.forall_mem_cons.mp h
    exact ih ((carries_distinct hs).effect hv) hsteps

/-- A run changes nothing that is settled for its steps. -/
theorem run_eq_self (h : ∀ s ∈ steps, s.Settled defaults v) : run defaults steps v = v := by
  induction steps with
  | nil => rfl
  | cons s steps ih =>
    obtain ⟨hs, hsteps⟩ := List.forall_mem_cons.mp h
    rw [run, List.foldl_cons, hs.effect_eq_self]
    exact ih hsteps

end Step

end DeviceStats
