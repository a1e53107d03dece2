import DeviceStats.Proofs.Pipeline.Settled
import DeviceStats.Proofs.Step.Reduction

/-!
# Proofs/Pipeline/Reduced — what is settled stays settled when it is reduced

The steps of a pipeline see the response as it came and, when its value is normalized again, the
reduced value.  A step finds its work done there if reduction neither gives a name that the step
would act on nor takes one off that it has passed over (`SeesThrough`).  Of a value that holds
nothing to be reduced that is always true (`seesThrough_of_plain`).
-/

namespace DeviceStats

open Json (Value Object Descent Distinct)
open Reduction (view bare plainly shortened shortKey IsPlain Through)

/-! ## Names that reduction changes -/

/-- Whether a choice of names is blind to reduction: it takes in none of the names that are taken
off, and a short key exactly if it takes in the long one. -/
def Blind (p : String → Bool) (o : Object) : Prop :=
  (∀ E, view {} o = .entries E → p "entries" = false ∧ ∀ k ∈ Named.keys E, p (shortKey k) = p k) ∧
    ∀ v, view {} o = .wrapped v → ∀ k ∈ Named.keys o, p k = false

instance (p : String → Bool) : DecidablePred (Blind p) := fun o =>
  inferInstanceAs (Decidable ((∀ E, view {} o = .entries E → p "entries" = false ∧
    ∀ k ∈ Named.keys E, p (shortKey k) = p k) ∧ _))

/-- Whether nothing that stands under a chosen name is a wrapped value. -/
def Unwrapped (p : String → Bool) (o : Object) : Prop :=
  ∀ kv ∈ o, p kv.1 = true → Reduction.isWrapped kv.2 = false

instance (p : String → Bool) : DecidablePred (Unwrapped p) := fun o =>
  inferInstanceAs (Decidable (∀ kv ∈ o, p kv.1 = true → Reduction.isWrapped kv.2 = false))

variable {o : Object} {v : Value}

/-! ## Dropped keys -/

section Drop

variable {entries : List KeyFilter.Entry}

/-- Short keys that are not listed leave an object without listed keys. -/
theorem through_unlisted (hn : Distinct o)
    (h : ∀ E, view {} o = .entries E →
      ∀ k ∈ Named.keys E, KeyFilter.lists entries (shortKey k) = false) :
    Through {} (KeyFilter.Unlisted entries) o where
  plain _ ho kv hkv := by
    obtain ⟨kx, hkx, rfl⟩ := List.mem_map.mp ((Reduction.perm_plainly hn).subset hkv)
    exact (Value.each_obj.mp ho).1 kx hkx
  entries E hE := by
    refine ⟨rfl, fun _ _ _ => rfl, fun _ kv hkv => ?_⟩
    obtain ⟨kx, hkx, hkey, -⟩ := Reduction.mem_shortened hkv
    exact hkey ▸ h E hE kx.1 (List.mem_map_of_mem hkx)
  wrapped _ _ _ _ := rfl

end Drop

/-! ## Written moments -/

section Format

variable {keys : List String}

/-- A text is reduced to itself, so a moment in its written form keeps it. -/
theorem written_bare (h : Timestamps.written v = v)
    (hv : Reduction.isWrapped v = false) : Timestamps.written (bare v) = bare v := by
  cases v with
  | obj inner =>
    rcases Reduction.view_cases inner with ⟨E, hE⟩ | ⟨w, hw⟩ | hp
    · rw [Reduction.bare_entries hE]
      rfl
    · simp [Reduction.isWrapped, hw] at hv
    · rw [Reduction.bare_plain hp]
      rfl
  | arr items =>
    rw [Reduction.bare_arr]
    rfl
  | null | bool | num | str => rwa [Reduction.bare_scalar rfl rfl]

/-- Moments stay in form if the choice of keys is blind to reduction and no moment is wrapped. -/
theorem through_inForm (hn : Distinct o) (hblind : Blind keys.contains o)
    (h : (Value.obj o).Each {} (Unwrapped keys.contains)) :
    Through (Timestamps.descent keys) (Timestamps.InForm keys) o where
  plain _ ho kv hkv hk := by
    obtain ⟨kx, hkx, rfl⟩ := List.mem_map.mp ((Reduction.perm_plainly hn).subset hkv)
    exact written_bare ((Value.each_obj.mp ho).1 kx hkx hk) ((Value.each_obj.mp h).1 kx hkx hk)
  entries E hE := by
    obtain ⟨hentries, hshort⟩ := hblind.1 E hE
    refine ⟨hentries, fun k hk hstops => (hshort k hk).symm.trans hstops, fun ho kv hkv hk => ?_⟩
    obtain ⟨kx, hkx, hkey, heq⟩ := Reduction.mem_shortened hkv
    have hlong : keys.contains kx.1 = true := by
      rw [← hshort kx.1 (List.mem_map_of_mem hkx), hkey, hk]
    have hunwrapped := (Value.each_obj.mp (Reduction.each_entries hE rfl h)).1
    exact heq ▸ written_bare ((Value.each_obj.mp ho).1 kx hkx hlong) (hunwrapped kx hkx hlong)
  wrapped w hw := hblind.2 w hw

end Format

/-! ## Tagged items -/

section Tag

open Tag (Agrees Complete InTags isSkipped subjectIn resolve)

variable {definitions : TagDefinitions} {tags : Object} {opts : Tag.InjectOptions}

/-- A value reads as a text after reduction just as before, if it wraps none. -/
theorem str?_bare (h : ∀ inner, v = .obj inner → IsPlain inner) : (bare v).str? = v.str? := by
  cases v with
  | obj inner => rw [Reduction.bare_plain (h inner rfl)]; rfl
  | arr items => rw [Reduction.bare_arr]; rfl
  | null | bool | num | str => rw [Reduction.bare_scalar rfl rfl]

/-- Of a plain item whose entries are plain a tagging reads what it has read. -/
theorem agrees_plainly (hn : Distinct o)
    (h : ∀ kv ∈ o, ∀ inner, kv.2 = .obj inner → IsPlain inner) :
    Agrees tags opts o (plainly o) :=
  .of_get? (g := fun _ => bare) (fun tag _ => Reduction.get?_plainly hn tag.1) fun f _ =>
    ⟨Reduction.get?_plainly hn f, fun _ hv => str?_bare (h _ (Named.mem_of_get?_eq_some hv))⟩

theorem isPlain_of_each {d : Descent} (h : (Value.obj o).Each d IsPlain) : IsPlain o :=
  (Value.each_obj.mp h).1

/-- Items of a plain value have the tags that they had. -/
theorem through_inTags_of_plain (hn : (Value.obj o).Each {} Distinct)
    (h : (Value.obj o).Each {} IsPlain) :
    Through (Tag.descent tags opts) (InTags definitions tags opts) o where
  plain _ ho kv hkv hskip inner hinner := by
    obtain ⟨hno, hnvalues⟩ := Value.each_obj.mp hn
    obtain ⟨kx, hkx, rfl⟩ := List.mem_map.mp ((Reduction.perm_plainly hno).subset hkv)
    cases hx : kx.2 with
    | obj i =>
      have hi : (Value.obj i).Each {} IsPlain := hx ▸ (Value.each_obj.mp h).2 kx hkx rfl
      have hni : Distinct i := (Value.each_obj.mp (hx ▸ hnvalues kx hkx rfl)).1
      have hbelow : ∀ kv ∈ i, ∀ inner, kv.2 = .obj inner → IsPlain inner := fun kv hkv inner heq =>
        isPlain_of_each (heq ▸ (Value.each_obj.mp hi).2 kv hkv rfl)
      dsimp only at hinner
      rw [hx, Reduction.bare_plain (isPlain_of_each hi)] at hinner
      obtain rfl := Value.obj.inj hinner
      exact (agrees_plainly hni hbelow).complete ((Value.each_obj.mp ho).1 kx hkx hskip i hx)
    | null | bool | num | str | arr =>
      have hnone := Reduction.obj?_bare_of_obj?_eq_none (v := kx.2) (by rw [hx]; rfl)
      rw [show bare kx.2 = .obj inner from hinner] at hnone
      cases hnone
  entries E hE := nomatch (isPlain_of_each h).symm.trans hE
  wrapped w hw := nomatch (isPlain_of_each h).symm.trans hw

/-- Every tag has a value for every subject. -/
def Total (definitions : TagDefinitions) (tags : Object) : Prop :=
  ∀ tag ∈ tags, ∀ subject, (resolve definitions subject tag.2).isSome = true

/-- All tags are there. -/
def HasAll (tags o : Object) : Prop := ∀ tag ∈ tags, o.has tag.1 = true

/-- With all tags there, an item is complete for every subject. -/
theorem HasAll.complete (h : HasAll tags o) (subject : String) :
    Complete definitions tags subject o := fun tag htag => .inl (h tag htag)

/-- Where every tag has a value for every subject, only an item with all of them is complete. -/
theorem hasAll_of_complete (ht : Total definitions tags) {subject : String}
    (h : Complete definitions tags subject o) : HasAll tags o := fun tag htag =>
  (h tag htag).resolve_right (Option.isSome_iff_ne_none.mp (ht tag htag subject))

/-- Tags whose names are short already stay in entries whose keys are shortened. -/
theorem hasAll_shortened (hnames : ∀ k ∈ Named.keys tags, shortKey k = k) (h : HasAll tags o) :
    HasAll tags (shortened o) := fun tag htag =>
  Named.has_eq_true_iff.mpr (Reduction.mem_keys_shortened.mpr ⟨tag.1,
    Named.has_eq_true_iff.mp (h tag htag), hnames tag.1 (List.mem_map_of_mem htag)⟩)

theorem hasAll_plainly (hn : Distinct o) (h : HasAll tags o) : HasAll tags (plainly o) :=
  fun tag htag => Named.has_eq_true_iff.mpr
    ((Reduction.perm_keys_plainly hn).mem_iff.mpr (Named.has_eq_true_iff.mp (h tag htag)))

/-- What an item with all tags is reduced to has them all. -/
theorem hasAll_bare (ht : Total definitions tags) (hnames : ∀ k ∈ Named.keys tags, shortKey k = k)
    (hn : v.Each {} Distinct) (hblind : v.Each {} (Blind (isSkipped tags opts)))
    (hv : v.Each (Tag.descent tags opts) (InTags definitions tags opts))
    (hall : ∀ inner, v = .obj inner → HasAll tags inner) :
    ∀ inner, bare v = .obj inner → HasAll tags inner := by
  induction v using Reduction.viewInduction with
  | scalar v ha ho => rwa [Reduction.bare_scalar ha ho]
  | arr items => rw [Reduction.bare_arr]; nofun
  | entries o E hview =>
    rw [Reduction.bare_entries hview]
    rintro _ ⟨⟩
    have hmem := Named.mem_of_get?_eq_some (Reduction.view_entries_iff.mp hview)
    have hskip := ((Value.each_obj.mp hblind).1.1 E hview).1
    exact hasAll_shortened hnames
      (hasAll_of_complete ht ((Value.each_obj.mp hv).1 _ hmem hskip E rfl))
  | wrapped o w hview ih =>
    have hskip := (Value.each_obj.mp hblind).1.2 w hview
    rw [Reduction.bare_wrapped hview]
    refine ih (Reduction.each_wrapped hview (fun _ _ => rfl) hn)
      (Reduction.each_wrapped hview (fun _ _ => rfl) hblind)
      (Reduction.each_wrapped hview hskip hv) fun inner hinner => ?_
    obtain ⟨k, rfl, -⟩ := Reduction.view_wrapped hview
    exact hasAll_of_complete ht
      ((Value.each_obj.mp hv).1 _ List.mem_cons_self (hskip k List.mem_cons_self) inner hinner)
  | plain o hview =>
    rw [Reduction.bare_plain hview]
    rintro _ ⟨⟩
    exact hasAll_plainly (Value.each_obj.mp hn).1 (hall o rfl)

/-- …and so it is complete under whatever name it comes to stand. -/
theorem complete_bare {k k' : String} (ht : Total definitions tags)
    (hnames : ∀ k ∈ Named.keys tags, shortKey k = k) (hn : v.Each {} Distinct)
    (hblind : v.Each {} (Blind (isSkipped tags opts)))
    (hv : v.Each (Tag.descent tags opts) (InTags definitions tags opts))
    (hc : ∀ inner, v = .obj inner → Complete definitions tags (subjectIn opts k inner) inner) :
    ∀ inner, bare v = .obj inner → Complete definitions tags (subjectIn opts k' inner) inner :=
  fun inner hinner => (hasAll_bare ht hnames hn hblind hv
    (fun i hi => hasAll_of_complete ht (hc i hi)) inner hinner).complete _

/-- With a value of every tag for every subject, items may change their keys and stay complete. -/
theorem through_inTags_of_total (ht : Total definitions tags)
    (hnames : ∀ k ∈ Named.keys tags, shortKey k = k) (hn : (Value.obj o).Each {} Distinct)
    (hblind : (Value.obj o).Each {} (Blind (isSkipped tags opts))) :
    Through (Tag.descent tags opts) (InTags definitions tags opts) o where
  plain _ ho kv hkv hskip := by
    obtain ⟨hno, hnvalues⟩ := Value.each_obj.mp hn
    obtain ⟨hfields, hvalues⟩ := Value.each_obj.mp ho
    obtain ⟨kx, hkx, rfl⟩ := List.mem_map.mp ((Reduction.perm_plainly hno).subset hkv)
    exact complete_bare ht hnames (hnvalues kx hkx rfl) ((Value.each_obj.mp hblind).2 kx hkx rfl)
      (hvalues kx hkx hskip) (hfields kx hkx hskip)
  entries E hE := by
    obtain ⟨hentries, hshort⟩ := (Value.each_obj.mp hblind).1.1 E hE
    refine ⟨hentries, fun k hk hstops => (hshort k hk).symm.trans hstops, fun ho kv hkv hskip => ?_⟩
    obtain ⟨kx, hkx, hkey, heq⟩ := Reduction.mem_shortened hkv
    have hlong : isSkipped tags opts kx.1 = false := by
      rw [← hshort kx.1 (List.mem_map_of_mem hkx), hkey, hskip]
    obtain ⟨hfields, hvalues⟩ := Value.each_obj.mp ho
    have hnE := (Value.each_obj.mp (Reduction.each_entries hE rfl hn)).2
    have hblindE := (Value.each_obj.mp (Reduction.each_entries hE rfl hblind)).2
    exact heq ▸ complete_bare ht hnames (hnE kx hkx rfl) (hblindE kx hkx rfl) (hvalues kx hkx hlong)
      (hfields kx hkx hlong)
  wrapped w hw := (Value.each_obj.mp hblind).1.2 w hw

end Tag

/-- Only an object has something under a name. -/
theorem exists_of_get?_eq_some {k : String} {w : Value} (h : v.get? k = some w) :
    ∃ fields, v = .obj fields := by
  cases v with
  | obj fields => exact ⟨fields, rfl⟩
  | null | bool | num | str | arr => cases h

/-! ## Steps -/

namespace Step

variable {defaults : TagDefaults} {s : Step}

/-- Whether a step that is done with a value is done with the reduced value, too.  Tags would be
resolved for other subjects there, so each of them has to have a value for all. -/
def SeesThrough (defaults : TagDefaults) (v : Value) : Step → Prop
  | .filterKeys (.keep names) => ∀ o, bare v = .obj o → ∀ k ∈ Named.keys o,
    v.get? k = none → KeyFilter.lists (names.map KeyFilter.Entry.ofName) k = true
  | .filterKeys (.drop names) => v.Each {} fun o => ∀ E, view {} o = .entries E →
    ∀ k ∈ Named.keys E, KeyFilter.lists (names.map KeyFilter.Entry.ofName) (shortKey k) = false
  | .formatTimestamps keys =>
    v.Each {} fun o => Blind keys.contains o ∧ Unwrapped keys.contains o
  | .addKeysByTag step => ∀ t ∈ step.tagging?, v.Each {} IsPlain ∨
    Total (t.definitionsIn defaults) (t.tagsIn defaults) ∧
      (∀ k ∈ Named.keys (t.tagsIn defaults), shortKey k = k) ∧
      v.Each {} (Blind (Tag.isSkipped (t.tagsIn defaults) t.options))
  | _ => True

/-- **What is settled for a step that sees through the reduction stays settled.** -/
theorem Settled.bare (h : s.Settled defaults v) (hsees : SeesThrough defaults v s)
    (hn : v.Each {} Distinct) : s.Settled defaults (bare v) := by
  cases s with
  | filterKeys filter => cases filter with
    | keep names =>
      intro o ho kv hkv
      cases hget : v.get? kv.1 with
      | none => exact hsees o ho kv.1 (List.mem_map_of_mem hkv) hget
      | some x =>
        obtain ⟨fields, rfl⟩ := exists_of_get?_eq_some hget
        exact h fields rfl (kv.1, x) (Named.mem_of_get?_eq_some hget)
    | drop names =>
      exact Reduction.each_bare hn ((hn.and hsees).imp fun o ho => through_unlisted ho.1 ho.2) h
  | formatTimestamps keys =>
    have hsees' := (hn.and hsees).and (hsees.imp fun _ ho => ho.2).each
    exact Reduction.each_bare hn (hsees'.imp fun o ho => through_inForm ho.1.1 ho.1.2.1 ho.2) h
  | addKeysByTag step =>
    intro t ht
    refine Reduction.each_bare hn ?_ (h t ht)
    rcases hsees t ht with hplain | ⟨htotal, hnames, hblind⟩
    · exact (hn.each.and hplain.each).imp fun o ho => through_inTags_of_plain ho.1 ho.2
    · exact (hn.each.and hblind.each).imp fun o ho =>
        through_inTags_of_total htotal hnames ho.1 ho.2
  | renameKeys | runFunctions | convertArrayToMap | includeFirstEntry => trivial

/-! ### Plain values -/

/-- Of a plain object reduction changes no name. -/
theorem blind_of_plain (p : String → Bool) (h : IsPlain o) : Blind p o :=
  ⟨fun _ hE => (nomatch h.symm.trans hE), fun _ hv => (nomatch h.symm.trans hv)⟩

theorem each_open_of_plain (h : v.Each {} IsPlain) : v.Each {} Reduction.Open :=
  h.imp fun _ ho _ hE => nomatch ho.symm.trans hE

/-- In a plain value nothing is wrapped. -/
theorem unwrapped_of_plain (p : String → Bool) (h : (Value.obj o).Each {} IsPlain) :
    Unwrapped p o := by
  intro kv hkv _
  have hvalue := (Value.each_obj.mp h).2 kv hkv rfl
  cases hx : kv.2 with
  | obj inner =>
    rw [hx] at hvalue
    have hplain : view {} inner = .plain := isPlain_of_each hvalue
    simp only [Reduction.isWrapped, hplain]
  | null | bool | num | str | arr => rfl

/-- **Every step sees through the reduction of a plain value.** -/
theorem seesThrough_of_plain (hn : v.Each {} Distinct) (h : v.Each {} IsPlain) (s : Step) :
    SeesThrough defaults v s := by
  cases s with
  | filterKeys filter => cases filter with
    | keep names =>
      intro o ho k hk hnone
      cases hobj : v.obj? with
      | none =>
        have hbare := Reduction.obj?_bare_of_obj?_eq_none hobj
        rw [ho] at hbare
        cases hbare
      | some i =>
        obtain rfl := Value.eq_obj_of_obj?_eq_some hobj
        rw [Reduction.bare_plain (isPlain_of_each h)] at ho
        obtain rfl := Value.obj.inj ho
        have hmem := (Reduction.perm_keys_plainly (Value.each_obj.mp hn).1).subset hk
        exact absurd hmem (Named.get?_eq_none_iff.mp hnone)
    | drop names => exact h.imp fun _ ho _ hE => nomatch ho.symm.trans hE
  | formatTimestamps keys =>
    exact h.each.imp fun o ho => ⟨blind_of_plain _ (isPlain_of_each ho), unwrapped_of_plain _ ho⟩
  | addKeysByTag step => exact fun _ _ => .inl h
  | renameKeys | runFunctions | convertArrayToMap | includeFirstEntry => trivial

end Step

end DeviceStats
