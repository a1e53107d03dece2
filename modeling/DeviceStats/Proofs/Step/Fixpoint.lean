import DeviceStats.Proofs.Step.Making

/-!
# Proofs/Step/Fixpoint — what a reduction leaves alone

A value is reduced no further exactly if it is **steady** (`apply_eq_self_iff`): every object in it
is plain, with its entries at the end, and the whole is no array that names would make an object.  A
reduced value need not be steady, since each object is looked at once: what is lifted out of it may
be a collection, a list with names or a wrapper in its turn.  It is steady if the names under which
things are lifted reveal nothing of the kind (`steady_of_calm`).
-/

namespace DeviceStats.Reduction

open Json (Value Object Distinct)

variable {r : Reduction} {R : Value → Value → Prop} {top : Bool} {v w : Value}
  {o o' E : Object} {items : List Value} {key : ArrayKey}

/-! ## Steady values -/

/-- An object that a reduction leaves as it is. -/
def Still (r : Reduction) (o : Object) : Prop := view r o = .plain ∧ entriesLast o = o

/-- An array stays one if some element has no name and that is allowed. -/
def Kept (r : Reduction) (v : Value) : Prop := ∀ key items, r.arrayKey? = some key →
  v = .arr items → key.lenient = true ∧ ∃ item ∈ items, key.textOf? item = none

/-- A whole response in which nothing is left to reduce. -/
structure Steady (r : Reduction) (v : Value) : Prop where
  objects : v.Each {} (Still r)
  whole : Kept r v

section Steady

/-- A value of still objects is reduced to itself. -/
theorem reduce_eq_self (h : v.Each {} (Still r)) (hwhole : top = true → Kept r v) :
    reduce r top v = .ok v := by
  induction v using Value.partsInduction generalizing top with
  | scalar v ha ho => exact reduce_scalar top ha ho
  | arr items ih =>
    have hitems : reduceItems r items = .ok (items.map id) :=
      reduceItems_eq fun v hv =>
        ih v hv (Value.each_arr.mp h rfl v hv) (absurd · Bool.false_ne_true)
    rw [List.map_id] at hitems
    by_cases hkeep : top = true → r.arrayKey? = none
    · rw [reduce_arr hkeep, hitems]
      rfl
    · obtain ⟨rfl, hkey⟩ := Classical.not_imp.mp hkeep
      obtain ⟨key, hkey⟩ := Option.ne_none_iff_exists'.mp hkey
      obtain ⟨hlenient, item, hitem, hnone⟩ := hwhole rfl key items hkey rfl
      have hall : ¬ (items.all fun item => (key.textOf? item).isSome) = true := fun hall => by
        simpa [hnone] using List.all_eq_true.mp hall item hitem
      rw [reduce_top_arr hkey, reduceKeyed, if_neg hall, if_pos hlenient, hitems]
      rfl
  | obj o ih =>
    obtain ⟨⟨hview, hlast⟩, hvalues⟩ := Value.each_obj.mp h
    have hfields : reduceFields r o = .ok (o.map id) :=
      reduceFields_eq (f := id) fun kv hkv =>
        ih kv hkv (hvalues kv hkv rfl) (absurd · Bool.false_ne_true)
    rw [List.map_id] at hfields
    rw [reduce_obj, hview]
    simp only [hfields, bind, Except.bind, hlast]
    rfl

/-- What an object that does not become smaller is reduced to. -/
theorem plain_of_size_le (hn : (Value.obj o).Each {} Distinct) (h : reduce r top (.obj o) = .ok w)
    (hle : (Value.obj o).size ≤ w.size) :
    view r o = .plain ∧ ∃ o', Fieldwise (Reduces r) o o' ∧ w = .obj (entriesLast o') := by
  have hsizes : ∀ a b, Within a (.obj o) → Reduces r a b → b.size ≤ a.size :=
    fun a b hwithin hab => size_le_of_reduce (hwithin.each hn) hab
  rw [Value.size] at hle
  cases makes_of_reduce h with
  | scalar _ ho => cases ho
  | keyed hlist hkeyed =>
    have hw := (hkeyed.imp_of_mem fun a ha b => hsizes a b (hlist.within ha)).size_le
    cases hlist with
    | items hview =>
      have hlt := sizeItems_view_items hview
      omega
  | entries hview hcollected =>
    have hw := (hcollected.imp_of_mem fun kv hkv b =>
      hsizes kv.2 b (within_entries hview hkv)).sizeFields_le
    have hlt := sizeFields_view_entries hview
    rw [Value.size] at hle
    omega
  | wrapped hview hinner =>
    have hw := hsizes _ _ (within_wrapped hview) hinner
    have hlt := size_view_wrapped hview
    omega
  | plain hview hfields => exact ⟨hview, _, hfields, rfl⟩

/-- Entries that go to the end without a change of the names were there. -/
theorem eq_of_entriesLast_eq (hn : Distinct o') (hkeys : Named.keys o' = Named.keys o)
    (h : entriesLast o' = o) : o' = o := by
  obtain ⟨-, hsame⟩ | ⟨front, v, hfront, hlast, -⟩ := entriesLast_cases hn
  · exact hsame.symm.trans h
  · obtain rfl | ⟨front', ⟨k, v'⟩, rfl⟩ := List.eq_nil_or_concat' o'
    · exact h
    · rw [← h, hlast] at hkeys
      simp only [Named.keys, List.map_append, List.map_cons, List.map_nil] at hkeys
      obtain ⟨hfronts, hk⟩ := List.append_inj' hkeys rfl
      obtain rfl : k = "entries" := List.singleton_inj.mp hk
      have hfront' : "entries" ∉ Named.keys front' := by rwa [Named.keys, hfronts]
      exact (entriesLast_concat hfront' v').symm.trans h

/-- A value that is reduced to itself has only still objects. -/
theorem each_still_of_reduce (hn : v.Each {} Distinct) (h : reduce r top v = .ok v) :
    v.Each {} (Still r) := by
  induction v using Value.partsInduction generalizing top with
  | scalar v ha ho => exact Value.each_scalar ha ho
  | arr items ih =>
    have hitems : List.Forall₂ (Reduces r) items items := by
      cases makes_of_reduce h with
      | scalar ha => exact nomatch ha
      | arr _ h => exact h
      | keyed hlist h =>
        cases hlist
        cases h
        assumption
    rw [List.forall₂_same] at hitems
    exact Value.each_arr.mpr fun _ v hv => ih v hv (Value.each_arr.mp hn rfl v hv) (hitems v hv)
  | obj o ih =>
    obtain ⟨hno, hnvalues⟩ := Value.each_obj.mp hn
    obtain ⟨hview, o', hfields, heq⟩ := plain_of_size_le hn h (Nat.le_refl _)
    have hlast : entriesLast o' = o := (Value.obj.inj heq).symm
    obtain rfl := eq_of_entriesLast_eq (hfields.distinct hno) hfields.keys_eq hlast
    rw [Fieldwise, List.forall₂_same] at hfields
    exact Value.each_obj.mpr ⟨⟨hview, hlast⟩,
      fun kv hkv _ => ih kv hkv (hnvalues kv hkv rfl) (hfields kv hkv).2⟩

/-- **A reduction changes nothing exactly in a steady value.** -/
theorem apply_eq_self_iff (hn : v.Each {} Distinct) : r.apply v = .ok v ↔ Steady r v := by
  refine ⟨fun h => ⟨each_still_of_reduce hn h, ?_⟩,
    fun h => reduce_eq_self h.objects fun _ => h.whole⟩
  rintro key items hkey rfl
  cases makes_of_reduce h with
  | scalar ha => exact nomatch ha
  | arr hkeep => exact nomatch hkey.symm.trans (hkeep rfl)
  | keyed hlist h =>
    cases hlist with
    | whole hkey' =>
      cases hkey.symm.trans hkey'
      cases h with
      | kept hlenient hlacks => exact ⟨hlenient, hlacks⟩

end Steady

/-! ## Calm values -/

/-- Names that reveal nothing to reduce in an object that has them: there are no entries, no items
if elements get names, and not a single wrapped value. -/
def Hidden (r : Reduction) (names : List String) : Prop :=
  "entries" ∉ names ∧ (r.arrayKey?.isSome = true → "items" ∉ names) ∧
    (names ≠ [] → ∀ k ∈ wrappers, ∃ n ∈ names, n ≠ k)

instance (r : Reduction) : DecidablePred (Hidden r) := fun _ =>
  inferInstanceAs (Decidable (_ ∧ _ ∧ _))

/-- The names under which parts are lifted reveal nothing, also without that of a first entry. -/
def CalmView (r : Reduction) : View → Prop
  | .entries E => Hidden r ((Named.keys E).map shortKey) ∧
      (r.firstEntry?.isSome = true → Hidden r ((Named.keys E).tail.map shortKey))
  | .items key items => Hidden r (items.map key.nameOf)
  | .wrapped _ | .plain => True

instance (r : Reduction) : DecidablePred (CalmView r)
  | .entries _ => inferInstanceAs (Decidable (_ ∧ _))
  | .items _ _ => inferInstanceAs (Decidable (Hidden r _))
  | .wrapped _ | .plain => .isTrue trivial

/-- An object that reveals nothing when it is reduced. -/
structure Calm (r : Reduction) (o : Object) : Prop where
  view : CalmView r (view r o)
  /-- No object is reduced to an array of items. -/
  items : r.arrayKey?.isSome = true → ((o.get? "items").bind Value.obj?).isNone = true
  /-- Entries are lifted, so that they are not found behind the contents of a first one. -/
  lifted : r.firstEntry?.isSome = true → (o.get? "entries").all (·.obj?.isSome) = true

instance (r : Reduction) : DecidablePred (Calm r) := fun o =>
  decidable_of_iff (CalmView r (view r o) ∧
      (r.arrayKey?.isSome = true → ((o.get? "items").bind Value.obj?).isNone = true) ∧
      (r.firstEntry?.isSome = true → (o.get? "entries").all (·.obj?.isSome) = true))
    ⟨fun ⟨h, hi, hl⟩ => ⟨h, hi, hl⟩, fun ⟨h, hi, hl⟩ => ⟨h, hi, hl⟩⟩

/-- The names that the elements of a whole response get reveal nothing. -/
def CalmWhole (r : Reduction) (v : Value) : Prop := ∀ key items, r.arrayKey? = some key →
  v = .arr items → Hidden r (items.map key.nameOf)

/-- An object in which nothing is left to reduce, and which can be put in front of others. -/
structure Flat (r : Reduction) (o : Object) : Prop where
  distinct : Distinct o
  still : Still r o
  free : r.firstEntry?.isSome = true → "entries" ∉ Named.keys o

section Calm

variable {names : List String}

theorem flat_of_hidden (hn : Distinct o) (hnames : ∀ k, k ∈ Named.keys o ↔ k ∈ names)
    (h : Hidden r names) : Flat r o := by
  obtain ⟨hentries, hitems, hwrapped⟩ := h
  have hout {k : String} (hk : k ∉ names) : o.get? k = none :=
    Named.get?_eq_none_iff.mpr (mt (hnames k).mp hk)
  have hfree : "entries" ∉ Named.keys o := mt (hnames _).mp hentries
  refine ⟨hn, ⟨view_eq_plain_iff.mpr ⟨fun E hE => ?_, fun hkey items hi => ?_, ?_⟩,
    entriesLast_of_not_mem hfree⟩, fun _ => hfree⟩
  · exact nomatch (hout hentries).symm.trans hE
  · exact nomatch (hout (hitems hkey)).symm.trans hi
  · rintro k v rfl
    refine Bool.eq_false_iff.mpr fun hk => ?_
    have hmem : k ∈ names := (hnames k).mp (List.mem_singleton_self k)
    obtain ⟨n, hn, hne⟩ := hwrapped (List.ne_nil_of_mem hmem) k (List.contains_iff_mem.mp hk)
    exact hne (List.mem_singleton.mp ((hnames n).mpr hn))

/-- An object that elements get by their names. -/
theorem flat_named {items' : List Value} (h : List.Forall₂ R items items')
    (hnames : Hidden r (items.map key.nameOf)) :
    Flat r (Named.ofPairs ((items.map key.nameOf).zip items')) := by
  refine flat_of_hidden (Named.nodup_keys_ofPairs _) (fun k => ?_) hnames
  rw [Named.mem_keys_ofPairs, keys_zip_nameOf key h.length_eq.symm]

/-- An object that entries get which are put behind the contents of the first one. -/
theorem flat_lifted {inner rest : Object} (hfirst : r.firstEntry?.isSome = true)
    (hinner : Flat r inner) (hrest : Hidden r ((Named.keys rest).map shortKey)) :
    Flat r (Named.extend (Named.ofPairs inner) (shorten rest)) := by
  obtain ⟨hentries, hitems, hwrapped⟩ := hrest
  obtain ⟨-, hinneritems, hinnerwrapped⟩ := view_eq_plain_iff.mp hinner.still.1
  rw [Named.ofPairs_of_nodup hinner.distinct]
  rw [← keys_shorten] at hentries hitems hwrapped
  have hfree : "entries" ∉ Named.keys (Named.extend inner (shorten rest)) := by
    rw [Named.mem_keys_extend]
    exact not_or.mpr ⟨hinner.free hfirst, hentries⟩
  refine ⟨Named.nodup_keys_extend hinner.distinct, ⟨view_eq_plain_iff.mpr
    ⟨fun E hE => ?_, fun hkey items hi => ?_, fun k v ho => Bool.eq_false_iff.mpr fun hk => ?_⟩,
    entriesLast_of_not_mem hfree⟩, fun _ => hfree⟩
  · exact nomatch (Named.get?_eq_none_iff.mpr hfree).symm.trans hE
  · rw [Named.get?_extend_of_not_mem (hitems hkey)] at hi
    exact hinneritems hkey items hi
  · by_cases hnil : shorten rest = []
    · rw [hnil] at ho
      exact Bool.eq_false_iff.mp (hinnerwrapped k v ho) hk
    · have hnames : Named.keys (shorten rest) ≠ [] := mt List.map_eq_nil_iff.mp hnil
      obtain ⟨n, hn, hne⟩ := hwrapped hnames k (List.contains_iff_mem.mp hk)
      have hmem : n ∈ Named.keys (Named.extend inner (shorten rest)) :=
        Named.mem_keys_extend.mpr (.inr hn)
      rw [ho] at hmem
      exact hne (List.mem_singleton.mp hmem)

/-- An object that entries get. -/
theorem flat_collected (h : Collected r (fun a b => Reduces r a b ∧ b.Each {} (Flat r)) E o')
    (hcalm : CalmView r (.entries E)) : Flat r o' := by
  obtain ⟨hnames, htail⟩ := hcalm
  cases h with
  | short h =>
    refine flat_of_hidden (Named.nodup_keys_ofPairs _) (fun k => ?_) hnames
    rw [Named.mem_keys_ofPairs, keys_shorten, h.keys_eq]
  | @lifted _ key inner rest hfirst h =>
    have hfirst : r.firstEntry?.isSome = true := hfirst ▸ rfl
    have hinner : (Value.obj inner).Each {} (Flat r) := by
      cases h with
      | cons hkv _ => exact hkv.2.2
    have hrest : (Named.keys E).tail = Named.keys rest := by rw [← h.keys_eq]; rfl
    exact flat_lifted hfirst (Value.each_obj.mp hinner).1 (hrest ▸ htail hfirst)

theorem obj?_of_reduces (h : Reduces r v w) (hv : v.obj? = none) : w.obj? = none := by
  cases makes_of_reduce h with
  | scalar _ ho => exact ho
  | arr => rfl
  | keyed hlist =>
    cases hlist
    exact nomatch hv
  | entries | wrapped | plain => exact nomatch hv

theorem arr?_of_reduces (h : Reduces r v w) (hv : v.obj? = none) (ha : v.arr? = none) :
    w.arr? = none := by
  cases makes_of_reduce h with
  | scalar ha => exact ha
  | arr => exact nomatch ha
  | keyed hlist =>
    cases hlist
    exact nomatch hv
  | entries | wrapped | plain => exact nomatch hv

theorem obj?_entries_of_plain (hview : view r o = .plain) (hv : o.get? "entries" = some v) :
    v.obj? = none := by
  refine Option.eq_none_iff_forall_ne_some.mpr fun E hE => (view_eq_plain_iff.mp hview).1 E ?_
  rw [hv, Value.eq_obj_of_obj?_eq_some hE]

/-- A calm object is viewed as it was once its values are reduced, in whatever order. -/
theorem view_plain_of_calm {p : Object} (hcalm : Calm r o) (hview : view r o = .plain)
    (hkeys : (Named.keys p).Perm (Named.keys o))
    (hvalue : ∀ {k w}, p.get? k = some w → ∃ v, o.get? k = some v ∧ Reduces r v w) :
    view r p = .plain := by
  obtain ⟨-, hitems, hwrapped⟩ := view_eq_plain_iff.mp hview
  refine view_eq_plain_iff.mpr ⟨fun E hE => ?_, fun hkey items hi => ?_, fun k v ho => ?_⟩
  · obtain ⟨v, hv, hreduces⟩ := hvalue hE
    exact nomatch obj?_of_reduces hreduces (obj?_entries_of_plain hview hv)
  · obtain ⟨v, hv, hreduces⟩ := hvalue hi
    have hobj : v.obj? = none := by
      have hcalm := hcalm.items hkey
      rwa [hv, Option.bind_some, Option.isNone_iff_eq_none] at hcalm
    have harr : v.arr? = none := by
      cases v with
      | arr items => exact absurd hv (hitems hkey items)
      | null | bool | num | str | obj => rfl
    exact nomatch arr?_of_reduces hreduces hobj harr
  · rw [ho] at hkeys
    obtain ⟨⟨j, x⟩, hox, hj⟩ := List.map_eq_singleton_iff.mp (List.singleton_perm.mp hkeys).symm
    exact hwrapped k x (hox.trans (by rw [show j = k from hj]))

/-- A plain object, with its values reduced. -/
theorem flat_plain (hn : Distinct o) (hcalm : Calm r o) (hview : view r o = .plain)
    (h : Fieldwise (Reduces r) o o') : Flat r (entriesLast o') := by
  have hn' : Distinct o' := h.distinct hn
  have hperm : (entriesLast o').Perm o' := h.perm_entriesLast hn
  have hkeys : (Named.keys (entriesLast o')).Perm (Named.keys o) := h.keys_eq ▸ hperm.map Prod.fst
  have hview' : view r (entriesLast o') = .plain :=
    view_plain_of_calm hcalm hview hkeys fun hw => h.get? (Named.get?_of_perm hperm hn' _ ▸ hw)
  refine ⟨hkeys.nodup_iff.mpr hn, ⟨hview', entriesLast_entriesLast hn'⟩, fun hfirst hmem => ?_⟩
  obtain ⟨v, hv⟩ := Option.ne_none_iff_exists'.mp
    (mt Named.get?_eq_none_iff.mp (not_not_intro (hkeys.mem_iff.mp hmem)))
  have hlifted := hcalm.lifted hfirst
  rw [hv, Option.all_some, obj?_entries_of_plain hview hv] at hlifted
  exact nomatch hlifted

/-- **What a calm value is reduced to is flat everywhere.** -/
theorem each_flat_of_reduce (hn : v.Each {} Distinct) (hcalm : v.Each {} (Calm r))
    (hwhole : top = true → CalmWhole r v) (h : reduce r top v = .ok w) : w.Each {} (Flat r) := by
  revert hwhole
  refine reduceInduction
    (motive := fun top v w => (top = true → CalmWhole r v) → w.Each {} (Flat r)) ?_ (hn.and hcalm) h
  intro top v w hv hmakes hwhole
  have hn : v.Each {} Distinct := hv.imp fun _ => And.left
  have hcalm : v.Each {} (Calm r) := hv.imp fun _ => And.right
  replace hmakes := hmakes.imp_of_within (S := fun a b => Reduces r a b ∧ b.Each {} (Flat r))
    fun _ _ _ hab => ⟨hab.1, hab.2 nofun⟩
  refine hmakes.each hn (fun _ _ => And.right) (fun key items items' hlist hitems => ?_) ?_ ?_
  · refine flat_named hitems ?_
    cases hlist with
    | whole hkey => exact hwhole rfl key items hkey rfl
    | items hview =>
      have hcalm := (Value.each_obj.mp hcalm).1.view
      rwa [hview] at hcalm
  · rintro o E o' rfl hview hcollected
    have hcalm := (Value.each_obj.mp hcalm).1.view
    exact flat_collected hcollected (hview ▸ hcalm)
  · rintro o o' rfl hview hfields
    exact flat_plain (Value.each_obj.mp hn).1 (Value.each_obj.mp hcalm).1 hview
      (hfields.imp_of_mem fun _ _ _ => And.left)

/-- **What a calm value is reduced to is steady**, if it stays an array where it is one. -/
theorem steady_of_calm (hn : v.Each {} Distinct) (hcalm : v.Each {} (Calm r))
    (hwhole : CalmWhole r v) (h : r.apply v = .ok w) (hkept : Kept r w) : Steady r w where
  objects := (each_flat_of_reduce hn hcalm (fun _ => hwhole) h).imp fun _ => Flat.still
  whole := hkept

end Calm

theorem calm_of_open (h : Open o) : Calm {} o := by
  refine ⟨?_, nofun, nofun⟩
  cases hview : view {} o with
  | entries E =>
    obtain ⟨hentries, hwrapped⟩ := h E hview
    refine ⟨⟨fun hmem => ?_, nofun, fun hne k hk => ?_⟩, nofun⟩
    · obtain ⟨j, hj, heq⟩ := List.mem_map.mp hmem
      exact hentries j hj heq
    · have hE : E ≠ [] := fun hnil => hne (by rw [hnil]; rfl)
      obtain ⟨j, hj, hshort⟩ := hwrapped hE k hk
      exact ⟨shortKey j, List.mem_map_of_mem hj, hshort⟩
  | items key items => exact nomatch (view_items hview).1
  | wrapped | plain => exact trivial

/-- A value reduced without options is reduced no further if nothing is revealed. -/
theorem bare_bare (hn : v.Each {} Distinct) (hopen : v.Each {} Open) : bare (bare v) = bare v := by
  have h : apply {} v = .ok (bare v) := reduce_eq v true
  have hsteady : Steady {} (bare v) :=
    steady_of_calm hn (hopen.imp fun _ => calm_of_open) nofun h nofun
  have hagain := (apply_eq_self_iff (each_distinct_of_reduce hn h)).mpr hsteady
  rw [apply, reduce_eq] at hagain
  exact Except.ok.inj hagain

/-- **A reduction of a reduced value changes nothing exactly if the value is steady**, which it is
if the names under which the first reduction lifts things reveal nothing, and no array that elements
with names would make an object is left of the whole. -/
theorem apply_reduced (r : Reduction) {v w : Value} (hn : v.Each {} Distinct)
    (h : r.apply v = .ok w) : (r.apply w = .ok w ↔ Steady r w) ∧
      (v.Each {} (Calm r) → CalmWhole r v → Kept r w → r.apply w = .ok w) := by
  have hiff : r.apply w = .ok w ↔ Steady r w := apply_eq_self_iff (each_distinct_of_reduce hn h)
  exact ⟨hiff, fun hcalm hwhole hkept => hiff.mpr (steady_of_calm hn hcalm hwhole h hkept)⟩

/-- A first entry is lifted, and the items of the other get their names. -/
theorem apply_reduced_two_entries :
    let r : Reduction := ⟨some ⟨"name", none, true⟩, some ⟨"first", none⟩⟩
    let v : Value := .obj [("entries", .obj [
      ("http://host/first/stats", .obj [("nestedStats", .obj [("entries", .obj [("a",
        .obj [("value", .int 1)])])])]),
      ("~Common~vs1", .obj [("items", .arr [.obj [("name", .str "p1"), ("port", .int 80)],
        .obj [("name", .str "p2")]])])])]
    v.Each {} Distinct ∧ v.Each {} (Calm r) ∧ CalmWhole r v ∧
      ∃ w, r.apply v = .ok w ∧ Kept r w ∧ (w.get? "/Common/vs1").any (·.obj?.isSome) = true ∧
        r.apply w = .ok w := by
  intro r v
  have hn : v.Each {} Distinct := by decide +kernel
  have hcalm : v.Each {} (Calm r) := by decide +kernel
  have hwhole : CalmWhole r v := fun _ _ _ harr => nomatch harr
  have hshape : (r.apply v).toOption.any (fun w => w.obj?.isSome &&
      (w.get? "/Common/vs1").any (·.obj?.isSome)) = true := by decide +kernel
  obtain ⟨w, hw, hshape⟩ := (Option.any_eq_true ..).mp hshape
  have h : r.apply v = .ok w := by
    cases happly : r.apply v with
    | error e => rw [happly] at hw; exact nomatch hw
    | ok w' => rw [happly] at hw; exact congrArg _ (Option.some.inj hw)
  obtain ⟨hobj, hvs⟩ := Bool.and_eq_true_iff.mp hshape
  have hkept : Kept r w := by
    rintro key items _ rfl
    exact nomatch hobj
  exact ⟨hn, hcalm, hwhole, w, h, hkept, hvs, (apply_reduced r hn h).2 hcalm hwhole hkept⟩

/-- A list that a wrapper hides from a reduction is refused by the next. -/
example :
    let r : Reduction := { arrayKey? := some ⟨"name", none, false⟩ }
    let v : Value := .obj [("value", .arr [.int 1])]
    (r.apply v).toOption.isSome = true ∧
      ((r.apply v).toOption.bind fun w => (r.apply w).toOption) = none := by
  decide +kernel

/-- **A reduced value can be reduced further**: what the entries of a collection become can look
like a wrapped value, which is taken out the second time only. -/
theorem not_apply_reduced : ¬ ∀ (r : Reduction) (v w : Value), v.Each {} Distinct →
    r.apply v = .ok w → r.apply w = .ok w := by
  intro h
  let v : Value := .obj [("entries", .obj [("value", .obj [("value", .int 5)])])]
  have hagain := h {} v (bare v) (by decide +kernel) (reduce_eq v true)
  rw [apply, reduce_eq] at hagain
  have hscalar : (bare (bare v)).obj?.isSome = false := by decide +kernel
  have hobject : (bare v).obj?.isSome = true := by decide +kernel
  rw [Except.ok.inj hagain, hobject] at hscalar
  exact nomatch hscalar

end DeviceStats.Reduction
