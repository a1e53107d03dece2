import DeviceStats.Conditional
import DeviceStats.Proofs.Step.Reduction
import Mathlib.Data.List.Forall2

/-!
# Proofs/Step/Making — what a reduction makes of a value

`Makes` says once, constructor by constructor, what a reduction makes of a value if it is known what
it makes of the parts (`makes_of_reduce`), and `reduceInduction` follows that down.  Distinct names
and size are each carried by one induction of that form: a reduction makes nothing larger.
-/

namespace DeviceStats.Reduction

open Json (Value Object Distinct)

/-! ## One reduction -/

/-- Related values under the same names. -/
def Fieldwise (R : Value → Value → Prop) (o o' : Object) : Prop :=
  List.Forall₂ (fun kv kw => kv.1 = kw.1 ∧ R kv.2 kw.2) o o'

/-- What elements with names become: an object if every one of them has one, or an array still. -/
inductive Keyed (R : Value → Value → Prop) (key : ArrayKey) (items : List Value) : Value → Prop
  | named {items' : List Value} (hnames : ∀ v ∈ items, (key.textOf? v).isSome = true)
    (h : List.Forall₂ R items items') :
    Keyed R key items (.obj (Named.ofPairs ((items.map key.nameOf).zip items')))
  | kept {items' : List Value} (hlenient : key.lenient = true)
    (hlacks : ∃ v ∈ items, key.textOf? v = none) (h : List.Forall₂ R items items') :
    Keyed R key items (.arr items')

/-- Elements that get names: those of a whole response, or the items of an object. -/
inductive Lists (r : Reduction) : Bool → Value → ArrayKey → List Value → Prop
  | whole {key : ArrayKey} {items : List Value} (hkey : r.arrayKey? = some key) :
    Lists r true (.arr items) key items
  | items {top : Bool} {o : Object} {key : ArrayKey} {items : List Value}
    (hview : view r o = .items key items) : Lists r top (.obj o) key items

/-- Entries with their keys shortened. -/
def shorten (E : Object) : Object := E.map fun kv => (shortKey kv.1, kv.2)

/-- What entries become: the first one may give its contents. -/
inductive Collected (r : Reduction) (R : Value → Value → Prop) (E : Object) : Object → Prop
  | short {E' : Object} (h : Fieldwise R E E') : Collected r R E (Named.ofPairs (shorten E'))
  | lifted {first : FirstEntry} {key : String} {inner rest : Object}
    (hfirst : r.firstEntry? = some first) (h : Fieldwise R E ((key, .obj inner) :: rest)) :
    Collected r R E (Named.extend (Named.ofPairs inner) (shorten rest))

/-- What a reduction makes of a value, if `R` is what it makes of parts. -/
inductive Makes (r : Reduction) (R : Value → Value → Prop) : Bool → Value → Value → Prop
  | scalar {top : Bool} {v : Value} (ha : v.arr? = none) (ho : v.obj? = none) : Makes r R top v v
  | arr {top : Bool} {items items' : List Value} (hkeep : top = true → r.arrayKey? = none)
    (h : List.Forall₂ R items items') : Makes r R top (.arr items) (.arr items')
  | keyed {top : Bool} {v : Value} {key : ArrayKey} {items : List Value} {w : Value}
    (hlist : Lists r top v key items) (h : Keyed R key items w) : Makes r R top v w
  | entries {top : Bool} {o E o' : Object} (hview : view r o = .entries E)
    (h : Collected r R E o') : Makes r R top (.obj o) (.obj o')
  | wrapped {top : Bool} {o : Object} {v w : Value} (hview : view r o = .wrapped v) (h : R v w) :
    Makes r R top (.obj o) w
  | plain {top : Bool} {o o' : Object} (hview : view r o = .plain) (h : Fieldwise R o o') :
    Makes r R top (.obj o) (.obj (entriesLast o'))

variable {r : Reduction} {R S : Value → Value → Prop} {top : Bool} {v w : Value}
  {o o' E E' : Object} {items items' : List Value} {key : ArrayKey}

section Inversion

/-- A part of a value is reduced. -/
abbrev Reduces (r : Reduction) (v w : Value) : Prop := reduce r false v = .ok w

/-- A list is reduced element by element. -/
theorem forall₂_of_reduceItems (h : reduceItems r items = .ok items') :
    List.Forall₂ (Reduces r) items items' := by
  induction items generalizing items' with
  | nil =>
    rw [reduceItems] at h
    cases h
    exact .nil
  | cons v vs ih =>
    rw [reduceItems] at h
    obtain ⟨w, hw, h⟩ := exists_ok_of_bind h
    obtain ⟨ws, hws, h⟩ := exists_ok_of_bind h
    cases h
    exact .cons hw (ih hws)

/-- Fields keep their names and their order. -/
theorem fieldwise_of_reduceFields (h : reduceFields r o = .ok o') : Fieldwise (Reduces r) o o' := by
  induction o generalizing o' with
  | nil =>
    rw [reduceFields] at h
    cases h
    exact .nil
  | cons kv rest ih =>
    obtain ⟨k, v⟩ := kv
    rw [reduceFields] at h
    obtain ⟨w, hw, h⟩ := exists_ok_of_bind h
    obtain ⟨ws, hws, h⟩ := exists_ok_of_bind h
    cases h
    exact .cons ⟨rfl, hw⟩ (ih hws)

/-- Elements get names only if each has a text to be named by; an array with others stays one, if it
may. -/
theorem keyed_of_reduceKeyed (h : reduceKeyed r key items = .ok w) :
    Keyed (Reduces r) key items w := by
  rw [reduceKeyed] at h
  split at h
  · rename_i hall
    obtain ⟨items', hitems, h⟩ := exists_ok_of_bind h
    cases h
    exact .named (List.all_eq_true.mp hall) (forall₂_of_reduceItems hitems)
  · rename_i hall
    split at h
    · rename_i hlenient
      obtain ⟨items', hitems, h⟩ := exists_ok_of_bind h
      cases h
      refine .kept hlenient ?_ (forall₂_of_reduceItems hitems)
      simpa using hall
    · exact nomatch h

/-- Entries get short keys, unless the first of them is an object that is lifted. -/
theorem collected_of_reduceEntries (h : reduceEntries r E = .ok o') :
    Collected r (Reduces r) E o' := by
  rw [reduceEntries] at h
  obtain ⟨E', hfields, h⟩ := exists_ok_of_bind h
  have hE := fieldwise_of_reduceFields hfields
  simp only at h
  split at h
  · rename_i first key inner rest hfirst
    split at h
    · cases h
      exact .lifted hfirst hE
    · cases h
      exact .short hE
  · cases h
    exact .short hE

theorem reduce_top_arr (hkey : r.arrayKey? = some key) (items : List Value) :
    reduce r true (.arr items) = reduceKeyed r key items := by
  rw [reduce]
  exact hkey

/-- An array of a whole response may get names, any other stays an array. -/
theorem makes_of_reduce_arr {items : List Value} (h : reduce r top (.arr items) = .ok w) :
    Makes r (Reduces r) top (.arr items) w := by
  by_cases hkeep : top = true → r.arrayKey? = none
  · rw [reduce_arr hkeep] at h
    cases hitems : reduceItems r items with
    | error e =>
      rw [hitems] at h
      cases h
    | ok items' =>
      rw [hitems] at h
      cases h
      exact .arr hkeep (forall₂_of_reduceItems hitems)
  · obtain ⟨rfl, hkey⟩ := Classical.not_imp.mp hkeep
    obtain ⟨key, hkey⟩ := Option.ne_none_iff_exists'.mp hkey
    rw [reduce_top_arr hkey] at h
    exact .keyed (.whole hkey) (keyed_of_reduceKeyed h)

/-- An object is reduced to what its view says. -/
theorem makes_of_reduce_obj (h : reduce r top (.obj o) = .ok w) :
    Makes r (Reduces r) top (.obj o) w := by
  rw [reduce_obj] at h
  cases hview : view r o with
  | entries E =>
    rw [hview] at h
    obtain ⟨o', ho', h⟩ := exists_ok_of_bind h
    cases h
    exact .entries hview (collected_of_reduceEntries ho')
  | items key items =>
    rw [hview] at h
    exact .keyed (.items hview) (keyed_of_reduceKeyed h)
  | wrapped v =>
    rw [hview] at h
    exact .wrapped hview h
  | plain =>
    rw [hview] at h
    obtain ⟨o', ho', h⟩ := exists_ok_of_bind h
    cases h
    exact .plain hview (fieldwise_of_reduceFields ho')

/-- **What a reduction makes of a value.** -/
theorem makes_of_reduce (h : reduce r top v = .ok w) : Makes r (Reduces r) top v w := by
  cases v with
  | null | bool | num | str =>
    rw [reduce] at h
    · cases h
      exact .scalar rfl rfl
    all_goals intros; contradiction
  | arr items => exact makes_of_reduce_arr h
  | obj o => exact makes_of_reduce_obj h

end Inversion

/-! ## Parts of a value -/

/-- One value is a part of another: it is smaller and comes by no other objects. -/
structure Within (v w : Value) : Prop where
  size : v.size < w.size
  objects : v.objects {} ⊆ w.objects {}

/-- What every object in a value has, every object in a part of it has. -/
theorem Within.each {P : Object → Prop} (h : Within v w) (hw : w.Each {} P) : v.Each {} P :=
  fun o ho => hw o (h.objects ho)

/-- An element is a part of its array. -/
theorem within_item (h : v ∈ items) : Within v (.arr items) where
  size := Nat.lt_succ_of_lt (Value.size_item_lt h)
  objects := fun o ho => (Value.each_arr (Q := (· ∈ (Value.arr items).objects {}))).mp
    (fun _ => id) rfl v h o ho

/-- What stands under a name is a part of its object. -/
theorem within_field {kv : String × Value} (h : kv ∈ o) : Within kv.2 (.obj o) where
  size := Nat.lt_succ_of_lt (Value.size_field_lt h)
  objects := fun o' ho' => ((Value.each_obj (Q := (· ∈ (Value.obj o).objects {}))).mp
    (fun _ => id)).2 kv h rfl o' ho'

theorem Within.trans {u : Value} (h : Within u v) (h' : Within v w) : Within u w where
  size := Nat.lt_trans h.size h'.size
  objects := List.Subset.trans h.objects h'.objects

section Parts

/-- Related lists, by a relation that needs only hold of what is in the first. -/
theorem forall₂_imp_of_mem {β γ : Type} {R S : β → γ → Prop} {l : List β} {l' : List γ}
    (h : List.Forall₂ R l l') (H : ∀ b ∈ l, ∀ c, R b c → S b c) : List.Forall₂ S l l' := by
  induction h with
  | nil => exact .nil
  | cons hbc _ ih =>
    obtain ⟨hb, H⟩ := List.forall_mem_cons.mp H
    exact .cons (hb _ hbc) (ih H)

/-- Of fields only their own values are asked, … -/
theorem Fieldwise.imp_of_mem (h : Fieldwise R o o') (H : ∀ kv ∈ o, ∀ w, R kv.2 w → S kv.2 w) :
    Fieldwise S o o' :=
  forall₂_imp_of_mem h fun kv hkv _ hw => ⟨hw.1, H kv hkv _ hw.2⟩

/-- … of elements with names only the elements, … -/
theorem Keyed.imp_of_mem (h : Keyed R key items w) (H : ∀ v ∈ items, ∀ w, R v w → S v w) :
    Keyed S key items w := by
  cases h with
  | named hnames h => exact .named hnames (forall₂_imp_of_mem h H)
  | kept hlenient hlacks h => exact .kept hlenient hlacks (forall₂_imp_of_mem h H)

/-- … and of entries only what stands in them. -/
theorem Collected.imp_of_mem (h : Collected r R E o') (H : ∀ kv ∈ E, ∀ w, R kv.2 w → S kv.2 w) :
    Collected r S E o' := by
  cases h with
  | short h => exact .short (h.imp_of_mem H)
  | lifted hfirst h => exact .lifted hfirst (h.imp_of_mem H)

/-- What stands in entries is a part of the object, two levels down. -/
theorem within_entries (hview : view r o = .entries E) {kv : String × Value} (h : kv ∈ E) :
    Within kv.2 (.obj o) :=
  (within_field h).trans
    (within_field (Named.mem_of_get?_eq_some (view_entries_iff.mp hview)))

/-- An element that gets a name is a part of the response or object whose items it is among. -/
theorem Lists.within (hlist : Lists r top w key items) (h : v ∈ items) : Within v w := by
  cases hlist with
  | whole => exact within_item h
  | items hview =>
    exact (within_item h).trans (within_field (Named.mem_of_get?_eq_some (view_items hview).2))

theorem within_wrapped (hview : view r o = .wrapped v) : Within v (.obj o) := by
  obtain ⟨k, rfl, -⟩ := view_wrapped hview
  exact within_field (List.mem_singleton_self (k, v))

/-- A reduction asks only what it makes of parts. -/
theorem Makes.imp_of_within (h : Makes r R top v w) (H : ∀ a b, Within a v → R a b → S a b) :
    Makes r S top v w := by
  cases h with
  | scalar ha ho => exact .scalar ha ho
  | arr hkeep h => exact .arr hkeep (forall₂_imp_of_mem h fun a ha b => H a b (within_item ha))
  | keyed hlist h => exact .keyed hlist (h.imp_of_mem fun a ha b => H a b (hlist.within ha))
  | entries hview h =>
    exact .entries hview (h.imp_of_mem fun kv hkv b => H kv.2 b (within_entries hview hkv))
  | wrapped hview h => exact .wrapped hview (H _ _ (within_wrapped hview) h)
  | plain hview h => exact .plain hview (h.imp_of_mem fun kv hkv b => H kv.2 b (within_field hkv))

/-- **Induction on a reduction**, of a value whose objects have a property. -/
theorem reduceInduction {P : Object → Prop} {motive : Bool → Value → Value → Prop}
    (step : ∀ top v w, v.Each {} P →
      Makes r (fun a b => Reduces r a b ∧ motive false a b) top v w → motive top v w)
    (hv : v.Each {} P) (h : reduce r top v = .ok w) : motive top v w := by
  induction hn : v.size using Nat.strongRecOn generalizing top v w with
  | ind n ih =>
    subst hn
    refine step top v w hv ((makes_of_reduce h).imp_of_within fun a b hwithin hab => ⟨hab, ?_⟩)
    exact ih _ hwithin.size (hwithin.each hv) hab rfl

end Parts

/-! ## What becomes of the objects -/

section Objects

variable {Q : Object → Prop}

/-- Elements and names are paired off, with none left over. -/
theorem keys_zip_nameOf (key : ArrayKey) {items items' : List Value}
    (h : items'.length = items.length) :
    Named.keys ((items.map key.nameOf).zip items') = items.map key.nameOf :=
  List.map_fst_zip (Nat.le_of_eq (by rw [List.length_map, h]))

theorem forall_mem_of_forall₂ {β γ : Type} {P : γ → Prop} {l : List β} {l' : List γ}
    (h : List.Forall₂ (fun _ c => P c) l l') : ∀ c ∈ l', P c := by
  induction h with
  | nil => exact List.forall_mem_nil P
  | cons hc _ ih => exact List.forall_mem_cons.mpr ⟨hc, ih⟩

/-- Fields under the same names have the same names, in the same order. -/
theorem Fieldwise.keys_eq (h : Fieldwise R o o') : Named.keys o' = Named.keys o := by
  induction h with
  | nil => rfl
  | cons hkv _ ih => exact congrArg₂ List.cons hkv.1.symm ih

theorem Fieldwise.distinct (h : Fieldwise R o o') (hn : Distinct o) : Distinct o' := by
  rwa [Distinct, h.keys_eq]

/-- Moving the `entries` loses no member of what an object was reduced to. -/
theorem Fieldwise.perm_entriesLast (h : Fieldwise R o o') (hn : Distinct o) :
    (entriesLast o').Perm o' := Reduction.perm_entriesLast (h.distinct hn)

/-- What stands under a name in one of two related objects has a counterpart in the other. -/
theorem Fieldwise.get? (h : Fieldwise R o o') {k : String} {w : Value}
    (hw : o'.get? k = some w) : ∃ v, o.get? k = some v ∧ R v w := by
  induction h with
  | nil => exact nomatch hw
  | @cons kv kw o o' hkv _ ih =>
    obtain ⟨j, v⟩ := kv
    obtain ⟨j', v'⟩ := kw
    obtain ⟨rfl, hv⟩ := hkv
    rw [Named.get?_cons] at hw ⊢
    split at hw
    · rename_i hj
      cases hw
      exact ⟨v, if_pos hj, hv⟩
    · rename_i hj
      rw [if_neg hj]
      exact ih hw

theorem keys_shorten (E : Object) : Named.keys (shorten E) = (Named.keys E).map shortKey := by
  rw [Named.keys, shorten, List.map_map, Named.keys, List.map_map]
  rfl

/-- What stands in an object made of entries stood in their reduced values. -/
theorem Collected.forall_mem {P : Value → Prop} (hobj : ∀ o, P (.obj o) → ∀ kv ∈ o, P kv.2)
    (h : Collected r (fun _ w => P w) E o') : ∀ kv ∈ o', P kv.2 := by
  have hshort {E' : Object} (hE' : ∀ kv ∈ E', P kv.2) : ∀ kv ∈ shorten E', P kv.2 :=
    List.forall_mem_map.mpr hE'
  intro kv hkv
  cases h with
  | short h =>
    have hE' := forall_mem_of_forall₂ (h.imp fun _ _ hw => hw.2)
    exact hshort hE' kv (Named.mem_of_mem_ofPairs hkv)
  | lifted _ h =>
    obtain ⟨hinner, hrest⟩ :=
      List.forall_mem_cons.mp (forall_mem_of_forall₂ (h.imp fun _ _ hw => hw.2))
    obtain hkv | hkv := Named.mem_of_mem_extend hkv
    · exact hobj _ hinner kv (Named.mem_of_mem_ofPairs hkv)
    · exact hshort hrest kv hkv

/-- **A property of all objects is carried through a reduction** if the objects that it makes have
it. -/
theorem Makes.each (h : Makes r R top v w) (hn : v.Each {} Distinct)
    (hR : ∀ a b, R a b → b.Each {} Q)
    (keyed : ∀ key items items', Lists r top v key items → List.Forall₂ R items items' →
      Q (Named.ofPairs ((items.map key.nameOf).zip items')))
    (entries : ∀ o E o', v = .obj o → view r o = .entries E → Collected r R E o' → Q o')
    (plain : ∀ o o', v = .obj o → view r o = .plain → Fieldwise R o o' → Q (entriesLast o')) :
    w.Each {} Q := by
  have hitems {items items' : List Value} (h : List.Forall₂ R items items') :
      ∀ b ∈ items', b.Each {} Q := forall_mem_of_forall₂ (h.imp hR)
  cases h with
  | scalar ha ho => exact Value.each_scalar ha ho
  | arr _ h => exact Value.each_arr.mpr fun _ => hitems h
  | keyed hlist h =>
    cases h with
    | named _ h =>
      refine Value.each_obj.mpr ⟨keyed _ _ _ hlist h, fun kv hkv _ => hitems h _ ?_⟩
      exact (List.of_mem_zip (Named.mem_of_mem_ofPairs hkv)).2
    | kept _ _ h => exact Value.each_arr.mpr fun _ => hitems h
  | entries hview h =>
    refine Value.each_obj.mpr ⟨entries _ _ _ rfl hview h, fun kv hkv _ => ?_⟩
    exact (h.imp_of_mem fun _ _ => hR _).forall_mem
      (fun o ho kv hkv => (Value.each_obj.mp ho).2 kv hkv rfl) kv hkv
  | wrapped _ h => exact hR _ _ h
  | @plain o o' hview h =>
    refine Value.each_obj.mpr ⟨plain _ _ rfl hview h, fun kv hkv _ => ?_⟩
    have hperm := h.perm_entriesLast (Value.each_obj.mp hn).1
    have ho' : ∀ kv ∈ o', kv.2.Each {} Q :=
      forall_mem_of_forall₂ (h.imp fun _ _ hw => hR _ _ hw.2)
    exact ho' kv (hperm.subset hkv)

/-- Names are distinct in a reduced value. -/
theorem each_distinct_of_reduce (hn : v.Each {} Distinct) (h : reduce r top v = .ok w) :
    w.Each {} Distinct := by
  refine reduceInduction (motive := fun _ _ w => w.Each {} Distinct) ?_ hn h
  intro top v w hv hmakes
  refine hmakes.each hv (fun _ _ => And.right) (fun _ _ _ _ _ => Named.nodup_keys_ofPairs _) ?_ ?_
  · rintro o E o' rfl _ (h | ⟨_, h⟩)
    · exact Named.nodup_keys_ofPairs _
    · exact Named.nodup_keys_extend (Named.nodup_keys_ofPairs _)
  · rintro o o' rfl _ h
    have hno := (Value.each_obj.mp hv).1
    exact ((h.perm_entriesLast hno).map Prod.fst).nodup_iff.mpr (h.distinct hno)

end Objects

/-! ## Sizes -/

section Sizes

open Json.Value

/-- The size of an object does not depend on the order of its members. -/
theorem sizeFields_eq_of_perm (h : o.Perm o') : sizeFields o = sizeFields o' := by
  induction h with
  | nil => rfl
  | cons _ _ ih => simp only [sizeFields, ih]
  | swap => simp only [sizeFields]; omega
  | trans _ _ ih ih' => exact ih.trans ih'

/-- Names have no size, so short ones save nothing. -/
theorem sizeFields_shorten (E : Object) : sizeFields (shorten E) = sizeFields E := by
  induction E with
  | nil => rfl
  | cons kv E ih =>
    change kv.2.size + 1 + sizeFields (shorten E) = kv.2.size + 1 + sizeFields E
    rw [ih]

theorem sizeFields_zip_le (names : List String) (items : List Value) :
    sizeFields (names.zip items) ≤ sizeItems items := by
  induction items generalizing names with
  | nil => simp [sizeFields]
  | cons v items ih =>
    cases names with
    | nil => exact Nat.zero_le _
    | cons k names => exact Nat.add_le_add_left (ih names) _

/-- Of pairs with one name only one is kept, so an object is no larger than its pairs. -/
theorem sizeFields_ofPairs_le (o : Object) : sizeFields (Named.ofPairs o) ≤ sizeFields o := by
  have h := sizeFields_extend_le [] o
  rwa [sizeFields, Nat.zero_add] at h

theorem sizeItems_le (h : List.Forall₂ (fun a b : Value => b.size ≤ a.size) items items') :
    sizeItems items' ≤ sizeItems items := by
  induction h with
  | nil => exact Nat.le_refl _
  | cons hab _ ih => exact Nat.add_le_add (Nat.add_le_add_right hab 1) ih

theorem Fieldwise.sizeFields_le (h : Fieldwise (fun a b => b.size ≤ a.size) o o') :
    sizeFields o' ≤ sizeFields o := by
  induction h with
  | nil => exact Nat.le_refl _
  | cons hab _ ih => exact Nat.add_le_add (Nat.add_le_add_right hab.2 1) ih

/-- Elements with names are no larger than the array, since names have no size. -/
theorem Keyed.size_le (h : Keyed (fun a b => b.size ≤ a.size) key items w) :
    w.size ≤ sizeItems items + 1 := by
  cases h with
  | @named items' _ h =>
    refine Nat.succ_le_succ ?_
    calc sizeFields (Named.ofPairs ((items.map key.nameOf).zip items'))
        ≤ sizeFields ((items.map key.nameOf).zip items') := sizeFields_ofPairs_le _
      _ ≤ sizeItems items' := sizeFields_zip_le _ _
      _ ≤ sizeItems items := sizeItems_le h
  | kept _ _ h => exact Nat.succ_le_succ (sizeItems_le h)

/-- Entries are no larger when one of them gives its contents, for its own level is gone. -/
theorem Collected.sizeFields_le (h : Collected r (fun a b => b.size ≤ a.size) E o') :
    sizeFields o' ≤ sizeFields E := by
  cases h with
  | @short E' h =>
    calc sizeFields (Named.ofPairs (shorten E'))
        ≤ sizeFields (shorten E') := sizeFields_ofPairs_le _
      _ = sizeFields E' := sizeFields_shorten E'
      _ ≤ sizeFields E := h.sizeFields_le
  | @lifted _ _ inner rest _ h =>
    have hle := h.sizeFields_le
    have hinner := sizeFields_ofPairs_le inner
    have hextend := sizeFields_extend_le (Named.ofPairs inner) (shorten rest)
    rw [sizeFields_shorten] at hextend
    simp only [sizeFields, size] at hle
    omega

/-- **A reduction makes nothing larger.** -/
theorem size_le_of_reduce (hn : v.Each {} Distinct) (h : reduce r top v = .ok w) :
    w.size ≤ v.size := by
  refine reduceInduction (motive := fun _ v w => w.size ≤ v.size) ?_ hn h
  intro top v w hv hmakes
  replace hmakes := hmakes.imp_of_within (S := fun a b => b.size ≤ a.size) fun _ _ _ => And.right
  cases hmakes with
  | scalar => exact Nat.le_refl _
  | arr _ h => exact Nat.succ_le_succ (sizeItems_le h)
  | keyed hlist h =>
    cases hlist with
    | whole => exact h.size_le
    | items hview =>
      have hlt := sizeItems_view_items hview
      exact Nat.le_trans h.size_le (Nat.succ_le_succ (Nat.le_of_lt hlt))
  | entries hview h =>
    have hlt := sizeFields_view_entries hview
    exact Nat.succ_le_succ (Nat.le_trans h.sizeFields_le (Nat.le_of_lt hlt))
  | wrapped hview h =>
    have hlt := size_view_wrapped hview
    exact Nat.le_trans h (Nat.le_succ_of_le (Nat.le_of_lt hlt))
  | plain _ h =>
    have hperm := h.perm_entriesLast (Value.each_obj.mp hv).1
    exact Nat.succ_le_succ (sizeFields_eq_of_perm hperm ▸ h.sizeFields_le)

end Sizes

end DeviceStats.Reduction
