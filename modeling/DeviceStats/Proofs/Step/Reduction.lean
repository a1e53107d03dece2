import DeviceStats.Proofs.Json.Names
import DeviceStats.Proofs.Json.Objects
import DeviceStats.Step.Reduction

/-!
# Proofs/Step/Reduction — what a reduction without options makes of a value

A reduction without options succeeds (`reduce_eq`), and what it makes of a value follows the view of
each object: entries under their short keys, what is wrapped, or the plain object again.  A property
of the objects of a value is carried over to the reduced value if the reduction of each object
respects it (`each_bare`).
-/

namespace DeviceStats.Reduction

open Json (Value Object Descent Distinct)

/-! ## Views -/

/-- Without options an object is not taken for keyed items. -/
theorem view_cases (o : Object) : (∃ entries, view {} o = .entries entries) ∨
    (∃ v, view {} o = .wrapped v) ∨ view {} o = .plain := by
  unfold view
  split
  · exact .inl ⟨_, rfl⟩
  · split
    · rename_i h _
      cases h
    · split
      · exact .inr (.inl ⟨_, rfl⟩)
      · exact .inr (.inr rfl)

instance {P : Object → Prop} [DecidablePred P] (o : Object) :
    Decidable (∀ E, view {} o = .entries E → P E) :=
  match view {} o with
  | .entries E => decidable_of_iff (P E) ⟨fun h _ heq => View.entries.inj heq ▸ h, fun h => h E rfl⟩
  | .items _ _ | .wrapped _ | .plain => .isTrue nofun

instance {P : Prop} [Decidable P] (o : Object) : Decidable (∀ v, view {} o = .wrapped v → P) :=
  match view {} o with
  | .wrapped v => decidable_of_iff P ⟨fun h _ _ => h, fun h => h v rfl⟩
  | .entries _ | .items _ _ | .plain => .isTrue nofun

/-- Whether an object is left as it is. -/
def IsPlain (o : Object) : Prop := view {} o = .plain

instance : DecidablePred IsPlain := fun o =>
  match h : view {} o with
  | .plain => .isTrue h
  | .entries _ | .items _ _ | .wrapped _ => .isFalse fun hp => nomatch h.symm.trans hp

/-- Whether a value is an object that wraps another. -/
def isWrapped : Value → Bool
  | .obj o =>
    match view {} o with
    | .wrapped _ => true
    | _ => false
  | _ => false

/-- Induction on what a value is reduced to. -/
@[elab_as_elim]
theorem viewInduction {motive : Value → Prop}
    (scalar : ∀ v, v.arr? = none → v.obj? = none → motive v)
    (arr : ∀ items, (∀ v ∈ items, motive v) → motive (.arr items))
    (entries : ∀ o E, view {} o = .entries E → (∀ kv ∈ E, motive kv.2) → motive (.obj o))
    (wrapped : ∀ o v, view {} o = .wrapped v → motive v → motive (.obj o))
    (plain : ∀ o : Object, view {} o = .plain → (∀ kv ∈ o, motive kv.2) → motive (.obj o))
    (v : Value) : motive v := by
  induction hn : v.size using Nat.strongRecOn generalizing v with
  | ind n ih =>
    subst hn
    cases v with
    | null | bool | num | str => exact scalar _ rfl rfl
    | arr items => exact arr items fun w hw => ih _ (Nat.lt_succ_of_lt (Value.size_item_lt hw)) w rfl
    | obj o =>
      rcases view_cases o with ⟨E, h⟩ | ⟨w, h⟩ | h
      · have hsize := sizeFields_view_entries h
        exact entries o E h fun kv hkv =>
          ih _ (Nat.lt_succ_of_lt (Nat.lt_trans (Value.size_field_lt hkv) hsize)) kv.2 rfl
      · exact wrapped o w h (ih _ (Nat.lt_succ_of_lt (size_view_wrapped h)) w rfl)
      · exact plain o h fun kv hkv => ih _ (Nat.lt_succ_of_lt (Value.size_field_lt hkv)) kv.2 rfl

/-- A value reduced without options. -/
def bare (v : Value) : Value := (reduce {} false v).toOption.getD v

theorem bare_eq_of {v w : Value} (h : reduce {} false v = .ok w) : bare v = w := by
  simp [bare, h, Except.toOption]

/-- Elements that can be reduced one by one are reduced together, in their order. -/
theorem reduceItems_eq {r : Reduction} {f : Value → Value} {items : List Value}
    (h : ∀ v ∈ items, reduce r false v = .ok (f v)) : reduceItems r items = .ok (items.map f) := by
  induction items with
  | nil => rw [reduceItems]; rfl
  | cons v vs ih =>
    obtain ⟨hv, hvs⟩ := List.forall_mem_cons.mp h
    rw [reduceItems, hv]
    simp only [bind, Except.bind, ih hvs]
    rfl

/-- Fields that can be reduced one by one are reduced together, under their own names. -/
theorem reduceFields_eq {r : Reduction} {f : Value → Value} {fields : Object}
    (h : ∀ kv ∈ fields, reduce r false kv.2 = .ok (f kv.2)) :
    reduceFields r fields = .ok (fields.map fun kv => (kv.1, f kv.2)) := by
  induction fields with
  | nil => rw [reduceFields]; rfl
  | cons kv rest ih =>
    obtain ⟨hv, hrest⟩ := List.forall_mem_cons.mp h
    rw [reduceFields, hv]
    simp only [bind, Except.bind, ih hrest]
    rfl

/-- Entries under their short keys. -/
def shortened (E : Object) : Object := Named.ofPairs (E.map fun kv => (shortKey kv.1, bare kv.2))

/-- The entries of a plain object, reduced. -/
def plainly (o : Object) : Object := entriesLast (o.map fun kv => (kv.1, bare kv.2))

theorem reduceEntries_eq {E : Object} (h : ∀ kv ∈ E, reduce {} false kv.2 = .ok (bare kv.2)) :
    reduceEntries {} E = .ok (shortened E) := by
  rw [reduceEntries, reduceFields_eq h]
  simp only [bind, Except.bind, List.map_map]
  rfl

/-- An object is reduced by its view. -/
theorem reduce_obj (r : Reduction) (top : Bool) (o : Object) : reduce r top (.obj o) =
    match view r o with
    | .entries entries => do return .obj (← reduceEntries r entries)
    | .items key items => reduceKeyed r key items
    | .wrapped inner => reduce r false inner
    | .plain => do return .obj (entriesLast (← reduceFields r o)) := by
  rw [reduce]
  split <;> rename_i h <;> simp only [h]

/-- An array that stays one is reduced element by element. -/
theorem reduce_arr {r : Reduction} {top : Bool} (hkeep : top = true → r.arrayKey? = none)
    (items : List Value) : reduce r top (.arr items) = (reduceItems r items).map Value.arr := by
  rw [reduce]
  · cases reduceItems r items <;> rfl
  · rintro key hkey htop
    exact Option.some_ne_none key (hkey.symm.trans (hkeep htop))

theorem reduce_scalar {r : Reduction} (top : Bool) {v : Value} (ha : v.arr? = none)
    (ho : v.obj? = none) : reduce r top v = .ok v := by
  cases v with
  | arr | obj => simp [Value.arr?, Value.obj?] at ha ho
  | null | bool | num | str =>
    rw [reduce] <;>
      · intro part h
        cases h

/-- An array is what its elements are reduced to, … -/
theorem reduce_arr_of {items : List Value} (h : ∀ v ∈ items, reduce {} false v = .ok (bare v))
    (top : Bool) : reduce {} top (.arr items) = .ok (.arr (items.map bare)) := by
  rw [reduce_arr fun _ => rfl, reduceItems_eq h]
  rfl

/-- … an object with entries is those entries under their short keys, whatever else stood beside
them, … -/
theorem reduce_entries_of {o E : Object} (hview : view {} o = .entries E)
    (h : ∀ kv ∈ E, reduce {} false kv.2 = .ok (bare kv.2)) (top : Bool) :
    reduce {} top (.obj o) = .ok (.obj (shortened E)) := by
  rw [reduce_obj, hview]
  simp only [reduceEntries_eq h]
  rfl

/-- … a wrapper is what it wraps, … -/
theorem reduce_wrapped_of {o : Object} {v : Value} (hview : view {} o = .wrapped v)
    (h : reduce {} false v = .ok (bare v)) (top : Bool) :
    reduce {} top (.obj o) = .ok (bare v) := by
  rw [reduce_obj, hview]
  exact h

/-- … and any other object keeps its names. -/
theorem reduce_plain_of {o : Object} (hview : view {} o = .plain)
    (h : ∀ kv ∈ o, reduce {} false kv.2 = .ok (bare kv.2)) (top : Bool) :
    reduce {} top (.obj o) = .ok (.obj (plainly o)) := by
  rw [reduce_obj, hview]
  simp only [reduceFields_eq h]
  rfl

/-- What is reduced to the same at both places is reduced to it at either. -/
theorem reduce_of_forall {v w : Value} (h : ∀ top, reduce {} top v = .ok w) (top : Bool) :
    reduce {} top v = .ok (bare v) := by
  rw [h top, bare_eq_of (h false)]

/-- **A reduction without options succeeds**, and does not look at where the value stands. -/
theorem reduce_eq (v : Value) : ∀ top, reduce {} top v = .ok (bare v) := by
  induction v using viewInduction with
  | scalar v ha ho => exact reduce_of_forall fun top => reduce_scalar top ha ho
  | arr items ih => exact reduce_of_forall (reduce_arr_of fun v hv => ih v hv false)
  | entries o E h ih => exact reduce_of_forall (reduce_entries_of h fun kv hkv => ih kv hkv false)
  | wrapped o v h ih => exact reduce_of_forall (reduce_wrapped_of h (ih false))
  | plain o h ih => exact reduce_of_forall (reduce_plain_of h fun kv hkv => ih kv hkv false)

theorem bare_scalar {v : Value} (ha : v.arr? = none) (ho : v.obj? = none) : bare v = v :=
  bare_eq_of (reduce_scalar false ha ho)

theorem bare_arr (items : List Value) : bare (.arr items) = .arr (items.map bare) :=
  bare_eq_of (reduce_arr_of (fun v _ => reduce_eq v false) false)

/-- Of an object with entries nothing but the entries is left. -/
theorem bare_entries {o E : Object} (h : view {} o = .entries E) :
    bare (.obj o) = .obj (shortened E) :=
  bare_eq_of (reduce_entries_of h (fun kv _ => reduce_eq kv.2 false) false)

/-- A wrapper goes, also if what it wraps is a wrapper in its turn. -/
theorem bare_wrapped {o : Object} {v : Value} (h : view {} o = .wrapped v) :
    bare (.obj o) = bare v :=
  bare_eq_of (reduce_wrapped_of h (reduce_eq v false) false)

/-- A plain object keeps its names, but its own `entries` go to the end. -/
theorem bare_plain {o : Object} (h : view {} o = .plain) : bare (.obj o) = .obj (plainly o) :=
  bare_eq_of (reduce_plain_of h (fun kv _ => reduce_eq kv.2 false) false)

/-! ## Entries at the end -/

/-- An object without `entries` keeps its order, … -/
theorem entriesLast_of_not_mem {o : Object} (h : "entries" ∉ Named.keys o) : entriesLast o = o := by
  rw [entriesLast, Named.get?_eq_none_iff.mpr h]

/-- … and so does one whose `entries` stand at the end. -/
theorem entriesLast_concat {front : Object} (h : "entries" ∉ Named.keys front) (v : Value) :
    entriesLast (front ++ [("entries", v)]) = front ++ [("entries", v)] := by
  rw [entriesLast, Named.get?_append_cons h]
  simp only [Named.eraseSwap_concat h, Named.insert_of_not_mem h]

theorem not_mem_keys_swapped {front back : Object} {last : String × Value} {k : String}
    (hfront : k ∉ Named.keys front) (hback : k ∉ Named.keys (back ++ [last])) :
    k ∉ Named.keys (front ++ last :: back) := by
  simp only [Named.keys, List.map_append, List.map_cons, List.map_nil, List.mem_append,
    List.mem_cons, List.not_mem_nil, or_false, not_or] at hfront hback ⊢
  exact ⟨hfront, hback.2, hback.1⟩

/-- Elsewhere the last member takes the place of the `entries`, which go to the end. -/
theorem entriesLast_append {front back : Object} {last : String × Value}
    (hfront : "entries" ∉ Named.keys front) (hback : "entries" ∉ Named.keys (back ++ [last]))
    (v : Value) : entriesLast (front ++ ("entries", v) :: (back ++ [last])) =
      front ++ last :: back ++ [("entries", v)] := by
  rw [entriesLast, Named.get?_append_cons hfront]
  simp only [Named.eraseSwap_append hfront,
    Named.insert_of_not_mem (not_mem_keys_swapped hfront hback)]

/-- There are no entries, or they stand at the end, or before a last member. -/
theorem entries_cases {o : Object} (hn : Distinct o) : "entries" ∉ Named.keys o ∨
    (∃ front v, "entries" ∉ Named.keys front ∧ o = front ++ [("entries", v)]) ∨
    ∃ front v back last, "entries" ∉ Named.keys front ∧ "entries" ∉ Named.keys (back ++ [last]) ∧
      o = front ++ ("entries", v) :: (back ++ [last]) := by
  by_cases hmem : "entries" ∈ Named.keys o
  · obtain ⟨⟨k, v⟩, hkv, rfl⟩ := List.mem_map.mp hmem
    obtain ⟨front, back, rfl⟩ := List.append_of_mem hkv
    have hkeys : (Named.keys front ++ "entries" :: Named.keys back).Nodup := by
      simpa [Distinct, Named.keys] using hn
    obtain ⟨hout, -⟩ := List.nodup_cons.mp (List.nodup_middle.mp hkeys)
    have hfront : "entries" ∉ Named.keys front := fun h => hout (List.mem_append_left _ h)
    have hback : "entries" ∉ Named.keys back := fun h => hout (List.mem_append_right _ h)
    rcases List.eq_nil_or_concat' back with rfl | ⟨back, last, rfl⟩
    · exact .inr (.inl ⟨front, v, hfront, rfl⟩)
    · exact .inr (.inr ⟨front, v, back, last, hfront, hback, rfl⟩)
  · exact .inl hmem

/-- There are no entries, or they stand at the end in the end. -/
theorem entriesLast_cases {o : Object} (hn : Distinct o) :
    ("entries" ∉ Named.keys o ∧ entriesLast o = o) ∨
    ∃ front v, "entries" ∉ Named.keys front ∧ entriesLast o = front ++ [("entries", v)] ∧
      (entriesLast o).Perm o := by
  obtain hmem | ⟨front, v, hfront, rfl⟩ | ⟨front, v, back, last, hfront, hback, rfl⟩ :=
    entries_cases hn
  · exact .inl ⟨hmem, entriesLast_of_not_mem hmem⟩
  · have heq := entriesLast_concat hfront v
    exact .inr ⟨front, v, hfront, heq, by rw [heq]⟩
  · have heq := entriesLast_append hfront hback v
    refine .inr ⟨front ++ last :: back, v, not_mem_keys_swapped hfront hback, heq, ?_⟩
    have hback : (last :: back ++ [("entries", v)]).Perm (("entries", v) :: (back ++ [last])) :=
      (List.perm_append_singleton _ _).trans (.cons _ (List.perm_append_singleton last back).symm)
    rw [heq, List.append_assoc]
    exact hback.append_left front

/-- Moving the `entries` loses no member. -/
theorem perm_entriesLast {o : Object} (hn : Distinct o) : (entriesLast o).Perm o := by
  rcases entriesLast_cases hn with ⟨-, heq⟩ | ⟨-, -, -, -, hperm⟩
  · rw [heq]
  · exact hperm

/-- The `entries` move once: from the end they do not move again. -/
theorem entriesLast_entriesLast {o : Object} (hn : Distinct o) :
    entriesLast (entriesLast o) = entriesLast o := by
  rcases entriesLast_cases hn with ⟨-, heq⟩ | ⟨front, v, hfront, heq, -⟩
  · rw [heq, heq]
  · rw [heq, entriesLast_concat hfront]

/-! ## Shapes -/

variable {r : Reduction} {o E : Object} {v : Value} {key : ArrayKey} {items : List Value}

/-- An object is seen as entries just if an object stands there under that name. -/
theorem view_entries_iff : view r o = .entries E ↔ o.get? "entries" = some (.obj E) := by
  unfold view
  split
  · rename_i heq
    rw [heq, View.entries.injEq, Option.some.injEq, Value.obj.injEq]
  · rename_i hne
    refine iff_of_false ?_ (hne E)
    split
    · nofun
    · split <;> nofun

/-- Items get names only on request, and only if they are an array. -/
theorem view_items (h : view r o = .items key items) :
    r.arrayKey? = some key ∧ o.get? "items" = some (.arr items) := by
  unfold view at h
  split at h
  · cases h
  · split at h
    · rename_i hkey hitems
      cases h
      exact ⟨hkey, hitems⟩
    · split at h <;> cases h

/-- Without an object for its entries, an object is a wrapper or plain. -/
theorem view_of_forall (h : ∀ E, o.get? "entries" ≠ some (.obj E)) :
    view {} o = match wrapped? o with
      | some v => .wrapped v
      | none => .plain := by
  unfold view
  split
  · rename_i E heq
    exact absurd heq (h E)
  · rfl

/-- A wrapper has one name, and that name is one of those that wrap. -/
theorem wrapped?_eq_some_iff :
    wrapped? o = some v ↔ ∃ k, o = [(k, v)] ∧ wrappers.contains k = true := by
  unfold wrapped?
  split
  · rename_i k w
    split
    · rename_i hk
      exact ⟨fun h => ⟨k, Option.some.inj h ▸ rfl, hk⟩, fun ⟨_, ho, _⟩ => by cases ho; rfl⟩
    · rename_i hk
      exact iff_of_false nofun fun ⟨_, ho, hj⟩ => hk (by cases ho; exact hj)
  · rename_i hne
    exact iff_of_false nofun fun ⟨k, ho, _⟩ => hne k v ho

theorem view_wrapped (h : view r o = .wrapped v) :
    ∃ k, o = [(k, v)] ∧ wrappers.contains k = true := by
  unfold view at h
  split at h
  · cases h
  · split at h
    · cases h
    · split at h
      · rename_i w hw
        cases h
        exact wrapped?_eq_some_iff.mp hw
      · cases h

/-- An object that is no single wrapped value, and has no object for its entries and no array for
items with keys, is plain. -/
theorem view_eq_plain_iff : view r o = .plain ↔ (∀ E, o.get? "entries" ≠ some (.obj E)) ∧
    (r.arrayKey?.isSome = true → ∀ items, o.get? "items" ≠ some (.arr items)) ∧
    ∀ k v, o = [(k, v)] → wrappers.contains k = false := by
  unfold view
  split
  · rename_i E hE
    exact iff_of_false nofun fun h => h.1 E hE
  · rename_i hne
    split
    · rename_i key items hkey hitems
      exact iff_of_false nofun fun h => h.2.1 (hkey ▸ rfl) items hitems
    · rename_i hnone
      split
      · rename_i v hv
        obtain ⟨k, ho, hk⟩ := wrapped?_eq_some_iff.mp hv
        exact iff_of_false nofun fun h => Bool.false_ne_true ((h.2.2 k v ho).symm.trans hk)
      · rename_i hwrapped
        refine iff_of_true rfl ⟨hne, fun hkey items hitems => ?_, fun k v ho => ?_⟩
        · obtain ⟨key, hkey⟩ := Option.isSome_iff_exists.mp hkey
          exact hnone key items hkey hitems
        · refine Bool.eq_false_iff.mpr fun hk => ?_
          exact nomatch hwrapped.symm.trans (wrapped?_eq_some_iff.mpr ⟨k, ho, hk⟩)

/-- Reducing makes no object of what is none. -/
theorem obj?_bare_of_obj?_eq_none (h : v.obj? = none) : (bare v).obj? = none := by
  cases v with
  | obj => simp [Value.obj?] at h
  | arr items => rw [bare_arr]; rfl
  | null | bool | num | str => rw [bare_scalar rfl rfl]; rfl

theorem distinct_bare (hn : Distinct o) : Distinct (o.map fun kv => (kv.1, bare kv.2)) := by
  rwa [Distinct, Named.keys_map fun _ => bare]

/-- A plain object is reduced member by member, up to the order of the members. -/
theorem perm_plainly (hn : Distinct o) :
    (plainly o).Perm (o.map fun kv => (kv.1, bare kv.2)) :=
  perm_entriesLast (distinct_bare hn)

theorem perm_keys_plainly (hn : Distinct o) : (Named.keys (plainly o)).Perm (Named.keys o) := by
  have := (perm_plainly hn).map Prod.fst
  rwa [← Named.keys, ← Named.keys, Named.keys_map fun _ => bare] at this

/-- What stands under a name of a plain object is reduced where it stands. -/
theorem get?_plainly (hn : Distinct o) (k : String) :
    (plainly o).get? k = (o.get? k).map bare := by
  rw [← Named.get?_map fun _ => bare]
  exact Named.get?_of_perm (perm_plainly hn) (distinct_bare hn) k

/-! ## Entries under short keys -/

/-- Each short entry comes from an entry, whose key was shortened and whose value was reduced. -/
theorem mem_shortened {kv : String × Value} (h : kv ∈ shortened E) :
    ∃ kx ∈ E, shortKey kx.1 = kv.1 ∧ bare kx.2 = kv.2 := by
  obtain ⟨kx, hkx, rfl⟩ := List.mem_map.mp (Named.mem_of_mem_ofPairs h)
  exact ⟨kx, hkx, rfl, rfl⟩

/-- The names of short entries are the short keys. -/
theorem mem_keys_shortened {k : String} :
    k ∈ Named.keys (shortened E) ↔ ∃ j ∈ Named.keys E, shortKey j = k := by
  rw [shortened, Named.mem_keys_ofPairs]
  simp [Named.keys]

/-- The short keys of entries reveal nothing that would be reduced in its turn: none of them is
`entries`, and they are not all one wrapping name. -/
def RevealsNothing (E : Object) : Prop :=
  (∀ k ∈ Named.keys E, shortKey k ≠ "entries") ∧
    (E ≠ [] → ∀ w ∈ wrappers, ∃ k ∈ Named.keys E, shortKey k ≠ w)

instance : DecidablePred RevealsNothing := fun _ => inferInstanceAs (Decidable (_ ∧ _))

/-- What the reduction of an object leaves is not reduced further. -/
def Open (o : Object) : Prop := ∀ E, view {} o = .entries E → RevealsNothing E

instance : DecidablePred Open := fun o =>
  inferInstanceAs (Decidable (∀ E, view {} o = .entries E → RevealsNothing E))

/-! ## Properties of objects that a reduction keeps -/

/-- A property of all objects on the way goes down to the entries of one, if the descent does. -/
theorem each_entries {d : Descent} {Q : Object → Prop} (hview : view {} o = .entries E)
    (hstops : d.stops "entries" = false) (h : (Value.obj o).Each d Q) : (Value.obj E).Each d Q :=
  (Value.each_obj.mp h).2 _ (Named.mem_of_get?_eq_some (view_entries_iff.mp hview)) hstops

/-- A property of all objects on the way goes down to what is wrapped, if the descent does. -/
theorem each_wrapped {d : Descent} {Q : Object → Prop} (hview : view {} o = .wrapped v)
    (hstops : ∀ k ∈ Named.keys o, d.stops k = false) (h : (Value.obj o).Each d Q) : v.Each d Q := by
  obtain ⟨k, rfl, -⟩ := view_wrapped hview
  exact (Value.each_obj.mp h).2 _ List.mem_cons_self (hstops k List.mem_cons_self)

/-- What a descent comes by in a value, it comes by in the reduced value: what the reduction of an
object lifts it has passed before, and the property holds again of what the object becomes. -/
structure Through (d : Descent) (Q : Object → Prop) (o : Object) : Prop where
  plain : view {} o = .plain → (Value.obj o).Each d Q → Q (plainly o)
  entries : ∀ E, view {} o = .entries E → d.stops "entries" = false ∧
    (∀ k ∈ Named.keys E, d.stops (shortKey k) = false → d.stops k = false) ∧
    ((Value.obj E).Each d Q → Q (shortened E))
  wrapped : ∀ v, view {} o = .wrapped v → ∀ k ∈ Named.keys o, d.stops k = false

variable {d : Descent} {Q : Object → Prop}

/-- **A property of all objects on the way is kept.** -/
theorem each_bare (hn : v.Each {} Distinct) (hthrough : v.Each {} (Through d Q)) (h : v.Each d Q) :
    (bare v).Each d Q := by
  induction v using viewInduction with
  | scalar v ha ho => rwa [bare_scalar ha ho]
  | arr items ih =>
    rw [bare_arr]
    exact Value.each_map fun harrays v hv => ih v hv (Value.each_arr.mp hn rfl v hv)
      (Value.each_arr.mp hthrough rfl v hv) (Value.each_arr.mp h harrays v hv)
  | entries o E hview ih =>
    obtain ⟨hentries, hstops, hQ⟩ := (Value.each_obj.mp hthrough).1.entries E hview
    have hnE := (Value.each_obj.mp (each_entries hview rfl hn)).2
    have hthroughE := (Value.each_obj.mp (each_entries hview rfl hthrough)).2
    have hE := each_entries hview hentries h
    rw [bare_entries hview]
    refine Value.each_obj.mpr ⟨hQ hE, fun kv hkv hk => ?_⟩
    obtain ⟨kx, hkx, hkey, heq⟩ := mem_shortened hkv
    have hlong := hstops kx.1 (List.mem_map_of_mem hkx) (hkey ▸ hk)
    exact heq ▸ ih kx hkx (hnE kx hkx rfl) (hthroughE kx hkx rfl)
      ((Value.each_obj.mp hE).2 kx hkx hlong)
  | wrapped o v hview ih =>
    have hstops := (Value.each_obj.mp hthrough).1.wrapped v hview
    rw [bare_wrapped hview]
    exact ih (each_wrapped hview (fun _ _ => rfl) hn) (each_wrapped hview (fun _ _ => rfl) hthrough)
      (each_wrapped hview hstops h)
  | plain o hview ih =>
    obtain ⟨hno, hnvalues⟩ := Value.each_obj.mp hn
    obtain ⟨hthrougho, hthroughvalues⟩ := Value.each_obj.mp hthrough
    rw [bare_plain hview]
    refine Value.each_obj.mpr ⟨hthrougho.plain hview h, fun kv hkv hk => ?_⟩
    obtain ⟨kx, hkx, rfl⟩ := List.mem_map.mp ((perm_plainly hno).subset hkv)
    exact ih kx hkx (hnvalues kx hkx rfl) (hthroughvalues kx hkx rfl)
      ((Value.each_obj.mp h).2 kx hkx hk)

end DeviceStats.Reduction
