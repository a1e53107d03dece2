import DeviceStats.Proofs.Step.Making

/-!
# Proofs/Step/Keyed — elements under their names

An array whose elements all have names becomes an object that has each name in the place where it
first comes up and under it the last element of that name, reduced (`keyed_elements`).  So it has as
many entries as there are elements only if no name comes twice, and of elements with one name only
the last is left (`not_one_entry_each`).
-/

namespace DeviceStats.Reduction

open Json (Value Object)

variable {r : Reduction} {key : ArrayKey} {items : List Value} {o : Object}

/-- A list related to one that is cut at a member is cut at the related one. -/
theorem exists_append_of_forall₂ {β γ : Type} {R : β → γ → Prop} {front back : List β} {b : β}
    {l : List γ} (h : List.Forall₂ R (front ++ b :: back) l) :
    ∃ front' c back', l = front' ++ c :: back' ∧ front'.length = front.length ∧ R b c ∧
      back'.length = back.length := by
  induction front generalizing l with
  | nil =>
    obtain ⟨c, back', hc, hback, rfl⟩ := List.forall₂_cons_left_iff.mp h
    exact ⟨[], c, back', rfl, rfl, hc, hback.length_eq.symm⟩
  | cons _ front ih =>
    obtain ⟨d, l, -, hl, rfl⟩ := List.forall₂_cons_left_iff.mp h
    obtain ⟨front', c, back', rfl, hfront, hc, hback⟩ := ih hl
    exact ⟨d :: front', c, back', rfl, congrArg Nat.succ hfront, hc, hback⟩

/-- **Elements become entries under their names.** -/
theorem exists_of_reduceKeyed (h : reduceKeyed r key items = .ok (.obj o)) :
    ∃ items', List.Forall₂ (Reduces r) items items' ∧
      (∀ item ∈ items, (key.textOf? item).isSome = true) ∧
      o = Named.ofPairs ((items.map key.nameOf).zip items') := by
  have hkeyed := keyed_of_reduceKeyed h
  generalize hw : Value.obj o = w at hkeyed
  cases hkeyed with
  | named hnames hitems => exact ⟨_, hitems, hnames, Value.obj.inj hw⟩
  | kept => cases hw

/-- **The last element of each name is kept.**  If an array becomes an object, then every element has
a text for its name; the object has the names of the elements in the order in which they first come
up, so as many entries as the array has elements exactly if no name comes twice; and under the
prefix and the text of an element that no later one shares stands this element, reduced. -/
theorem keyed_elements (h : reduceKeyed r key items = .ok (.obj o)) :
    (∀ item ∈ items, (key.textOf? item).isSome = true) ∧
      Named.keys o = (items.map key.nameOf).eraseDups ∧
      (o.length = items.length ↔ (items.map key.nameOf).Nodup) ∧
      ∀ front item back, items = front ++ item :: back →
        key.nameOf item ∉ back.map key.nameOf →
        ∃ text w, key.textOf? item = some text ∧ reduce r false item = .ok w ∧
          Named.get? o (key.lead?.getD "" ++ text) = some w := by
  obtain ⟨items', hitems, hnames, rfl⟩ := exists_of_reduceKeyed h
  have hkeys : Named.keys ((items.map key.nameOf).zip items') = items.map key.nameOf :=
    keys_zip_nameOf key hitems.length_eq.symm
  have hlength : ((items.map key.nameOf).zip items').length = items.length := by
    rw [List.length_zip, List.length_map, hitems.length_eq, Nat.min_self]
  have hrecords := Named.records_ofPairs ((items.map key.nameOf).zip items')
  have hsize : (Named.ofPairs ((items.map key.nameOf).zip items')).length = _ ↔ _ :=
    Named.length_ofPairs_eq_iff
  rw [hlength, hkeys] at hsize
  refine ⟨hnames, hrecords.keys.trans (congrArg _ hkeys), hsize,
    fun front item back hsplit hlast => ?_⟩
  subst hsplit
  obtain ⟨text, htext⟩ := Option.isSome_iff_exists.mp (hnames item (by simp))
  obtain ⟨front', w, back', rfl, hfront, hw, hback⟩ := exists_append_of_forall₂ hitems
  have hname : key.nameOf item = key.lead?.getD "" ++ text := by
    rw [ArrayKey.nameOf, htext, Option.getD_some]
  have hbehind : Named.keys ((back.map key.nameOf).zip back') = back.map key.nameOf :=
    keys_zip_nameOf key hback
  refine ⟨text, w, htext, hw, hname ▸ hrecords.last ((front.map key.nameOf).zip front')
    (key.nameOf item) w ((back.map key.nameOf).zip back') ?_ (by rwa [hbehind])⟩
  rw [List.map_append, List.map_cons, List.zip_append (by rw [List.length_map, hfront]),
    List.zip_cons_cons]

/-- A text and a number name two elements alike; the second one is kept in the place of the
first. -/
theorem keyed_elements_three :
    let r : Reduction := { arrayKey? := some ⟨"id", some "if_", false⟩ }
    let items : List Value := [.obj [("id", .str "2")], .obj [("id", .str "a")],
      .obj [("id", .int 2), ("mtu", .obj [("value", .int 1500)])]]
    ∃ o, reduceKeyed r ⟨"id", some "if_", false⟩ items = .ok (.obj o) ∧
      Named.keys o = ["if_2", "if_a"] ∧
      Named.get? o "if_2" = some (.obj [("id", .int 2), ("mtu", .int 1500)]) := by
  intro r items
  let key : ArrayKey := ⟨"id", some "if_", false⟩
  have h : reduceKeyed r key items = .ok (.obj [
      ("if_2", .obj [("id", .int 2), ("mtu", .int 1500)]),
      ("if_a", .obj [("id", .str "a")])]) := by with_unfolding_all rfl
  obtain ⟨-, hkeys, -, hlast⟩ := keyed_elements h
  refine ⟨_, h, hkeys.trans (by decide +kernel), ?_⟩
  obtain ⟨text, w, htext, hw, hget⟩ := hlast (items.take 2) _ [] rfl List.not_mem_nil
  obtain rfl : text = "2" := (Option.some.inj htext).symm.trans (by decide +kernel)
  exact hget.trans (congrArg some (Except.ok.inj (hw.symm.trans (by with_unfolding_all rfl))))

/-- **Not every element has its entry**: of two with one name only the second is left. -/
theorem not_one_entry_each : ¬ ∀ (r : Reduction) (key : ArrayKey) (items : List Value) (o : Object),
    reduceKeyed r key items = .ok (.obj o) →
    o.length = items.length ∧ ∀ item ∈ items, ∃ text w, key.textOf? item = some text ∧
      reduce r false item = .ok w ∧ Named.get? o (key.lead?.getD "" ++ text) = some w := by
  intro hall
  let key : ArrayKey := ⟨"name", none, true⟩
  let items : List Value := [.obj [("name", .str "a"), ("v", .int 1)],
    .obj [("name", .str "a"), ("v", .int 2)]]
  have h : reduceKeyed { arrayKey? := some key } key items =
      .ok (.obj [("a", .obj [("name", .str "a"), ("v", .int 2)])]) := by with_unfolding_all rfl
  exact absurd (hall _ key items _ h).1 (by decide)

end DeviceStats.Reduction
