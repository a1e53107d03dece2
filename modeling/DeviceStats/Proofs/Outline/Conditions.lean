import DeviceStats.Proofs.Outline.Agreement

/-!
# Proofs/Outline/Conditions — a condition holds of full data if it holds of cut data

A condition marks what it passes, so whatever it looks at is kept, and the cut data have it if the
full data do (`Agrees.treeHolds_eq`).  A condition that asks for a group as such passes none of its
properties, so the group has to have something that is not dropped (`Peopled`).
-/

namespace DeviceStats

open Json (Value Object)
open Layout
open Match (Tree Fits Clear stands matchingKeys mem_matchingKeys)

namespace Condition

/-- Whether a value is what a tree has under one of its keys. -/
def entryHolds (sub v : Value) : Bool :=
  match sub with
  | .obj sub => treeHolds sub v
  | leaf => leafHolds leaf v

theorem get?_eq_child? (v : Value) (k : String) : v.get? k = Tree.child? v k := by
  cases v <;> rfl

theorem treeHolds_cons (key : String) (sub : Value) (rest : List (String × Value)) (v : Value) :
    treeHolds ((key, sub) :: rest) v =
      (((matchingKeys v key).any fun k => (Tree.child? v k).any (entryHolds sub)) &&
        treeHolds rest v) := by
  cases sub <;> simp only [treeHolds, get?_eq_child?] <;> rfl

/-- **What a tree of clear keys asks for**: under each key a child that it stands for. -/
theorem treeHolds_iff {names : List String} {v : Value} (h : Fits names v)
    {fields : List (String × Value)} (hc : ∀ e ∈ fields, Clear names e.1) :
    treeHolds fields v = true ↔ ∀ e ∈ fields, ∃ k c, stands names e.1 k = true ∧
      Tree.child? v k = some c ∧ entryHolds e.2 c = true := by
  induction fields with
  | nil => simp [treeHolds]
  | cons e fields ih =>
    obtain ⟨hkey, hc⟩ := List.forall_mem_cons.mp hc
    rw [treeHolds_cons, Bool.and_eq_true, ih hc, List.forall_mem_cons]
    refine and_congr_left fun _ => ?_
    simp only [List.any_eq_true, Option.any_eq_true, mem_matchingKeys h hkey]
    refine ⟨fun ⟨k, ⟨_, hk⟩, c, hchild, hholds⟩ => ⟨k, c, hk, hchild, hholds⟩, ?_⟩
    rintro ⟨k, c, hk, hchild, hholds⟩
    exact ⟨k, ⟨Tree.mem_keys_of_child? hchild, hk⟩, c, hchild, hholds⟩

/-- No leaf is what a group is. -/
theorem entryHolds_obj_of_leaf {leaf : Value} (h : ∀ sub, leaf ≠ .obj sub) (fields : Object) :
    entryHolds leaf (.obj fields) = false := by
  cases leaf with
  | obj sub => exact absurd rfl (h sub)
  | _ => simp [entryHolds, leafHolds, Value.same]

end Condition

namespace Outline

open Condition

theorem get?_keptOf (keep : String → Bool) (fields : Object) (n : String) :
    Named.get? (keptOf keep fields) n = if keep n then Named.get? fields n else none := by
  induction fields with
  | nil => simp [keptOf]
  | cons kv fields ih =>
    obtain ⟨k, v⟩ := kv
    unfold keptOf at ih ⊢
    rw [List.filter_cons, Named.get?_cons]
    by_cases hk : k = n
    · subst hk
      cases h : keep k with
      | true => simp [Named.get?_cons]
      | false => simpa [h] using ih
    · cases h : keep k with
      | true => simpa [hk, h, Named.get?_cons] using ih
      | false => simpa [hk, h] using ih

section Group

variable {names : List String} {keep : String → Bool}

/-- Whether a group, if it is there, has something that is not dropped. -/
def Peopled (names : List String) (keep : String → Bool) (x : Option Value) : Prop :=
  ∀ v, x = some v → ∃ n ∈ Tree.keys v, n ∈ names → keep n = true

instance (names : List String) (keep : String → Bool) (x : Option Value) :
    Decidable (Peopled names keep x) :=
  inferInstanceAs (Decidable (∀ v ∈ x, ∃ n ∈ Tree.keys v, n ∈ names → keep n = true))

theorem mem_keys_keptOf {fields : Object} {n : String} :
    n ∈ Named.keys (keptOf keep fields) ↔ n ∈ Named.keys fields ∧ keep n = true := by
  simp only [Named.keys, keptOf, List.mem_map, List.mem_filter]
  constructor
  · rintro ⟨kv, ⟨hkv, hk⟩, rfl⟩
    exact ⟨⟨kv, hkv, rfl⟩, hk⟩
  · rintro ⟨⟨kv, hkv, rfl⟩, hk⟩
    exact ⟨kv, ⟨hkv, hk⟩, rfl⟩

/-- If everything is kept, what is kept is everything. -/
theorem keptOf_eq_self {fields : Object} (h : ∀ n ∈ Named.keys fields, keep n = true) :
    keptOf keep fields = fields :=
  List.filter_eq_self.mpr fun _ hkv => h _ (List.mem_map_of_mem hkv)

/-- A lost group has nothing that is kept. -/
theorem keep_eq_false_of_keptOf_eq_nil {fields : Object} (h : keptOf keep fields = []) {n : String}
    (hn : n ∈ Named.keys fields) : keep n = false := by
  refine Bool.eq_false_iff.mpr fun hk => ?_
  have hmem := mem_keys_keptOf.mpr ⟨hn, hk⟩
  rw [h] at hmem
  exact nomatch hmem

/-- A tree that passes nothing that is dropped holds of fields just if it holds of the kept ones. -/
theorem treeHolds_keptOf {fields : Object} (h : Fits names (Value.obj fields))
    {sub : List (String × Value)} (hc : ∀ e ∈ sub, Clear names e.1)
    (hpass : ∀ e ∈ sub, ∀ n ∈ Named.keys fields, stands names e.1 n = true → keep n = true) :
    treeHolds sub (.obj fields) = treeHolds sub (.obj (keptOf keep fields)) := by
  rw [Bool.eq_iff_iff, treeHolds_iff h hc, treeHolds_iff (fits_keptOf h) hc]
  refine forall₂_congr fun e he => exists₂_congr fun n c => and_congr_right fun hn =>
    and_congr_left fun _ => ?_
  have hget : Tree.child? (Value.obj (keptOf keep fields)) n =
      if keep n then Tree.child? (Value.obj fields) n else none := get?_keptOf keep fields n
  rw [hget]
  split
  · rfl
  · rename_i hk
    refine ⟨fun hchild => absurd ?_ hk, fun hnone => nomatch hnone⟩
    exact hpass e he n (Tree.mem_keys_of_child? hchild) hn

theorem entryHolds_keptOf {fields : Object} (h : Fits names (Value.obj fields)) {sub : Value}
    (hc : ∀ sub', sub = .obj sub' → ∀ e ∈ sub', Clear names e.1)
    (hpass : ∀ sub', sub = .obj sub' → ∀ e ∈ sub', ∀ n ∈ Named.keys fields,
      stands names e.1 n = true → keep n = true) :
    entryHolds sub (.obj fields) = entryHolds sub (.obj (keptOf keep fields)) := by
  cases sub with
  | obj sub => exact treeHolds_keptOf h (hc sub rfl) (hpass sub rfl)
  | _ => rw [entryHolds_obj_of_leaf (by simp), entryHolds_obj_of_leaf (by simp)]

theorem treeHolds_cons_nil (e : String × Value) (sub : List (String × Value)) :
    treeHolds (e :: sub) (.obj []) = false := by
  have hnone : matchingKeys (Value.obj []) e.1 = [] := rfl
  rw [treeHolds_cons, hnone]
  rfl

/-- Whatever asks for something finds it in no empty group. -/
theorem entryHolds_nil {sub : Value} (h : sub ≠ .obj []) : entryHolds sub (.obj []) = false := by
  cases sub with
  | obj sub =>
    cases sub with
    | nil => exact absurd rfl h
    | cons e sub => exact treeHolds_cons_nil e sub
  | _ => exact entryHolds_obj_of_leaf (by simp) []

/-- **A group is what a tree asks for in the full data just if it is in the cut data**, where all
that the tree passes is kept. -/
theorem GroupAgrees.entryHolds_iff {x y : Option Value} (h : GroupAgrees names keep x y)
    {sub : Value} (hc : ∀ sub', sub = .obj sub' → ∀ e ∈ sub', Clear names e.1)
    (hpass : ∀ sub', sub = .obj sub' → ∀ e ∈ sub', ∀ n ∈ names, stands names e.1 n = true →
      ∀ v, x = some v → n ∈ Tree.keys v → keep n = true)
    (hempty : sub = .obj [] → Peopled names keep x) :
    (∃ v, x = some v ∧ entryHolds sub v = true) ↔ ∃ v, y = some v ∧ entryHolds sub v = true := by
  have hkept {fields : Object} (h : Fits names (Value.obj fields)) (hx : x = some (.obj fields)) :
      entryHolds sub (.obj fields) = entryHolds sub (.obj (keptOf keep fields)) :=
    entryHolds_keptOf h hc fun sub' hsub e he n hmem hn =>
      hpass sub' hsub e he n (h.sub n hmem) hn _ hx hmem
  cases h with
  | gone => rfl
  | whole _ => rfl
  | @part fields h =>
    simp only [Option.some.injEq, exists_eq_left']
    rw [hkept h rfl]
  | @lost fields h hnone =>
    refine ⟨fun ⟨v, hv, hholds⟩ => ?_, fun ⟨v, hv, _⟩ => nomatch hv⟩
    obtain rfl := Option.some.inj hv
    rw [hkept h rfl, hnone] at hholds
    by_cases hsub : sub = .obj []
    · obtain ⟨n, hn, hk⟩ := hempty hsub _ rfl
      have hdropped := keep_eq_false_of_keptOf_eq_nil hnone hn
      rw [hk (h.sub n hn)] at hdropped
      exact nomatch hdropped
    · rw [entryHolds_nil hsub] at hholds
      exact nomatch hholds

end Group

section Agrees

variable {ps : List Property} {keep : List String → Bool} {full cut : Value}

/-- The groups that a tree asks for as such. -/
def AsksFor (ps : List Property) (tree : ConditionTree) (g : String) : Prop :=
  ∃ e ∈ tree, e.2 = .obj [] ∧ stands (heads ps) e.1 g = true

theorem obj?_eq_some_nil_iff {v : Value} : v.obj?.any List.isEmpty = true ↔ v = .obj [] := by
  cases v <;> simp [Value.obj?]

instance (v : Value) : Decidable (v = .obj []) := decidable_of_iff _ obj?_eq_some_nil_iff

instance (tree : ConditionTree) (g : String) : Decidable (AsksFor ps tree g) :=
  inferInstanceAs (Decidable (∃ e ∈ tree, e.2 = .obj [] ∧ stands (heads ps) e.1 g = true))

/-- Whether whatever a tree passes in some data is kept, and whatever group it asks for as such has
something that is. -/
structure Heeds (ps : List Property) (keep : List String → Bool) (full : Value)
    (tree : ConditionTree) : Prop where
  passes : ∀ p ∈ ps, Passes ps tree p → (Tree.at? full p.path).isSome → keep p.path = true
  asks : ∀ g, IsGroup ps g → AsksFor ps tree g →
    Peopled (members ps g) (fun n => keep [g, n]) (Tree.child? full g)

/-- A property at the top is what a tree asks for in the full data just if it is in the cut data. -/
theorem Agrees.entryHolds_top_iff (h : Agrees ps keep full cut) {tree : ConditionTree}
    (hheed : Heeds ps keep full tree) {e : String × Value} (he : e ∈ tree) {p : Property}
    (hp : p ∈ ps) (hpar : p.parent? = none) (hk : stands (heads ps) e.1 p.name = true) :
    (∃ v, Tree.child? full p.name = some v ∧ entryHolds e.2 v = true) ↔
      ∃ v, Tree.child? cut p.name = some v ∧ entryHolds e.2 v = true := by
  rw [h.top p hp hpar]
  split
  · rfl
  · rename_i hdropped
    refine ⟨fun ⟨c, hc, _⟩ => absurd ?_ hdropped, fun ⟨c, hc, _⟩ => nomatch hc⟩
    have hpass := hheed.passes p hp (passes_of_parent?_eq_none hpar he hk)
    rw [at?_of_parent?_eq_none _ hpar, hc, path_of_parent?_eq_none hpar] at hpass
    exact hpass rfl

/-- A group is what a tree asks for in the full data just if it is in the cut data. -/
theorem Agrees.entryHolds_group_iff (h : Agrees ps keep full cut) {tree : ConditionTree}
    (hl : Legible ps tree) (hheed : Heeds ps keep full tree) {e : String × Value} (he : e ∈ tree)
    {g : String} (hg : IsGroup ps g) (hk : stands (heads ps) e.1 g = true) :
    (∃ v, Tree.child? full g = some v ∧ entryHolds e.2 v = true) ↔
      ∃ v, Tree.child? cut g = some v ∧ entryHolds e.2 v = true := by
  refine (h.group g hg).entryHolds_iff (fun sub hsub => (hl e he).2 g hg hk sub hsub)
    (fun sub hsub e' he' n hn hstands v hv hmem => ?_)
    fun hsub => hheed.asks g hg ⟨e, he, hsub, hk⟩
  obtain ⟨p, hp, hpar, rfl⟩ := mem_members.mp hn
  obtain ⟨c, hc⟩ := Tree.mem_keys_iff.mp hmem
  have hpass := hheed.passes p hp (passes_of_parent?_eq_some hpar he hk hsub he' hstands)
  rw [at?_of_parent?_eq_some _ hpar, hv, Option.bind_some, hc, path_of_parent?_eq_some hpar]
    at hpass
  exact hpass rfl

/-- **A tree holds of full data just if it holds of cut data.** -/
theorem Agrees.treeHolds_eq (h : Agrees ps keep full cut) {tree : ConditionTree}
    (hl : Legible ps tree) (hheed : Heeds ps keep full tree) :
    treeHolds tree full = treeHolds tree cut := by
  rw [Bool.eq_iff_iff, treeHolds_iff h.fits (Legible.clear hl),
    treeHolds_iff h.fits_cut (Legible.clear hl)]
  refine forall₂_congr fun e he => exists_congr fun k => ?_
  simp only [exists_and_left]
  refine and_congr_right fun hk => ?_
  by_cases hhead : k ∈ heads ps
  · obtain ⟨p, hp, hpar, rfl⟩ | hg := top_or_isGroup hhead
    · exact h.entryHolds_top_iff hheed he hp hpar hk
    · exact h.entryHolds_group_iff hl hheed he hg hk
  · have hnone (v : Value) (hv : Fits (heads ps) v) : Tree.child? v k = none :=
      Named.get?_eq_none_iff.mpr fun hmem => hhead (hv.sub k hmem)
    rw [hnone full h.fits, hnone cut h.fits_cut]

theorem Agrees.holds_eq (h : Agrees ps keep full cut) {c : Condition}
    (hl : ∀ tree ∈ c.trees, Legible ps tree) (hheed : ∀ tree ∈ c.trees, Heeds ps keep full tree) :
    c.holds full = c.holds cut := by
  cases c with
  | all tree =>
    have ht := List.mem_singleton_self tree
    exact h.treeHolds_eq (hl tree ht) (hheed tree ht)
  | any trees =>
    simp only [holds]
    rw [Bool.eq_iff_iff, List.any_eq_true, List.any_eq_true]
    refine exists_congr fun tree => and_congr_right fun ht => ?_
    rw [h.treeHolds_eq (hl tree ht) (hheed tree ht)]

end Agrees

end Outline

end DeviceStats
