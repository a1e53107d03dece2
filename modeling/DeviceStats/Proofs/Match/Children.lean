import DeviceStats.Match.Tree
import Mathlib.Data.List.Nodup

/-!
# Proofs/Match/Children — what locations do to a tree, they do to each child

A key of a location stands for a child by its name or as a pattern, and which of the two it is
depends on the names that are there.  Where every key is **clear** among some names (`Clear`), it
does not: the key stands for the same names in every tree that has only those (`matchingKeys_eq`).
Then changing the children that a key stands for, one after the other, is sifting the children
(`foldl_update`).
-/

namespace DeviceStats

open Json (Value)

/-! ## Sifted names -/

namespace Named

variable {α : Type}

/-- What a choice makes of every named value, where it makes anything of it. -/
def sift (f : String → α → Option α) (o : Named α) : Named α :=
  o.filterMap fun kv => (f kv.1 kv.2).map (kv.1, ·)

@[simp] theorem sift_nil (f : String → α → Option α) : sift f [] = [] := rfl

theorem sift_cons (f : String → α → Option α) (k : String) (v : α) (o : Named α) :
    sift f ((k, v) :: o) = ((f k v).map (k, ·)).toList ++ sift f o := by
  cases h : f k v <;> simp [sift, h]

/-- Sifting drops names and never moves them. -/
theorem keys_sift_sublist (f : String → α → Option α) (o : Named α) :
    (keys (sift f o)).Sublist (keys o) := by
  induction o with
  | nil => exact .refl _
  | cons kv o ih =>
    obtain ⟨k, v⟩ := kv
    rw [sift_cons]
    cases f k v with
    | none => exact ih.cons k
    | some w => exact ih.cons_cons k

/-- Choices that agree on what is there sift alike. -/
theorem sift_congr {f g : String → α → Option α} {o : Named α}
    (h : ∀ kv ∈ o, f kv.1 kv.2 = g kv.1 kv.2) : sift f o = sift g o :=
  List.filterMap_congr fun kv hkv => by rw [h kv hkv]

theorem sift_some (o : Named α) : sift (fun _ v => some v) o = o := by
  simp [sift]

/-- Sifting twice is sifting by both choices. -/
theorem sift_sift (f g : String → α → Option α) (o : Named α) :
    sift g (sift f o) = sift (fun k v => (f k v).bind (g k)) o := by
  induction o with
  | nil => rfl
  | cons kv o ih =>
    obtain ⟨k, v⟩ := kv
    rw [sift_cons, sift_cons]
    cases f k v with
    | none => exact ih
    | some w => exact (sift_cons g k w _).trans (congrArg _ ih)

/-- Nothing is found under a name just if the name is not there. -/
theorem get?_eq_none_iff {o : Named α} {key : String} : get? o key = none ↔ key ∉ keys o := by
  simp only [get?, keys, Option.map_eq_none_iff, List.find?_eq_none, List.mem_map, not_exists,
    not_and, beq_iff_eq]

theorem mem_of_get?_eq_some {o : Named α} {key : String} {v : α} (h : get? o key = some v) :
    (key, v) ∈ o := by
  obtain ⟨⟨k, w⟩, hfind, rfl⟩ := Option.map_eq_some_iff.mp h
  obtain rfl : k = key := by simpa using List.find?_some hfind
  exact List.mem_of_find?_eq_some hfind

/-- Where no name stands twice, what is found is what is there. -/
theorem get?_eq_some_iff {o : Named α} (hn : (keys o).Nodup) {key : String} {v : α} :
    get? o key = some v ↔ (key, v) ∈ o := by
  refine ⟨mem_of_get?_eq_some, fun hmem => ?_⟩
  cases h : get? o key with
  | none => exact absurd (List.mem_map_of_mem hmem) (get?_eq_none_iff.mp h)
  | some w =>
    have := List.inj_on_of_nodup_map hn hmem (mem_of_get?_eq_some h) rfl
    rw [(Prod.mk.inj this).2]

/-- **Sifting is read back by names.** -/
theorem get?_sift {o : Named α} (hn : (keys o).Nodup) (f : String → α → Option α)
    (key : String) : get? (sift f o) key = (get? o key).bind (f key) := by
  induction o with
  | nil => rfl
  | cons kv o ih =>
    obtain ⟨k, v⟩ := kv
    obtain ⟨hk, hn⟩ := List.nodup_cons.mp hn
    rw [sift_cons, get?_cons]
    by_cases h : k = key
    · subst h
      rw [if_pos rfl, Option.bind_some]
      cases hf : f k v with
      | none =>
        refine (ih hn).trans ?_
        rw [get?_eq_none_iff.mpr hk, Option.bind_none]
      | some w => exact (get?_cons k w _ k).trans (if_pos rfl)
    · rw [if_neg h]
      cases hf : f k v with
      | none => exact ih hn
      | some w => exact ((get?_cons k w _ key).trans (if_neg h)).trans (ih hn)

/-- Erasing is sifting by a choice that takes one name out. -/
theorem erase_eq_sift (o : Named α) (key : String) :
    erase o key = sift (fun k v => if k = key then none else some v) o := by
  induction o with
  | nil => rfl
  | cons kv o ih =>
    obtain ⟨k, v⟩ := kv
    rw [sift_cons, ← ih, erase, List.filter_cons]
    by_cases h : k = key <;> simp [h, erase]

/-- A value put in the place of another. -/
theorem insert_eq_sift {o : Named α} (hn : (keys o).Nodup) {key : String} (h : key ∈ keys o)
    (v : α) : insert o key v = sift (fun k w => some (if k = key then v else w)) o := by
  induction o with
  | nil => simp [keys] at h
  | cons kv o ih =>
    obtain ⟨k, w⟩ := kv
    obtain ⟨hk, hn⟩ := List.nodup_cons.mp hn
    rw [sift_cons, insert]
    by_cases hkey : k = key
    · subst hkey
      rw [if_pos rfl, if_pos rfl]
      refine congrArg ((k, v) :: ·) ((sift_some o).symm.trans (sift_congr fun kv hkv => ?_))
      have hmem : kv.1 ∈ keys o := List.mem_map_of_mem hkv
      have hne : kv.1 ≠ k := fun heq => hk (heq ▸ hmem)
      rw [if_neg hne]
    · rw [if_neg hkey, if_neg hkey]
      have hmem := (List.mem_cons.mp h).resolve_left fun heq => hkey heq.symm
      exact congrArg ((k, w) :: ·) (ih hn hmem)

/-- Writing what is there already changes nothing. -/
theorem insert_self {o : Named α} {key : String} {v : α} (h : get? o key = some v) :
    insert o key v = o := by
  induction o with
  | nil => simp at h
  | cons kv o ih =>
    obtain ⟨k, w⟩ := kv
    rw [get?_cons] at h
    rw [insert]
    by_cases hkey : k = key
    · rw [if_pos hkey] at h ⊢
      rw [Option.some.inj h]
    · rw [if_neg hkey] at h ⊢
      rw [ih h]

end Named

namespace Match

/-! ## Lawful trees -/

/-- Trees that are what their children make of them. -/
class LawfulTree (α : Type) [Tree α] : Prop where
  children?_withChildren (t : α) (o : Named α) :
    Tree.children? (Tree.withChildren t o) = (Tree.children? t).map fun _ => o
  withChildren_withChildren (t : α) (o o' : Named α) :
    Tree.withChildren (Tree.withChildren t o) o' = Tree.withChildren t o'
  withChildren_children (t : α) : Tree.withChildren t (Tree.children t) = t

instance : LawfulTree Value where
  children?_withChildren t o := by cases t <;> rfl
  withChildren_withChildren t o o' := by cases t <;> rfl
  withChildren_children t := by cases t <;> rfl

namespace Tree

open LawfulTree

variable {α : Type} [Tree α] [LawfulTree α]

/-- A branch stays one whatever children it gets, and so does a leaf. -/
theorem isBranch_withChildren (t : α) (o : Named α) : isBranch (withChildren t o) = isBranch t := by
  rw [isBranch, children?_withChildren, Option.isSome_map, isBranch]

/-- A branch has the children that it is given, a leaf has none. -/
theorem children_withChildren (t : α) (o : Named α) :
    children (withChildren t o) = if isBranch t then o else [] := by
  rw [children, children?_withChildren, isBranch]
  cases children? t <;> rfl

omit [LawfulTree α] in
/-- A leaf has no children. -/
theorem children_of_not_isBranch {t : α} (h : isBranch t = false) : children t = [] := by
  rw [isBranch] at h
  rw [children, Option.isSome_eq_false_iff.mp h |> Option.isNone_iff_eq_none.mp, Option.getD_none]

omit [LawfulTree α] in
theorem keys_of_not_isBranch {t : α} (h : isBranch t = false) : keys t = [] := by
  rw [keys, children_of_not_isBranch h]
  rfl

/-- A tree with its children sifted. -/
def sift (f : String → α → Option α) (t : α) : α := withChildren t (Named.sift f (children t))

@[simp] theorem children_sift (f : String → α → Option α) (t : α) :
    children (sift f t) = Named.sift f (children t) := by
  rw [sift, children_withChildren]
  cases h : isBranch t with
  | true => rfl
  | false => rw [children_of_not_isBranch h]; rfl

@[simp] theorem isBranch_sift (f : String → α → Option α) (t : α) :
    isBranch (sift f t) = isBranch t := isBranch_withChildren t _

/-- A tree sifted twice is sifted by both choices. -/
theorem sift_sift (f g : String → α → Option α) (t : α) :
    sift g (sift f t) = sift (fun k c => (f k c).bind (g k)) t := by
  rw [sift, children_sift, Named.sift_sift, sift, withChildren_withChildren, sift]

omit [LawfulTree α] in
theorem sift_congr {f g : String → α → Option α} {t : α}
    (h : ∀ kv ∈ children t, f kv.1 kv.2 = g kv.1 kv.2) : sift f t = sift g t := by
  rw [sift, sift, Named.sift_congr h]

theorem sift_some (t : α) : sift (fun _ c => some c) t = t := by
  rw [sift, Named.sift_some, withChildren_children]

/-- Children changed under the same names. -/
theorem keys_sift_some (f : String → α → α) (t : α) :
    keys (sift (fun k c => some (f k c)) t) = keys t := by
  rw [keys, children_sift, keys]
  induction children t with
  | nil => rfl
  | cons kv o ih =>
    obtain ⟨k, c⟩ := kv
    rw [Named.sift_cons]
    exact congrArg (k :: ·) ih

/-- A child of a sifted tree is what the choice makes of the child. -/
theorem child?_sift {t : α} (hn : (keys t).Nodup) (f : String → α → Option α) (key : String) :
    child? (sift f t) key = (child? t key).bind (f key) := by
  rw [child?, children_sift, Named.get?_sift hn, child?]

/-! ## Changing children one by one -/

/-- Changes a child, if it is there, or takes it out. -/
def update (f : String → α → Option α) (t : α) (key : String) : α :=
  match child? t key with
  | none => t
  | some c =>
    match f key c with
    | none => erase t key
    | some c => setChild t key c

/-- Changing one child is sifting. -/
theorem update_eq_sift {t : α} (hn : (keys t).Nodup) (f : String → α → Option α) (key : String) :
    update f t key = sift (fun k c => if k = key then f k c else some c) t := by
  unfold update
  cases hc : child? t key with
  | none =>
    refine (sift_some t).symm.trans (sift_congr fun kv hkv => ?_)
    have hne : kv.1 ≠ key := fun heq =>
      Named.get?_eq_none_iff.mp hc (heq ▸ List.mem_map_of_mem hkv)
    rw [if_neg hne]
  | some c =>
    have hmem : key ∈ keys t := List.mem_map_of_mem (Named.mem_of_get?_eq_some hc)
    have hval (kv : String × α) (hkv : kv ∈ children t) (hk : kv.1 = key) : kv.2 = c :=
      Option.some.inj (((Named.get?_eq_some_iff hn).mpr (hk ▸ hkv)).symm.trans hc)
    simp only
    cases hf : f key c with
    | none =>
      simp only [erase, Named.erase_eq_sift]
      refine congrArg (withChildren t) (Named.sift_congr fun kv hkv => ?_)
      split
      · rename_i hk
        rw [hk, hval kv hkv hk, hf]
      · rfl
    | some c' =>
      simp only [setChild, Named.insert_eq_sift hn hmem]
      refine congrArg (withChildren t) (Named.sift_congr fun kv hkv => ?_)
      split
      · rename_i hk
        rw [hk, hval kv hkv hk, hf]
      · rfl

/-- A sifted tree has no name twice, if the tree had none. -/
theorem nodup_keys_sift {t : α} (hn : (keys t).Nodup) (f : String → α → Option α) :
    (keys (sift f t)).Nodup := by
  rw [keys, children_sift]
  exact hn.sublist (Named.keys_sift_sublist f _)

/-- **Changing several children, one after the other, is sifting.** -/
theorem foldl_update {t : α} (hn : (keys t).Nodup) (f : String → α → Option α)
    {ks : List String} (hks : ks.Nodup) :
    ks.foldl (update f) t = sift (fun k c => if k ∈ ks then f k c else some c) t := by
  induction ks generalizing t with
  | nil => exact (sift_some t).symm.trans (sift_congr fun _ _ => (if_neg List.not_mem_nil).symm)
  | cons key ks ih =>
    obtain ⟨hkey, hks⟩ := List.nodup_cons.mp hks
    rw [List.foldl_cons, update_eq_sift hn, ih (nodup_keys_sift hn _) hks, sift_sift]
    refine sift_congr fun kv _ => ?_
    by_cases hk : kv.1 = key
    · rw [if_pos hk, if_pos (List.mem_cons.mpr (.inl hk))]
      cases f kv.1 kv.2 with
      | none => rfl
      | some c => exact if_neg (hk ▸ hkey)
    · rw [if_neg hk, Option.bind_some]
      simp only [List.mem_cons, hk, false_or]

end Tree

/-! ## Clear keys -/

/-- Whether a key stands for a name: literally if it is one of some names, else as a pattern. -/
def stands (names : List String) (key k : String) : Bool :=
  if names.contains key then k == key else (Pattern.ofString key).isMatch k

/-- A key that is a name matches no other name as a pattern. -/
def Clear (names : List String) (key : String) : Prop :=
  key ∈ names → ∀ k ∈ names, (Pattern.ofString key).isMatch k = true → k = key

instance (names : List String) (key : String) : Decidable (Clear names key) :=
  inferInstanceAs (Decidable (key ∈ names → ∀ k ∈ names, _ = true → k = key))

/-- A tree with no other names than these, each at most once. -/
structure Fits {α : Type} [Tree α] (names : List String) (t : α) : Prop where
  nodup : (Tree.keys t).Nodup
  sub : ∀ k ∈ Tree.keys t, k ∈ names

section Clear

variable {α : Type} [Tree α] {names : List String} {t : α} {key : String}

/-- **A clear key stands for the same names wherever they are.** -/
theorem matchingKeys_eq (h : Fits names t) (hc : Clear names key) :
    matchingKeys t key = (Tree.keys t).filter (stands names key) := by
  have hhas : Tree.hasChild t key = true ↔ key ∈ Tree.keys t := by
    simp [Tree.hasChild, Named.has, Tree.keys, Named.keys]
  unfold matchingKeys
  by_cases hkey : key ∈ Tree.keys t
  · have hstands : stands names key = fun k => k == key := by
      funext k
      rw [stands, if_pos (List.contains_iff_mem.mpr (h.sub key hkey))]
    rw [if_pos (hhas.mpr hkey), hstands, List.filter_beq,
      List.count_eq_one_of_mem h.nodup hkey]
    rfl
  · rw [if_neg (mt hhas.mp hkey)]
    refine List.filter_congr fun k hk => ?_
    unfold stands
    by_cases hn : key ∈ names
    · rw [if_pos (List.contains_iff_mem.mpr hn)]
      have hne : k ≠ key := fun heq => hkey (heq ▸ hk)
      rw [beq_false_of_ne hne]
      exact Bool.eq_false_iff.mpr fun hm => hne (hc hn k (h.sub k hk) hm)
    · rw [if_neg (mt List.contains_iff_mem.mp hn)]

/-- Whether a key stands in a tree for what it stands for among some names. -/
def Reads (names : List String) (t : α) (key : String) : Prop :=
  matchingKeys t key = (Tree.keys t).filter (stands names key)

/-- Clear keys read in every tree that fits the names. -/
theorem Fits.reads {fields : List (String × Value)} (h : Fits names t)
    (hc : ∀ e ∈ fields, Clear names e.1) : ∀ e ∈ fields, Reads names t e.1 :=
  fun e he => matchingKeys_eq h (hc e he)

theorem Reads.nodup (h : Reads names t key) (hn : (Tree.keys t).Nodup) :
    (matchingKeys t key).Nodup := by
  rw [h]
  exact hn.filter _

/-- Which children a key stands for can be told from their names. -/
theorem Reads.mem_iff (h : Reads names t key) {k : String} :
    k ∈ matchingKeys t key ↔ k ∈ Tree.keys t ∧ stands names key k = true := by
  rw [h, List.mem_filter]

theorem nodup_matchingKeys (h : Fits names t) (hc : Clear names key) :
    (matchingKeys t key).Nodup := by
  rw [matchingKeys_eq h hc]
  exact h.nodup.filter _

theorem mem_matchingKeys (h : Fits names t) (hc : Clear names key) {k : String} :
    k ∈ matchingKeys t key ↔ k ∈ Tree.keys t ∧ stands names key k = true := by
  rw [matchingKeys_eq h hc, List.mem_filter]

/-- A tree that is sifted has no new names. -/
theorem Fits.sift [LawfulTree α] (h : Fits names t) (f : String → α → Option α) :
    Fits names (Tree.sift f t) where
  nodup := Tree.nodup_keys_sift h.nodup f
  sub k hk := by
    rw [Tree.keys, Tree.children_sift] at hk
    exact h.sub k ((Named.keys_sift_sublist f _).subset hk)

/-- **Changing what a key stands for is sifting by the names it stands for.** -/
theorem Reads.foldl_update [LawfulTree α] (h : Reads names t key) (hn : (Tree.keys t).Nodup)
    (f : String → α → Option α) : (matchingKeys t key).foldl (Tree.update f) t =
      Tree.sift (fun k c => if stands names key k then f k c else some c) t := by
  rw [Tree.foldl_update hn f (h.nodup hn)]
  refine Tree.sift_congr fun kv hkv => ?_
  have hk : kv.1 ∈ Tree.keys t := List.mem_map_of_mem hkv
  simp only [h.mem_iff, hk, true_and]

/-- In a tree that fits the names, a clear key changes the children whose names it stands for. -/
theorem foldl_update_matchingKeys [LawfulTree α] (h : Fits names t) (hc : Clear names key)
    (f : String → α → Option α) : (matchingKeys t key).foldl (Tree.update f) t =
      Tree.sift (fun k c => if stands names key k then f k c else some c) t :=
  Reads.foldl_update (matchingKeys_eq h hc) h.nodup f

end Clear

end Match

end DeviceStats
