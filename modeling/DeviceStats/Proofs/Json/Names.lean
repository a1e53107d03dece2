import DeviceStats.Proofs.Match.Paths
import Mathlib.Data.List.Dedup

/-!
# Proofs/Json/Names — names given, taken and changed

What the names of an object come to when values change under them, when a list of pairs is read as
an object, and when a name is taken out and the last entry put into its place.
-/

namespace DeviceStats.Named

variable {α β : Type} {o : Named α} {key : String}

theorem isSome_get? : (get? o key).isSome = has o key := by
  rw [Bool.eq_iff_iff, has_eq_true_iff, ← not_iff_not, ← get?_eq_none_iff]
  simp

theorem get?_eq_none_iff_has : get? o key = none ↔ has o key = false := by
  rw [← isSome_get?, Option.isSome_eq_false_iff, Option.isNone_iff_eq_none]

/-! ## Values changed, names left out -/

theorem keys_map (f : String → α → β) (o : Named α) :
    keys (o.map fun kv => (kv.1, f kv.1 kv.2)) = keys o := by
  simp [keys, Function.comp_def]

theorem get?_map (f : String → α → β) :
    get? (o.map fun kv => (kv.1, f kv.1 kv.2)) key = (get? o key).map (f key) := by
  induction o with
  | nil => rfl
  | cons kv rest ih =>
    rw [List.map_cons, get?_cons, get?_cons, ih]
    split
    · rename_i h
      rw [h, Option.map_some]
    · rfl

theorem get?_filter {p : String → Bool} (h : p key = true) :
    get? (o.filter fun kv => p kv.1) key = get? o key := by
  induction o with
  | nil => rfl
  | cons kv rest ih =>
    rw [List.filter_cons, get?_cons]
    split
    · rw [get?_cons, ih]
    · rename_i hp
      rw [ih, if_neg (by rintro rfl; exact hp h)]

/-- The value that is found is the first one under its name. -/
theorem get?_eq_some_iff_append {v : α} : get? o key = some v ↔
    ∃ front back, o = front ++ (key, v) :: back ∧ key ∉ keys front := by
  have hout {front : Named α} : key ∉ keys front ↔ ∀ kv ∈ front, (!kv.1 == key) = true := by
    simp only [keys, List.mem_map, not_exists, not_and, Bool.not_eq_true', beq_eq_false_iff_ne,
      ne_eq]
  constructor
  · intro h
    obtain ⟨kv, hfind, rfl⟩ := Option.map_eq_some_iff.mp h
    obtain ⟨hkey, front, back, hsplit, hfront⟩ := List.find?_eq_some_iff_append.mp hfind
    obtain rfl := eq_of_beq hkey
    exact ⟨front, back, hsplit, hout.mpr hfront⟩
  · rintro ⟨front, back, rfl, hfront⟩
    exact Option.map_eq_some_iff.mpr ⟨(key, v), List.find?_eq_some_iff_append.mpr
      ⟨beq_self_eq_true key, front, back, rfl, hout.mp hfront⟩, rfl⟩

/-- A name is looked for in front first. -/
theorem get?_append (o more : Named α) (key : String) :
    get? (o ++ more) key = (get? o key).or (get? more key) := by
  rw [get?, List.find?_append, Option.map_or]
  rfl

/-- A name that is put in stands behind those that are there. -/
theorem keys_prefix_insert (o : Named α) (key : String) (v : α) :
    keys o <+: keys (insert o key v) := by
  by_cases h : key ∈ keys o
  · exact (keys_insert h v).symm ▸ List.prefix_refl _
  · rw [insert_of_not_mem h, keys, keys, List.map_append]
    exact List.prefix_append _ _

/-- The order of entries does not matter to who looks for a name. -/
theorem get?_of_perm {o' : Named α} (h : o'.Perm o) (hn : (keys o).Nodup) (key : String) :
    get? o' key = get? o key := by
  have hn' : (keys o').Nodup := (h.map Prod.fst).nodup_iff.mpr hn
  ext v
  rw [get?_eq_some_iff hn', get?_eq_some_iff hn, h.mem_iff]

/-- A name that is put in is taken out again; taking out another is putting it into what is left. -/
theorem erase_insert (o : Named α) (key : String) (v : α) (other : String) :
    erase (insert o key v) other =
      if key = other then erase o other else insert (erase o other) key v := by
  induction o with
  | nil =>
    by_cases hother : key = other <;> simp [insert, erase, hother]
  | cons kv rest ih =>
    obtain ⟨k, w⟩ := kv
    simp only [erase] at ih ⊢
    by_cases hk : k = key
    · subst hk
      by_cases hother : k = other <;> simp [insert, hother]
    · by_cases hother : k = other
      · subst hother
        simp [insert, hk, Ne.symm hk, ih]
      · by_cases hkey : key = other
        · subst hkey
          simpa [insert, hk] using ih
        · simp [insert, hk, hother, hkey, ih]

/-! ## Pairs read as an object -/

theorem mem_of_mem_insert {kv : String × α} {v : α} (h : kv ∈ insert o key v) :
    kv = (key, v) ∨ kv ∈ o := by
  induction o with
  | nil => exact .inl (List.mem_singleton.mp h)
  | cons kw rest ih =>
    rw [insert] at h
    split at h
    · rename_i hk
      subst hk
      exact (List.mem_cons.mp h).imp_right (List.mem_cons_of_mem _)
    · rcases List.mem_cons.mp h with rfl | h
      · exact .inr List.mem_cons_self
      · exact (ih h).imp_right (List.mem_cons_of_mem _)

theorem mem_of_mem_extend {kv : String × α} {more : Named α} (h : kv ∈ extend o more) :
    kv ∈ o ∨ kv ∈ more := by
  unfold extend at h
  induction more generalizing o with
  | nil => exact .inl h
  | cons kw more ih =>
    rcases ih h with h | h
    · rcases mem_of_mem_insert h with rfl | h
      · exact .inr List.mem_cons_self
      · exact .inl h
    · exact .inr (List.mem_cons_of_mem _ h)

theorem mem_of_mem_ofPairs {kv : String × α} {pairs : List (String × α)} (h : kv ∈ ofPairs pairs) :
    kv ∈ pairs := (mem_of_mem_extend h).resolve_left List.not_mem_nil

theorem mem_keys_extend {more : Named α} :
    key ∈ keys (extend o more) ↔ key ∈ keys o ∨ key ∈ keys more := by
  unfold extend
  induction more generalizing o with
  | nil => simp [keys]
  | cons kw more ih =>
    rw [List.foldl_cons, ih, mem_keys_insert, keys, keys, keys, List.map_cons, List.mem_cons]
    tauto

theorem mem_keys_ofPairs {pairs : List (String × α)} :
    key ∈ keys (ofPairs pairs) ↔ key ∈ keys pairs :=
  mem_keys_extend.trans (or_iff_right List.not_mem_nil)

theorem ofPairs_eq_nil_iff {pairs : List (String × α)} : ofPairs pairs = [] ↔ pairs = [] := by
  refine ⟨fun h => List.eq_nil_iff_forall_not_mem.mpr fun kv hkv => ?_, by rintro rfl; rfl⟩
  have hmem := mem_keys_ofPairs.mpr (List.mem_map_of_mem (f := Prod.fst) hkv)
  rw [h] at hmem
  cases hmem

theorem nodup_keys_extend {more : Named α} (h : (keys o).Nodup) : (keys (extend o more)).Nodup := by
  unfold extend
  induction more generalizing o with
  | nil => exact h
  | cons kw more ih => exact ih (nodup_keys_insert h kw.1 kw.2)

theorem nodup_keys_ofPairs (pairs : List (String × α)) : (keys (ofPairs pairs)).Nodup :=
  nodup_keys_extend List.nodup_nil

/-- Pairs that repeat no name are read as they are. -/
theorem ofPairs_of_nodup {pairs : List (String × α)} (h : (keys pairs).Nodup) :
    ofPairs pairs = pairs := by
  suffices ∀ o : Named α, (∀ kv ∈ pairs, kv.1 ∉ keys o) → extend o pairs = o ++ pairs from
    this [] fun _ _ => List.not_mem_nil
  induction pairs with
  | nil => exact fun o _ => (List.append_nil o).symm
  | cons kv rest ih =>
    intro o ho
    obtain ⟨hkv, hrest⟩ := List.forall_mem_cons.mp ho
    obtain ⟨hout, h⟩ := List.nodup_cons.mp h
    rw [extend, List.foldl_cons, insert_of_not_mem hkv, List.append_cons o kv rest]
    refine ih h _ fun kw hkw hmem => ?_
    rw [keys, List.map_append, List.mem_append] at hmem
    rcases hmem with hmem | hmem
    · exact hrest kw hkw hmem
    · exact hout (List.mem_singleton.mp hmem ▸ List.mem_map_of_mem hkw)

/-- The last value that a name is given counts. -/
theorem get?_extend (o more : Named α) (key : String) :
    get? (extend o more) key = (get? more.reverse key).or (get? o key) := by
  unfold extend
  induction more generalizing o with
  | nil => rfl
  | cons kv more ih =>
    rw [List.foldl_cons, ih, List.reverse_cons, get?_append, Option.or_assoc, get?_insert,
      get?_cons]
    split
    · rfl
    · rw [get?_nil, Option.none_or]

/-- A name that is not given anew keeps its value. -/
theorem get?_extend_of_not_mem {more : Named α} (h : key ∉ keys more) (o : Named α) :
    get? (extend o more) key = get? o key := by
  have hnone : get? more.reverse key = none := get?_eq_none_iff.mpr (by simpa [keys] using h)
  rw [get?_extend, hnone, Option.none_or]

theorem get?_ofPairs (pairs : List (String × α)) (key : String) :
    get? (ofPairs pairs) key = get? pairs.reverse key := by
  rw [ofPairs, get?_extend, get?_nil, Option.or_none]

/-- What a name is given last stands before no other value for it. -/
theorem get?_reverse_eq_some_iff {pairs : List (String × α)} {v : α} :
    get? pairs.reverse key = some v ↔
      ∃ front back, pairs = front ++ (key, v) :: back ∧ key ∉ keys back := by
  have hkeys (l : List (String × α)) : key ∉ keys l.reverse ↔ key ∉ keys l := by
    simp [keys]
  rw [get?_eq_some_iff_append]
  constructor
  · rintro ⟨back, front, hsplit, hback⟩
    refine ⟨front.reverse, back.reverse, ?_, (hkeys back).mpr hback⟩
    rw [← List.reverse_reverse pairs, hsplit, List.reverse_append, List.reverse_cons,
      List.append_assoc]
    rfl
  · rintro ⟨front, back, rfl, hback⟩
    refine ⟨back.reverse, front.reverse, ?_, (hkeys back).mpr hback⟩
    rw [List.reverse_append, List.reverse_cons, List.append_assoc]
    rfl

/-- **Each name has its first place.** -/
theorem keys_extend (o more : Named α) : keys (extend o more) =
    keys o ++ ((keys more).filter fun k => !(keys o).contains k).eraseDups := by
  unfold extend
  induction more generalizing o with
  | nil => simp [keys]
  | cons kv more ih =>
    have hcons : keys (kv :: more) = kv.1 :: keys more := rfl
    rw [List.foldl_cons, ih, hcons, List.filter_cons]
    by_cases h : kv.1 ∈ keys o
    · rw [keys_insert h, if_neg (by simpa using h)]
    · have hkeys : keys (insert o kv.1 kv.2) = keys o ++ [kv.1] := by
        rw [insert_of_not_mem h, keys, List.map_append]
        rfl
      rw [hkeys, if_pos (by simpa using h), List.eraseDups_cons, List.filter_filter,
        List.append_assoc]
      refine congrArg (fun l => keys o ++ kv.1 :: l.eraseDups) (List.filter_congr fun k _ => ?_)
      rw [Bool.eq_iff_iff]
      simp [and_comm]

theorem keys_ofPairs (pairs : List (String × α)) :
    keys (ofPairs pairs) = (keys pairs).eraseDups := by
  rw [ofPairs, keys_extend]
  simp [keys]

/-- **An object records pairs**: it has their names in the order in which they first come up, each
with the value that it is given last. -/
structure Records (o : Named α) (pairs : List (String × α)) : Prop where
  keys : Named.keys o = (Named.keys pairs).eraseDups
  last : ∀ front key v back, pairs = front ++ (key, v) :: back → key ∉ Named.keys back →
    Named.get? o key = some v

theorem records_ofPairs (pairs : List (String × α)) : (ofPairs pairs).Records pairs where
  keys := keys_ofPairs pairs
  last front key v back hsplit hback := by
    rw [get?_ofPairs]
    exact get?_reverse_eq_some_iff.mpr ⟨front, back, hsplit, hback⟩

/-- **As many names are there as pairs** only if no name is repeated. -/
theorem length_ofPairs_eq_iff {pairs : List (String × α)} :
    (ofPairs pairs).length = pairs.length ↔ (keys pairs).Nodup := by
  have hperm : (keys (ofPairs pairs)).Perm (keys pairs).dedup :=
    (List.perm_ext_iff_of_nodup (nodup_keys_ofPairs pairs) (List.nodup_dedup _)).mpr fun key =>
      mem_keys_ofPairs.trans List.mem_dedup.symm
  have hkeys (o : Named α) : o.length = (keys o).length := List.length_map _ |>.symm
  rw [hkeys, hkeys, hperm.length_eq, ← List.dedup_eq_self]
  exact ⟨(List.dedup_sublist _).eq_of_length, congrArg List.length⟩

/-! ## A name taken out -/

variable {front back : Named α} {last : String × α} {v : α}

theorem findIdx?_append_cons (h : key ∉ keys front) :
    (front ++ (key, v) :: back).findIdx? (·.1 == key) = some front.length := by
  have hnone : front.findIdx? (·.1 == key) = none := by
    rw [List.findIdx?_eq_none_iff]
    exact fun kv hkv => beq_eq_false_iff_ne.mpr fun heq => h (heq ▸ List.mem_map_of_mem hkv)
  simp [List.findIdx?_append, hnone, List.findIdx?_cons]

theorem get?_append_cons (h : key ∉ keys front) :
    get? (front ++ (key, v) :: back) key = some v := by
  have hnone : front.find? (·.1 == key) = none :=
    List.find?_eq_none.mpr fun kv hkv heq => h (eq_of_beq heq ▸ List.mem_map_of_mem hkv)
  simp [get?, List.find?_append, hnone]

/-- The last name is taken out and leaves no gap. -/
theorem eraseSwap_concat (h : key ∉ keys front) : eraseSwap (front ++ [(key, v)]) key = front := by
  simp [eraseSwap, findIdx?_append_cons h]

/-- The last entry comes into the place of a name before it. -/
theorem eraseSwap_append (h : key ∉ keys front) :
    eraseSwap (front ++ (key, v) :: (back ++ [last])) key = front ++ last :: back := by
  have hlast : (front ++ (key, v) :: (back ++ [last])).getLast? = some last := by
    rw [← List.cons_append, ← List.append_assoc, List.getLast?_concat]
  have hset : ((front ++ (key, v) :: (back ++ [last])).set front.length last).dropLast =
      front ++ last :: back := by
    rw [List.set_append_right _ _ (Nat.le_refl _), Nat.sub_self, List.set_cons_zero,
      ← List.cons_append, ← List.append_assoc, List.dropLast_concat]
  rw [eraseSwap, findIdx?_append_cons h, hlast]
  simp only [hset]
  rw [if_neg (by simp)]

end DeviceStats.Named
