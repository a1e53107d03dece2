import DeviceStats.Proofs.Match.Children

/-!
# Proofs/Match/Paths — a change of a child is seen on the paths through it
-/

namespace DeviceStats

namespace Named

variable {α : Type}

/-- Erasing a name hides every value under it, also where the name stands twice. -/
theorem get?_erase (o : Named α) (key k : String) :
    get? (erase o key) k = if key = k then none else get? o k := by
  induction o with
  | nil => simp [erase]
  | cons kv o ih =>
    obtain ⟨j, v⟩ := kv
    rw [erase_eq_sift] at ih ⊢
    rw [sift_cons, get?_cons]
    by_cases hj : j = key
    · subst hj
      by_cases hk : j = k
      · simpa [hk] using ih
      · simpa [hk] using ih
    · by_cases hk : j = k
      · subst hk
        simp [hj, Ne.symm hj, get?_cons]
      · simpa [hj, hk, get?_cons] using ih

/-- A value written under a name that is there leaves the names and their order alone. -/
theorem keys_insert {o : Named α} {key : String} (h : key ∈ keys o) (v : α) :
    keys (insert o key v) = keys o := by
  induction o with
  | nil => simp [keys] at h
  | cons kv o ih =>
    obtain ⟨k, w⟩ := kv
    rw [insert]
    by_cases hk : k = key
    · rw [if_pos hk]
      rfl
    · rw [if_neg hk]
      have hmem := (List.mem_cons.mp h).resolve_left fun heq => hk heq.symm
      exact congrArg (k :: ·) (ih hmem)

/-- Of two values written under one name only the second is seen. -/
theorem insert_insert (o : Named α) (key : String) (v w : α) :
    insert (insert o key v) key w = insert o key w := by
  induction o with
  | nil => simp [insert]
  | cons kv o ih =>
    obtain ⟨k, u⟩ := kv
    by_cases hk : k = key
    · simp [insert, hk]
    · simp [insert, hk, ih]

theorem has_eq_true_iff {o : Named α} {key : String} : has o key = true ↔ key ∈ keys o := by
  simp only [has, keys, List.any_eq_true, List.mem_map, beq_iff_eq]

/-- A value under a new name goes to the end. -/
theorem insert_of_not_mem {o : Named α} {key : String} (h : key ∉ keys o) (v : α) :
    insert o key v = o ++ [(key, v)] := by
  induction o with
  | nil => rfl
  | cons kv o ih =>
    obtain ⟨k, w⟩ := kv
    obtain ⟨hk, hmem⟩ := not_or.mp (mt List.mem_cons.mpr h)
    rw [insert, if_neg (Ne.symm hk), ih hmem]
    rfl

/-- Writing adds its own name and no other. -/
theorem mem_keys_insert {o : Named α} {key k : String} {v : α} :
    k ∈ keys (insert o key v) ↔ k = key ∨ k ∈ keys o := by
  rw [← not_iff_not, ← get?_eq_none_iff, get?_insert, not_or, ← get?_eq_none_iff (o := o)]
  by_cases hk : key = k
  · simp [hk]
  · simp [hk, Ne.symm hk]

/-- Writing never makes a name stand twice. -/
theorem nodup_keys_insert {o : Named α} (h : (keys o).Nodup) (key : String) (v : α) :
    (keys (insert o key v)).Nodup := by
  by_cases hmem : key ∈ keys o
  · rw [keys_insert hmem]
    exact h
  · rw [insert_of_not_mem hmem, keys, List.map_append]
    exact (List.perm_append_singleton key _).nodup_iff.mpr (List.nodup_cons.mpr ⟨hmem, h⟩)

end Named

namespace Match.Tree

variable {α : Type} [Tree α] {t c : α} {key : String}

@[simp] theorem at?_nil (t : α) : at? t [] = some t := rfl

/-- A path is followed one name at a time. -/
theorem at?_cons (t : α) (k : String) (p : List String) :
    at? t (k :: p) = (child? t k).bind (at? · p) := rfl

/-- A path is followed in two parts: the second from where the first leads. -/
theorem at?_append (t : α) (p q : List String) :
    at? t (p ++ q) = (at? t p).bind (at? · q) := List.foldlM_append

theorem at?_singleton (t : α) (k : String) : at? t [k] = child? t k := by
  rw [at?_cons]
  cases child? t k <;> rfl

/-- Only a branch has a child. -/
theorem isBranch_of_child? (h : child? t key = some c) : isBranch t = true := by
  unfold isBranch
  unfold child? children at h
  cases hc : children? t with
  | none => simp [hc] at h
  | some o => rfl

/-- The names of a tree are those that a child stands under. -/
theorem mem_keys_iff : key ∈ keys t ↔ ∃ c, child? t key = some c := by
  rw [← Option.ne_none_iff_exists', ← not_iff_not]
  exact Named.get?_eq_none_iff.symm.trans (by rw [not_not]; rfl)

theorem mem_keys_of_child? (h : child? t key = some c) : key ∈ keys t := mem_keys_iff.mpr ⟨c, h⟩

/-- A path leads somewhere through the child under its first name alone. -/
theorem isSome_at?_cons {k : String} {p : List String} : (at? t (k :: p)).isSome = true ↔
    ∃ c, child? t k = some c ∧ (at? c p).isSome = true := by
  rw [at?_cons]
  cases child? t k <;> simp

variable [LawfulTree α]

/-- A child that is replaced is seen under its own name, the others as before. -/
theorem child?_setChild (h : child? t key = some c) (c' : α) (k : String) :
    child? (setChild t key c') k = if key = k then some c' else child? t k := by
  unfold setChild
  rw [child?, children_withChildren, if_pos (isBranch_of_child? h), Named.get?_insert]
  rfl

/-- A child that is erased is gone, and the others stay. -/
theorem child?_erase (t : α) (key k : String) :
    child? (erase t key) k = if key = k then none else child? t k := by
  unfold erase
  rw [child?, children_withChildren]
  cases h : isBranch t with
  | true => exact Named.get?_erase _ _ _
  | false =>
    rw [if_neg Bool.false_ne_true, child?, children_of_not_isBranch h]
    split <;> rfl

/-- In a sifted tree a path goes on in what its first child was sifted to. -/
theorem isSome_at?_sift_cons (hn : (keys t).Nodup) {f : String → α → Option α} {k : String}
    {p : List String} : (at? (sift f t) (k :: p)).isSome = true ↔
      ∃ c c', child? t k = some c ∧ f k c = some c' ∧ (at? c' p).isSome = true := by
  rw [isSome_at?_cons, child?_sift hn]
  simp only [Option.bind_eq_some_iff]
  exact ⟨fun ⟨c', ⟨c, hc, hc'⟩, hp⟩ => ⟨c, c', hc, hc', hp⟩,
    fun ⟨c, c', hc, hc', hp⟩ => ⟨c', ⟨c, hc, hc'⟩, hp⟩⟩

/-- Replacing a child moves no name. -/
theorem keys_setChild (h : child? t key = some c) (c' : α) : keys (setChild t key c') = keys t := by
  unfold setChild
  rw [keys, children_withChildren, if_pos (isBranch_of_child? h)]
  exact Named.keys_insert (mem_keys_of_child? h) c'

/-- Erasing drops a name and keeps the others in order. -/
theorem keys_erase_sublist (t : α) (key : String) : (keys (erase t key)).Sublist (keys t) := by
  unfold erase
  rw [keys, children_withChildren]
  split
  · exact List.filter_sublist.map _
  · exact List.nil_sublist _

end Match.Tree

namespace Match

/-- A key stands for children only. -/
theorem exists_child?_of_mem_matchingKeys {α : Type} [Tree α] {t : α} {key k : String}
    (h : k ∈ matchingKeys t key) : ∃ c, Tree.child? t k = some c := by
  refine Tree.mem_keys_iff.mp ?_
  unfold matchingKeys at h
  split at h
  · rename_i hhas
    obtain rfl := List.mem_singleton.mp h
    simpa [Tree.hasChild, Named.has, Tree.keys, Named.keys] using hhas
  · exact (List.mem_filter.mp h).1

section Keys

variable {α : Type} [Tree α] {t t' : α} {key k : String}

/-- **A key stands for the names that are there**, which decide whether it is a pattern. -/
theorem mem_matchingKeys_iff :
    k ∈ matchingKeys t key ↔ k ∈ Tree.keys t ∧ stands (Tree.keys t) key k = true := by
  have hhas : Tree.hasChild t key = true ↔ key ∈ Tree.keys t := Named.has_eq_true_iff
  unfold matchingKeys stands
  by_cases hkey : key ∈ Tree.keys t
  · rw [if_pos (hhas.mpr hkey), if_pos (List.contains_iff_mem.mpr hkey), List.mem_singleton,
      beq_iff_eq]
    exact ⟨fun h => ⟨h ▸ hkey, h⟩, And.right⟩
  · rw [if_neg (mt hhas.mp hkey), if_neg (mt List.contains_iff_mem.mp hkey), List.mem_filter]

/-- A key does not stand for a name twice. -/
theorem nodup_matchingKeys_of_nodup (h : (Tree.keys t).Nodup) (key : String) :
    (matchingKeys t key).Nodup := by
  unfold matchingKeys
  split
  · exact List.nodup_singleton key
  · exact h.filter _

/-- A key stands for a name also where there are fewer names. -/
theorem stands_of_subset {names names' : List String} (hsub : names ⊆ names') (hk : k ∈ names)
    (h : stands names' key k = true) : stands names key k = true := by
  unfold stands at h ⊢
  by_cases hkey : key ∈ names'
  · rw [if_pos (List.contains_iff_mem.mpr hkey)] at h
    obtain rfl := beq_iff_eq.mp h
    rwa [if_pos (List.contains_iff_mem.mpr hk)]
  · rw [if_neg (mt List.contains_iff_mem.mp hkey)] at h
    rwa [if_neg (mt List.contains_iff_mem.mp fun hin => hkey (hsub hin))]

/-- What a key stands for depends on the names alone. -/
theorem matchingKeys_congr (h : Tree.keys t = Tree.keys t') (key : String) :
    matchingKeys t key = matchingKeys t' key := by
  have hhas : Tree.hasChild t key = Tree.hasChild t' key := by
    rw [Bool.eq_iff_iff, Tree.hasChild, Tree.hasChild, Named.has_eq_true_iff,
      Named.has_eq_true_iff]
    exact (iff_of_eq (congrArg (key ∈ ·) h) :)
  rw [matchingKeys, matchingKeys, hhas, h]

/-- A key reads in a tree as it does in one with the same names. -/
theorem Reads.congr {names : List String} (h : Reads names t key)
    (hkeys : Tree.keys t' = Tree.keys t) : Reads names t' key := by
  rw [Reads, matchingKeys_congr hkeys, hkeys]
  exact h

/-- A key stands in a tree for what it stands for among the names of the tree. -/
theorem reads_keys (hn : (Tree.keys t).Nodup) (key : String) : Reads (Tree.keys t) t key := by
  have hhas : Tree.hasChild t key = true ↔ key ∈ Tree.keys t := Named.has_eq_true_iff
  unfold Reads matchingKeys
  by_cases hkey : key ∈ Tree.keys t
  · have hstands : stands (Tree.keys t) key = fun k => k == key := by
      funext k
      rw [stands, if_pos (List.contains_iff_mem.mpr hkey)]
    rw [if_pos (hhas.mpr hkey), hstands, List.filter_beq, List.count_eq_one_of_mem hn hkey]
    rfl
  · have hstands : stands (Tree.keys t) key = (Pattern.ofString key).isMatch := by
      funext k
      rw [stands, if_neg (mt List.contains_iff_mem.mp hkey)]
    rw [if_neg (mt hhas.mp hkey), hstands]

/-- In a tree without names a key stands for nothing. -/
theorem matchingKeys_eq_nil (h : Tree.keys t = []) (key : String) : matchingKeys t key = [] :=
  List.eq_nil_iff_forall_not_mem.mpr fun _ hk => by simp [mem_matchingKeys_iff, h] at hk

end Keys

end Match

end DeviceStats
