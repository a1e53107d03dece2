import DeviceStats.Match.Deep
import DeviceStats.Proofs.Match.Paths

/-!
# Proofs/Match/Addressed — what is found below a child depends on the child alone

Every path that locations address goes through one child of the top.  With clear keys the paths
through a child are found in the child by itself (`filter_deep`), and what is changed at the ends of
paths is changed child by child (`child?_foldl_modifyAt`).
-/

namespace DeviceStats.Match

open Json (Value)

/-! ## Changes at the ends of paths -/

namespace Tree

variable {α β : Type} [Tree α] [LawfulTree α] {t : α}

theorem child?_modifyAt (f : α → α) (key : String) (p : List String) (t : α) (k : String) :
    child? (modifyAt f (key :: p) t) k =
      if key = k then (child? t k).map (modifyAt f p) else child? t k := by
  rw [modifyAt]
  cases hc : child? t key with
  | none =>
    by_cases hk : key = k
    · subst hk
      simp [hc]
    · simp [hk]
  | some c =>
    simp only
    rw [child?_setChild hc]
    by_cases hk : key = k
    · subst hk
      simp [hc]
    · simp [hk]

theorem keys_modifyAt (f : α → α) (key : String) (p : List String) (t : α) :
    keys (modifyAt f (key :: p) t) = keys t := by
  rw [modifyAt]
  cases hc : child? t key with
  | none => rfl
  | some c => exact keys_setChild hc _

theorem keys_foldl_modifyAt (F : β → α → α) (head : β → String) (rest : β → List String)
    (xs : List β) (t : α) :
    keys (xs.foldl (fun t x => modifyAt (F x) (head x :: rest x) t) t) = keys t := by
  induction xs generalizing t with
  | nil => rfl
  | cons x xs ih => rw [List.foldl_cons, ih, keys_modifyAt]

/-- **Changes along paths are changes of the children that the paths go through.** -/
theorem child?_foldl_modifyAt (F : β → α → α) (head : β → String) (rest : β → List String)
    (xs : List β) (t : α) (k : String) :
    child? (xs.foldl (fun t x => modifyAt (F x) (head x :: rest x) t) t) k =
      (child? t k).map
        ((xs.filter fun x => head x == k).foldl fun c x => modifyAt (F x) (rest x) c) := by
  induction xs generalizing t with
  | nil => simp
  | cons x xs ih =>
    rw [List.foldl_cons, ih, child?_modifyAt, List.filter_cons]
    by_cases hk : head x = k
    · rw [if_pos hk, if_pos (beq_iff_eq.mpr hk), Option.map_map]
      rfl
    · rw [if_neg hk, if_neg (mt beq_iff_eq.mp hk)]

end Tree

/-! ## What locations address -/

/-- The child of the top on the path to a found node. -/
def Found.head (f : Found) : String := f.path.headD f.key

/-- The path from that child on. -/
def Found.below (f : Found) : List String := f.full.tail

theorem Found.full_eq (f : Found) : f.full = f.head :: f.below := by
  obtain ⟨_ | ⟨k, path⟩, key⟩ := f <;> rfl

section Addressed

variable {α : Type} [Tree α]

/-- What a field of locations addresses below a child that it stands for. -/
def addressedOne (sub : Value) (k : String) (c : α) : List Found :=
  match sub with
  | .obj sub => if Tree.isBranch c then addressedFields [k] sub c else []
  | _ => [⟨[], k⟩]

/-- What locations address below a child. -/
def addressedAt (names : List String) (fields : List (String × Value)) (k : String) (c : α) :
    List Found :=
  fields.flatMap fun e => if stands names e.1 k then addressedOne e.2 k c else []

theorem addressedFields_cons (path : List String) (key : String) (sub : Value)
    (rest : List (String × Value)) (t : α) :
    addressedFields path ((key, sub) :: rest) t = (matchingKeys t key).flatMap (fun k =>
      match sub with
      | .obj sub =>
        match Tree.child? t k with
        | some c => if Tree.isBranch c then addressedFields (path ++ [k]) sub c else []
        | none => []
      | _ => [⟨path, k⟩]) ++ addressedFields path rest t := by
  cases sub with
  | obj sub => rw [addressedFields]; rfl
  | _ =>
    rw [addressedFields, List.map_eq_flatMap]
    simp

/-- Below a node without names nothing is found. -/
theorem addressedFields_eq_nil {path : List String} {fields : List (String × Value)} {c : α}
    (h : Tree.keys c = []) : addressedFields path fields c = [] := by
  induction fields with
  | nil => rw [addressedFields]
  | cons e fields ih => rw [addressedFields_cons, matchingKeys_eq_nil h, ih]; rfl

/-- Nothing is missed where the search does not enter a leaf. -/
theorem ite_isBranch_addressedFields (path : List String) (fields : List (String × Value)) (c : α) :
    (if Tree.isBranch c then addressedFields path fields c else []) =
      addressedFields path fields c := by
  split
  · rfl
  · rename_i hb
    exact (addressedFields_eq_nil (Tree.keys_of_not_isBranch (Bool.eq_false_iff.mpr hb))).symm

/-- Found nodes lie below the path at which the search began. -/
theorem prefix_of_mem_addressedFields {f : Found} : ∀ {fields : List (String × Value)}
    {path : List String} {t : α}, f ∈ addressedFields path fields t → path <+: f.path
  | [], _, _, h => by
    rw [addressedFields] at h
    exact nomatch h
  | (key, sub) :: rest, path, t, h => by
    rw [addressedFields_cons] at h
    obtain h | h := List.mem_append.mp h
    · obtain ⟨k, -, h⟩ := List.mem_flatMap.mp h
      cases sub with
      | obj sub =>
        simp only at h
        split at h
        · split at h
          · exact (List.prefix_append path [k]).trans (prefix_of_mem_addressedFields h)
          · exact nomatch h
        · exact nomatch h
      | _ =>
        obtain rfl := List.mem_singleton.mp h
        exact List.prefix_refl path
    · exact prefix_of_mem_addressedFields h

theorem head_of_mem_addressedOne {sub : Value} {k : String} {c : α} {f : Found}
    (h : f ∈ addressedOne sub k c) : f.head = k := by
  cases sub with
  | obj sub =>
    simp only [addressedOne] at h
    split at h
    · obtain ⟨q, hq⟩ := prefix_of_mem_addressedFields h
      rw [Found.head, ← hq]
      rfl
    · exact nomatch h
  | _ =>
    obtain rfl := List.mem_singleton.mp h
    rfl

theorem filter_addressedOne (sub : Value) (k j : String) (c : α) :
    (addressedOne sub k c).filter (·.head == j) = if k = j then addressedOne sub k c else [] := by
  split
  · rename_i hk
    refine List.filter_eq_self.mpr fun f hf => ?_
    rw [head_of_mem_addressedOne hf]
    exact beq_iff_eq.mpr hk
  · rename_i hk
    refine List.filter_eq_nil_iff.mpr fun f hf => ?_
    rw [head_of_mem_addressedOne hf]
    exact mt beq_iff_eq.mp hk

/-- Of names each at most once, one contributes what it has by itself. -/
theorem flatMap_ite_eq {β : Type} {ks : List String} (hks : ks.Nodup) (j : String)
    (F : String → List β) :
    (ks.flatMap fun k => if k = j then F k else []) = if j ∈ ks then F j else [] := by
  induction ks with
  | nil => rfl
  | cons k ks ih =>
    obtain ⟨hk, hks⟩ := List.nodup_cons.mp hks
    rw [List.flatMap_cons, ih hks]
    by_cases hj : k = j
    · subst hj
      simp [hk]
    · simp [hj, Ne.symm hj]

/-- One field of locations, then the others. -/
theorem addressedFields_top (e : String × Value) (fields : List (String × Value)) (t : α) :
    addressedFields [] (e :: fields) t =
      (matchingKeys t e.1).flatMap (fun k => (Tree.child? t k).elim [] (addressedOne e.2 k)) ++
        addressedFields [] fields t := by
  obtain ⟨key, sub⟩ := e
  cases sub with
  | obj sub =>
    rw [addressedFields]
    refine congrArg (List.flatMap · _ ++ _) (funext fun k => ?_)
    cases Tree.child? t k <;> rfl
  | _ =>
    rw [addressedFields, List.map_eq_flatMap]
    · refine congrArg (· ++ _) (List.flatMap_congr fun k hk => ?_)
      obtain ⟨c, hc⟩ := exists_child?_of_mem_matchingKeys hk
      rw [hc]
      rfl
    · simp

/-- **Below a child is found what the child has by itself.** -/
theorem filter_addressedFields {names : List String} {t : α} (h : Fits names t)
    {fields : List (String × Value)} (hc : ∀ e ∈ fields, Clear names e.1) (j : String) :
    (addressedFields [] fields t).filter (·.head == j) =
      (Tree.child? t j).elim [] (addressedAt names fields j) := by
  induction fields with
  | nil =>
    rw [addressedFields]
    cases Tree.child? t j <;> rfl
  | cons e fields ih =>
    obtain ⟨hkey, hc⟩ := List.forall_mem_cons.mp hc
    have hone (k : String) : ((Tree.child? t k).elim [] (addressedOne e.2 k)).filter
        (·.head == j) = if k = j then (Tree.child? t k).elim [] (addressedOne e.2 k) else [] := by
      cases Tree.child? t k with
      | none => simp
      | some c => exact filter_addressedOne e.2 k j c
    rw [addressedFields_top, List.filter_append, ih hc, List.filter_flatMap, funext hone,
      flatMap_ite_eq (nodup_matchingKeys h hkey)]
    cases hchild : Tree.child? t j with
    | none => simp
    | some c =>
      have hmem := Tree.mem_keys_of_child? hchild
      simp only [mem_matchingKeys h hkey, hmem, true_and, Option.elim_some, addressedAt,
        List.flatMap_cons]

theorem filter_eraseDups {β : Type} [BEq β] [LawfulBEq β] (p : β → Bool) :
    ∀ l : List β, l.eraseDups.filter p = (l.filter p).eraseDups
  | [] => rfl
  | b :: l => by
    have : (l.filter fun c => !c == b).length < l.length + 1 :=
      Nat.lt_succ_of_le (List.length_filter_le _ _)
    rw [List.eraseDups_cons, List.filter_cons, List.filter_cons,
      filter_eraseDups p (l.filter fun c => !c == b)]
    split
    · rw [List.eraseDups_cons, List.filter_filter, List.filter_filter]
      simp only [Bool.and_comm]
    · rename_i hp
      rw [List.filter_filter]
      refine congrArg List.eraseDups (List.filter_congr fun c _ => ?_)
      by_cases hc : c = b
      · subst hc
        simp [hp]
      · simp [hc]
termination_by l => l.length

/-- **Below a child is found what the child has by itself**, each path once. -/
theorem filter_deep {names : List String} {t : α} (h : Fits names t)
    {fields : List (String × Value)} (hc : ∀ e ∈ fields, Clear names e.1) (j : String) :
    (deep t (.obj fields)).filter (·.head == j) =
      ((Tree.child? t j).elim [] (addressedAt names fields j)).eraseDups := by
  rw [deep, filter_eraseDups, addressed, filter_addressedFields h hc]

end Addressed

end DeviceStats.Match
