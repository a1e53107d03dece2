import DeviceStats.Proofs.Match.Chains

/-!
# Proofs/Match/Removal — removal takes out what locations address, and nothing else

A removal takes nodes out one after the other (`Removals`), while keys are still to be matched: once
a name is gone, a key that was that name may stand for others as a pattern.  So it may take out more
than what was found at first, but only what the keys of a chain stand for by name or as patterns,
and nothing that was found at first is left (`removal`).

Soundness is carried by `Removes`, which every step has and which chains; completeness by what is
left at any time being a `Cut` of what there was.
-/

namespace DeviceStats

namespace Match

open Json (Value Object)

namespace Tree

variable {α : Type} [Tree α] [LawfulTree α] {t c : α} {key : String}

/-- Of two children set under one name the second stays. -/
theorem setChild_setChild (h : child? t key = some c) (c' d : α) :
    setChild (setChild t key c') key d = setChild t key d := by
  have hchildren : children (setChild t key c') = (children t).insert key c' := by
    rw [setChild, children_withChildren, if_pos (isBranch_of_child? h)]
  rw [setChild, hchildren, Named.insert_insert, setChild, LawfulTree.withChildren_withChildren,
    setChild]

theorem isBranch_setChild (t : α) (key : String) (c' : α) :
    isBranch (setChild t key c') = isBranch t := isBranch_withChildren t _

theorem isBranch_erase (t : α) (key : String) : isBranch (erase t key) = isBranch t :=
  isBranch_withChildren t _

/-- Nothing can be taken out of a leaf. -/
theorem erase_of_not_isBranch (h : isBranch t = false) (key : String) : erase t key = t := by
  have hself := LawfulTree.withChildren_children t
  rw [children_of_not_isBranch h] at hself
  rw [erase, children_of_not_isBranch h]
  exact hself

end Tree

variable {α : Type} [Tree α]

/-! ## Nodes taken out one after the other -/

/-- The same node, seen from one branch higher. -/
def Found.under (k : String) (f : Found) : Found := ⟨k :: f.path, f.key⟩

@[simp] theorem Found.full_under (k : String) (f : Found) : (f.under k).full = k :: f.full := rfl

/-- A tree without the node at the end of a path. -/
def eraseAt (r : Found) (t : α) : α := Tree.modifyAt (Tree.erase · r.key) r.path t

/-- What is taken out below a child is taken out of the child. -/
theorem eraseAt_under {t c : α} {k : String} (hc : Tree.child? t k = some c) (r : Found) :
    eraseAt (r.under k) t = Tree.setChild t k (eraseAt r c) := by
  rw [eraseAt, Found.under, Tree.modifyAt, hc, eraseAt]

/-- Nodes taken out of a tree one after the other, each of which is there when its turn comes. -/
inductive Removals : α → List Found → α → Prop
  | nil {t : α} : Removals t [] t
  | cons {t t' : α} {r : Found} {rs : List Found} (hr : (Tree.at? t r.full).isSome = true)
    (h : Removals (eraseAt r t) rs t') : Removals t (r :: rs) t'

section Removals

variable {t t' t'' c c' : α} {k : String} {rs rs' : List Found}

/-- Removals in two parts, one after the other. -/
theorem Removals.append (h : Removals t rs t') (h' : Removals t' rs' t'') :
    Removals t (rs ++ rs') t'' := by
  induction h with
  | nil => exact h'
  | cons hr _ ih => exact .cons hr (ih h')

/-- A child that is there can be taken out by itself. -/
theorem Removals.child (hc : Tree.child? t k = some c) : Removals t [⟨[], k⟩] (Tree.erase t k) := by
  refine .cons ?_ .nil
  rw [Found.full, List.nil_append, Tree.at?_singleton, hc]
  rfl

variable [LawfulTree α]

/-- What is taken out of a child is taken out of the tree. -/
theorem Removals.under (hc : Tree.child? t k = some c) (h : Removals c rs c') :
    Removals t (rs.map (Found.under k)) (Tree.setChild t k c') := by
  induction h generalizing t with
  | nil =>
    rw [Tree.setChild_self hc]
    exact .nil
  | @cons c c' r rs hr _ ih =>
    refine .cons ?_ ?_
    · rw [Found.full_under, Tree.at?_cons, hc]
      exact hr
    · have hchild : Tree.child? (Tree.setChild t k (eraseAt r c)) k = some (eraseAt r c) := by
        rw [Tree.child?_setChild hc, if_pos rfl]
      rw [eraseAt_under hc, ← Tree.setChild_setChild hc (eraseAt r c) c']
      exact ih hchild

/-! ## What is left -/

/-- Without one child a tree is a cut of itself, … -/
theorem Cut.erase (t : α) (key : String) : Cut t (Tree.erase t key) := by
  intro p x' hx'
  cases p with
  | nil =>
    obtain rfl := Option.some.inj hx'
    exact ⟨t, rfl, Tree.keys_erase_sublist t key, Tree.isBranch_erase t key,
      fun hb => Tree.erase_of_not_isBranch hb key⟩
  | cons k p =>
    refine ⟨x', ?_, .refl _, rfl, fun _ => rfl⟩
    rw [Tree.at?_cons, Tree.child?_erase] at hx'
    split at hx'
    · exact nomatch hx'
    · exact hx'

/-- … and so it is with a child that is cut. -/
theorem Cut.setChild (hc : Tree.child? t k = some c) (h : Cut c c') :
    Cut t (Tree.setChild t k c') := by
  intro p x' hx'
  cases p with
  | nil =>
    obtain rfl := Option.some.inj hx'
    refine ⟨t, rfl, Tree.keys_setChild hc c' ▸ .refl _, Tree.isBranch_setChild t k c', fun hb => ?_⟩
    exact absurd (Tree.isBranch_of_child? hc) (Bool.eq_false_iff.mp hb)
  | cons j p =>
    rw [Tree.at?_cons, Tree.child?_setChild hc] at hx'
    split at hx'
    · rename_i hj
      obtain ⟨x, hx, hrel⟩ := h p x' hx'
      refine ⟨x, ?_, hrel⟩
      rw [Tree.at?_cons, ← hj, hc]
      exact hx
    · exact ⟨x', hx', .refl _, rfl, fun _ => rfl⟩

/-- A tree without the node at the end of a path is a cut of it. -/
theorem cut_eraseAt (path : List String) (key : String) (t : α) :
    Cut t (eraseAt ⟨path, key⟩ t) := by
  induction path generalizing t with
  | nil => exact .erase t key
  | cons k path ih =>
    cases hc : Tree.child? t k with
    | none =>
      rw [eraseAt, Tree.modifyAt, hc]
      exact .refl t
    | some c => exact eraseAt_under hc ⟨path, key⟩ ▸ .setChild hc (ih c)

/-- Exactly the nodes whose paths begin with the path of the one taken out are gone. -/
theorem isSome_at?_eraseAt (path : List String) (key : String) (t : α) (p : List String) :
    (Tree.at? (eraseAt ⟨path, key⟩ t) p).isSome = true ↔
      (Tree.at? t p).isSome = true ∧ ¬ path ++ [key] <+: p := by
  induction path generalizing t p with
  | nil =>
    cases p with
    | nil => simp
    | cons j p =>
      rw [eraseAt, Tree.modifyAt, Tree.at?_cons, Tree.child?_erase, Tree.at?_cons]
      by_cases hj : key = j
      · simp [hj]
      · simp [hj]
  | cons k path ih =>
    cases hc : Tree.child? t k with
    | none =>
      rw [eraseAt, Tree.modifyAt, hc]
      refine (and_iff_left_of_imp fun hp hprefix => ?_).symm
      obtain ⟨q, rfl⟩ := hprefix
      simp [Tree.at?_cons, hc] at hp
    | some c =>
      rw [show eraseAt ⟨k :: path, key⟩ t = _ from eraseAt_under hc ⟨path, key⟩]
      cases p with
      | nil => simp
      | cons j p =>
        rw [Tree.at?_cons, Tree.child?_setChild hc, Tree.at?_cons]
        by_cases hj : k = j
        · subst hj
          simpa [hc] using ih c p
        · simp [hj]

/-- Any removals leave a cut. -/
theorem Removals.cut (h : Removals t rs t') : Cut t t' := by
  induction h with
  | nil => exact .refl _
  | cons _ _ ih => exact (cut_eraseAt _ _ _).trans ih

/-- **What is left is what is at or below no node that was taken out.** -/
theorem Removals.isSome_at? (h : Removals t rs t') (p : List String) :
    (Tree.at? t' p).isSome = true ↔ (Tree.at? t p).isSome = true ∧ ∀ r ∈ rs, ¬ r.full <+: p := by
  induction h with
  | nil => simp
  | cons _ _ ih =>
    rw [ih, isSome_at?_eraseAt, List.forall_mem_cons, and_assoc]
    rfl

omit [LawfulTree α] in
/-- What was not there is not there in a cut. -/
theorem Cut.at?_eq_none (h : Cut t t') {p : List String} (hp : Tree.at? t p = none) :
    Tree.at? t' p = none := by
  cases hp' : Tree.at? t' p with
  | none => rfl
  | some x' =>
    obtain ⟨x, hx, -⟩ := h p x' hp'
    exact nomatch hp.symm.trans hx

omit [LawfulTree α] in
/-- Where a cut still has a child, that child is cut. -/
theorem Cut.child (h : Cut t t') (hc : Tree.child? t k = some c)
    (hc' : Tree.child? t' k = some c') : Cut c c' := by
  intro p x' hx'
  obtain ⟨x, hx, hrel⟩ := h (k :: p) x' (by rw [Tree.at?_cons, hc']; exact hx')
  rw [Tree.at?_cons, hc] at hx
  exact ⟨x, hx, hrel⟩

omit [LawfulTree α] in
theorem Cut.keys_subset (h : Cut t t') : Tree.keys t' ⊆ Tree.keys t := by
  obtain ⟨x, hx, hsub, -⟩ := h [] t' rfl
  obtain rfl := Option.some.inj hx
  exact hsub.subset

end Removals

/-! ## Steps of a removal -/

/-- A change of a tree that takes out only such nodes, and counts them. -/
def Removes (P : Found → Prop) (s s' : Nat × α) : Prop :=
  ∃ rs, s'.1 = s.1 + rs.length ∧ Removals s.2 rs s'.2 ∧ ∀ r ∈ rs, P r

section Removes

variable {P Q : Found → Prop} {s s' s'' : Nat × α} {k : String}

theorem Removes.refl (P : Found → Prop) (s : Nat × α) : Removes P s s :=
  ⟨[], rfl, .nil, fun _ h => nomatch h⟩

theorem Removes.trans (h : Removes P s s') (h' : Removes P s' s'') : Removes P s s'' := by
  obtain ⟨rs, hn, hrs, hP⟩ := h
  obtain ⟨rs', hn', hrs', hP'⟩ := h'
  refine ⟨rs ++ rs', ?_, hrs.append hrs', fun r hr => (List.mem_append.mp hr).elim (hP r) (hP' r)⟩
  rw [hn', hn, List.length_append, Nat.add_assoc]

/-- Fewer nodes may be taken out than are allowed to. -/
theorem Removes.mono (h : Removes P s s') (hPQ : ∀ r, P r → Q r) : Removes Q s s' := by
  obtain ⟨rs, hn, hrs, hP⟩ := h
  exact ⟨rs, hn, hrs, fun r hr => hPQ r (hP r hr)⟩

/-- Steps that each take out only such nodes do so in a row. -/
theorem Removes.foldl {f : Nat × α → String → Nat × α} {ks : List String}
    (h : ∀ k ∈ ks, ∀ s, Removes P s (f s k)) (s : Nat × α) : Removes P s (ks.foldl f s) := by
  induction ks generalizing s with
  | nil => exact .refl P s
  | cons k ks ih =>
    obtain ⟨hk, h⟩ := List.forall_mem_cons.mp h
    exact (hk s).trans (ih h (f s k))

/-- A child is taken out if it is there and consent is given, and counts once. -/
theorem removes_removeChild {consent : Consent α Id}
    (h : ∀ c, (consent k c).run = true → P ⟨[], k⟩) (s : Nat × α) :
    Removes P s (removeChild consent s k).run := by
  rw [removeChild]
  cases hc : Tree.child? s.2 k with
  | none => exact .refl P s
  | some c =>
    change Removes P s (if (consent k c).run then (s.1 + 1, Tree.erase s.2 k) else s)
    split
    · rename_i hconsent
      exact ⟨[⟨[], k⟩], rfl, .child hc, List.forall_mem_singleton.mpr (h c hconsent)⟩
    · exact .refl P s

variable [LawfulTree α]

/-- What is taken out below a child counts for the tree. -/
theorem removes_enterChild {next : α → Id (Nat × α)}
    (h : ∀ c, Removes (fun r => P (r.under k)) (0, c) (next c).run) (s : Nat × α) :
    Removes P s (enterChild next s k).run := by
  rw [enterChild]
  cases hc : Tree.child? s.2 k with
  | none => exact .refl P s
  | some c =>
    change Removes P s (if Tree.isBranch c then
      (s.1 + (next c).run.1, Tree.setChild s.2 k (next c).run.2) else s)
    split
    · obtain ⟨rs, hn, hrs, hP⟩ := h c
      refine ⟨rs.map (Found.under k), ?_, hrs.under hc, List.forall_mem_map.mpr hP⟩
      rw [List.length_map, hn, Nat.zero_add]
    · exact .refl P s

theorem Removes.cut (h : Removes P s s') : Cut s.2 s'.2 := by
  obtain ⟨rs, -, hrs, -⟩ := h
  exact hrs.cut

end Removes

/-! ## What a removal takes out -/

/-- Consent that depends on the key alone. -/
def Consent.byKey (allowed : String → Bool) : Consent α Id := fun k _ => pure (allowed k)

/-- A key is a name or matches it as a pattern. -/
def Means (key k : String) : Prop := k = key ∨ (Pattern.ofString key).isMatch k = true

/-- A node that may be taken out and whose path is what a chain of keys means. -/
def Meant (allowed : String → Bool) (locations : Value) (r : Found) : Prop :=
  allowed r.key = true ∧ ∃ keys, Chain locations keys ∧ List.Forall₂ Means keys r.full

/-- What one field of locations does to a child that it stands for. -/
def removeStep (consent : Consent α Id) (v : Value) (s : Nat × α) (k : String) : Nat × α :=
  match v with
  | .obj sub => (enterChild (fun c => removeFields consent sub (0, c)) s k).run
  | _ => (removeChild consent s k).run

section Removing

variable {t t₀ : α} {allowed : String → Bool} {consent : Consent α Id} {v : Value}
  {fields : List (String × Value)} {key k : String} {q : List String}

/-- A key stands only for names that it means: itself, or what it matches. -/
theorem means_of_mem_matchingKeys (h : k ∈ matchingKeys t key) : Means key k := by
  unfold matchingKeys at h
  split at h
  · exact .inl (List.mem_singleton.mp h)
  · exact .inr (List.mem_filter.mp h).2

/-- The fields of locations are gone through in order, each on what the one before it has left. -/
theorem run_removeFields_cons (s : Nat × α) : (removeFields consent ((key, v) :: fields) s).run =
    (removeFields consent fields ((matchingKeys s.2 key).foldl (removeStep consent v) s)).run := by
  cases v with
  | obj sub =>
    rw [removeFields]
    exact congrArg (fun s => (removeFields consent fields s).run) (foldlM_id _ _ s)
  | _ =>
    rw [removeFields]
    · exact congrArg (fun s => (removeFields consent fields s).run) (foldlM_id _ _ s)
    · simp

/-- A chain through some fields is one through more of them. -/
theorem Meant.cons {r : Found} (e : String × Value) (h : Meant allowed (.obj fields) r) :
    Meant allowed (.obj (e :: fields)) r := by
  obtain ⟨hallowed, keys, hchain, hmeans⟩ := h
  cases hchain with
  | ends hend => exact absurd rfl (hend fields)
  | deeper he hchain =>
    exact ⟨hallowed, _, .deeper (List.mem_cons_of_mem e he) hchain, hmeans⟩

variable [LawfulTree α]

/-- One field of locations takes out, in one child, only what a chain through it means. -/
theorem removes_removeStep
    (h : ∀ sub, v = .obj sub → ∀ s : Nat × α, Removes (Meant allowed v) s
      (removeFields (.byKey allowed) sub s).run)
    (he : (key, v) ∈ fields) (hk : Means key k) (s : Nat × α) :
    Removes (Meant allowed (.obj fields)) s (removeStep (.byKey allowed) v s k) := by
  cases v with
  | obj sub =>
    refine removes_enterChild (fun c => (h sub rfl (0, c)).mono fun r hr => ?_) s
    obtain ⟨hallowed, keys, hchain, hmeans⟩ := hr
    exact ⟨hallowed, key :: keys, .deeper he hchain, .cons hk hmeans⟩
  | _ =>
    refine removes_removeChild (fun c hallowed => ⟨hallowed, [key], .deeper he (.ends ?_), ?_⟩) s
    · simp
    · exact .cons hk .nil

/-- **A removal takes out only what is meant.** -/
theorem removes_removeFields : ∀ (fields : List (String × Value)) (s : Nat × α),
    Removes (Meant allowed (.obj fields)) s (removeFields (.byKey allowed) fields s).run
  | [], s => by
    rw [removeFields]
    exact .refl _ s
  | (key, v) :: rest, s => by
    rw [run_removeFields_cons]
    refine (Removes.foldl (fun k hk s => ?_) s).trans
      ((removes_removeFields rest _).mono fun _ hr => hr.cons (key, v))
    refine removes_removeStep (fun sub hsub s => ?_) List.mem_cons_self
      (means_of_mem_matchingKeys hk) s
    subst hsub
    exact removes_removeFields sub s

/-! ## What a removal does not leave -/

/-- What is left after any fields is a cut of what there was, … -/
theorem cut_removeFields (fields : List (String × Value)) (s : Nat × α) :
    Cut s.2 (removeFields (.byKey allowed) fields s).run.2 :=
  (removes_removeFields fields s).cut

/-- … after one of them in one child, … -/
theorem cut_removeStep (v : Value) (s : Nat × α) (k : String) :
    Cut s.2 (removeStep (.byKey allowed) v s k).2 := by
  have he : (k, v) ∈ [(k, v)] := List.mem_singleton_self _
  have hremoves : Removes (Meant allowed (.obj [(k, v)])) s (removeStep (.byKey allowed) v s k) :=
    removes_removeStep (fun sub hsub s => hsub ▸ removes_removeFields sub s) he (.inl rfl) s
  exact hremoves.cut

/-- … and after one of them in any of its children. -/
theorem cut_foldl_removeStep (v : Value) (ks : List String) (s : Nat × α) :
    Cut s.2 (ks.foldl (removeStep (.byKey allowed) v) s).2 := by
  induction ks generalizing s with
  | nil => exact .refl s.2
  | cons k ks ih => exact (cut_removeStep v s k).trans (ih _)

/-- What a step takes out is out when all steps are done. -/
theorem at?_foldl_removeStep {ks : List String} (hk : k ∈ ks) {s : Nat × α}
    (h : ∀ s' : Nat × α, Cut s.2 s'.2 → Tree.at? (removeStep (.byKey allowed) v s' k).2 q = none) :
    Tree.at? (ks.foldl (removeStep (.byKey allowed) v) s).2 q = none := by
  obtain ⟨ks, ks', rfl⟩ := List.append_of_mem hk
  rw [List.foldl_append, List.foldl_cons]
  exact (cut_foldl_removeStep v ks' _).at?_eq_none (h _ (cut_foldl_removeStep v ks s))

/-- A key that ends locations takes out what it stands for. -/
theorem at?_removeStep_ends (hend : ∀ sub, v ≠ .obj sub) (hk : allowed k = true) (s : Nat × α) :
    Tree.at? (removeStep (.byKey allowed) v s k).2 [k] = none := by
  have hremove : Tree.at? (removeChild (.byKey allowed) s k).run.2 [k] = none := by
    rw [Tree.at?_singleton, removeChild]
    cases hc : Tree.child? s.2 k with
    | none => exact hc
    | some c =>
      change Tree.child? (if allowed k then (s.1 + 1, Tree.erase s.2 k) else s).2 k = none
      rw [if_pos hk, Tree.child?_erase, if_pos rfl]
  cases v with
  | obj sub => exact absurd rfl (hend sub)
  | _ => exact hremove

/-- A key that leads deeper takes out what the locations below it take out of the child. -/
theorem at?_removeStep_deeper {sub : List (String × Value)} {s : Nat × α}
    (h : ∀ c, Tree.child? s.2 k = some c →
      Tree.at? (removeFields (.byKey allowed) sub (0, c)).run.2 q = none) (hq : q ≠ []) :
    Tree.at? (removeStep (.byKey allowed) (.obj sub) s k).2 (k :: q) = none := by
  rw [removeStep, enterChild, Tree.at?_cons]
  cases hc : Tree.child? s.2 k with
  | none =>
    change (Tree.child? s.2 k).bind _ = none
    rw [hc, Option.bind_none]
  | some c =>
    change (Tree.child? (if Tree.isBranch c then (s.1 + _, Tree.setChild s.2 k
      (removeFields (.byKey allowed) sub (0, c)).run.2) else s).2 k).bind _ = none
    split
    · rw [Tree.child?_setChild hc, if_pos rfl]
      exact h c hc
    · rename_i hb
      obtain ⟨j, q, rfl⟩ := List.exists_cons_of_ne_nil hq
      rw [hc, Option.bind_some, Tree.at?_cons]
      cases hd : Tree.child? c j with
      | none => rfl
      | some d => exact absurd (Tree.isBranch_of_child? hd) hb

/-- **What locations lead to at first is not left**, whatever was taken out before. -/
theorem at?_removeFields : ∀ (fields : List (String × Value)) {t₀ : α} {q : List String}
    (s : Nat × α), Cut t₀ s.2 → Leads t₀ fields q → (∀ k, q.getLast? = some k → allowed k = true) →
      Tree.at? (removeFields (.byKey allowed) fields s).run.2 q = none
  | [], t₀, q, s, _, hleads, _ => by
    obtain ⟨he, -, -⟩ | ⟨he, -, -, -, -⟩ := hleads <;> exact nomatch he
  | (key, v) :: rest, t₀, q, s, hcut, hleads, hlast => by
    rw [run_removeFields_cons]
    obtain ⟨k, hk, hfirst⟩ | hleads := leads_cons_iff.mp hleads
    · refine (cut_removeFields rest _).at?_eq_none ?_
      by_cases hin : k ∈ Tree.keys s.2
      · have hstands := (mem_matchingKeys_iff.mp hk).2
        have hks : k ∈ matchingKeys s.2 key :=
          mem_matchingKeys_iff.mpr ⟨hin, stands_of_subset hcut.keys_subset hin hstands⟩
        refine at?_foldl_removeStep hks fun s' hcut' => ?_
        obtain ⟨hend, rfl⟩ | ⟨sub, c, q', rfl, hc, hq', rfl⟩ := hfirst
        · exact at?_removeStep_ends hend (hlast k rfl) s'
        · obtain ⟨j, q', d, rfl, -⟩ := hq'.exists_cons
          refine at?_removeStep_deeper (fun c' hc' => ?_) (List.cons_ne_nil j q')
          exact at?_removeFields sub (0, c') ((hcut.trans hcut').child hc hc') hq' hlast
      · refine (cut_foldl_removeStep v _ s).at?_eq_none ?_
        have hnone : Tree.child? s.2 k = none := Named.get?_eq_none_iff.mpr hin
        obtain ⟨-, rfl⟩ | ⟨-, -, q', -, -, -, rfl⟩ := hfirst <;>
          rw [Tree.at?_cons, hnone, Option.bind_none]
    · exact at?_removeFields rest _ (hcut.trans (cut_foldl_removeStep v _ s)) hleads hlast

end Removing

/-- **Removal takes out everything addressed and nothing unaddressed.**  What is taken out is there
when its turn comes, and counted; its path is what a chain of keys means, each as a name or as a
pattern.  Exactly what is at or below it is gone.  Nothing is left of what was found at first and
may be taken out, and what is left is as it was and in the order it was in. -/
theorem removal (allowed : String → Bool) (locations data : Value) :
    let result := (remove (.byKey allowed) locations data).run
    ∃ removed : List Found, result.1 = removed.length ∧ Removals data removed result.2 ∧
      (∀ r ∈ removed, allowed r.key = true ∧
        ∃ keys, Chain locations keys ∧ List.Forall₂ Means keys r.full) ∧
      (∀ p, (Tree.at? result.2 p).isSome = true ↔
        (Tree.at? data p).isSome = true ∧ ∀ r ∈ removed, ¬ r.full <+: p) ∧
      (∀ f ∈ deep data locations, allowed f.key = true → Tree.at? result.2 f.full = none) ∧
      Cut data result.2 := by
  intro result
  have hremoves : Removes (Meant allowed locations) (0, data) result := by
    cases locations with
    | obj fields => exact removes_removeFields fields (0, data)
    | _ => exact .refl _ _
  obtain ⟨removed, hcount, hremovals, hmeant⟩ := hremoves
  refine ⟨removed, hcount.trans (Nat.zero_add _), hremovals, hmeant, hremovals.isSome_at?,
    fun f hf hallowed => ?_, hremovals.cut⟩
  cases locations with
  | obj fields =>
    refine at?_removeFields fields (0, data) (.refl data) (mem_deep_iff.mp hf) fun k hk => ?_
    rw [Found.full, List.getLast?_concat] at hk
    exact Option.some.inj hk ▸ hallowed
  | _ =>
    rw [deep_eq_nil data (by simp)] at hf
    exact absurd hf List.not_mem_nil

/-- The second key stands for one name only, until the first has taken it out: then it is a pattern
and stands for another. -/
theorem removal_of_two :
    let locations : Value := .obj [("^vs$", .bool true), ("vs", .bool true)]
    let data : Value := .obj [("vs", .int 1), ("vs1", .obj [("x", .int 2)]), ("host", .int 3)]
    let result := (remove (.byKey fun _ => true) locations data).run
    deep data locations = [⟨[], "vs"⟩] ∧ Tree.keys result.2 = ["host"] ∧
      Tree.at? result.2 ["vs"] = none ∧ ∃ removed : List Found, removed.length = 2 ∧
        ∀ r ∈ removed, ∃ keys, Chain locations keys ∧ List.Forall₂ Means keys r.full := by
  intro locations data result
  have hfound : deep data locations = [⟨[], "vs"⟩] := by decide +kernel
  have htwo : result.1 = 2 := by decide +kernel
  have hleft : Tree.keys result.2 = ["host"] := by decide +kernel
  obtain ⟨removed, hcount, -, hmeant, -, hgone, -⟩ := removal (fun _ => true) locations data
  refine ⟨hfound, hleft, ?_, removed, hcount.symm.trans htwo, fun r hr => (hmeant r hr).2⟩
  exact hgone ⟨[], "vs"⟩ (hfound ▸ List.mem_singleton_self _) rfl

end Match

end DeviceStats
