import DeviceStats.Match.Prune
import DeviceStats.Match.Walk
import DeviceStats.Proofs.Match.Paths

/-!
# Proofs/Match/Pointwise — removal, retention and walks sift the children

With clear keys, what locations do to a child depends on its name and on itself alone: every
traversal of a tree is a sifting of its children (`snd_removeFields`, `preserve_eq_sift`,
`walkFields_eq_sift`).
-/

namespace DeviceStats.Match

open Json (Value)

variable {α : Type} [Tree α] {names : List String}

/-! ## One child through all locations -/

/-- What one field of locations makes of a child that it stands for. -/
def removeOne (consent : Consent α Id) (sub : Value) (k : String) (c : α) : Option α :=
  match sub with
  | .obj sub =>
    some (if Tree.isBranch c then (removeFields consent sub ((0 : Nat), c) : Id _).2 else c)
  | _ => if (consent k c).run then none else some c

/-- What removal makes of a child. -/
def removeAt (names : List String) (consent : Consent α Id) (fields : List (String × Value))
    (k : String) (c : α) : Option α :=
  fields.foldlM (fun c e => if stands names e.1 k then removeOne consent e.2 k c else some c) c

theorem removeAt_cons (consent : Consent α Id) (e : String × Value) (fields : List (String × Value))
    (k : String) (c : α) : removeAt names consent (e :: fields) k c =
      (if stands names e.1 k then removeOne consent e.2 k c else some c).bind
        (removeAt names consent fields k) := rfl

/-- Whether one field of locations retains a child that it stands for, and what is left of it. -/
def retainOne (strict : Bool) (consent : Consent α Id) (sub : Value) (c : α) : Bool × α :=
  match sub with
  | .obj sub =>
    if Tree.isBranch c then
      let kept : List String × α := (retainFields strict consent sub ([], c) : Id _)
      (!kept.1.isEmpty || !strict, (pruneOthers consent kept.1 kept.2 : Id α))
    else (!strict, c)
  | _ => (true, c)

/-- Whether a child is retained, and what is left of it. -/
def retainAt (names : List String) (strict : Bool) (consent : Consent α Id)
    (fields : List (String × Value)) (k : String) (s : Bool × α) : Bool × α :=
  fields.foldl (fun s e =>
    if stands names e.1 k then
      let r := retainOne strict consent e.2 s.2
      (s.1 || r.1, r.2)
    else s) s

theorem retainAt_cons (strict : Bool) (consent : Consent α Id) (e : String × Value)
    (fields : List (String × Value)) (k : String) (s : Bool × α) :
    retainAt names strict consent (e :: fields) k s = retainAt names strict consent fields k
      (if stands names e.1 k then
        (s.1 || (retainOne strict consent e.2 s.2).1, (retainOne strict consent e.2 s.2).2)
      else s) := rfl

/-- A child that is neither retained nor allowed to be taken out stays. -/
def settleAt (consent : Consent α Id) (k : String) (s : Bool × α) : Option α :=
  if s.1 then some s.2 else if (consent k s.2).run then none else some s.2

/-- What one field of locations makes of a child that a walk visits. -/
def enter (f : α → α) (sub : Value) (c : α) : α :=
  match sub with
  | .obj sub =>
    if Tree.isBranch c then (walkFields (m := Id) (fun _ c => (f c, none)) sub c : Id α) else c
  | _ => c

/-- What a walk makes of a child. -/
def walkAt (names : List String) (f : α → α) (fields : List (String × Value)) (k : String)
    (c : α) : α :=
  fields.foldl (fun c e => if stands names e.1 k then enter f e.2 (f c) else c) c

/-! ## Folds over what a key stands for -/

theorem foldlM_id {β γ : Type} (f : β → γ → Id β) (l : List γ) (b : β) :
    (l.foldlM f b).run = l.foldl (fun b c => (f b c).run) b := by
  induction l generalizing b with
  | nil => rfl
  | cons c l ih => exact ih (f b c)

theorem snd_foldl {β γ δ : Type} {f : β × γ → δ → β × γ} {g : γ → δ → γ}
    (h : ∀ s d, (f s d).2 = g s.2 d) (l : List δ) (s : β × γ) :
    (l.foldl f s).2 = l.foldl g s.2 := by
  induction l generalizing s with
  | nil => rfl
  | cons d l ih => rw [List.foldl_cons, ih, h, List.foldl_cons]

variable [LawfulTree α] {t : α} {consent : Consent α Id} {fields : List (String × Value)}

theorem Tree.setChild_self {key : String} {c : α} (h : Tree.child? t key = some c) :
    Tree.setChild t key c = t := by
  rw [Tree.setChild, Named.insert_self h, LawfulTree.withChildren_children]

/-! ## Removing -/

theorem snd_removeChild (s : Nat × α) (key : String) :
    (removeChild consent s key).run.2 =
      Tree.update (fun k c => if (consent k c).run then none else some c) s.2 key := by
  rw [removeChild, Tree.update]
  cases hc : Tree.child? s.2 key with
  | none => rfl
  | some c =>
    change (if (consent key c).run then (s.1 + 1, Tree.erase s.2 key) else s).2 = _
    by_cases h : (consent key c).run
    · simp [h]
    · simp [h, Tree.setChild_self hc]

theorem snd_enterChild (next : α → Id (Nat × α)) (s : Nat × α) (key : String) :
    (enterChild next s key).run.2 =
      Tree.update (fun _ c => some (if Tree.isBranch c then (next c).run.2 else c)) s.2 key := by
  rw [enterChild, Tree.update]
  cases hc : Tree.child? s.2 key with
  | none => rfl
  | some c =>
    change (if Tree.isBranch c then
      (s.1 + (next c).run.1, Tree.setChild s.2 key (next c).run.2) else s).2 = _
    by_cases h : Tree.isBranch c
    · simp [h]
    · simp [h, Tree.setChild_self hc]

variable (consent fields) in
/-- One field of locations, then the others. -/
theorem removeFields_cons (key : String) (sub : Value) (s : Nat × α) :
    ∃ s', (removeFields consent ((key, sub) :: fields) s).run =
        (removeFields consent fields s').run ∧
      s'.2 = (matchingKeys s.2 key).foldl
        (Tree.update fun k c => removeOne consent sub k c) s.2 := by
  cases sub with
  | obj sub =>
    refine ⟨((matchingKeys s.2 key).foldlM
      (enterChild fun c => removeFields consent sub (0, c)) s : Id _).run, ?_, ?_⟩
    · rw [removeFields]
      rfl
    · rw [foldlM_id]
      exact snd_foldl (fun s k => snd_enterChild _ s k) _ s
  | _ =>
    refine ⟨((matchingKeys s.2 key).foldlM (removeChild consent) s : Id _).run, ?_, ?_⟩
    · rw [removeFields]
      · rfl
      · simp
    · rw [foldlM_id]
      exact snd_foldl (fun s k => snd_removeChild s k) _ s

/-- **Removal sifts the children.** -/
theorem snd_removeFields (h : Fits names t) (hc : ∀ e ∈ fields, Clear names e.1) (n : Nat) :
    (removeFields consent fields (n, t)).run.2 =
      Tree.sift (removeAt names consent fields) t := by
  induction fields generalizing n t with
  | nil =>
    rw [removeFields]
    exact (Tree.sift_some t).symm
  | cons e fields ih =>
    obtain ⟨key, sub⟩ := e
    obtain ⟨hkey, hc⟩ := List.forall_mem_cons.mp hc
    obtain ⟨s', hs, ht⟩ := removeFields_cons consent fields key sub (n, t)
    rw [foldl_update_matchingKeys h hkey] at ht
    rw [hs, ih (t := s'.2) (ht ▸ h.sift _) hc s'.1, ht, Tree.sift_sift]
    rfl

/-! ## Retaining -/

/-- Changes a child, and retains its key if asked to. -/
def retainStep (r : α → Bool × α) (s : List String × α) (k : String) : List String × α :=
  match Tree.child? s.2 k with
  | none => s
  | some c => (addKey s.1 k (r c).1, Tree.setChild s.2 k (r c).2)

theorem mem_addKey {retained : List String} {key k : String} {keep : Bool} :
    k ∈ addKey retained key keep ↔ k ∈ retained ∨ keep = true ∧ k = key := by
  unfold addKey
  split
  · rename_i h
    have hkeep : keep = true := by simp_all
    simp [hkeep]
  · rename_i h
    refine ⟨.inl, fun hk => hk.elim id fun ⟨hkeep, heq⟩ => ?_⟩
    subst heq
    simpa [hkeep] using h

omit [LawfulTree α] in
theorem snd_retainStep (r : α → Bool × α) (s : List String × α) (k : String) :
    (retainStep r s k).2 = Tree.update (fun _ c => some (r c).2) s.2 k := by
  rw [retainStep, Tree.update]
  cases Tree.child? s.2 k <;> rfl

omit [LawfulTree α] in
theorem mem_retainStep {r : α → Bool × α} {s : List String × α} {key k : String} :
    k ∈ (retainStep r s key).1 ↔
      k ∈ s.1 ∨ k = key ∧ ∃ c, Tree.child? s.2 k = some c ∧ (r c).1 = true := by
  rw [retainStep]
  split
  · rename_i h
    refine ⟨.inl, fun hk => hk.elim id ?_⟩
    rintro ⟨rfl, c, hc, -⟩
    simp [h] at hc
  · rename_i c h
    rw [mem_addKey]
    refine or_congr_right ⟨fun ⟨hr, hk⟩ => ⟨hk, c, hk ▸ h, hr⟩, ?_⟩
    rintro ⟨rfl, c', hc', hr⟩
    exact ⟨Option.some.inj (h.symm.trans hc') ▸ hr, rfl⟩

/-- Several children changed, and their keys retained. -/
theorem mem_foldl_retainStep (r : α → Bool × α) {ks : List String} (hks : ks.Nodup)
    {s : List String × α} (hn : (Tree.keys s.2).Nodup) {k : String} :
    k ∈ (ks.foldl (retainStep r) s).1 ↔
      k ∈ s.1 ∨ k ∈ ks ∧ ∃ c, Tree.child? s.2 k = some c ∧ (r c).1 = true := by
  induction ks generalizing s with
  | nil => simp
  | cons key ks ih =>
    obtain ⟨hkey, hks⟩ := List.nodup_cons.mp hks
    have hsnd := snd_retainStep r s key
    rw [Tree.update_eq_sift hn] at hsnd
    rw [List.foldl_cons, ih hks (hsnd ▸ Tree.nodup_keys_sift hn _), mem_retainStep, hsnd,
      Tree.child?_sift hn, List.mem_cons]
    by_cases hk : k = key
    · subst hk
      simp [hkey]
    · cases Tree.child? s.2 k <;> simp [hk]

/-- Retaining keys as they are. -/
theorem foldl_retainStep_of_forall {ks : List String} {s : List String × α}
    (h : ∀ k ∈ ks, ∃ c, Tree.child? s.2 k = some c) :
    ks.foldl (retainStep fun c => (true, c)) s =
      (ks.foldl (fun r k => addKey r k true) s.1, s.2) := by
  induction ks generalizing s with
  | nil => rfl
  | cons key ks ih =>
    obtain ⟨⟨c, hc⟩, h⟩ := List.forall_mem_cons.mp h
    have hstep : retainStep (fun c => (true, c)) s key = (addKey s.1 key true, s.2) := by
      rw [retainStep, hc]
      exact congrArg (addKey s.1 key true, ·) (Tree.setChild_self hc)
    rw [List.foldl_cons, hstep, ih (s := (addKey s.1 key true, s.2)) h, List.foldl_cons]

/-- One field of locations, then the others. -/
theorem retainFields_cons (strict : Bool) (key : String) (sub : Value) (s : List String × α) :
    (retainFields strict consent ((key, sub) :: fields) s).run =
      (retainFields strict consent fields
        ((matchingKeys s.2 key).foldl (retainStep (retainOne strict consent sub)) s)).run := by
  cases sub with
  | obj sub =>
    rw [retainFields]
    refine congrArg (fun s => (retainFields strict consent fields s).run)
      ((foldlM_id _ _ s).trans (congrArg (List.foldl · s _) (funext₂ fun s k => ?_)))
    obtain ⟨retained, t⟩ := s
    simp only [retainStep]
    cases hc : Tree.child? t k with
    | none => rfl
    | some c =>
      cases hb : Tree.isBranch c with
      | true =>
        simp only [retainOne, hb, if_true]
        rfl
      | false =>
        simp only [retainOne, hb, Bool.false_eq_true, if_false, Tree.setChild_self hc]
        rfl
  | _ =>
    rw [retainFields]
    · exact congrArg (fun s => (retainFields strict consent fields s).run)
        (foldl_retainStep_of_forall fun k hk => exists_child?_of_mem_matchingKeys hk).symm
    · simp

/-- What a key stands for, sifted. -/
theorem snd_foldl_retainStep (r : α → Bool × α) {s : List String × α}
    (hn : (Tree.keys s.2).Nodup) {key : String} (hkey : Reads names s.2 key) :
    ((matchingKeys s.2 key).foldl (retainStep r) s).2 =
      Tree.sift (fun k c => some (if stands names key k then (r c).2 else c)) s.2 := by
  rw [snd_foldl (snd_retainStep r), hkey.foldl_update hn]
  refine Tree.sift_congr fun kv _ => ?_
  split <;> rfl

/-- What a key stands for, retained. -/
theorem contains_foldl_retainStep (r : α → Bool × α) {s : List String × α}
    (hn : (Tree.keys s.2).Nodup) {key : String} (hkey : Reads names s.2 key) {k : String} {c : α}
    (hk : Tree.child? s.2 k = some c) :
    ((matchingKeys s.2 key).foldl (retainStep r) s).1.contains k =
      (s.1.contains k || (stands names key k && (r c).1)) := by
  have hkeys : k ∈ Tree.keys s.2 := Tree.mem_keys_of_child? hk
  rw [Bool.eq_iff_iff, List.contains_iff_mem, mem_foldl_retainStep r (hkey.nodup hn) hn]
  simp [hk, hkey.mem_iff, hkeys]

/-- What the first field and the others make of a child. -/
theorem retainAt_cons_contains (strict : Bool) (consent : Consent α Id) (sub : Value)
    {s : List String × α} (hn : (Tree.keys s.2).Nodup) {key : String}
    (hkey : Reads names s.2 key) {k : String} {c : α} (hk : Tree.child? s.2 k = some c) :
    retainAt names strict consent ((key, sub) :: fields) k (s.1.contains k, c) =
      retainAt names strict consent fields k
        (((matchingKeys s.2 key).foldl (retainStep (retainOne strict consent sub)) s).1.contains k,
          if stands names key k then (retainOne strict consent sub c).2 else c) := by
  rw [retainAt_cons, contains_foldl_retainStep _ hn hkey hk]
  cases stands names key k <;> simp

/-- **Retention keeps or drops, and sifts, each child by itself.** -/
theorem retainFields_spec (strict : Bool) (consent : Consent α Id) {s : List String × α}
    (hn : (Tree.keys s.2).Nodup) (hc : ∀ e ∈ fields, Reads names s.2 e.1) :
    (retainFields strict consent fields s).run.2 = Tree.sift
        (fun k c => some (retainAt names strict consent fields k (s.1.contains k, c)).2) s.2 ∧
      ∀ k, k ∈ (retainFields strict consent fields s).run.1 ↔
        match Tree.child? s.2 k with
        | some c => (retainAt names strict consent fields k (s.1.contains k, c)).1 = true
        | none => k ∈ s.1 := by
  induction fields generalizing s with
  | nil =>
    rw [retainFields]
    refine ⟨(Tree.sift_some s.2).symm, fun k => ?_⟩
    cases Tree.child? s.2 k with
    | none => rfl
    | some c => exact List.contains_iff_mem.symm
  | cons e fields ih =>
    obtain ⟨key, sub⟩ := e
    obtain ⟨hkey, hc⟩ := List.forall_mem_cons.mp hc
    have hsnd := snd_foldl_retainStep (retainOne strict consent sub) hn hkey
    have hkeys := Tree.keys_sift_some (fun k c => if stands names key k then
      (retainOne strict consent sub c).2 else c) s.2
    rw [← hsnd] at hkeys
    have hmem (k : String) := mem_foldl_retainStep (k := k) (retainOne strict consent sub)
      (hkey.nodup hn) hn
    obtain ⟨htree, hflags⟩ := ih (hkeys ▸ hn) fun e he => (hc e he).congr hkeys
    rw [retainFields_cons, htree, hsnd, Tree.sift_sift]
    refine ⟨Tree.sift_congr fun kv hkv => ?_, fun k => ?_⟩
    · have hchild : Tree.child? s.2 kv.1 = some kv.2 := (Named.get?_eq_some_iff hn).mpr hkv
      rw [retainAt_cons_contains strict consent sub hn hkey hchild]
      rfl
    · rw [hflags, hsnd, Tree.child?_sift hn]
      cases hk : Tree.child? s.2 k with
      | none => simp [hmem, hk]
      | some c =>
        simp only [Option.bind_some, retainAt_cons_contains strict consent sub hn hkey hk]

/-- What is not retained is taken out child by child. -/
theorem pruneOthers_eq_foldl (retained : List String) (t : α) :
    (pruneOthers consent retained t).run = (Tree.keys t).foldl (Tree.update fun k c =>
      if retained.contains k then some c else if (consent k c).run then none else some c) t := by
  rw [pruneOthers, foldlM_id]
  refine congrArg (List.foldl · t _) (funext₂ fun t key => ?_)
  rw [Tree.update]
  cases hc : Tree.child? t key with
  | none => simp
  | some c =>
    by_cases hr : retained.contains key = true
    · simp only [hr, if_true]
      exact (Tree.setChild_self hc).symm
    · simp only [if_neg hr]
      change (if (consent key c).run then Tree.erase t key else t) = _
      split
      · rfl
      · exact (Tree.setChild_self hc).symm

/-- **What is not retained is sifted out**, as far as that is allowed. -/
theorem pruneOthers_eq_sift (hn : (Tree.keys t).Nodup) (retained : List String) :
    (pruneOthers consent retained t).run = Tree.sift
      (fun k c => if retained.contains k then some c else
        if (consent k c).run then none else some c) t := by
  rw [pruneOthers_eq_foldl, Tree.foldl_update hn _ hn]
  refine Tree.sift_congr fun kv hkv => if_pos ?_
  exact List.mem_map_of_mem hkv

/-- What retention makes of a child in the end. -/
def preserveAt (names : List String) (strict : Bool) (consent : Consent α Id)
    (fields : List (String × Value)) (k : String) (c : α) : Option α :=
  settleAt consent k (retainAt names strict consent fields k (false, c))

/-- The keys that are retained in the end. -/
theorem mem_retained (strict : Bool) (consent : Consent α Id) (hn : (Tree.keys t).Nodup)
    (hc : ∀ e ∈ fields, Reads names t e.1) {k : String} :
    k ∈ (retainFields strict consent fields ([], t)).run.1 ↔ ∃ c, Tree.child? t k = some c ∧
      (retainAt names strict consent fields k (false, c)).1 = true := by
  have hflags := (retainFields_spec strict consent (s := ([], t)) hn hc).2 k
  rw [hflags]
  change (match Tree.child? t k with | some c => _ | none => k ∈ []) ↔ _
  cases Tree.child? t k with
  | none => simp
  | some c => simp

variable (consent) in
/-- **Retention sifts the children.** -/
theorem pruneOthers_retainFields (strict : Bool) (hn : (Tree.keys t).Nodup)
    (hc : ∀ e ∈ fields, Reads names t e.1) {s : List String × α}
    (hs : (retainFields strict consent fields ([], t)).run = s) :
    (pruneOthers consent s.1 s.2).run = Tree.sift (preserveAt names strict consent fields) t := by
  have htree := (retainFields_spec strict consent (s := ([], t)) hn hc).1
  have hflags (k : String) := mem_retained strict consent hn hc (k := k)
  rw [hs] at htree hflags
  rw [pruneOthers_eq_sift (htree ▸ Tree.nodup_keys_sift hn _), htree, Tree.sift_sift]
  refine Tree.sift_congr fun kv hkv => ?_
  have hk : Tree.child? t kv.1 = some kv.2 := (Named.get?_eq_some_iff hn).mpr hkv
  have hflag : s.1.contains kv.1 =
      (retainAt names strict consent fields kv.1 (false, kv.2)).1 := by
    rw [Bool.eq_iff_iff, List.contains_iff_mem, hflags]
    simp [hk]
  simp only [Option.bind_some, hflag]
  rfl

theorem preserve_eq_sift {strict : Bool} (hn : (Tree.keys t).Nodup)
    (hc : ∀ e ∈ fields, Reads names t e.1) : (preserve strict consent (.obj fields) t).run =
      Tree.sift (preserveAt names strict consent fields) t := by
  rw [← pruneOthers_retainFields consent strict hn hc rfl]
  simp only [preserve, retain]
  rfl

/-! ## No new names -/

theorem keys_update_sublist (f : String → α → Option α) (t : α) (key : String) :
    (Tree.keys (Tree.update f t key)).Sublist (Tree.keys t) := by
  unfold Tree.update
  cases hc : Tree.child? t key with
  | none => exact .refl _
  | some c =>
    cases hf : f key c with
    | none =>
      simp only [hf]
      exact Tree.keys_erase_sublist t key
    | some c' =>
      simp only [hf]
      rw [Tree.keys_setChild hc]

theorem keys_foldl_update_sublist (f : String → α → Option α) (ks : List String) (t : α) :
    (Tree.keys (ks.foldl (Tree.update f) t)).Sublist (Tree.keys t) := by
  induction ks generalizing t with
  | nil => exact .refl _
  | cons k ks ih => exact (ih _).trans (keys_update_sublist f t k)

theorem keys_removeFields_sublist (s : Nat × α) :
    (Tree.keys (removeFields consent fields s).run.2).Sublist (Tree.keys s.2) := by
  induction fields generalizing s with
  | nil =>
    rw [removeFields]
    exact .refl _
  | cons e fields ih =>
    obtain ⟨s', hs, ht⟩ := removeFields_cons consent fields e.1 e.2 s
    rw [hs]
    refine (ih s').trans ?_
    rw [ht]
    exact keys_foldl_update_sublist _ _ _

theorem keys_retainFields_sublist (strict : Bool) (s : List String × α) :
    (Tree.keys (retainFields strict consent fields s).run.2).Sublist (Tree.keys s.2) := by
  induction fields generalizing s with
  | nil =>
    rw [retainFields]
    exact .refl _
  | cons e fields ih =>
    rw [retainFields_cons]
    refine (ih _).trans ?_
    rw [snd_foldl (snd_retainStep _)]
    exact keys_foldl_update_sublist _ _ _

theorem keys_pruneOthers_sublist (retained : List String) (t : α) :
    (Tree.keys (pruneOthers consent retained t).run).Sublist (Tree.keys t) := by
  rw [pruneOthers_eq_foldl]
  exact keys_foldl_update_sublist _ _ _

theorem keys_retainOne_sublist (strict : Bool) (sub : Value) (c : α) :
    (Tree.keys (retainOne strict consent sub c).2).Sublist (Tree.keys c) := by
  cases sub with
  | obj sub =>
    by_cases hb : Tree.isBranch c = true
    · simp only [retainOne, if_pos hb]
      exact (keys_pruneOthers_sublist _ _).trans (keys_retainFields_sublist strict ([], c))
    · simp only [retainOne, if_neg hb]
      exact .refl _
  | _ => exact .refl _

theorem keys_removeOne_sublist {sub : Value} {k : String} {c c' : α}
    (h : removeOne consent sub k c = some c') : (Tree.keys c').Sublist (Tree.keys c) := by
  cases sub with
  | obj sub =>
    obtain rfl := Option.some.inj h
    split
    · exact keys_removeFields_sublist ((0 : Nat), c)
    · exact .refl _
  | _ =>
    simp only [removeOne] at h
    split at h
    · exact nomatch h
    · obtain rfl := Option.some.inj h
      exact .refl _

theorem keys_removeAt_sublist {k : String} {c c' : α}
    (h : removeAt names consent fields k c = some c') : (Tree.keys c').Sublist (Tree.keys c) := by
  induction fields generalizing c with
  | nil =>
    obtain rfl := Option.some.inj h
    exact .refl _
  | cons e fields ih =>
    rw [removeAt_cons] at h
    obtain ⟨d, hd, h⟩ := Option.bind_eq_some_iff.mp h
    refine (ih h).trans ?_
    split at hd
    · exact keys_removeOne_sublist hd
    · obtain rfl := Option.some.inj hd
      exact .refl _

theorem keys_retainAt_sublist (strict : Bool) (k : String) (s : Bool × α) :
    (Tree.keys (retainAt names strict consent fields k s).2).Sublist (Tree.keys s.2) := by
  unfold retainAt
  induction fields generalizing s with
  | nil => exact .refl _
  | cons e fields ih =>
    rw [List.foldl_cons]
    refine (ih _).trans ?_
    split
    · exact keys_retainOne_sublist strict e.2 s.2
    · exact .refl _

theorem keys_preserveAt_sublist {strict : Bool} {k : String} {c c' : α}
    (h : preserveAt names strict consent fields k c = some c') :
    (Tree.keys c').Sublist (Tree.keys c) := by
  have hkeys : (Tree.keys (retainAt names strict consent fields k (false, c)).2).Sublist
      (Tree.keys c) := keys_retainAt_sublist strict k (false, c)
  unfold preserveAt settleAt at h
  split at h
  · exact Option.some.inj h ▸ hkeys
  · split at h
    · exact nomatch h
    · exact Option.some.inj h ▸ hkeys

/-! ## Below a child -/

/-- What removal makes of a child whose children have these names. -/
theorem removeOne_obj {sub : List (String × Value)} {c : α} (h : Fits names c)
    (hc : ∀ e ∈ sub, Clear names e.1) (k : String) :
    removeOne consent (.obj sub) k c = some (Tree.sift (removeAt names consent sub) c) := by
  by_cases hb : Tree.isBranch c = true
  · simp only [removeOne, if_pos hb]
    exact congrArg some (snd_removeFields h hc 0)
  · have hnil := Tree.children_of_not_isBranch (Bool.eq_false_iff.mpr hb)
    simp only [removeOne, if_neg hb]
    refine congrArg some ((Tree.sift_some c).symm.trans (Tree.sift_congr fun kv hkv => ?_))
    rw [hnil] at hkv
    exact nomatch hkv

/-- What retention leaves of a child whose children have these names. -/
theorem snd_retainOne_obj (strict : Bool) {sub : List (String × Value)} {c : α}
    (hn : (Tree.keys c).Nodup) (hc : ∀ e ∈ sub, Reads names c e.1) :
    (retainOne strict consent (.obj sub) c).2 =
      Tree.sift (preserveAt names strict consent sub) c := by
  by_cases hb : Tree.isBranch c = true
  · simp only [retainOne, if_pos hb]
    exact pruneOthers_retainFields consent strict hn hc rfl
  · have hnil := Tree.children_of_not_isBranch (Bool.eq_false_iff.mpr hb)
    simp only [retainOne, if_neg hb]
    refine (Tree.sift_some c).symm.trans (Tree.sift_congr fun kv hkv => ?_)
    rw [hnil] at hkv
    exact nomatch hkv

/-! ## Walking -/

omit [LawfulTree α] in
/-- One field of locations, then the others. -/
theorem walkFields_cons (f : α → α) (key : String) (sub : Value) (t : α) :
    (walkFields (m := Id) (fun _ c => (f c, none)) ((key, sub) :: fields) t).run =
      (walkFields (m := Id) (fun _ c => (f c, none)) fields
        ((matchingKeys t key).foldl (Tree.update fun _ c => some (enter f sub (f c))) t)).run := by
  rw [walkFields]
  refine congrArg (fun t => (walkFields (m := Id) (fun _ c => (f c, none)) fields t).run)
    ((foldlM_id _ _ t).trans (congrArg (List.foldl · t _) (funext₂ fun t k => ?_)))
  rw [Tree.update]
  cases hc : Tree.child? t k with
  | none => rfl
  | some c => cases sub <;> rfl

/-- **A walk sifts the children.** -/
theorem walkFields_eq_sift (f : α → α) (h : Fits names t) (hc : ∀ e ∈ fields, Clear names e.1) :
    (walkFields (m := Id) (fun _ c => (f c, none)) fields t).run =
      Tree.sift (fun k c => some (walkAt names f fields k c)) t := by
  induction fields generalizing t with
  | nil =>
    rw [walkFields]
    exact (Tree.sift_some t).symm
  | cons e fields ih =>
    obtain ⟨key, sub⟩ := e
    obtain ⟨hkey, hc⟩ := List.forall_mem_cons.mp hc
    rw [walkFields_cons, foldl_update_matchingKeys h hkey, ih (h.sift _) hc, Tree.sift_sift]
    refine Tree.sift_congr fun kv _ => ?_
    rw [walkAt, List.foldl_cons]
    cases stands names key kv.1 <;> rfl

/-! ## Leaves -/

omit [LawfulTree α] in
theorem walkFields_of_keys_eq_nil (f : α → α) (h : Tree.keys t = []) :
    (walkFields (m := Id) (fun _ c => (f c, none)) fields t).run = t := by
  induction fields with
  | nil =>
    rw [walkFields]
    rfl
  | cons e fields ih =>
    rw [walkFields_cons, matchingKeys_eq_nil h]
    exact ih

theorem snd_removeFields_of_keys_eq_nil (h : Tree.keys t = []) (s : Nat × α) (hs : s.2 = t) :
    (removeFields consent fields s).run.2 = t := by
  induction fields generalizing s with
  | nil =>
    rw [removeFields]
    exact hs
  | cons e fields ih =>
    obtain ⟨s', hs', ht⟩ := removeFields_cons consent fields e.1 e.2 s
    rw [hs', ih s']
    rw [ht, hs, matchingKeys_eq_nil h]
    rfl

omit [LawfulTree α] in
/-- A walk goes on below a child, where a leaf has nothing to visit. -/
theorem enter_obj (f : α → α) (sub : List (String × Value)) (c : α) :
    enter f (.obj sub) c = (walkFields (m := Id) (fun _ c => (f c, none)) sub c).run := by
  by_cases hb : Tree.isBranch c = true
  · exact if_pos hb
  · have hkeys := Tree.keys_of_not_isBranch (Bool.eq_false_iff.mpr hb)
    exact (if_neg hb).trans (walkFields_of_keys_eq_nil f hkeys).symm

/-- Removal goes on below a child, where a leaf has nothing to lose. -/
theorem removeOne_obj_eq (sub : List (String × Value)) (k : String) (c : α) :
    removeOne consent (.obj sub) k c =
      some (removeFields consent sub ((0 : Nat), c)).run.2 := by
  refine congrArg some ?_
  by_cases hb : Tree.isBranch c = true
  · exact if_pos hb
  · have hkeys := Tree.keys_of_not_isBranch (Bool.eq_false_iff.mpr hb)
    exact (if_neg hb).trans (snd_removeFields_of_keys_eq_nil hkeys (0, c) rfl).symm

end DeviceStats.Match
