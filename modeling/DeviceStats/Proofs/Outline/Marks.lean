import DeviceStats.Outline.Selection
import DeviceStats.Proofs.Match.Pointwise
import DeviceStats.Proofs.Match.Paths

/-!
# Proofs/Outline/Marks — marked nodes stay

Actions only take nodes out of an outline, and never a marked one (`follows_foldl`).  A marked node
needs the nodes above it, and they are marked as well: a walk marks whatever it passes
(`Closed`).
-/

namespace DeviceStats

open Json (Value)
open Match (Tree LawfulTree)

instance : LawfulTree Outline where
  children?_withChildren t o := by obtain ⟨kept, _ | nested⟩ := t <;> rfl
  withChildren_withChildren t o o' := by obtain ⟨kept, _ | nested⟩ := t <;> rfl
  withChildren_children t := by obtain ⟨kept, _ | nested⟩ := t <;> rfl

namespace Outline

/-! ## What an outline keeps -/

/-- Whether there is a marked node at the end of a path. -/
def MarkedAt (o : Outline) (p : List String) : Prop := ∃ x, Tree.at? o p = some x ∧ x.isKept = true

/-- Whether a node is marked if one below it is. -/
def Rooted (o : Outline) : Prop := ∀ p, MarkedAt o p → o.isKept = true

/-- Whether below the top only nodes are marked that have marked nodes above them. -/
def Closed (o : Outline) : Prop := ∀ p x, p ≠ [] → Tree.at? o p = some x → Rooted x

/-- An outline that comes after another: it has no other nodes, and all that were marked. -/
structure Follows (o o' : Outline) : Prop where
  nodes : ∀ p x', Tree.at? o' p = some x' →
    ∃ x, Tree.at? o p = some x ∧ (Tree.keys x').Sublist (Tree.keys x)
  marks : Closed o → ∀ p, MarkedAt o p → MarkedAt o' p
  closed : Closed o → Closed o'

theorem Follows.refl (o : Outline) : Follows o o :=
  ⟨fun _ x' hx => ⟨x', hx, .refl _⟩, fun _ _ => id, id⟩

theorem Follows.trans {o o' o'' : Outline} (h : Follows o o') (h' : Follows o' o'') :
    Follows o o'' where
  nodes p x'' hx'' := by
    obtain ⟨x', hx', hsub'⟩ := h'.nodes p x'' hx''
    obtain ⟨x, hx, hsub⟩ := h.nodes p x' hx'
    exact ⟨x, hx, hsub'.trans hsub⟩
  marks hc p hp := h'.marks (h.closed hc) p (h.marks hc p hp)
  closed hc := h'.closed (h.closed hc)

/-! ## Changes below the top -/

@[simp] theorem isKept_setChild (o : Outline) (key : String) (c : Outline) :
    (Tree.setChild o key c).isKept = o.isKept := by
  obtain ⟨kept, _ | nested⟩ := o <;> rfl

@[simp] theorem isKept_erase (o : Outline) (key : String) :
    (Tree.erase o key).isKept = o.isKept := by
  obtain ⟨kept, _ | nested⟩ := o <;> rfl

/-- A node directly below a closed outline is closed, and rooted as well. -/
theorem Closed.child {o c : Outline} {key : String} (h : Closed o)
    (hc : Tree.child? o key = some c) : Closed c ∧ Rooted c := by
  refine ⟨fun p x hp hx => h (key :: p) x (List.cons_ne_nil _ _) ?_,
    h [key] c (List.cons_ne_nil _ _) ((Tree.at?_singleton o key).trans hc)⟩
  rw [Tree.at?_cons, hc]
  exact hx

/-- An outline is closed just if every node directly below its top is closed and rooted. -/
theorem closed_iff {o : Outline} :
    Closed o ↔ ∀ k c, Tree.child? o k = some c → Closed c ∧ Rooted c := by
  refine ⟨fun h k c => h.child, fun h p x hp hx => ?_⟩
  cases p with
  | nil => exact absurd rfl hp
  | cons k p =>
    obtain ⟨c, hc, hx⟩ := Option.bind_eq_some_iff.mp hx
    cases p with
    | nil =>
      obtain rfl := Option.some.inj hx
      exact (h k c hc).2
    | cons j p => exact (h k c hc).1 (j :: p) x (List.cons_ne_nil _ _) hx

/-- What is marked below the top is still marked, if each marked child is followed. -/
theorem markedAt_cons_of_children {o o' : Outline} (hclosed : Closed o)
    (hto : ∀ k c', Tree.child? o' k = some c' → ∃ c, Tree.child? o k = some c ∧ Follows c c')
    (hgone : ∀ k c, Tree.child? o k = some c → Tree.child? o' k = none → c.isKept = false)
    {k : String} {p : List String} (h : MarkedAt o (k :: p)) : MarkedAt o' (k :: p) := by
  obtain ⟨x, hx, hkept⟩ := h
  obtain ⟨c, hc, hx⟩ := Option.bind_eq_some_iff.mp hx
  obtain ⟨hcc, hrc⟩ := hclosed.child hc
  cases hc' : Tree.child? o' k with
  | none =>
    have hmarked := hrc p ⟨x, hx, hkept⟩
    rw [hgone k c hc hc'] at hmarked
    exact nomatch hmarked
  | some c' =>
    obtain ⟨d, hd, hfollows⟩ := hto k c' hc'
    obtain rfl := Option.some.inj (hc.symm.trans hd)
    obtain ⟨x', hx', hkept'⟩ := hfollows.marks hcc p ⟨x, hx, hkept⟩
    exact ⟨x', by rw [Tree.at?_cons, hc']; exact hx', hkept'⟩

/-- **An outline whose children follow those of another follows it**, if only children that are not
marked are missing. -/
theorem Follows.of_children {o o' : Outline} (htop : o'.isKept = o.isKept)
    (hkeys : (Tree.keys o').Sublist (Tree.keys o))
    (hto : ∀ k c', Tree.child? o' k = some c' →
      ∃ c, Tree.child? o k = some c ∧ Follows c c' ∧ (Closed c → Rooted c → Rooted c'))
    (hgone : ∀ k c, Tree.child? o k = some c → Tree.child? o' k = none → c.isKept = false) :
    Follows o o' where
  nodes p x' hx' := by
    cases p with
    | nil =>
      obtain rfl := Option.some.inj hx'
      exact ⟨o, rfl, hkeys⟩
    | cons k p =>
      obtain ⟨c', hc', hx'⟩ := Option.bind_eq_some_iff.mp hx'
      obtain ⟨c, hc, hfollows, -⟩ := hto k c' hc'
      obtain ⟨x, hx, hsub⟩ := hfollows.nodes p x' hx'
      exact ⟨x, by rw [Tree.at?_cons, hc]; exact hx, hsub⟩
  marks hclosed p hp := by
    cases p with
    | nil =>
      obtain ⟨x, hx, hkept⟩ := hp
      obtain rfl := Option.some.inj hx
      exact ⟨o', rfl, htop.trans hkept⟩
    | cons k p =>
      refine markedAt_cons_of_children hclosed (fun k c' hc' => ?_) hgone hp
      obtain ⟨c, hc, hfollows, -⟩ := hto k c' hc'
      exact ⟨c, hc, hfollows⟩
  closed hclosed := by
    refine closed_iff.mpr fun k c' hc' => ?_
    obtain ⟨c, hc, hfollows, hroot⟩ := hto k c' hc'
    obtain ⟨hcc, hrc⟩ := hclosed.child hc
    exact ⟨hfollows.closed hcc, hroot hcc hrc⟩

/-- A child changed. -/
theorem Follows.setChild {o c c' : Outline} {key : String} (hc : Tree.child? o key = some c)
    (h : Follows c c') (hroot : Closed c → Rooted c → Rooted c') :
    Follows o (Tree.setChild o key c') := by
  refine .of_children (isKept_setChild o key c') (by rw [Tree.keys_setChild hc])
    (fun k x hx => ?_) fun k x hx hnone => ?_
  · rw [Tree.child?_setChild hc] at hx
    by_cases hk : key = k
    · rw [if_pos hk] at hx
      obtain rfl := Option.some.inj hx
      exact ⟨c, hk ▸ hc, h, hroot⟩
    · rw [if_neg hk] at hx
      exact ⟨x, hx, .refl x, fun _ => id⟩
  · rw [Tree.child?_setChild hc] at hnone
    split at hnone
    · exact nomatch hnone
    · rw [hx] at hnone
      exact nomatch hnone

/-- A child that is not marked taken out. -/
theorem Follows.erase {o c : Outline} {key : String} (hc : Tree.child? o key = some c)
    (h : c.isKept = false) : Follows o (Tree.erase o key) := by
  refine .of_children (isKept_erase o key) (Tree.keys_erase_sublist o key)
    (fun k x hx => ?_) fun k x hx hnone => ?_
  · rw [Tree.child?_erase] at hx
    split at hx
    · exact nomatch hx
    · exact ⟨x, hx, .refl x, fun _ => id⟩
  · rw [Tree.child?_erase] at hnone
    by_cases hk : key = k
    · subst hk
      exact Option.some.inj (hc.symm.trans hx) ▸ h
    · rw [if_neg hk, hx] at hnone
      exact nomatch hnone

/-! ## Nodes taken out -/

/-- An outline from which nodes are taken out, and nothing else. -/
structure Trims (o o' : Outline) : Prop extends Follows o o' where
  top : o'.isKept = o.isKept
  rooted : Closed o → Rooted o → Rooted o'

theorem Trims.refl (o : Outline) : Trims o o := ⟨.refl o, rfl, fun _ => id⟩

theorem Trims.trans {o o' o'' : Outline} (h : Trims o o') (h' : Trims o' o'') : Trims o o'' :=
  ⟨h.toFollows.trans h'.toFollows, h'.top.trans h.top,
    fun hc hr => h'.rooted (h.closed hc) (h.rooted hc hr)⟩

/-- What is taken out of a child is taken out of the outline. -/
theorem Trims.setChild {o c c' : Outline} {key : String} (hc : Tree.child? o key = some c)
    (h : Trims c c') : Trims o (Tree.setChild o key c') where
  toFollows := h.toFollows.setChild hc h.rooted
  top := isKept_setChild o key c'
  rooted hclosed hroot p hp := by
    rw [isKept_setChild]
    obtain ⟨x, hx, hkept⟩ := hp
    cases p with
    | nil =>
      obtain rfl := Option.some.inj hx
      rwa [isKept_setChild] at hkept
    | cons k p =>
      rw [Tree.at?_cons, Tree.child?_setChild hc] at hx
      by_cases hk : key = k
      · subst hk
        rw [if_pos rfl] at hx
        obtain ⟨hcc, hrc⟩ := hclosed.child hc
        refine hroot [key] ⟨c, (Tree.at?_singleton o key).trans hc, ?_⟩
        rw [← h.top]
        exact h.rooted hcc hrc p ⟨x, hx, hkept⟩
      · rw [if_neg hk] at hx
        exact hroot (k :: p) ⟨x, hx, hkept⟩

/-- A child that is not marked may go: in a closed outline nothing below it is marked. -/
theorem Trims.erase {o c : Outline} {key : String} (hc : Tree.child? o key = some c)
    (h : c.isKept = false) : Trims o (Tree.erase o key) where
  toFollows := .erase hc h
  top := isKept_erase o key
  rooted hclosed hroot p hp := by
    rw [isKept_erase]
    obtain ⟨x, hx, hkept⟩ := hp
    cases p with
    | nil =>
      obtain rfl := Option.some.inj hx
      rwa [isKept_erase] at hkept
    | cons k p =>
      rw [Tree.at?_cons, Tree.child?_erase] at hx
      split at hx
      · simp at hx
      · exact hroot (k :: p) ⟨x, hx, hkept⟩

/-- Whether a change of a child only takes out, and the child itself only if it is not marked. -/
def Trimming (f : Outline → Option Outline) : Prop :=
  ∀ c, (∀ c', f c = some c' → Trims c c') ∧ (f c = none → c.isKept = false)

/-- A trimming change of a child trims the outline, whether the child is there, changed, or taken
out. -/
theorem Trims.update {f : String → Outline → Option Outline} (h : ∀ k, Trimming (f k))
    (o : Outline) (key : String) : Trims o (Tree.update f o key) := by
  unfold Tree.update
  cases hc : Tree.child? o key with
  | none => exact .refl o
  | some c =>
    cases hf : f key c with
    | none =>
      simp only [hf]
      exact .erase hc ((h key c).2 hf)
    | some c' =>
      simp only [hf]
      exact .setChild hc ((h key c).1 c' hf)

theorem Trims.foldl_update {f : String → Outline → Option Outline} (h : ∀ k, Trimming (f k))
    (ks : List String) (o : Outline) : Trims o (ks.foldl (Tree.update f) o) := by
  induction ks generalizing o with
  | nil => exact .refl o
  | cons k ks ih => exact (Trims.update h o k).trans (ih _)

/-- A change that trims a child and never takes it out is trimming. -/
theorem trimming_some {f : Outline → Outline} (h : ∀ c, Trims c (f c)) :
    Trimming fun c => some (f c) :=
  fun c => ⟨fun _ hc => Option.some.inj hc ▸ h c, fun hnone => nomatch hnone⟩

/-- A removal asks for consent, and a marked node does not give it. -/
theorem trimming_consent (k : String) :
    Trimming fun c => if (consent k c).run then none else some c := by
  intro c
  change (∀ c', (if (!c.isKept) = true then none else some c) = some c' → Trims c c') ∧
    ((if (!c.isKept) = true then none else some c) = none → c.isKept = false)
  cases c.isKept with
  | true => exact ⟨fun _ hc => Option.some.inj hc ▸ .refl c, fun hnone => nomatch hnone⟩
  | false => exact ⟨fun _ hc => (nomatch hc), fun _ => rfl⟩

/-- **Removal only takes out.** -/
theorem trims_removeFields : ∀ (fields : List (String × Value)) (s : Nat × Outline),
    Trims s.2 (Match.removeFields consent fields s).run.2
  | [], s => by
    rw [Match.removeFields]
    exact .refl s.2
  | (key, sub) :: rest, s => by
    obtain ⟨s', hs, ht⟩ := Match.removeFields_cons consent rest key sub s
    rw [hs]
    refine .trans ?_ (trims_removeFields rest s')
    rw [ht]
    refine Trims.foldl_update (fun k => ?_) _ s.2
    cases sub with
    | obj sub =>
      refine trimming_some fun c => ?_
      split
      · exact trims_removeFields sub ((0 : Nat), c)
      · exact .refl c
    | _ => exact trimming_consent k

/-- What no location has retained goes, unless it is marked. -/
theorem trims_pruneOthers (retained : List String) (o : Outline) :
    Trims o (Match.pruneOthers consent retained o).run := by
  rw [Match.pruneOthers_eq_foldl]
  refine Trims.foldl_update (fun k => ?_) _ o
  split
  · exact trimming_some .refl
  · exact trimming_consent k

/-- A child is kept as it is, or goes on by itself. -/
theorem trims_retainOne_obj {strict : Bool} {sub : List (String × Value)} (c : Outline)
    (h : ∀ s, Trims s.2 (Match.retainFields strict consent sub s).run.2) :
    Trims c (Match.retainOne strict consent (.obj sub) c).2 := by
  by_cases hb : Tree.isBranch c = true
  · simp only [Match.retainOne, if_pos hb]
    exact (h ([], c)).trans (trims_pruneOthers _ _)
  · simp only [Match.retainOne, if_neg hb]
    exact .refl c

/-- **Retention only takes out.** -/
theorem trims_retainFields (strict : Bool) :
    ∀ (fields : List (String × Value)) (s : List String × Outline),
      Trims s.2 (Match.retainFields strict consent fields s).run.2
  | [], s => by
    rw [Match.retainFields]
    exact .refl s.2
  | (key, sub) :: rest, s => by
    rw [Match.retainFields_cons]
    refine .trans ?_ (trims_retainFields strict rest _)
    rw [Match.snd_foldl (Match.snd_retainStep _)]
    refine Trims.foldl_update (fun _ => trimming_some fun c => ?_) _ s.2
    cases sub with
    | obj sub => exact trims_retainOne_obj c (trims_retainFields strict sub)
    | _ => exact .refl c

/-- **An action that does not depend on data only takes out.** -/
theorem trims_change (effect : Effect) (o : Outline) : Trims o (change effect o) := by
  cases effect with
  | setTag tags locations? => exact .refl o
  | includeData locations =>
    simp only [change, Match.preserve, Match.retain]
    exact (trims_retainFields false locations ([], o)).trans (trims_pruneOthers _ _)
  | excludeData locations =>
    simp only [change, Match.remove]
    exact trims_removeFields locations ((0 : Nat), o)

/-! ## Nodes marked -/

/-- An outline with the same nodes, of which more may be marked. -/
structure Marks (o o' : Outline) : Prop extends Follows o o' where
  keys : ∀ p x, Tree.at? o p = some x → ∃ x', Tree.at? o' p = some x' ∧ Tree.keys x' = Tree.keys x
  top : o.isKept = true → o'.isKept = true

theorem Marks.refl (o : Outline) : Marks o o := ⟨.refl o, fun _ x hx => ⟨x, hx, rfl⟩, id⟩

theorem Marks.trans {o o' o'' : Outline} (h : Marks o o') (h' : Marks o' o'') : Marks o o'' where
  toFollows := h.toFollows.trans h'.toFollows
  keys p x hx := by
    obtain ⟨x', hx', heq⟩ := h.keys p x hx
    obtain ⟨x'', hx'', heq'⟩ := h'.keys p x' hx'
    exact ⟨x'', hx'', heq'.trans heq⟩
  top hk := h'.top (h.top hk)

/-- Marking below a child is marking below the top, if the child is marked with it. -/
theorem Marks.setChild {o c c' : Outline} {key : String} (hc : Tree.child? o key = some c)
    (h : Marks c c') (hk : c'.isKept = true) : Marks o (Tree.setChild o key c') where
  toFollows := h.toFollows.setChild hc fun _ _ _ _ => hk
  keys p x hx := by
    cases p with
    | nil =>
      obtain rfl := Option.some.inj hx
      exact ⟨_, rfl, Tree.keys_setChild hc c'⟩
    | cons k p =>
      rw [Tree.at?_cons] at hx
      rw [Tree.at?_cons, Tree.child?_setChild hc]
      by_cases hkey : key = k
      · subst hkey
        rw [hc] at hx
        rw [if_pos rfl]
        exact h.keys p x hx
      · rw [if_neg hkey]
        exact ⟨x, hx, rfl⟩
  top hko := (isKept_setChild o key c').trans hko

/-- Children marked one after the other, each with what is below it. -/
theorem Marks.foldl_update {g : Outline → Outline}
    (h : ∀ c, Marks c (g c) ∧ (g c).isKept = true) (ks : List String) (o : Outline) :
    Marks o (ks.foldl (Tree.update fun _ c => some (g c)) o) := by
  induction ks generalizing o with
  | nil => exact .refl o
  | cons k ks ih =>
    refine .trans ?_ (ih _)
    unfold Tree.update
    cases hc : Tree.child? o k with
    | none => exact .refl o
    | some c => exact .setChild hc (h c).1 (h c).2

@[simp] theorem isKept_mark (o : Outline) : o.mark.isKept = true := by
  obtain ⟨kept, nested?⟩ := o
  rfl

/-- Marking a node changes no other node. -/
theorem marks_mark (o : Outline) : Marks o o.mark := by
  obtain ⟨kept, nested?⟩ := o
  refine ⟨⟨fun p x' hx' => ?_, fun _ p ⟨x, hx, hk⟩ => ?_, fun hc => ?_⟩, fun p x hx => ?_,
    fun _ => rfl⟩
  · cases p with
    | nil =>
      obtain rfl := Option.some.inj hx'
      exact ⟨_, rfl, .refl _⟩
    | cons k p => exact ⟨x', hx', .refl _⟩
  · cases p with
    | nil => exact ⟨_, rfl, rfl⟩
    | cons k p => exact ⟨x, hx, hk⟩
  · exact closed_iff.mpr fun k c hk => hc.child hk
  · cases p with
    | nil =>
      obtain rfl := Option.some.inj hx
      exact ⟨_, rfl, rfl⟩
    | cons k p => exact ⟨x, hx, rfl⟩

@[simp] theorem isKept_markAll (o : Outline) : o.markAll.isKept = true := by
  obtain ⟨kept, _ | nested⟩ := o <;> rfl

/-- Below a node that is marked as a whole, all nodes are. -/
theorem markNested_eq_map (nested : List (String × Outline)) :
    markNested nested = nested.map fun kv => (kv.1, markAll kv.2) := by
  induction nested with
  | nil => rfl
  | cons kv nested ih => rw [markNested, ih, List.map_cons]

theorem children_markAll (o : Outline) :
    Tree.children o.markAll = (Tree.children o).map fun kv => (kv.1, markAll kv.2) := by
  obtain ⟨kept, _ | nested⟩ := o
  · rfl
  · exact markNested_eq_map nested

/-- A node of an outline that is marked as a whole is the node that was there, marked as a whole. -/
theorem at?_markAll (o : Outline) (p : List String) :
    Tree.at? o.markAll p = (Tree.at? o p).map markAll := by
  induction p generalizing o with
  | nil => rfl
  | cons k p ih =>
    have hchild : Tree.child? o.markAll k = (Tree.child? o k).map markAll := by
      rw [Tree.child?, children_markAll, Tree.child?, Named.get?, Named.get?, List.find?_map]
      simp [Function.comp_def]
    rw [Tree.at?_cons, Tree.at?_cons, hchild]
    cases Tree.child? o k with
    | none => rfl
    | some c => exact ih c

/-- Marking an outline as a whole adds no node and takes none out. -/
theorem marks_markAll (o : Outline) : Marks o o.markAll := by
  have hkeys (x : Outline) : Tree.keys x.markAll = Tree.keys x := by
    rw [Tree.keys, children_markAll]
    simp [Tree.keys, Named.keys, Function.comp_def]
  refine ⟨⟨fun p x' hx' => ?_, fun _ p hmarked => ?_, fun _ p x' _ hx' => ?_⟩,
    fun p x hx => ?_, fun _ => isKept_markAll o⟩
  · rw [at?_markAll] at hx'
    obtain ⟨x, hx, rfl⟩ := Option.map_eq_some_iff.mp hx'
    exact ⟨x, hx, by rw [hkeys]⟩
  · obtain ⟨x, hx, -⟩ := hmarked
    exact ⟨x.markAll, by rw [at?_markAll, hx]; rfl, isKept_markAll x⟩
  · rw [at?_markAll] at hx'
    obtain ⟨x, hx, rfl⟩ := Option.map_eq_some_iff.mp hx'
    exact fun _ _ => isKept_markAll x
  · exact ⟨x.markAll, by rw [at?_markAll, hx]; rfl, hkeys x⟩

/-- Whether a change of a node marks it, and otherwise only what is below. -/
def Marking (f : Outline → Outline) : Prop := ∀ c, Marks c (f c) ∧ (f c).isKept = true

theorem marking_mark : Marking mark := fun c => ⟨marks_mark c, isKept_mark c⟩

theorem marking_markAll : Marking markAll := fun c => ⟨marks_markAll c, isKept_markAll c⟩

/-- **A walk that marks what it visits only marks.** -/
theorem marks_walkFields {f : Outline → Outline} (hf : Marking f) :
    ∀ (fields : List (String × Value)) (o : Outline),
      Marks o (Match.walkFields (changing f) fields o).run
  | [], o => by
    rw [Match.walkFields]
    exact .refl o
  | (key, sub) :: rest, o => by
    rw [show changing f = fun _ c => (f c, none) from rfl, Match.walkFields_cons]
    refine .trans ?_ (marks_walkFields hf rest _)
    refine Marks.foldl_update (fun c => ?_) _ o
    obtain ⟨hc, hk⟩ := hf c
    cases sub with
    | obj sub =>
      by_cases hb : Tree.isBranch (f c) = true
      · simp only [Match.enter, if_pos hb]
        have hsub := marks_walkFields hf sub (f c)
        exact ⟨hc.trans hsub, hsub.top hk⟩
      · simp only [Match.enter, if_neg hb]
        exact ⟨hc, hk⟩
    | _ => exact ⟨hc, hk⟩

/-- Tags are looked for where they will be written, and the nodes there are marked. -/
theorem marks_markTagged (effect : Effect) (o : Outline) : Marks o (markTagged effect o) := by
  unfold markTagged
  split
  · exact marks_walkFields marking_markAll _ o
  · exact .refl o

theorem marks_foldl_walk (trees : List ConditionTree) (o : Outline) : Marks o
    (trees.foldl (fun o tree => (Match.walkFields (changing mark) tree o).run) o) := by
  induction trees generalizing o with
  | nil => exact .refl o
  | cons tree trees ih => exact (marks_walkFields marking_mark tree o).trans (ih _)

/-- A condition is walked tree by tree. -/
theorem markSeen_eq (c : Condition) (o : Outline) : markSeen c o =
    c.trees.foldl (fun o tree => (Match.walkFields (changing mark) tree o).run) o := by
  unfold markSeen
  simp only [Match.walk]
  rfl

/-- Looking at what a condition depends on only marks. -/
theorem marks_markSeen (c : Condition) (o : Outline) : Marks o (markSeen c o) := by
  rw [markSeen_eq]
  exact marks_foldl_walk c.trees o

/-! ## Actions one after the other -/

/-- **After an action there are no new nodes, and all that were marked.** -/
theorem follows_apply (o : Outline) (a : Action) : Follows o (apply o a) := by
  unfold apply
  split
  · have hmarks := (marks_markTagged a.effect o).toFollows
    cases a.condition? with
    | some c => exact hmarks.trans (marks_markSeen c _).toFollows
    | none => exact hmarks.trans (trims_change a.effect _).toFollows
  · exact .refl o

/-- After any actions there are no new nodes, and all that were marked. -/
theorem follows_foldl (o : Outline) (actions : List Action) :
    Follows o (actions.foldl apply o) := by
  induction actions generalizing o with
  | nil => exact .refl o
  | cons a actions ih => exact (follows_apply o a).trans (ih _)

end Outline

end DeviceStats
