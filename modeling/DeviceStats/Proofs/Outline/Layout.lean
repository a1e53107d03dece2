import DeviceStats.Proofs.Outline.Marks

/-!
# Proofs/Outline/Layout — where the properties of a report stand

A report has the names of some properties at the top and their parents beside them.  Below a parent
stand the names of its properties.
-/

namespace DeviceStats

open Json (Value Object)
open Match (Tree Fits Clear stands)

namespace Layout

variable (ps : List Property)

/-- The name at the top of a report under which a property stands. -/
def head (p : Property) : String := p.parent?.getD p.name

/-- The names at the top of a report. -/
def heads : List String := ps.map head

/-- The names of the properties of a parent. -/
def members (g : String) : List String := (ps.filter fun p => p.parent? == some g).map (·.name)

/-- Whether a name is that of a parent. -/
def IsGroup (g : String) : Prop := ∃ p ∈ ps, p.parent? = some g

/-- Whether no property at the top has the name of a parent. -/
def Apart : Prop := ∀ p ∈ ps, p.parent? = none → ¬ IsGroup ps p.name

instance (g : String) : Decidable (IsGroup ps g) :=
  inferInstanceAs (Decidable (∃ p ∈ ps, p.parent? = some g))

instance : Decidable (Apart ps) :=
  inferInstanceAs (Decidable (∀ p ∈ ps, p.parent? = none → ¬ IsGroup ps p.name))

/-- What holds for the parent of every property holds for every group. -/
theorem forall_isGroup_iff {P : String → Prop} :
    (∀ p ∈ ps, ∀ g ∈ p.parent?, P g) ↔ ∀ g, IsGroup ps g → P g :=
  ⟨fun h g ⟨p, hp, hpar⟩ => h p hp g hpar, fun h p hp g hpar => h g ⟨p, hp, hpar⟩⟩

instance (P : String → Prop) [DecidablePred P] : Decidable (∀ g, IsGroup ps g → P g) :=
  decidable_of_iff _ (forall_isGroup_iff ps)

theorem forall_obj?_iff {v : Value} {P : Object → Prop} :
    (∀ sub ∈ v.obj?, P sub) ↔ ∀ sub, v = .obj sub → P sub := by
  cases v <;> simp [Value.obj?]

instance (v : Value) (P : Object → Prop) [DecidablePred P] :
    Decidable (∀ sub, v = .obj sub → P sub) :=
  decidable_of_iff _ forall_obj?_iff

/-- Whether every key of some locations is clear: at the top among the names there, below a parent
among those of its properties. -/
def Legible (fields : List (String × Value)) : Prop :=
  ∀ e ∈ fields, Clear (heads ps) e.1 ∧ ∀ g, IsGroup ps g → stands (heads ps) e.1 g = true →
    ∀ sub, e.2 = .obj sub → ∀ e' ∈ sub, Clear (members ps g) e'.1

instance (fields : List (String × Value)) : Decidable (Legible ps fields) :=
  inferInstanceAs (Decidable (∀ e ∈ fields, Clear (heads ps) e.1 ∧ ∀ g, IsGroup ps g →
    stands (heads ps) e.1 g = true → ∀ sub, e.2 = .obj sub → ∀ e' ∈ sub, Clear (members ps g) e'.1))

/-- Whether locations pass the place of a property. -/
def Passes (fields : List (String × Value)) (p : Property) : Prop :=
  match p.parent? with
  | none => ∃ e ∈ fields, stands (heads ps) e.1 p.name = true
  | some g => ∃ e ∈ fields, stands (heads ps) e.1 g = true ∧
    ∃ sub, e.2 = .obj sub ∧ ∃ e' ∈ sub, stands (members ps g) e'.1 p.name = true

variable {ps}

/-- A name is a member of a group just if a property of that name has the group for its parent. -/
theorem mem_members {g n : String} :
    n ∈ members ps g ↔ ∃ p ∈ ps, p.parent? = some g ∧ p.name = n := by
  simp [members, and_assoc]

theorem head_mem_heads {p : Property} (hp : p ∈ ps) : head p ∈ heads ps := List.mem_map_of_mem hp

/-- A property without a parent stands at the top, … -/
theorem path_of_parent?_eq_none {p : Property} (h : p.parent? = none) : p.path = [p.name] := by
  rw [Property.path, h]

/-- … and one with a parent below it. -/
theorem path_of_parent?_eq_some {p : Property} {g : String} (h : p.parent? = some g) :
    p.path = [g, p.name] := by
  rw [Property.path, h]

theorem at?_of_parent?_eq_none {α : Type} [Match.Tree α] (t : α) {p : Property}
    (h : p.parent? = none) : Tree.at? t p.path = Tree.child? t p.name := by
  rw [path_of_parent?_eq_none h, Tree.at?_singleton]

theorem at?_of_parent?_eq_some {α : Type} [Match.Tree α] (t : α) {p : Property} {g : String}
    (h : p.parent? = some g) :
    Tree.at? t p.path = (Tree.child? t g).bind (Tree.child? · p.name) := by
  rw [path_of_parent?_eq_some h, Tree.at?_cons]
  exact congrArg _ (funext fun c => Tree.at?_singleton c p.name)

/-- A name at the top is that of a property there or that of a parent. -/
theorem top_or_isGroup {k : String} (h : k ∈ heads ps) :
    (∃ p ∈ ps, p.parent? = none ∧ p.name = k) ∨ IsGroup ps k := by
  obtain ⟨p, hp, rfl⟩ := List.mem_map.mp h
  unfold head
  cases hpar : p.parent? with
  | none => exact .inl ⟨p, hp, hpar, rfl⟩
  | some g => exact .inr ⟨p, hp, hpar⟩

theorem head_of_parent?_eq_none {p : Property} (h : p.parent? = none) : head p = p.name := by
  rw [head, h]
  rfl

/-- A property with a parent is found through it. -/
theorem head_of_parent?_eq_some {p : Property} {g : String} (h : p.parent? = some g) :
    head p = g := by
  rw [head, h]
  rfl

/-- The path of a property begins with its head. -/
theorem exists_path_eq (p : Property) : ∃ rest, p.path = head p :: rest := by
  cases hpar : p.parent? with
  | none =>
    rw [head_of_parent?_eq_none hpar]
    exact ⟨[], path_of_parent?_eq_none hpar⟩
  | some g =>
    rw [head_of_parent?_eq_some hpar]
    exact ⟨[p.name], path_of_parent?_eq_some hpar⟩

/-- Locations pass a property at the top if one of their keys stands for it, … -/
theorem passes_of_parent?_eq_none {p : Property} (h : p.parent? = none)
    {fields : List (String × Value)} {e : String × Value} (he : e ∈ fields)
    (hk : stands (heads ps) e.1 p.name = true) : Passes ps fields p := by
  rw [Passes, h]
  exact ⟨e, he, hk⟩

/-- … and one in a group if a key below one that stands for the group does. -/
theorem passes_of_parent?_eq_some {p : Property} {g : String} (h : p.parent? = some g)
    {fields sub : List (String × Value)} {e e' : String × Value} (he : e ∈ fields)
    (hk : stands (heads ps) e.1 g = true) (hsub : e.2 = .obj sub) (he' : e' ∈ sub)
    (hn : stands (members ps g) e'.1 p.name = true) : Passes ps fields p := by
  rw [Passes, h]
  exact ⟨e, he, hk, sub, hsub, e', he', hn⟩

/-- What stands under the name of a property at the top stands there itself. -/
theorem Apart.parent?_eq_none (hap : Apart ps) {p q : Property} (hp : p ∈ ps) (hq : q ∈ ps)
    (hqpar : q.parent? = none) (h : head p = q.name) : p.parent? = none := by
  cases hpar : p.parent? with
  | none => rfl
  | some g =>
    rw [head_of_parent?_eq_some hpar] at h
    exact absurd ⟨p, hp, hpar.trans (congrArg some h)⟩ (hap q hq hqpar)

/-- What stands under the name of a parent is one of its properties. -/
theorem Apart.parent?_eq_some (hap : Apart ps) {p : Property} (hp : p ∈ ps)
    (hg : IsGroup ps (head p)) : p.parent? = some (head p) := by
  cases hpar : p.parent? with
  | none =>
    rw [head_of_parent?_eq_none hpar] at hg
    exact absurd hg (hap p hp hpar)
  | some g => rw [head_of_parent?_eq_some hpar]

end Layout

namespace Outline

open Layout

/-! ## Outlines with these names only -/

/-- An outline with no other names than those of some properties in their places. -/
structure Shaped (ps : List Property) (o : Outline) : Prop where
  fits : Fits (heads ps) o
  group : ∀ g x, Tree.child? o g = some x → Fits (members ps g) x

/-- A tree with fewer names fits where the one with more did. -/
theorem Fits.of_sublist {α β : Type} [Match.Tree α] [Match.Tree β] {names : List String} {t : α}
    {t' : β} (h : Fits names t) (hsub : (Tree.keys t').Sublist (Tree.keys t)) : Fits names t' :=
  ⟨h.nodup.sublist hsub, fun k hk => h.sub k (hsub.subset hk)⟩

theorem Follows.shaped {ps : List Property} {o o' : Outline} (h : Follows o o')
    (hs : Shaped ps o) : Shaped ps o' where
  fits := by
    obtain ⟨x, hx, hsub⟩ := h.nodes [] o' rfl
    obtain rfl := Option.some.inj hx
    exact Fits.of_sublist hs.fits hsub
  group g x' hx' := by
    rw [← Tree.at?_singleton] at hx'
    obtain ⟨x, hx, hsub⟩ := h.nodes [g] x' hx'
    rw [Tree.at?_singleton] at hx
    exact Fits.of_sublist (hs.group g x hx) hsub

/-- An outline that follows another has no other paths. -/
theorem Follows.hasPath {o o' : Outline} (h : Follows o o') {p : List String}
    (hp : o'.hasPath p = true) : o.hasPath p = true := by
  obtain ⟨x', hx'⟩ := Option.isSome_iff_exists.mp hp
  obtain ⟨x, hx, -⟩ := h.nodes p x' hx'
  exact Option.isSome_iff_exists.mpr ⟨x, hx⟩

/-- Marking takes no path away. -/
theorem Marks.hasPath {o o' : Outline} (h : Marks o o') {p : List String}
    (hp : o.hasPath p = true) : o'.hasPath p = true := by
  obtain ⟨x, hx⟩ := Option.isSome_iff_exists.mp hp
  obtain ⟨x', hx', -⟩ := h.keys p x hx
  exact Option.isSome_iff_exists.mpr ⟨x', hx'⟩

/-! ## What a walk visits is marked -/

section Walk

variable {names inner : List String} {f : Outline → Outline} {fields : List (String × Value)}

/-- A walk that goes on below a child only marks there. -/
theorem marks_enter (hf : Marking f) (sub : Value) (c : Outline) :
    Marks c (Match.enter f sub c) := by
  cases sub with
  | obj sub =>
    by_cases hb : Tree.isBranch c = true
    · simp only [Match.enter, if_pos hb]
      exact marks_walkFields hf sub c
    · simp only [Match.enter, if_neg hb]
      exact .refl c
  | _ => exact .refl c

/-- All that a walk does to one child is marking. -/
theorem marks_walkAt (hf : Marking f) (names : List String) (fields : List (String × Value))
    (k : String) (c : Outline) : Marks c (Match.walkAt names f fields k c) := by
  unfold Match.walkAt
  induction fields generalizing c with
  | nil => exact .refl c
  | cons e fields ih =>
    rw [List.foldl_cons]
    refine .trans ?_ (ih _)
    split
    · exact (hf c).1.trans (marks_enter hf e.2 (f c))
    · exact .refl c

/-- A visit between what a walk does before and after it. -/
theorem exists_visit (hf : Marking f) {e : String × Value} (he : e ∈ fields) {k : String}
    (hk : stands names e.1 k = true) (c : Outline) :
    ∃ x, Marks c x ∧ Marks (Match.enter f e.2 (f x)) (Match.walkAt names f fields k c) := by
  obtain ⟨before, after, rfl⟩ := List.append_of_mem he
  refine ⟨Match.walkAt names f before k c, marks_walkAt hf names before k c, ?_⟩
  have hsplit : Match.walkAt names f (before ++ e :: after) k c = Match.walkAt names f after k
      (Match.enter f e.2 (f (Match.walkAt names f before k c))) := by
    rw [Match.walkAt, List.foldl_append, List.foldl_cons, if_pos hk]
    rfl
  rw [hsplit]
  exact marks_walkAt hf names after k _

/-- A walk does to each child what the keys that stand for it make it do. -/
theorem child?_walkFields (f : Outline → Outline) {o : Outline} (h : Fits names o)
    (hc : ∀ e ∈ fields, Clear names e.1) (k : String) :
    Tree.child? (Match.walkFields (changing f) fields o).run k =
      (Tree.child? o k).map (Match.walkAt names f fields k) := by
  rw [show changing f = fun _ c => (f c, none) from rfl, Match.walkFields_eq_sift f h hc,
    Tree.child?_sift h.nodup]
  cases Tree.child? o k <;> rfl

theorem markedAt_singleton {o c : Outline} {k : String} (hc : Tree.child? o k = some c)
    (h : c.isKept = true) : MarkedAt o [k] := ⟨c, (Tree.at?_singleton o k).trans hc, h⟩

theorem markedAt_cons {o c : Outline} {k : String} {p : List String}
    (hc : Tree.child? o k = some c) (h : MarkedAt c p) : MarkedAt o (k :: p) := by
  obtain ⟨x, hx, hk⟩ := h
  exact ⟨x, by rw [Tree.at?_cons, hc]; exact hx, hk⟩

/-- **A walk marks the children that its keys stand for.** -/
theorem isKept_walkAt (hf : Marking f) {e : String × Value} (he : e ∈ fields) {k : String}
    (hk : stands names e.1 k = true) (c : Outline) :
    (Match.walkAt names f fields k c).isKept = true := by
  obtain ⟨x, -, hafter⟩ := exists_visit hf he hk c
  exact hafter.top ((marks_enter hf e.2 (f x)).top (hf x).2)

/-- **A walk marks what its keys stand for below a child that they pass.** -/
theorem markedAt_walkAt (hf : Marking f) {e : String × Value} (he : e ∈ fields) {k : String}
    (hk : stands names e.1 k = true) {c : Outline} (hclosed : Closed c) (hfits : Fits inner c)
    {sub : List (String × Value)} (hsub : e.2 = .obj sub) (hclear : ∀ e' ∈ sub, Clear inner e'.1)
    {e' : String × Value} (he' : e' ∈ sub) {n : String} (hn : stands inner e'.1 n = true)
    (hmem : n ∈ Tree.keys c) : MarkedAt (Match.walkAt names f fields k c) [n] := by
  obtain ⟨x, hbefore, hafter⟩ := exists_visit hf he hk c
  have hto := hbefore.trans (hf x).1
  obtain ⟨y, hy, hkeys⟩ := hto.keys [] c rfl
  obtain rfl := Option.some.inj hy
  have hfits' : Fits inner (f x) :=
    ⟨hkeys ▸ hfits.nodup, fun j hj => hfits.sub j (hkeys ▸ hj)⟩
  obtain ⟨y, hy⟩ := Tree.mem_keys_iff.mp (hkeys.symm ▸ hmem)
  rw [hsub, Match.enter, if_pos (Tree.isBranch_of_child? hy)] at hafter
  have hwalk := marks_walkFields hf sub (f x)
  refine hafter.marks (hwalk.closed (hto.closed hclosed)) [n] ?_
  have hchild := child?_walkFields f hfits' hclear n
  rw [hy] at hchild
  exact markedAt_singleton hchild (isKept_walkAt hf he' hn y)

/-- **A walk that marks all marks what is below the children that its keys stand for.** -/
theorem markedAt_walkAt_markAll {e : String × Value} (he : e ∈ fields) {k : String}
    (hk : stands names e.1 k = true) {c : Outline} (hclosed : Closed c) {p : List String}
    (hp : c.hasPath p = true) : MarkedAt (Match.walkAt names markAll fields k c) p := by
  obtain ⟨x, hbefore, hafter⟩ := exists_visit marking_markAll he hk c
  obtain ⟨y, hy⟩ := Option.isSome_iff_exists.mp (hbefore.hasPath hp)
  have henter := marks_enter marking_markAll e.2 x.markAll
  have hall := (marks_markAll x).closed (hbefore.closed hclosed)
  refine hafter.marks (henter.closed hall) p (henter.marks hall p ⟨y.markAll, ?_, isKept_markAll y⟩)
  rw [at?_markAll, hy]
  rfl

end Walk

/-! ## What an action looks at stays -/

section Apply

variable {ps : List Property} {o : Outline} {p : Property} {fields : List (String × Value)}

theorem hasPath_singleton {o : Outline} {k : String} :
    o.hasPath [k] = true ↔ ∃ c, Tree.child? o k = some c := by
  rw [hasPath, Tree.at?_singleton, Option.isSome_iff_exists]

theorem hasPath_cons {o : Outline} {k : String} {p : List String} :
    o.hasPath (k :: p) = true ↔ ∃ c, Tree.child? o k = some c ∧ c.hasPath p = true := by
  rw [hasPath, Tree.at?_cons]
  cases Tree.child? o k with
  | none => simp
  | some c => simp [hasPath]

/-- Where all locations are legible, the keys at their top are clear. -/
theorem Legible.clear (hl : Legible ps fields) : ∀ e ∈ fields, Clear (heads ps) e.1 :=
  fun e he => (hl e he).1

/-- **What a condition passes is marked.** -/
theorem markedAt_of_passes (hs : Shaped ps o) (hc : Closed o) (hl : Legible ps fields)
    (hp : p ∈ ps) (hpath : o.hasPath p.path = true) (h : Passes ps fields p) :
    MarkedAt (Match.walkFields (changing mark) fields o).run p.path := by
  unfold Passes at h
  cases hpar : p.parent? with
  | none =>
    simp only [hpar] at h
    obtain ⟨e, he, hk⟩ := h
    rw [path_of_parent?_eq_none hpar] at hpath ⊢
    obtain ⟨c, hchild⟩ := hasPath_singleton.mp hpath
    have hwalk := child?_walkFields mark hs.fits (Legible.clear hl) p.name
    rw [hchild] at hwalk
    exact markedAt_singleton hwalk (isKept_walkAt marking_mark he hk c)
  | some g =>
    simp only [hpar] at h
    obtain ⟨e, he, hk, sub, hsub, e', he', hn⟩ := h
    rw [path_of_parent?_eq_some hpar] at hpath ⊢
    obtain ⟨c, hchild, hinner⟩ := hasPath_cons.mp hpath
    have hwalk := child?_walkFields mark hs.fits (Legible.clear hl) g
    rw [hchild] at hwalk
    have hg : IsGroup ps g := ⟨p, hp, hpar⟩
    exact markedAt_cons hwalk (markedAt_walkAt marking_mark he hk (hc.child hchild).1
      (hs.group g c hchild) hsub ((hl e he).2 g hg hk sub hsub) he' hn
      (Tree.mem_keys_iff.mpr (hasPath_singleton.mp hinner)))

/-- **What a tag may touch is marked.** -/
theorem markedAt_of_stands (hs : Shaped ps o) (hc : Closed o) (hl : Legible ps fields)
    (hpath : o.hasPath p.path = true) {e : String × Value} (he : e ∈ fields)
    (h : stands (heads ps) e.1 (head p) = true) :
    MarkedAt (Match.walkFields (changing markAll) fields o).run p.path := by
  obtain ⟨q, hq⟩ := exists_path_eq p
  rw [hq] at hpath ⊢
  obtain ⟨c, hchild, hinner⟩ := hasPath_cons.mp hpath
  have hwalk := child?_walkFields markAll hs.fits (Legible.clear hl) (head p)
  rw [hchild] at hwalk
  exact markedAt_cons hwalk (markedAt_walkAt_markAll he h (hc.child hchild).1 hinner)

/-- What the walk along one tree of a condition marks is marked once all are walked. -/
theorem markedAt_markSeen_of_walk {c : Condition} {tree : ConditionTree} (ht : tree ∈ c.trees)
    (hc : Closed o) {q : List String}
    (h : ∀ o', Marks o o' → MarkedAt (Match.walkFields (changing mark) tree o').run q) :
    MarkedAt (markSeen c o) q := by
  rw [markSeen_eq]
  obtain ⟨before, after, hsplit⟩ := List.append_of_mem ht
  rw [hsplit, List.foldl_append, List.foldl_cons]
  have hb := marks_foldl_walk before o
  exact (marks_foldl_walk after _).marks
    ((marks_walkFields marking_mark tree _).closed (hb.closed hc)) q (h _ hb)

/-- What any tree of a condition passes is marked, whatever the other trees do. -/
theorem markedAt_markSeen {c : Condition} (hs : Shaped ps o) (hc : Closed o)
    (hl : ∀ tree ∈ c.trees, Legible ps tree) (hp : p ∈ ps) (hpath : o.hasPath p.path = true)
    {tree : ConditionTree} (ht : tree ∈ c.trees) (h : Passes ps tree p) :
    MarkedAt (markSeen c o) p.path :=
  markedAt_markSeen_of_walk ht hc fun _ hb =>
    markedAt_of_passes (hb.shaped hs) (hb.closed hc) (hl tree ht) hp (hb.hasPath hpath) h

/-- The locations of a tag. -/
def tagLocations : Effect → Object
  | .setTag _ (some locations) => locations
  | _ => []

/-- Looking for tags is a walk over their locations that marks what it finds as a whole. -/
theorem markTagged_eq (effect : Effect) (o : Outline) : markTagged effect o =
    (Match.walkFields (changing markAll) (tagLocations effect) o).run := by
  obtain ⟨tags, _ | locations⟩ | locations | locations := effect <;>
    simp only [markTagged, tagLocations, Match.walk, Match.walkFields] <;> rfl

/-- **After an action what its condition passes is marked.** -/
theorem markedAt_apply_of_passes {a : Action} {c : Condition} (ha : a.enabled = true)
    (hcond : a.condition? = some c) (hs : Shaped ps o) (hc : Closed o)
    (hl : ∀ tree ∈ c.trees, Legible ps tree) (hp : p ∈ ps) (hpath : o.hasPath p.path = true)
    {tree : ConditionTree} (ht : tree ∈ c.trees) (h : Passes ps tree p) :
    MarkedAt (apply o a) p.path := by
  have hm := marks_markTagged a.effect o
  rw [apply, if_pos ha, hcond]
  exact markedAt_markSeen (hm.shaped hs) (hm.closed hc) hl hp (hm.hasPath hpath) ht h

/-- **After an action what its tags may touch is marked.** -/
theorem markedAt_apply_of_stands {a : Action} (ha : a.enabled = true) (hs : Shaped ps o)
    (hc : Closed o) (hl : Legible ps (tagLocations a.effect)) (hpath : o.hasPath p.path = true)
    {e : String × Value} (he : e ∈ tagLocations a.effect)
    (h : stands (heads ps) e.1 (head p) = true) : MarkedAt (apply o a) p.path := by
  have hm := markedAt_of_stands hs hc hl hpath he h
  rw [← markTagged_eq] at hm
  have hclosed := (marks_markTagged a.effect o).closed hc
  rw [apply, if_pos ha]
  cases a.condition? with
  | some c => exact (marks_markSeen c _).marks hclosed p.path hm
  | none => exact (trims_change a.effect _).marks hclosed p.path hm

end Apply

end Outline

end DeviceStats
