import DeviceStats.Proofs.Outline.Replay
import DeviceStats.Report

/-!
# Proofs/Outline/Beginning — before the first action everything agrees

The outline of a report has a node for every property, none of them marked (`Built`).  The full data
and the cut data are filled property by property; after each the groups are in agreement
(`Filled.place`).
-/

namespace DeviceStats

open Json (Value Object)
open Layout
open Match (Tree Fits stands)

namespace Outline

/-! ## Nodes in rising order -/

section Place

variable {nested : Named Outline} {name : String} {change : Option Outline → Outline}

theorem lt_of_ne_of_not_lt {a b : String} (hne : a ≠ b) (h : ¬ a < b) : b < a := by
  by_contra hba
  exact hne (String.le_antisymm (String.not_lt.mp hba) (String.not_lt.mp h))

/-- Placing a node adds no name but its own. -/
theorem mem_keys_place {k : String} :
    k ∈ Named.keys (place name change nested) ↔ k = name ∨ k ∈ Named.keys nested := by
  induction nested with
  | nil => simp [place, Named.keys]
  | cons kv nested ih =>
    obtain ⟨j, o⟩ := kv
    unfold place
    split
    · rename_i hj
      simp [Named.keys, hj]
    · split
      · simp [Named.keys]
      · simp only [Named.keys, List.map_cons, List.mem_cons] at ih ⊢
        rw [ih, or_left_comm]

/-- Names stay in rising order when a node is placed among them. -/
theorem pairwise_place (h : (Named.keys nested).Pairwise (· < ·)) :
    (Named.keys (place name change nested)).Pairwise (· < ·) := by
  induction nested with
  | nil => exact List.pairwise_singleton _ _
  | cons kv nested ih =>
    obtain ⟨j, o⟩ := kv
    obtain ⟨hj, h⟩ := List.pairwise_cons.mp h
    unfold place
    split
    · exact List.pairwise_cons.mpr ⟨hj, h⟩
    · rename_i hne
      split
      · rename_i hlt
        refine List.pairwise_cons.mpr ⟨fun k hk => ?_, List.pairwise_cons.mpr ⟨hj, h⟩⟩
        obtain rfl | hk := List.mem_cons.mp hk
        · exact hlt
        · exact String.lt_trans hlt (hj k hk)
      · rename_i hlt
        refine List.pairwise_cons.mpr ⟨fun k hk => ?_, ih h⟩
        obtain rfl | hk := mem_keys_place.mp hk
        · exact lt_of_ne_of_not_lt hne hlt
        · exact hj k hk

/-- A node is placed over what was there, and nothing else is changed. -/
theorem get?_place (h : (Named.keys nested).Pairwise (· < ·)) (k : String) :
    Named.get? (place name change nested) k =
      if name = k then some (change (Named.get? nested name)) else Named.get? nested k := by
  induction nested with
  | nil => simp [place, Named.get?_cons]
  | cons kv nested ih =>
    obtain ⟨j, o⟩ := kv
    obtain ⟨hj, h⟩ := List.pairwise_cons.mp h
    unfold place
    split
    · rename_i hname
      subst hname
      simp only [Named.get?_cons, if_true]
      split <;> rfl
    · rename_i hne
      split
      · rename_i hlt
        have habsent : Named.get? ((j, o) :: nested) name = none := by
          refine Named.get?_eq_none_iff.mpr fun hmem => ?_
          obtain heq | hmem := List.mem_cons.mp hmem
          · exact hne heq
          · exact String.lt_asymm hlt (hj name hmem)
        rw [habsent, Named.get?_cons name]
      · rw [Named.get?_cons, ih h, Named.get?_cons, Named.get?_cons, if_neg (Ne.symm hne)]
        by_cases hk : j = k
        · subst hk
          rw [if_pos rfl, if_pos rfl, if_neg hne]
        · rw [if_neg hk, if_neg hk]

end Place

/-! ## The outline of a report -/

/-- Whether a property is in a folder that is switched off. -/
def isOff (disabledFolders : NameSet) (p : Property) : Bool :=
  p.inFolder && p.parent?.any disabledFolders.contains

/-- The properties outside the folders that are switched off. -/
def listed (disabledFolders : NameSet) (ps : List Property) : List Property :=
  ps.filter fun p => !isOff disabledFolders p

/-- A node that is not marked, with a leaf under each of some names. -/
structure Twig (names : List String) (x : Outline) : Prop where
  unmarked : x.isKept = false
  sorted : (Tree.keys x).Pairwise (· < ·)
  keys : ∀ n, n ∈ Tree.keys x ↔ n ∈ names
  leaves : ∀ n c, Tree.child? x n = some c → c = leaf

/-- The nodes of an outline of some properties. -/
structure Built (qs : List Property) (nested : Named Outline) : Prop where
  sorted : (Named.keys nested).Pairwise (· < ·)
  keys : ∀ k, k ∈ Named.keys nested ↔ k ∈ heads qs
  twigs : ∀ k x, Named.get? nested k = some x → Twig (members qs k) x

section Build

variable {qs : List Property} {nested : Named Outline} {p : Property}

/-- A further property is a member of its own parent alone. -/
theorem mem_members_concat {g n : String} :
    n ∈ members (qs ++ [p]) g ↔ n ∈ members qs g ∨ p.parent? = some g ∧ n = p.name := by
  simp only [mem_members, List.mem_append, List.mem_singleton, or_and_right, exists_or,
    exists_eq_left, eq_comm (a := n)]

theorem mem_heads_concat {k : String} : k ∈ heads (qs ++ [p]) ↔ k = head p ∨ k ∈ heads qs := by
  rw [heads, List.map_append, List.mem_append, List.map_singleton, List.mem_singleton, or_comm]
  rfl

theorem head_mem_of_mem_members {g n : String} (h : n ∈ members qs g) : g ∈ heads qs := by
  obtain ⟨q, hq, hpar, -⟩ := mem_members.mp h
  refine List.mem_map.mpr ⟨q, hq, ?_⟩
  rw [head, hpar]
  rfl

/-- A twig is known by its names, whatever their order in the list. -/
theorem Twig.congr {names names' : List String} {x : Outline} (h : Twig names x)
    (heq : ∀ n, n ∈ names' ↔ n ∈ names) : Twig names' x :=
  ⟨h.unmarked, h.sorted, fun n => (h.keys n).trans (heq n).symm, h.leaves⟩

theorem twig_leaf : Twig [] leaf :=
  ⟨rfl, .nil, fun _ => .rfl, fun _ _ hc => (nomatch hc)⟩

theorem twig_branch : Twig [] branch :=
  ⟨rfl, .nil, fun _ => .rfl, fun _ _ hc => (nomatch hc)⟩

/-- A further leaf on a twig is one more name. -/
theorem Twig.withLeaf {names : List String} {x : Outline} (h : Twig names x) (n : String) :
    Twig (names ++ [n]) (Outline.withLeaf n (some x)) := by
  obtain ⟨kept, nested?⟩ := x
  have hsorted : (Named.keys (nested?.getD [])).Pairwise (· < ·) := h.sorted
  have hkeys (k : String) : k ∈ Named.keys (nested?.getD []) ↔ k ∈ names := h.keys k
  refine ⟨h.unmarked, pairwise_place hsorted, fun k => ?_, fun k c hc => ?_⟩
  · rw [List.mem_append, List.mem_singleton, or_comm, ← hkeys]
    exact mem_keys_place
  · change Named.get? (place n (fun _ => leaf) (nested?.getD [])) k = some c at hc
    rw [get?_place hsorted] at hc
    split at hc
    · exact (Option.some.inj hc).symm
    · exact h.leaves k c hc

theorem mem_members_concat_of_ne {g n : String} (h : head p ≠ g) :
    n ∈ members (qs ++ [p]) g ↔ n ∈ members qs g := by
  refine mem_members_concat.trans (or_iff_left fun hp => h ?_)
  exact head_of_parent?_eq_some hp.1

/-- A node is put under the head of a property. -/
theorem Built.place (h : Built qs nested) {change : Option Outline → Outline}
    (hnew : Twig (members (qs ++ [p]) (head p)) (change (Named.get? nested (head p)))) :
    Built (qs ++ [p]) (Outline.place (head p) change nested) := by
  refine ⟨pairwise_place h.sorted, fun k => ?_, fun k x hx => ?_⟩
  · rw [mem_keys_place, mem_heads_concat, h.keys]
  · rw [get?_place h.sorted] at hx
    by_cases hk : head p = k
    · rw [if_pos hk] at hx
      subst hk
      exact Option.some.inj hx ▸ hnew
    · rw [if_neg hk] at hx
      exact (h.twigs k x hx).congr fun n => mem_members_concat_of_ne hk

/-- The node under a name, or a new one if there is none. -/
theorem Built.twig_getD (h : Built qs nested) (k : String) {x : Outline} (hx : Twig [] x) :
    Twig (members qs k) ((Named.get? nested k).getD x) := by
  cases hthere : Named.get? nested k with
  | some y => exact h.twigs k y hthere
  | none =>
    have habsent := mt (h.keys k).mpr (Named.get?_eq_none_iff.mp hthere)
    exact hx.congr fun n => ⟨fun hn => absurd (head_mem_of_mem_members hn) habsent, nofun⟩

/-- **Every property gets its node.** -/
theorem Built.add (h : Built qs nested) {disabledFolders : NameSet}
    (hon : isOff disabledFolders p = false) :
    Built (qs ++ [p]) (Outline.add disabledFolders nested p) := by
  unfold Outline.add
  cases hpar : p.parent? with
  | none =>
    simp only
    rw [← head_of_parent?_eq_none hpar]
    refine h.place ((h.twig_getD (head p) twig_leaf).congr fun n => ?_)
    simp [mem_members_concat, hpar]
  | some g =>
    have hon : (p.inFolder && disabledFolders.contains g) = false := by
      rw [isOff, hpar] at hon
      exact hon
    have hleaf (x : Option Outline) :
        withLeaf p.name x = withLeaf p.name (some (x.getD branch)) := by
      cases x <;> rfl
    simp only [hon, Bool.false_eq_true, if_false]
    rw [← head_of_parent?_eq_some hpar]
    refine h.place ?_
    rw [hleaf]
    refine ((h.twig_getD (head p) twig_branch).withLeaf p.name).congr fun n => ?_
    simp [mem_members_concat, hpar, head_of_parent?_eq_some hpar]

/-- Properties are added one after the other, leaving out those whose folders are disabled. -/
theorem Built.foldl_add (h : Built qs nested) (disabledFolders : NameSet) (ps : List Property) :
    Built (qs ++ listed disabledFolders ps) (ps.foldl (Outline.add disabledFolders) nested) := by
  unfold listed
  induction ps generalizing qs nested with
  | nil => simpa using h
  | cons p ps ih =>
    rw [List.foldl_cons, List.filter_cons]
    cases hoff : isOff disabledFolders p with
    | false =>
      have := ih (h.add hoff)
      rwa [List.append_assoc] at this
    | true =>
      have hskip : Outline.add disabledFolders nested p = nested := by
        unfold isOff at hoff
        unfold Outline.add
        cases hpar : p.parent? with
        | none => simp [hpar] at hoff
        | some g =>
          rw [hpar] at hoff
          exact if_pos hoff
      rw [hskip]
      exact ih h

variable (disabledFolders : NameSet) (ps : List Property)

/-- An outline is built from nothing. -/
theorem built_build : Built (listed disabledFolders ps)
    (ps.foldl (Outline.add disabledFolders) []) :=
  have hnil : Built [] [] := ⟨.nil, fun _ => .rfl, fun _ _ hx => absurd hx (by simp)⟩
  hnil.foldl_add disabledFolders ps

theorem nodup_of_pairwise_lt {ks : List String} (h : ks.Pairwise (· < ·)) : ks.Nodup := by
  refine h.imp fun {a b} hlt heq => ?_
  subst heq
  exact String.lt_irrefl a hlt

/-- **The outline of a report has the names of its properties.** -/
theorem shaped_build : Shaped (listed disabledFolders ps) (build disabledFolders ps) where
  fits := ⟨nodup_of_pairwise_lt (built_build disabledFolders ps).sorted,
    fun k hk => ((built_build disabledFolders ps).keys k).mp hk⟩
  group g x hx :=
    have htwig := (built_build disabledFolders ps).twigs g x hx
    ⟨nodup_of_pairwise_lt htwig.sorted, fun n hn => (htwig.keys n).mp hn⟩

/-- **In the outline of a report nothing is marked.** -/
theorem closed_build : Closed (build disabledFolders ps) := by
  refine closed_iff.mpr fun k x hx => ?_
  have htwig := (built_build disabledFolders ps).twigs k x hx
  have hnone (p : List String) : ¬ MarkedAt x p := by
    rintro ⟨y, hy, hk⟩
    cases p with
    | nil =>
      obtain rfl := Option.some.inj hy
      rw [htwig.unmarked] at hk
      exact nomatch hk
    | cons n p =>
      obtain ⟨c, hc, hy⟩ := Option.bind_eq_some_iff.mp hy
      rw [htwig.leaves n c hc] at hy
      cases p with
      | nil =>
        obtain rfl := Option.some.inj hy
        exact nomatch hk
      | cons m p => exact nomatch hy
  refine ⟨closed_iff.mpr fun n c hc => ?_, fun p hp => absurd hp (hnone p)⟩
  rw [htwig.leaves n c hc]
  refine ⟨closed_iff.mpr fun _ _ hd => (nomatch hd), fun p hp => ?_⟩
  refine absurd (markedAt_cons hc ?_) (hnone (n :: p))
  rw [htwig.leaves n c hc]
  exact hp

/-- **The outline of a report has a node for every property.** -/
theorem hasPath_build {p : Property} (hp : p ∈ listed disabledFolders ps) :
    (build disabledFolders ps).hasPath p.path = true := by
  have hbuilt := built_build disabledFolders ps
  obtain ⟨x, hx⟩ := Tree.mem_keys_iff (t := build disabledFolders ps).mp
    ((hbuilt.keys (head p)).mpr (head_mem_heads hp))
  cases hpar : p.parent? with
  | none =>
    rw [head, hpar] at hx
    rw [path_of_parent?_eq_none hpar]
    exact hasPath_singleton.mpr ⟨x, hx⟩
  | some g =>
    rw [head, hpar] at hx
    rw [path_of_parent?_eq_some hpar]
    refine hasPath_cons.mpr ⟨x, hx, hasPath_singleton.mpr (Tree.mem_keys_iff.mp ?_)⟩
    exact ((hbuilt.twigs g x hx).keys p.name).mpr (mem_members.mpr ⟨p, hp, hpar, rfl⟩)

end Build

/-! ## Values in their places -/

section Fill

variable {ps : List Property} {keep : List String → Bool}

theorem fits_insert {names : List String} {o : Object} (h : Fits names (Value.obj o)) {k : String}
    (hk : k ∈ names) (v : Value) : Fits names (Value.obj (Named.insert o k v)) :=
  ⟨Named.nodup_keys_insert h.nodup k v,
    fun j hj => (Named.mem_keys_insert.mp hj).elim (fun heq => heq ▸ hk) (h.sub j)⟩

/-- Of an object in which a value was put, the kept part has the value if its name is kept. -/
theorem keptOf_insert (keep : String → Bool) (fields : Object) (n : String) (v : Value) :
    keptOf keep (Named.insert fields n v) =
      if keep n then Named.insert (keptOf keep fields) n v else keptOf keep fields := by
  unfold keptOf
  induction fields with
  | nil => cases hk : keep n <;> simp [Named.insert, hk]
  | cons kv fields ih =>
    obtain ⟨k, w⟩ := kv
    rw [Named.insert]
    by_cases hkn : k = n
    · subst hkn
      cases hk : keep k <;> simp [Named.insert, hk]
    · rw [if_neg hkn, List.filter_cons, ih, List.filter_cons]
      cases hk : keep n <;> cases hk' : keep k <;> simp [Named.insert, hkn]

/-- The entries of a group that is there, or none. -/
def entriesOf (o : Object) (g : String) : Object :=
  match Named.get? o g with
  | some (.obj group) => group
  | _ => []

/-- A value in a group is put among the group's other entries. -/
theorem place_of_parent?_eq_some {p : Property} {g : String} (h : p.parent? = some g) (o : Object)
    (v : Value) : Report.place o p v =
      Named.insert o g (.obj (Named.insert (entriesOf o g) p.name v)) := by
  simp only [Report.place, h, entriesOf]
  rcases Named.get? o g with - | (_ | _ | _ | _ | _ | _) <;> rfl

theorem place_of_parent?_eq_none {p : Property} (h : p.parent? = none) (o : Object) (v : Value) :
    Report.place o p v = Named.insert o p.name v := by
  rw [Report.place, h]

/-- A value is put somewhere under the head of its property. -/
theorem exists_place_eq (o : Object) (p : Property) (v : Value) :
    ∃ w, Report.place o p v = Named.insert o (head p) w := by
  cases hpar : p.parent? with
  | none => exact ⟨v, by rw [place_of_parent?_eq_none hpar, head_of_parent?_eq_none hpar]⟩
  | some g => exact ⟨_, by rw [place_of_parent?_eq_some hpar, head_of_parent?_eq_some hpar]⟩

/-- A value that is put in its place, or not, changes nothing under other names. -/
theorem get?_place_of_ne {p : Property} {k : String} (h : head p ≠ k) (put : Bool) (o : Object)
    (v : Value) : Named.get? (if put then Report.place o p v else o) k = Named.get? o k := by
  obtain ⟨w, hw⟩ := exists_place_eq o p v
  cases put with
  | false => rfl
  | true => rw [if_pos rfl, hw, Named.get?_insert, if_neg h]

/-- A report gets no names but those of its properties. -/
theorem fits_place {o : Object} (h : Fits (heads ps) (Value.obj o)) {p : Property} (hp : p ∈ ps)
    (put : Bool) (v : Value) :
    Fits (heads ps) (Value.obj (if put then Report.place o p v else o)) := by
  obtain ⟨w, hw⟩ := exists_place_eq o p v
  cases put with
  | false => exact h
  | true =>
    rw [if_pos rfl, hw]
    exact fits_insert h (head_mem_heads hp) w

/-- A group of full data and of cut data into which values were put so far. -/
def GroupFilled (names : List String) (keep : String → Bool) (x y : Option Value) : Prop :=
  (x = none ∧ y = none) ∨ ∃ fields, Fits names (Value.obj fields) ∧ x = some (.obj fields) ∧
    y = if (keptOf keep fields).isEmpty then none else some (.obj (keptOf keep fields))

/-- Full data and cut data into which values were put so far. -/
structure Filled (ps : List Property) (keep : List String → Bool) (o o' : Object) : Prop where
  fits : Fits (heads ps) (Value.obj o)
  fits_cut : Fits (heads ps) (Value.obj o')
  top : ∀ p ∈ ps, p.parent? = none →
    Named.get? o' p.name = if keep [p.name] then Named.get? o p.name else none
  group : ∀ g, IsGroup ps g → GroupFilled (members ps g) (fun n => keep [g, n])
    (Named.get? o g) (Named.get? o' g)

/-- Of a group into which values were put the cut data have what is kept, or nothing at all. -/
theorem GroupFilled.agrees {names : List String} {keep : String → Bool} {x y : Option Value}
    (h : GroupFilled names keep x y) : GroupAgrees names keep x y := by
  obtain ⟨rfl, rfl⟩ | ⟨fields, hfits, rfl, rfl⟩ := h
  · exact .gone
  · split
    · rename_i hempty
      exact .lost hfits (List.isEmpty_iff.mp hempty)
    · exact .part hfits

/-- Data into which values were put in step agree. -/
theorem Filled.agrees {o o' : Object} (h : Filled ps keep o o') :
    Agrees ps keep (.obj o) (.obj o') :=
  ⟨h.fits, h.fits_cut, h.top, fun g hg => (h.group g hg).agrees⟩

/-- What a group of full data and of cut data have. -/
theorem GroupFilled.entriesOf {names : List String} {keep : String → Bool} {o o' : Object}
    {g : String} (h : GroupFilled names keep (Named.get? o g) (Named.get? o' g)) :
    Fits names (Value.obj (Outline.entriesOf o g)) ∧
      Outline.entriesOf o' g = keptOf keep (Outline.entriesOf o g) := by
  unfold Outline.entriesOf
  obtain ⟨ho, ho'⟩ | ⟨fields, hfits, ho, ho'⟩ := h
  · rw [ho, ho']
    exact ⟨⟨.nil, fun k hk => nomatch hk⟩, rfl⟩
  · rw [ho, ho']
    refine ⟨hfits, ?_⟩
    by_cases hempty : (keptOf keep fields).isEmpty = true
    · rw [if_pos hempty]
      exact (List.isEmpty_iff.mp hempty).symm
    · rw [if_neg hempty]

/-- A value put into a group, and into the cut group if it is kept. -/
theorem GroupFilled.insert {names : List String} {keep : String → Bool} {o o' : Object}
    {g n : String} (h : GroupFilled names keep (Named.get? o g) (Named.get? o' g))
    (hn : n ∈ names) (v : Value) :
    GroupFilled names keep (some (.obj (Named.insert (Outline.entriesOf o g) n v)))
      (if keep n then some (.obj (Named.insert (Outline.entriesOf o' g) n v))
        else Named.get? o' g) := by
  obtain ⟨hfits, hentries⟩ := h.entriesOf
  refine .inr ⟨_, fits_insert hfits hn v, rfl, ?_⟩
  rw [keptOf_insert, hentries]
  by_cases hk : keep n = true
  · have hsome : (Named.insert (keptOf keep (Outline.entriesOf o g)) n v).isEmpty = false := by
      refine Bool.eq_false_iff.mpr fun hempty => ?_
      have hin : n ∈ Named.keys (Named.insert (keptOf keep (Outline.entriesOf o g)) n v) :=
        Named.mem_keys_insert.mpr (.inl rfl)
      rw [List.isEmpty_iff.mp hempty] at hin
      exact nomatch hin
    rw [if_pos hk, if_pos hk, hsome]
    rfl
  · rw [if_neg hk, if_neg hk]
    unfold Outline.entriesOf
    obtain ⟨ho, ho'⟩ | ⟨fields, -, ho, ho'⟩ := h
    · rw [ho', ho]
      rfl
    · rw [ho', ho]

/-- **A value put in its place keeps data in agreement**, in the cut data if it is kept. -/
theorem Filled.place {o o' : Object} (h : Filled ps keep o o') (hap : Apart ps) {p : Property}
    (hp : p ∈ ps) (v : Value) : Filled ps keep (Report.place o p v)
      (if keep p.path then Report.place o' p v else o') := by
  refine ⟨fits_place h.fits hp true v, fits_place h.fits_cut hp _ v, fun q hq hqpar => ?_,
    fun g hg => ?_⟩
  · have htop := h.top q hq hqpar
    by_cases hhead : head p = q.name
    · have hpar := hap.parent?_eq_none hp hq hqpar hhead
      have hname : p.name = q.name := (head_of_parent?_eq_none hpar).symm.trans hhead
      rw [path_of_parent?_eq_none hpar, place_of_parent?_eq_none hpar,
        place_of_parent?_eq_none hpar, hname, Named.get?_insert, if_pos rfl]
      by_cases hk : keep [q.name] = true
      · rw [if_pos hk, if_pos hk, Named.get?_insert, if_pos rfl]
      · rw [if_neg hk] at htop ⊢
        rw [if_neg hk, htop]
    · rw [get?_place_of_ne hhead, htop, ← get?_place_of_ne hhead true o v]
      rfl
  · have hgroup := h.group g hg
    by_cases hhead : head p = g
    · subst hhead
      have hpar := hap.parent?_eq_some hp hg
      rw [path_of_parent?_eq_some hpar, place_of_parent?_eq_some hpar,
        place_of_parent?_eq_some hpar, Named.get?_insert, if_pos rfl, apply_ite (Named.get? · _),
        Named.get?_insert, if_pos rfl]
      exact hgroup.insert (mem_members.mpr ⟨p, hp, hpar, rfl⟩) v
    · rw [← get?_place_of_ne hhead true o v] at hgroup
      rw [get?_place_of_ne hhead]
      exact hgroup

/-- The data of some properties with these values. -/
def dataOf (value : Property → Value) (ps : List Property) : Object :=
  ps.foldl (fun o p => Report.place o p (value p)) []

/-- **At the beginning full data and cut data agree.** -/
theorem agrees_dataOf (hap : Apart ps) (keep : List String → Bool) (value : Property → Value) :
    Agrees ps keep (.obj (dataOf value ps)) (.obj (dataOf value (keptProperties keep ps))) := by
  suffices hfold : ∀ qs, (∀ p ∈ qs, p ∈ ps) → ∀ o o', Filled ps keep o o' →
      Filled ps keep (qs.foldl (fun o p => Report.place o p (value p)) o)
        ((keptProperties keep qs).foldl (fun o p => Report.place o p (value p)) o') by
    refine (hfold ps (fun _ => id) [] [] ?_).agrees
    refine ⟨⟨.nil, fun _ hk => (nomatch hk)⟩, ⟨.nil, fun _ hk => (nomatch hk)⟩,
      fun p _ _ => ?_, fun g _ => .inl ⟨rfl, rfl⟩⟩
    cases keep [p.name] <;> rfl
  intro qs
  unfold keptProperties
  induction qs with
  | nil => exact fun _ _ _ h => h
  | cons p qs ih =>
    intro hqs o o' h
    obtain ⟨hp, hqs⟩ := List.forall_mem_cons.mp hqs
    have hstep := h.place hap hp (value p)
    rw [List.foldl_cons, List.filter_cons]
    by_cases hk : keep p.path = true
    · rw [if_pos hk] at hstep ⊢
      exact ih hqs _ _ hstep
    · rw [if_neg hk] at hstep ⊢
      exact ih hqs _ _ hstep

end Fill

end Outline

end DeviceStats
