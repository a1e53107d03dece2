import DeviceStats.Declaration
import DeviceStats.Proofs.Match.Addressed
import DeviceStats.Proofs.Outline.Conditions

/-!
# Proofs/Outline/Tagging — full data and cut data are tagged alike

A tag without locations goes to the items of one property after the other; on a dropped property it
finds nothing in the cut data (`Agrees.placeItems`).  A tag with locations goes to what they address
below each child, and a group that they stand for is kept as a whole (`Agrees.placeAt`).
-/

namespace DeviceStats

open Json (Value Object)
open Layout
open Match (Tree Fits Clear Found stands)

namespace Outline

section Items

variable {ps : List Property} {keep : List String → Bool} {full cut : Value}

/-! ## What agreement says at the place of a property -/

theorem GroupAgrees.child?_eq {names : List String} {keep : String → Bool} {x y : Option Value}
    (h : GroupAgrees names keep x y) {n : String} (hn : n ∈ names) :
    (y.bind (Tree.child? · n)) = if keep n then x.bind (Tree.child? · n) else none := by
  cases h with
  | gone => simp
  | @whole v hkeep =>
    split
    · rfl
    · rename_i hk
      exact Named.get?_eq_none_iff.mpr fun hmem => hk (hkeep n hmem hn)
  | @part fields h => exact get?_keptOf keep fields n
  | @lost fields h hnone =>
    split
    · rename_i hk
      refine (Named.get?_eq_none_iff.mpr fun hmem => ?_).symm
      have := keep_eq_false_of_keptOf_eq_nil hnone hmem
      rw [hk] at this
      exact nomatch this
    · rfl

/-- **Cut data have at the place of a property what full data have**, if the property is kept, and
else nothing. -/
theorem Agrees.at?_cut (h : Agrees ps keep full cut) {p : Property} (hp : p ∈ ps) :
    Tree.at? cut p.path = if keep p.path then Tree.at? full p.path else none := by
  cases hpar : p.parent? with
  | none =>
    rw [at?_of_parent?_eq_none _ hpar, at?_of_parent?_eq_none _ hpar, path_of_parent?_eq_none hpar]
    exact h.top p hp hpar
  | some g =>
    rw [at?_of_parent?_eq_some _ hpar, at?_of_parent?_eq_some _ hpar, path_of_parent?_eq_some hpar]
    exact (h.group g ⟨p, hp, hpar⟩).child?_eq (mem_members.mpr ⟨p, hp, hpar, rfl⟩)

/-! ## One change at the place of a property -/

theorem modifyAt_cons_eq_sift {v : Value} (hn : (Tree.keys v).Nodup) (f : Value → Value)
    (k : String) (p : List String) : Tree.modifyAt f (k :: p) v =
      Tree.sift (fun j c => some (if j = k then Tree.modifyAt f p c else c)) v := by
  have hupdate : Tree.modifyAt f (k :: p) v =
      Tree.update (fun _ c => some (Tree.modifyAt f p c)) v k := by
    rw [Tree.modifyAt, Tree.update]
    cases Tree.child? v k <;> rfl
  rw [hupdate, Tree.update_eq_sift hn]
  refine Tree.sift_congr fun kv _ => ?_
  split <;> rfl

theorem even_modifyAt (names : List String) (f : Value → Value) (n : String) :
    Even names fun v => some (Tree.modifyAt f [n] v) where
  keys v v' hv := by
    obtain rfl := Option.some.inj hv
    rw [Tree.keys_modifyAt]
  sift := .inr ⟨fun j c => some (if j = n then f c else c), fun fields hf =>
    congrArg some (modifyAt_cons_eq_sift hf.nodup f n [])⟩

theorem modifyAt_eq_self {f : Value → Value} {v : Value} {path : List String} (hne : path ≠ [])
    (h : Tree.at? v path = none) : Tree.modifyAt f path v = v := by
  induction path generalizing v with
  | nil => exact absurd rfl hne
  | cons k path ih =>
    rw [Tree.modifyAt]
    rw [Tree.at?_cons] at h
    cases hc : Tree.child? v k with
    | none => rfl
    | some c =>
      cases path with
      | nil => simp [hc] at h
      | cons j path =>
        rw [hc] at h
        simp only
        rw [ih (List.cons_ne_nil j path) h, Match.Tree.setChild_self hc]

/-- **A change at the place of a property keeps data in agreement.** -/
theorem Agrees.modifyAt (h : Agrees ps keep full cut) (f : Value → Value) {p : Property}
    (hap : Apart ps) (hp : p ∈ ps) :
    Agrees ps keep (Tree.modifyAt f p.path full) (Tree.modifyAt f p.path cut) := by
  cases hpar : p.parent? with
  | none =>
    rw [path_of_parent?_eq_none hpar, modifyAt_cons_eq_sift h.fits.nodup,
      modifyAt_cons_eq_sift h.fits_cut.nodup]
    refine h.sift fun g hg x y hxy => ?_
    have hne : g ≠ p.name := fun heq => hap p hp hpar (heq ▸ hg)
    simp only [if_neg hne, Option.bind_fun_some]
    exact hxy
  | some g' =>
    rw [path_of_parent?_eq_some hpar, modifyAt_cons_eq_sift h.fits.nodup,
      modifyAt_cons_eq_sift h.fits_cut.nodup]
    refine h.sift fun g hg x y hxy => ?_
    by_cases heq : g = g'
    · simp only [if_pos heq]
      exact hxy.bind (even_modifyAt _ f p.name)
    · simp only [if_neg heq, Option.bind_fun_some]
      exact hxy

theorem path_ne_nil (p : Property) : p.path ≠ [] := by
  unfold Property.path
  split <;> exact List.cons_ne_nil _ _

theorem path_of_collection? {p : Property} {c : Tag.Collection} (h : p.collection? = some c) :
    c.path = p.path := by
  unfold Property.collection? at h
  split at h
  · exact congrArg Tag.Collection.path (Option.some.inj h).symm
  · exact nomatch h

theorem collections_cons_of_eq_none {p : Property} (h : p.collection? = none)
    (ps : List Property) : Declaration.collections (p :: ps) = Declaration.collections ps :=
  List.filterMap_cons_none h

theorem collections_cons_of_eq_some {p : Property} {c : Tag.Collection}
    (h : p.collection? = some c) (ps : List Property) :
    Declaration.collections (p :: ps) = c :: Declaration.collections ps :=
  List.filterMap_cons_some h

/-- **Tags for the items of properties keep data in agreement**, though in the cut data only the
items of kept properties are tagged. -/
theorem Agrees.foldl_modifyAt (h : Agrees ps keep full cut) (f : Tag.Collection → Value → Value)
    (hap : Apart ps) {qs : List Property} (hqs : ∀ p ∈ qs, p ∈ ps) :
    Agrees ps keep
      ((Declaration.collections qs).foldl (fun v c => Tree.modifyAt (f c) c.path v) full)
      ((Declaration.collections (qs.filter fun p => keep p.path)).foldl
        (fun v c => Tree.modifyAt (f c) c.path v) cut) := by
  induction qs generalizing full cut with
  | nil => exact h
  | cons p qs ih =>
    obtain ⟨hp, hqs⟩ := List.forall_mem_cons.mp hqs
    cases hcol : p.collection? with
    | none =>
      rw [collections_cons_of_eq_none hcol, List.filter_cons]
      split
      · rw [collections_cons_of_eq_none hcol]
        exact ih h hqs
      · exact ih h hqs
    | some c =>
      have hpath : c.path = p.path := path_of_collection? hcol
      rw [collections_cons_of_eq_some hcol, List.foldl_cons, List.filter_cons, hpath]
      have hstep := h.modifyAt (f c) hap hp
      split
      · rw [collections_cons_of_eq_some hcol, List.foldl_cons, hpath]
        exact ih hstep hqs
      · rename_i hkeep
        have hnone := h.at?_cut hp
        rw [if_neg hkeep] at hnone
        rw [modifyAt_eq_self (path_ne_nil p) hnone] at hstep
        exact ih hstep hqs

end Items

/-! ## Tags that locations place -/

section Located

variable {ps : List Property} {keep : List String → Bool} {full cut : Value}
  {names tops : List String} (definitions : TagDefinitions) (tags : Object)

/-- What locations make of a child that they tag or in which they tag. -/
def tagAt (scope : Tag.Scope) (tops : List String) (locations : Object) (k : String) (c : Value) :
    Value :=
  (Match.addressedAt tops locations k c).eraseDups.foldl (fun c x =>
    Tree.modifyAt (fun item => Tag.apply true definitions tags
      (Tag.subjectOf x.key item (scope.subjectField? x.path)) item) x.below c) c

theorem foldl_placeAt (scope : Tag.Scope) (founds : List Found) (v : Value) :
    founds.foldl (Tag.placeAt definitions tags scope) v = founds.foldl (fun v x =>
      Tree.modifyAt (fun item => Tag.apply true definitions tags
        (Tag.subjectOf x.key item (scope.subjectField? x.path)) item) (x.head :: x.below) v) v := by
  refine congrArg (List.foldl · v founds) (funext₂ fun v x => ?_)
  rw [Tag.placeAt, Found.full_eq]

theorem place_cons (scope : Tag.Scope) (e : String × Value) (rest : Object) (v : Value) :
    Tag.place definitions tags scope (some (.obj (e :: rest))) v =
      (Match.deep v (.obj (e :: rest))).foldl (Tag.placeAt definitions tags scope) v := rfl

/-- **Tags are placed child by child.** -/
theorem child?_place (scope : Tag.Scope) {v : Value} (hv : Fits tops v) {e : String × Value}
    {rest : Object} (hc : ∀ e' ∈ e :: rest, Clear tops e'.1) (k : String) :
    Tree.child? (Tag.place definitions tags scope (some (.obj (e :: rest))) v) k =
      (Tree.child? v k).map (tagAt definitions tags scope tops (e :: rest) k) := by
  rw [place_cons, foldl_placeAt, Tree.child?_foldl_modifyAt, Match.filter_deep hv hc]
  cases Tree.child? v k <;> rfl

theorem keys_place (scope : Tag.Scope) (e : String × Value) (rest : Object) (v : Value) :
    Tree.keys (Tag.place definitions tags scope (some (.obj (e :: rest))) v) = Tree.keys v := by
  rw [place_cons, foldl_placeAt, Tree.keys_foldl_modifyAt]

variable {definitions tags} {scope scope' : Tag.Scope} {locations : Object} {k : String}

theorem tagAt_of_not_stands (h : ∀ e ∈ locations, stands tops e.1 k = false) (c : Value) :
    tagAt definitions tags scope tops locations k c = c := by
  have hnone : Match.addressedAt tops locations k c = [] := by
    refine List.flatMap_eq_nil_iff.mpr fun e he => ?_
    rw [h e he]
    rfl
  rw [tagAt, hnone]
  rfl

/-- Scopes that give the same subjects tag alike. -/
theorem tagAt_congr {c : Value} (h : ∀ x ∈ Match.addressedAt tops locations k c,
    scope.subjectField? x.path = scope'.subjectField? x.path) :
    tagAt definitions tags scope tops locations k c =
      tagAt definitions tags scope' tops locations k c := by
  refine List.foldl_ext _ _ c fun c x hx => ?_
  rw [h x (List.mem_eraseDups.mp hx)]

theorem keys_write_subset (subject : String) (o : Object) (tag : String × Value) {n : String}
    (h : n ∈ Named.keys (Tag.write true definitions subject o tag)) :
    n ∈ Named.keys o ∨ n = tag.1 := by
  unfold Tag.write at h
  simp only [Bool.not_true, Bool.false_and, Bool.false_eq_true, if_false] at h
  split at h
  · by_cases hn : n = tag.1
    · exact .inr hn
    · refine .inl ?_
      rw [← not_not (a := n ∈ Named.keys o), ← Named.get?_eq_none_iff]
      rw [← not_not (a := n ∈ Named.keys (Named.insert _ _ _)), ← Named.get?_eq_none_iff,
        Named.get?_insert, if_neg (Ne.symm hn)] at h
      exact h
  · exact .inl h

theorem keys_apply_subset (subject : String) (v : Value) {n : String}
    (h : n ∈ Tree.keys (Tag.apply true definitions tags subject v)) :
    n ∈ Tree.keys v ∨ n ∈ Named.keys tags := by
  cases v with
  | obj o =>
    change n ∈ Named.keys (tags.foldl (Tag.write true definitions subject) o) at h
    change n ∈ Named.keys o ∨ _
    induction tags generalizing o with
    | nil => exact .inl h
    | cons tag tags ih =>
      obtain h | h := ih _ h
      · obtain h | rfl := keys_write_subset subject o tag h
        · exact .inl h
        · exact .inr List.mem_cons_self
      · exact .inr (List.mem_cons_of_mem _ h)
  | _ => exact .inl h

/-- A node found at a child itself is found by a location that ends there. -/
theorem exists_of_below_eq_nil {c : Value} {x : Found}
    (hx : x ∈ Match.addressedAt tops locations k c) (h : x.below = []) :
    ∃ e ∈ locations, stands tops e.1 k = true ∧ ∀ sub, e.2 ≠ .obj sub := by
  obtain ⟨e, he, hx⟩ := List.mem_flatMap.mp hx
  split at hx
  · rename_i hk
    refine ⟨e, he, hk, fun sub hsub => ?_⟩
    rw [hsub, Match.addressedOne] at hx
    split at hx
    · obtain ⟨q, hq⟩ := Match.prefix_of_mem_addressedFields hx
      rw [Found.below, Found.full, ← hq] at h
      simp at h
    · cases hx
  · cases hx

/-- The names that tagging a child gives it are those of the tags. -/
theorem keys_tagAt_subset {c : Value} {n : String}
    (h : n ∈ Tree.keys (tagAt definitions tags scope tops locations k c)) :
    n ∈ Tree.keys c ∨ n ∈ Named.keys tags ∧
      ∃ e ∈ locations, stands tops e.1 k = true ∧ ∀ sub, e.2 ≠ .obj sub := by
  have hfounds (x : Found) (hx : x ∈ (Match.addressedAt tops locations k c).eraseDups) :
      x.below = [] → ∃ e ∈ locations, stands tops e.1 k = true ∧ ∀ sub, e.2 ≠ .obj sub :=
    exists_of_below_eq_nil (List.mem_eraseDups.mp hx)
  unfold tagAt at h
  generalize (Match.addressedAt tops locations k c).eraseDups = founds at h hfounds
  induction founds generalizing c with
  | nil => exact .inl h
  | cons x founds ih =>
    obtain ⟨hx, hfounds⟩ := List.forall_mem_cons.mp hfounds
    rw [List.foldl_cons] at h
    obtain h | h := ih h hfounds
    · cases hbelow : x.below with
      | nil =>
        rw [hbelow] at h
        obtain h | h := keys_apply_subset _ _ h
        · exact .inl h
        · exact .inr ⟨h, hx hbelow⟩
      | cons j path =>
        rw [hbelow, Tree.keys_modifyAt] at h
        exact .inl h
    · exact .inr h

/-! ## Subjects of tagged items -/

theorem subjectField?_eq {path : List String} (ps : List Property)
    (h : ∀ p ∈ ps, p.path <+: path → keep p.path = true) :
    (Tag.Scope.report (Declaration.collections ps)).subjectField? path =
      (Tag.Scope.report (Declaration.collections
        (ps.filter fun p => keep p.path))).subjectField? path := by
  unfold Tag.Scope.subjectField?
  refine congrArg (Option.bind · _) ?_
  induction ps with
  | nil => rfl
  | cons p ps ih =>
    obtain ⟨hp, hps⟩ := List.forall_mem_cons.mp h
    have ih := ih hps
    rw [List.filter_cons]
    cases hcol : p.collection? with
    | none =>
      rw [collections_cons_of_eq_none hcol, ih]
      split
      · rw [collections_cons_of_eq_none hcol]
      · rfl
    | some c =>
      have hpath : c.path = p.path := path_of_collection? hcol
      rw [collections_cons_of_eq_some hcol, List.find?_cons]
      by_cases hpre : c.path.isPrefixOf path = true
      · rw [if_pos (hp (hpath ▸ List.isPrefixOf_iff_prefix.mp hpre)),
          collections_cons_of_eq_some hcol, List.find?_cons, hpre]
      · rw [Bool.eq_false_iff.mpr hpre, ih]
        by_cases hk : keep p.path = true
        · rw [if_pos hk, collections_cons_of_eq_some hcol, List.find?_cons,
            Bool.eq_false_iff.mpr hpre]
        · rw [if_neg hk]

theorem head_of_mem_addressedAt {c : Value} {x : Found}
    (hx : x ∈ Match.addressedAt tops locations k c) : x.head = k := by
  obtain ⟨e, he, hx⟩ := List.mem_flatMap.mp hx
  split at hx
  · exact Match.head_of_mem_addressedOne hx
  · cases hx

theorem head_eq_of_prefix {c : Value} {x : Found}
    (hx : x ∈ Match.addressedAt tops locations k c) {p : Property} (h : p.path <+: x.path) :
    head p = k := by
  obtain ⟨rest, hp⟩ := exists_path_eq p
  rw [hp] at h
  obtain ⟨q, hq⟩ := h
  rw [← head_of_mem_addressedAt hx, Found.head, ← hq]
  rfl

/-- A path goes on from a node through a child that is there. -/
theorem mem_keys_of_prefix {n : String} {x : Found} {c : Value} {path : List String}
    {fields : Object} (hx : x ∈ Match.addressedFields path fields c)
    (h : path ++ [n] <+: x.path) : n ∈ Tree.keys c := by
  induction fields with
  | nil =>
    rw [Match.addressedFields] at hx
    cases hx
  | cons e fields ih =>
    rw [Match.addressedFields_cons] at hx
    obtain hx | hx := List.mem_append.mp hx
    · obtain ⟨j, -, hx⟩ := List.mem_flatMap.mp hx
      cases hsub : e.2 with
      | obj sub =>
        simp only [hsub] at hx
        split at hx
        · rename_i d hd
          split at hx
          · have hj := Match.prefix_of_mem_addressedFields hx
            have heq := (List.prefix_of_prefix_length_le h hj (by simp)).eq_of_length (by simp)
            obtain rfl : n = j := by simpa using heq
            exact Tree.mem_keys_of_child? hd
          · cases hx
        · cases hx
      | _ =>
        simp only [hsub] at hx
        obtain rfl := List.mem_singleton.mp hx
        exact absurd h.length_le (by simp)
    · exact ih hx

theorem mem_keys_of_prefix_addressedAt {n : String} {x : Found} {c : Value}
    (hx : x ∈ Match.addressedAt tops locations k c) (h : [k, n] <+: x.path) :
    n ∈ Tree.keys c := by
  obtain ⟨e, he, hx⟩ := List.mem_flatMap.mp hx
  split at hx
  · cases hsub : e.2 with
    | obj sub =>
      rw [hsub, Match.addressedOne] at hx
      split at hx
      · exact mem_keys_of_prefix hx h
      · cases hx
    | _ =>
      rw [hsub] at hx
      obtain rfl := List.mem_singleton.mp hx
      exact absurd h.length_le (by simp)
  · cases hx

/-! ## Located tags and agreement -/

/-- What tags with these locations ask of a group: what they may touch is kept, and where they tag
the group itself, it has something that is kept, and no tag has the name of a dropped property. -/
structure Tags (names : List String) (keep : String → Bool) (tops : List String) (tags : Object)
    (locations : Object) (g : String) (x : Option Value) : Prop where
  kept : ∀ e ∈ locations, stands tops e.1 g = true → ∀ v, x = some v → ∀ n ∈ Tree.keys v,
    n ∈ names → keep n = true
  peopled : ∀ e ∈ locations, stands tops e.1 g = true → (∀ sub, e.2 ≠ .obj sub) →
    Peopled names keep x
  apart : ∀ e ∈ locations, stands tops e.1 g = true → (∀ sub, e.2 ≠ .obj sub) → x.isSome →
    ∀ n ∈ names, keep n = false → n ∉ Named.keys tags

/-- Locations that end at no child without children find nothing there. -/
theorem addressedAt_eq_nil {c : Value} (hc : Tree.keys c = [])
    (h : ∀ e ∈ locations, stands tops e.1 k = true → ∃ sub, e.2 = .obj sub) :
    Match.addressedAt tops locations k c = [] := by
  refine List.flatMap_eq_nil_iff.mpr fun e he => ?_
  by_cases hk : stands tops e.1 k = true
  · obtain ⟨sub, hsub⟩ := h e he hk
    rw [if_pos hk, hsub, Match.addressedOne, Match.addressedFields_eq_nil hc, ite_self]
  · rw [if_neg hk]

/-- A group all of which is kept is tagged as a whole. -/
theorem Tags.tagAt_whole {keep : String → Bool} {v : Value} {g : String}
    (ht : Tags names keep tops tags locations g (some v))
    (hv : ∀ n ∈ Tree.keys v, n ∈ names → keep n = true)
    (hscope : Outline.tagAt definitions tags scope tops locations g v =
      Outline.tagAt definitions tags scope' tops locations g v) :
    GroupAgrees names keep (some (Outline.tagAt definitions tags scope tops locations g v))
      (some (Outline.tagAt definitions tags scope' tops locations g v)) := by
  rw [← hscope]
  refine .whole fun n hn hmem => ?_
  obtain hn | ⟨htag, e, he, hk, hleaf⟩ := keys_tagAt_subset hn
  · exact hv n hn hmem
  · refine Bool.of_not_eq_false fun hkeep => ?_
    exact ht.apart e he hk hleaf rfl n hmem hkeep htag

/-- A group that is lost though all of it is kept has nothing in which tags could go. -/
theorem Tags.tagAt_lost {keep : String → Bool} {g : String}
    (ht : Tags names keep tops tags locations g (some (.obj []))) :
    Outline.tagAt definitions tags scope tops locations g (.obj []) = .obj [] := by
  have hfound : Match.addressedAt tops locations g (Value.obj []) = [] := by
    refine addressedAt_eq_nil rfl fun e he hk => ?_
    by_contra hleaf
    obtain ⟨n, hn, -⟩ := ht.peopled e he hk (fun sub hsub => hleaf ⟨sub, hsub⟩) _ rfl
    exact nomatch hn
  rw [Outline.tagAt, hfound]
  rfl

/-- **Tags at locations that stand for a group keep it in agreement.** -/
theorem GroupAgrees.tagAt {keep : String → Bool} {x y : Option Value} {g : String}
    (h : GroupAgrees names keep x y) (ht : Tags names keep tops tags locations g x)
    (hscope : ∀ v, x = some v → (∀ n ∈ Tree.keys v, n ∈ names → keep n = true) →
      Outline.tagAt definitions tags scope tops locations g v =
        Outline.tagAt definitions tags scope' tops locations g v) :
    GroupAgrees names keep (x.map (Outline.tagAt definitions tags scope tops locations g))
      (y.map (Outline.tagAt definitions tags scope' tops locations g)) := by
  by_cases htouch : ∃ e ∈ locations, stands tops e.1 g = true
  · obtain ⟨e, he, hk⟩ := htouch
    have hkept := ht.kept e he hk
    cases h with
    | gone => exact .gone
    | whole hv => exact ht.tagAt_whole hv (hscope _ rfl hv)
    | @part fields h =>
      have hself : keptOf keep fields = fields :=
        keptOf_eq_self fun n hn => hkept _ rfl n hn (h.sub n hn)
      rw [hself]
      exact ht.tagAt_whole (hkept _ rfl) (hscope _ rfl (hkept _ rfl))
    | @lost fields h hnone =>
      obtain rfl : fields = [] :=
        (keptOf_eq_self fun n hn => hkept _ rfl n hn (h.sub n hn)).symm.trans hnone
      rw [Option.map_some, ht.tagAt_lost]
      exact .lost h hnone
  · have hno : ∀ e ∈ locations, stands tops e.1 g = false := fun e he =>
      Bool.eq_false_iff.mpr fun hk => htouch ⟨e, he, hk⟩
    have hself (scope : Tag.Scope) :
        Outline.tagAt definitions tags scope tops locations g = id :=
      funext (tagAt_of_not_stands hno)
    rw [hself, hself, Option.map_id, id, id]
    exact h

end Located

/-! ## Tags of an action -/

section Place

variable {ps : List Property} {keep : List String → Bool} {full cut : Value}
  {definitions : TagDefinitions} {tags : Object}

/-- The scope of tags for some properties. -/
def scopeOf (ps : List Property) : Tag.Scope := .report (Declaration.collections ps)

/-- The kept properties. -/
def keptProperties (keep : List String → Bool) (ps : List Property) : List Property :=
  ps.filter fun p => keep p.path

theorem place_nil (scope : Tag.Scope) (v : Value) :
    Tag.place definitions tags scope (some (.obj [])) v =
      Tag.place definitions tags scope none v := by
  cases scope <;> rfl

section PlaceAt

variable {locations : Object}

/-- Below a property at the top, only it gives subjects. -/
theorem tagAt_scope_top (hap : Apart ps) {p : Property} (hp : p ∈ ps) (hpar : p.parent? = none)
    (hk : keep [p.name] = true) (c : Value) :
    tagAt definitions tags (scopeOf ps) (heads ps) locations p.name c =
      tagAt definitions tags (scopeOf (keptProperties keep ps)) (heads ps) locations p.name c := by
  refine tagAt_congr fun x hx => subjectField?_eq ps fun q hq hpre => ?_
  have hhead := head_eq_of_prefix hx hpre
  have hqpar := hap.parent?_eq_none hq hp hpar hhead
  rw [path_of_parent?_eq_none hqpar, ← hk, ← hhead, head_of_parent?_eq_none hqpar]

/-- Below a group, only its properties that are there give subjects. -/
theorem tagAt_scope_group (hap : Apart ps) {g : String} (hg : IsGroup ps g) {v : Value}
    (hv : ∀ n ∈ Tree.keys v, n ∈ members ps g → keep [g, n] = true) :
    tagAt definitions tags (scopeOf ps) (heads ps) locations g v =
      tagAt definitions tags (scopeOf (keptProperties keep ps)) (heads ps) locations g v := by
  refine tagAt_congr fun x hx => subjectField?_eq ps fun q hq hpre => ?_
  obtain rfl := head_eq_of_prefix hx hpre
  have hqpar := hap.parent?_eq_some hq hg
  rw [path_of_parent?_eq_some hqpar] at hpre ⊢
  exact hv q.name (mem_keys_of_prefix_addressedAt hx hpre) (mem_members.mpr ⟨q, hq, hqpar, rfl⟩)

/-- **Located tags keep data in agreement.** -/
theorem Agrees.placeAt (h : Agrees ps keep full cut) (hap : Apart ps) {e : String × Value}
    {rest : Object} (hl : Legible ps (e :: rest))
    (ht : ∀ g, IsGroup ps g → Tags (members ps g) (fun n => keep [g, n]) (heads ps) tags (e :: rest)
      g (Tree.child? full g)) :
    Agrees ps keep (Tag.place definitions tags (scopeOf ps) (some (.obj (e :: rest))) full)
      (Tag.place definitions tags (scopeOf (keptProperties keep ps)) (some (.obj (e :: rest)))
        cut) where
  fits := Fits.of_sublist h.fits (by rw [keys_place])
  fits_cut := Fits.of_sublist h.fits_cut (by rw [keys_place])
  top p hp hpar := by
    rw [child?_place definitions tags _ h.fits (Legible.clear hl),
      child?_place definitions tags _ h.fits_cut (Legible.clear hl), h.top p hp hpar]
    cases hk : keep [p.name] with
    | false => rfl
    | true =>
      refine congrArg (Option.map · _) (funext fun c => Eq.symm ?_)
      exact tagAt_scope_top hap hp hpar hk c
  group g hg := by
    rw [child?_place definitions tags _ h.fits (Legible.clear hl),
      child?_place definitions tags _ h.fits_cut (Legible.clear hl)]
    exact (h.group g hg).tagAt (ht g hg) fun _ _ hv => tagAt_scope_group hap hg hv

end PlaceAt

/-- **Tags keep data in agreement.** -/
theorem Agrees.place (h : Agrees ps keep full cut) (hap : Apart ps) (locations? : Option Object)
    (hl : Legible ps (locations?.getD []))
    (ht : ∀ g, IsGroup ps g → Tags (members ps g) (fun n => keep [g, n]) (heads ps) tags
      (locations?.getD []) g (Tree.child? full g)) :
    Agrees ps keep (Tag.place definitions tags (scopeOf ps) (locations?.map .obj) full)
      (Tag.place definitions tags (scopeOf (keptProperties keep ps)) (locations?.map .obj)
        cut) := by
  have hall : ∀ p ∈ ps, p ∈ ps := fun _ => id
  have hitems := h.foldl_modifyAt (fun c => Tag.placeItems definitions tags c.subjectField?) hap
    hall
  cases locations? with
  | none => exact hitems
  | some locations =>
    cases locations with
    | nil =>
      rw [Option.map_some, place_nil, place_nil]
      exact hitems
    | cons e rest => exact h.placeAt hap hl ht

/-! ## Tags bring no dropped property back -/

/-- A value with the names of another, and at most its names below them. -/
structure Within (v v' : Value) : Prop where
  keys : Tree.keys v' = Tree.keys v
  below : ∀ k c', Tree.child? v' k = some c' →
    ∃ c, Tree.child? v k = some c ∧ ∀ n ∈ Tree.keys c', n ∈ Tree.keys c

theorem Within.refl (v : Value) : Within v v := ⟨rfl, fun _ c hc => ⟨c, hc, fun _ => id⟩⟩

theorem Within.trans {v v' v'' : Value} (h : Within v v') (h' : Within v' v'') : Within v v'' where
  keys := h'.keys.trans h.keys
  below k c'' hc'' := by
    obtain ⟨c', hc', hsub'⟩ := h'.below k c'' hc''
    obtain ⟨c, hc, hsub⟩ := h.below k c' hc'
    exact ⟨c, hc, fun n hn => hsub n (hsub' n hn)⟩

theorem keys_placeItems (field? : Option String) (v : Value) :
    Tree.keys (Tag.placeItems definitions tags field? v) = Tree.keys v := by
  cases v with
  | obj items =>
    change Named.keys (items.map _) = Named.keys items
    simp [Named.keys, Function.comp_def]
  | _ => rfl

theorem within_modifyAt {f : Value → Value} (hf : ∀ c, Tree.keys (f c) = Tree.keys c) (k : String)
    (p : List String) (v : Value) : Within v (Tree.modifyAt f (k :: p) v) where
  keys := Tree.keys_modifyAt f k p v
  below j c' hc' := by
    rw [Tree.child?_modifyAt] at hc'
    by_cases hk : k = j
    · rw [if_pos hk] at hc'
      obtain ⟨c, hc, rfl⟩ := Option.map_eq_some_iff.mp hc'
      refine ⟨c, hc, fun n hn => ?_⟩
      cases p with
      | nil => rwa [Tree.modifyAt, hf] at hn
      | cons i p => rwa [Tree.keys_modifyAt] at hn
    · rw [if_neg hk] at hc'
      exact ⟨c', hc', fun _ => id⟩

variable (definitions tags) in
theorem within_foldl_placeItems (ps : List Property) (v : Value) :
    Within v ((Declaration.collections ps).foldl (fun v c =>
      Tree.modifyAt (Tag.placeItems definitions tags c.subjectField?) c.path v) v) := by
  induction ps generalizing v with
  | nil => exact .refl v
  | cons p ps ih =>
    cases hcol : p.collection? with
    | none =>
      rw [collections_cons_of_eq_none hcol]
      exact ih v
    | some c =>
      obtain ⟨rest, hpath⟩ := exists_path_eq p
      rw [collections_cons_of_eq_some hcol, List.foldl_cons, path_of_collection? hcol, hpath]
      exact (within_modifyAt (keys_placeItems c.subjectField?) (head p) rest v).trans (ih _)

/-- What has nothing new at the top, nor below it, has nothing new at the place of a property. -/
theorem isSome_at?_of_below {v v' : Value} (h : ∀ k c', Tree.child? v' k = some c' →
      ∃ c, Tree.child? v k = some c ∧ ∀ n ∈ Tree.keys c', n ∈ Tree.keys c)
    {p : Property} (hsome : (Tree.at? v' p.path).isSome) : (Tree.at? v p.path).isSome := by
  obtain ⟨w, hw⟩ := Option.isSome_iff_exists.mp hsome
  cases hpar : p.parent? with
  | none =>
    rw [at?_of_parent?_eq_none _ hpar] at hw ⊢
    obtain ⟨c, hc, -⟩ := h p.name w hw
    rw [hc]
    rfl
  | some g =>
    rw [at?_of_parent?_eq_some _ hpar] at hw ⊢
    obtain ⟨c', hc', hw⟩ := Option.bind_eq_some_iff.mp hw
    obtain ⟨c, hc, hsub⟩ := h g c' hc'
    rw [hc, Option.bind_some]
    have hmem := hsub p.name (Tree.mem_keys_of_child? hw)
    exact Option.isSome_iff_exists.mpr (Tree.mem_keys_iff.mp hmem)

/-- **Located tags bring no dropped property back.** -/
theorem isSome_at?_of_placeAt (h : Agrees ps keep full cut) {e : String × Value} {rest : Object}
    (hl : Legible ps (e :: rest))
    (ht : ∀ g, IsGroup ps g → Tags (members ps g) (fun n => keep [g, n]) (heads ps) tags (e :: rest)
      g (Tree.child? full g))
    {p : Property} (hp : p ∈ ps) (hk : keep p.path = false)
    (hsome : (Tree.at? (Tag.place definitions tags (scopeOf ps) (some (.obj (e :: rest))) full)
      p.path).isSome) : (Tree.at? full p.path).isSome := by
  obtain ⟨w, hw⟩ := Option.isSome_iff_exists.mp hsome
  cases hpar : p.parent? with
  | none =>
    rw [at?_of_parent?_eq_none _ hpar] at hw ⊢
    rw [child?_place definitions tags _ h.fits (Legible.clear hl)] at hw
    obtain ⟨c, hc, -⟩ := Option.map_eq_some_iff.mp hw
    rw [hc]
    rfl
  | some g =>
    have hg : IsGroup ps g := ⟨p, hp, hpar⟩
    rw [path_of_parent?_eq_some hpar] at hk
    rw [at?_of_parent?_eq_some _ hpar] at hw ⊢
    rw [child?_place definitions tags _ h.fits (Legible.clear hl)] at hw
    obtain ⟨v', hv', hw⟩ := Option.bind_eq_some_iff.mp hw
    obtain ⟨v, hv, rfl⟩ := Option.map_eq_some_iff.mp hv'
    rw [hv, Option.bind_some]
    obtain hmem | ⟨htag, e', he', hstands, hleaf⟩ :=
      keys_tagAt_subset (Tree.mem_keys_of_child? hw)
    · exact Option.isSome_iff_exists.mpr (Tree.mem_keys_iff.mp hmem)
    · exact absurd htag ((ht g hg).apart e' he' hstands hleaf (by rw [hv]; rfl) p.name
        (mem_members.mpr ⟨p, hp, hpar, rfl⟩) hk)

/-- **Tags bring no dropped property back.** -/
theorem isSome_at?_of_place (h : Agrees ps keep full cut) {locations? : Option Object}
    (hl : Legible ps (locations?.getD []))
    (ht : ∀ g, IsGroup ps g → Tags (members ps g) (fun n => keep [g, n]) (heads ps) tags
      (locations?.getD []) g (Tree.child? full g))
    {p : Property} (hp : p ∈ ps) (hk : keep p.path = false)
    (hsome : (Tree.at? (Tag.place definitions tags (scopeOf ps) (locations?.map .obj) full)
      p.path).isSome) : (Tree.at? full p.path).isSome := by
  have hitems := within_foldl_placeItems definitions tags ps full
  cases locations? with
  | none => exact isSome_at?_of_below hitems.below hsome
  | some locations =>
    cases locations with
    | nil =>
      rw [Option.map_some, place_nil] at hsome
      exact isSome_at?_of_below hitems.below hsome
    | cons e rest => exact isSome_at?_of_placeAt h hl ht hp hk hsome

end Place

end Outline

end DeviceStats
