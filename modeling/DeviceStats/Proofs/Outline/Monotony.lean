import DeviceStats.Proofs.Outline.Permanence

/-!
# Proofs/Outline/Monotony — fewer nodes stay fewer

One outline lies below another if it has no node and no mark that the other lacks.  Removal keeps
that whatever the keys are: a key that has lost its node becomes a pattern and takes out more.
Marks and retention keep it where their keys are clear (`Below.apply`).  So one more exclusion
selects no more, and one more action under a condition selects no less, if what comes after them
marks and retains by clear keys only (`select_insert`); with other keys both may fail
(`not_select_insert`).
-/

namespace DeviceStats

open Json (Value Object)
open Layout
open Match (Tree Fits Clear stands matchingKeys)

namespace Outline

/-! ## Names in their places -/

/-- Whether an outline has in every place only names that may stand there. -/
def Fitted (names : List String → List String) (o : Outline) : Prop :=
  ∀ p x, Tree.at? o p = some x → Fits (names p) x

/-- Whether every key of some locations is clear among the names in its place. -/
inductive ClearIn : (List String → List String) → List (String × Value) → Prop
  | nil {names : List String → List String} : ClearIn names []
  | cons {names : List String → List String} {key : String} {v : Value}
    {rest : List (String × Value)} (hkey : Clear (names []) key)
    (hbelow : ∀ sub, v = .obj sub → ∀ k ∈ names [], stands (names []) key k = true →
      ClearIn (fun p => names (k :: p)) sub)
    (hrest : ClearIn names rest) : ClearIn names ((key, v) :: rest)

section Fitted

variable {names : List String → List String} {o o' c : Outline} {k : String}
  {fields : List (String × Value)}

theorem Fitted.fits (h : Fitted names o) : Fits (names []) o := h [] o rfl

theorem Fitted.follows (h : Fitted names o) (h' : Follows o o') : Fitted names o' := by
  intro p x' hx'
  obtain ⟨x, hx, hsub⟩ := h'.nodes p x' hx'
  exact Fits.of_sublist (h p x hx) hsub

theorem Fitted.child (h : Fitted names o) (hc : Tree.child? o k = some c) :
    Fitted (fun p => names (k :: p)) c := by
  intro p x hx
  refine h (k :: p) x ?_
  rw [Tree.at?_cons, hc]
  exact hx

theorem ClearIn.forall_clear (h : ClearIn names fields) : ∀ e ∈ fields, Clear (names []) e.1 := by
  induction h with
  | nil => exact fun _ he => nomatch he
  | cons hkey _ _ _ ih => exact List.forall_mem_cons.mpr ⟨hkey, ih⟩

/-- Where no name may stand every key is clear. -/
theorem clearIn_of_eq_nil (h : names [] = []) (fields : List (String × Value)) :
    ClearIn names fields := by
  induction fields with
  | nil => exact .nil
  | cons e fields ih =>
    exact .cons (fun hkey => nomatch h ▸ hkey) (fun _ _ k hk => nomatch h ▸ hk) ih

end Fitted

/-- The names in the places of a report of some properties. -/
def layout (ps : List Property) : List String → List String
  | [] => heads ps
  | [g] => members ps g
  | _ :: _ :: _ => []

/-- The outline of a report has only the names of its properties. -/
theorem fitted_build (disabledFolders : NameSet) (ps : List Property) :
    Fitted (layout (listed disabledFolders ps)) (build disabledFolders ps) := by
  have hshaped := shaped_build disabledFolders ps
  intro p x hx
  obtain _ | ⟨g, _ | ⟨n, p⟩⟩ := p
  · exact Option.some.inj hx ▸ hshaped.fits
  · rw [Tree.at?_singleton] at hx
    exact hshaped.group g x hx
  · obtain ⟨y, hy, hx⟩ := Option.bind_eq_some_iff.mp hx
    obtain ⟨z, hz, hx⟩ := Option.bind_eq_some_iff.mp hx
    obtain rfl := ((built_build disabledFolders ps).twigs g y hy).leaves n z hz
    cases p with
    | nil =>
      obtain rfl := Option.some.inj hx
      exact ⟨List.nodup_nil, fun _ hk => nomatch hk⟩
    | cons k p => exact nomatch hx

theorem Legible.clearIn {ps : List Property} {fields : List (String × Value)}
    (h : Legible ps fields) : ClearIn (layout ps) fields := by
  induction fields with
  | nil => exact .nil
  | cons e fields ih =>
    obtain ⟨⟨hkey, hbelow⟩, hrest⟩ := List.forall_mem_cons.mp h
    refine .cons hkey (fun sub hsub g hg hstands => ?_) (ih hrest)
    have hclear (e' : String × Value) (he' : e' ∈ sub) : Clear (members ps g) e'.1 := by
      by_cases hgroup : IsGroup ps g
      · exact hbelow g hgroup hstands sub hsub e' he'
      · exact fun hmem => absurd
          (let ⟨p, hp, hpar, _⟩ := mem_members.mp hmem; ⟨p, hp, hpar⟩) hgroup
    clear hsub
    induction sub with
    | nil => exact .nil
    | cons e' sub ih' =>
      obtain ⟨hkey', hclear⟩ := List.forall_mem_cons.mp hclear
      exact .cons hkey' (fun sub' _ _ _ _ => clearIn_of_eq_nil rfl sub') (ih' hclear)

/-! ## Outlines below others -/

/-- Whether an outline has no node and no mark that another one lacks. -/
def Below (o o' : Outline) : Prop := ∀ p x, Tree.at? o p = some x →
  ∃ x', Tree.at? o' p = some x' ∧ (x.isKept = true → x'.isKept = true)

section Below

variable {o o' o'' c c' : Outline} {k key : String}

theorem Below.refl (o : Outline) : Below o o := fun _ x hx => ⟨x, hx, id⟩

theorem Below.hasPath (h : Below o o') {p : List String} (hp : o.hasPath p = true) :
    o'.hasPath p = true := by
  obtain ⟨x, hx⟩ := Option.isSome_iff_exists.mp hp
  obtain ⟨x', hx', -⟩ := h p x hx
  exact Option.isSome_iff_exists.mpr ⟨x', hx'⟩

theorem Below.isKept (h : Below o o') (hk : o.isKept = true) : o'.isKept = true := by
  obtain ⟨x', hx', himp⟩ := h [] o rfl
  exact Option.some.inj hx' ▸ himp hk

theorem Below.exists_child? (h : Below o o') (hc : Tree.child? o k = some c) :
    ∃ c', Tree.child? o' k = some c' ∧ Below c c' := by
  obtain ⟨c', hc', -⟩ := h [k] c ((Tree.at?_singleton o k).trans hc)
  rw [Tree.at?_singleton] at hc'
  refine ⟨c', hc', fun p x hx => ?_⟩
  obtain ⟨x', hx', himp⟩ := h (k :: p) x (by rw [Tree.at?_cons, hc]; exact hx)
  rw [Tree.at?_cons, hc'] at hx'
  exact ⟨x', hx', himp⟩

theorem Below.of_children (htop : o.isKept = true → o'.isKept = true)
    (hchildren : ∀ k c, Tree.child? o k = some c →
      ∃ c', Tree.child? o' k = some c' ∧ Below c c') : Below o o' := by
  intro p x hx
  cases p with
  | nil =>
    obtain rfl := Option.some.inj hx
    exact ⟨o', rfl, htop⟩
  | cons k p =>
    obtain ⟨c, hc, hx⟩ := Option.bind_eq_some_iff.mp hx
    obtain ⟨c', hc', hbelow⟩ := hchildren k c hc
    obtain ⟨x', hx', himp⟩ := hbelow p x hx
    exact ⟨x', by rw [Tree.at?_cons, hc']; exact hx', himp⟩

theorem Below.keys_subset (h : Below o o') : Tree.keys o ⊆ Tree.keys o' := by
  intro k hk
  obtain ⟨c, hc⟩ := Tree.mem_keys_iff.mp hk
  obtain ⟨c', hc', -⟩ := h.exists_child? hc
  exact Tree.mem_keys_of_child? hc'

@[simp] theorem isKept_sift (f : String → Outline → Option Outline) (o : Outline) :
    (Tree.sift f o).isKept = o.isKept := by
  obtain ⟨kept, _ | nested⟩ := o <;> rfl

/-- **Sifting by choices of which one keeps less** leaves an outline below another. -/
theorem Below.sift {f g : String → Outline → Option Outline} (h : Below o o')
    (hn : (Tree.keys o).Nodup) (hn' : (Tree.keys o').Nodup)
    (hfg : ∀ k c c', Tree.child? o k = some c → Tree.child? o' k = some c' → Below c c' →
      ∀ d, f k c = some d → ∃ d', g k c' = some d' ∧ Below d d') :
    Below (Tree.sift f o) (Tree.sift g o') := by
  refine .of_children (fun hk => ?_) fun k d hd => ?_
  · rw [isKept_sift] at hk ⊢
    exact h.isKept hk
  · rw [Tree.child?_sift hn] at hd
    obtain ⟨c, hc, hd⟩ := Option.bind_eq_some_iff.mp hd
    obtain ⟨c', hc', hbelow⟩ := h.exists_child? hc
    obtain ⟨d', hd', hbelow'⟩ := hfg k c c' hc hc' hbelow d hd
    exact ⟨d', by rw [Tree.child?_sift hn', hc']; exact hd', hbelow'⟩

end Below

/-! ## Marks -/

section Marks

variable {names : List String → List String} {o o' c c' : Outline}

/-- A marked outline lies above the one it comes of. -/
theorem Marks.below (h : Marks o o') (hclosed : Closed o) : Below o o' := by
  intro p x hx
  obtain ⟨x', hx', -⟩ := h.keys p x hx
  refine ⟨x', hx', fun hk => ?_⟩
  obtain ⟨y, hy, hky⟩ := h.marks hclosed p ⟨x, hx, hk⟩
  exact Option.some.inj (hx'.symm.trans hy) ▸ hky

theorem Below.mark (h : Below c c') : Below c.mark c'.mark := by
  refine .of_children (fun _ => isKept_mark c') fun k d hd => ?_
  obtain ⟨kept, nested?⟩ := c
  obtain ⟨kept', nested'?⟩ := c'
  exact h.exists_child? hd

theorem Below.markAll (h : Below c c') : Below c.markAll c'.markAll := by
  intro p x hx
  rw [at?_markAll] at hx
  obtain ⟨y, hy, rfl⟩ := Option.map_eq_some_iff.mp hx
  obtain ⟨y', hy', -⟩ := h p y hy
  exact ⟨y'.markAll, by rw [at?_markAll, hy']; rfl, fun _ => isKept_markAll y'⟩

/-- **A walk by clear keys keeps an outline below another.** -/
theorem Below.walkFields {f : Outline → Outline} (hf : Marking f)
    (hmono : ∀ {c c'}, Below c c' → Below (f c) (f c')) :
    ∀ (fields : List (String × Value)) {names : List String → List String} {o o' : Outline},
      Fitted names o → Fitted names o' → ClearIn names fields → Below o o' →
        Below (Match.walkFields (changing f) fields o).run
          (Match.walkFields (changing f) fields o').run
  | [], _, _, _, _, _, _, h => by
    rw [Match.walkFields, Match.walkFields]
    exact h
  | (key, v) :: rest, names, o, o', hu, hu', .cons hkey hbelow hrest, h => by
    have hmarks (x : Outline) : Marks x
        ((matchingKeys x key).foldl (Tree.update fun _ c => some (Match.enter f v (f c))) x) :=
      .foldl_update (fun c => ⟨(hf c).1.trans (marks_enter hf v (f c)),
        (marks_enter hf v (f c)).top (hf c).2⟩) _ x
    rw [show changing f = fun _ c => (f c, none) from rfl, Match.walkFields_cons,
      Match.walkFields_cons]
    refine Below.walkFields hf hmono rest (hu.follows (hmarks o).toFollows)
      (hu'.follows (hmarks o').toFollows) hrest ?_
    rw [Match.foldl_update_matchingKeys hu.fits hkey, Match.foldl_update_matchingKeys hu'.fits hkey]
    refine h.sift hu.fits.nodup hu'.fits.nodup fun k c c' hc hc' hcc d hd => ?_
    by_cases hk : stands (names []) key k = true
    · rw [if_pos hk] at hd
      obtain rfl := Option.some.inj hd
      refine ⟨_, if_pos hk, ?_⟩
      cases v with
      | obj sub =>
        have hsub := hbelow sub rfl k (hu.fits.sub k (Tree.mem_keys_of_child? hc)) hk
        rw [Match.enter_obj, Match.enter_obj]
        exact Below.walkFields hf hmono sub ((hu.child hc).follows (hf c).1.toFollows)
          ((hu'.child hc').follows (hf c').1.toFollows) hsub (hmono hcc)
      | _ => exact hmono hcc
    · rw [if_neg hk] at hd
      obtain rfl := Option.some.inj hd
      exact ⟨c', if_neg hk, hcc⟩

end Marks

/-! ## Removal -/

section Remove

variable {names : List String → List String} {o o' : Outline}

/-- One field of removed locations, where names are distinct, then the others. -/
theorem removeFields_cons_sift (rest : List (String × Value)) (key : String) (v : Value)
    {s : Nat × Outline} (hu : Fitted names s.2) :
    ∃ s', (Match.removeFields consent ((key, v) :: rest) s).run =
        (Match.removeFields consent rest s').run ∧ Fitted names s'.2 ∧
      s'.2 = Tree.sift (fun k c => if k ∈ matchingKeys s.2 key then
        Match.removeOne consent v k c else some c) s.2 := by
  obtain ⟨s', hs, ht⟩ := Match.removeFields_cons consent rest key v s
  refine ⟨s', hs, hu.follows ?_, ht.trans (Tree.foldl_update hu.fits.nodup _
    (Match.nodup_matchingKeys_of_nodup hu.fits.nodup key))⟩
  have hfirst : s'.2 = (Match.removeFields consent [(key, v)] s).run.2 := by
    obtain ⟨s'', hs'', ht''⟩ := Match.removeFields_cons consent [] key v s
    rw [hs'', Match.removeFields, ht]
    exact ht''.symm
  rw [hfirst]
  exact (trims_removeFields [(key, v)] s).toFollows

/-- A node is left only if it is marked. -/
theorem of_consent_eq_some {k : String} {c d : Outline}
    (h : (if (consent k c).run then none else some c) = some d) : c.isKept = true ∧ d = c := by
  change (if (!c.isKept) = true then none else some c) = some d at h
  cases hk : c.isKept with
  | true =>
    rw [hk] at h
    exact ⟨rfl, (Option.some.inj h).symm⟩
  | false =>
    rw [hk] at h
    exact nomatch h

theorem consent_eq_some {k : String} {c : Outline} (h : c.isKept = true) :
    (if (consent k c).run then none else some c) = some c := by
  change (if (!c.isKept) = true then none else some c) = some c
  rw [h]
  rfl

/-- What removal leaves of an outline lies below what the outline lies below. -/
theorem Below.removeFields_left : ∀ (fields : List (String × Value)) {s : Nat × Outline}
    {names : List String → List String} {o' : Outline}, Fitted names s.2 → Fitted names o' →
      Below s.2 o' → Below (Match.removeFields consent fields s).run.2 o'
  | [], s, _, _, _, _, h => by
    rw [Match.removeFields]
    exact h
  | (key, v) :: rest, s, names, o', hu, hu', h => by
    obtain ⟨s', hs, hfit, hsift⟩ := removeFields_cons_sift rest key v hu
    rw [hs]
    refine Below.removeFields_left rest hfit hu' ?_
    rw [hsift, ← Tree.sift_some o']
    refine h.sift hu.fits.nodup hu'.fits.nodup fun k c c' hc hc' hcc d hd => ⟨c', rfl, ?_⟩
    split at hd
    · cases v with
      | obj sub =>
        rw [Match.removeOne_obj_eq] at hd
        obtain rfl := Option.some.inj hd
        exact Below.removeFields_left sub (hu.child hc) (hu'.child hc') hcc
      | _ => exact (of_consent_eq_some hd).2 ▸ hcc
    · exact Option.some.inj hd ▸ hcc

theorem Below.removeOne_left {names : List String → List String} {c c' d : Outline} {k : String}
    {v : Value} (hu : Fitted names c) (hu' : Fitted names c') (h : Below c c')
    (hd : Match.removeOne consent v k c = some d) : Below d c' := by
  cases v with
  | obj sub =>
    rw [Match.removeOne_obj_eq] at hd
    exact Option.some.inj hd ▸ Below.removeFields_left sub hu hu' h
  | _ => exact (of_consent_eq_some hd).2 ▸ h

/-- **Removal keeps an outline below another**, whatever the keys: one that stands for a node in the
larger outline stands for it in the smaller one. -/
theorem Below.removeFields : ∀ (fields : List (String × Value)) {s s' : Nat × Outline}
    {names : List String → List String}, Fitted names s.2 → Fitted names s'.2 → Below s.2 s'.2 →
      Below (Match.removeFields consent fields s).run.2 (Match.removeFields consent fields s').run.2
  | [], s, s', _, _, _, h => by
    rw [Match.removeFields, Match.removeFields]
    exact h
  | (key, v) :: rest, s, s', names, hu, hu', h => by
    obtain ⟨t, hs, hfit, hsift⟩ := removeFields_cons_sift rest key v hu
    obtain ⟨t', hs', hfit', hsift'⟩ := removeFields_cons_sift rest key v hu'
    rw [hs, hs']
    refine Below.removeFields rest hfit hfit' ?_
    rw [hsift, hsift']
    refine h.sift hu.fits.nodup hu'.fits.nodup fun k c c' hc hc' hcc d hd => ?_
    have hk : k ∈ matchingKeys s'.2 key → k ∈ matchingKeys s.2 key := by
      rw [Match.mem_matchingKeys_iff, Match.mem_matchingKeys_iff]
      have hmem := Tree.mem_keys_of_child? hc
      exact fun hin => ⟨hmem, Match.stands_of_subset h.keys_subset hmem hin.2⟩
    by_cases hin' : k ∈ matchingKeys s'.2 key
    · rw [if_pos (hk hin')] at hd
      rw [if_pos hin']
      cases v with
      | obj sub =>
        rw [Match.removeOne_obj_eq] at hd ⊢
        obtain rfl := Option.some.inj hd
        exact ⟨_, rfl, Below.removeFields sub (hu.child hc) (hu'.child hc') hcc⟩
      | _ =>
        obtain ⟨hkept, rfl⟩ := of_consent_eq_some hd
        exact ⟨c', consent_eq_some (hcc.isKept hkept), hcc⟩
    · refine ⟨c', if_neg hin', ?_⟩
      split at hd
      · exact .removeOne_left (hu.child hc) (hu'.child hc') hcc hd
      · exact Option.some.inj hd ▸ hcc

end Remove

/-! ## Retention -/

section Retain

variable {names : List String → List String} {o o' c c' d : Outline} {k : String}

theorem trims_retainOne (strict : Bool) (v : Value) (c : Outline) :
    Trims c (Match.retainOne strict consent v c).2 := by
  cases v with
  | obj sub => exact trims_retainOne_obj c (trims_retainFields strict sub)
  | _ => exact .refl c

/-- A child that is left is left of a larger one too. -/
theorem Below.settleAt {b : Bool} (h : Below c c')
    (hd : Match.settleAt consent k (b, c) = some d) :
    ∃ d', Match.settleAt consent k (b, c') = some d' ∧ Below d d' := by
  cases b with
  | true =>
    obtain rfl := Option.some.inj hd
    exact ⟨c', rfl, h⟩
  | false =>
    obtain ⟨hkept, rfl⟩ := of_consent_eq_some hd
    exact ⟨c', consent_eq_some (h.isKept hkept), h⟩

/-- Retention leaves an outline below another if it leaves the children so. -/
theorem Below.sift_preserveAt {fields : List (String × Value)} (hu : Fitted names o)
    (hu' : Fitted names o') (h : Below o o')
    (hat : ∀ {k c c'}, k ∈ names [] → Fitted (fun p => names (k :: p)) c →
      Fitted (fun p => names (k :: p)) c' → Below c c' →
        ∃ b d d', Match.retainAt (names []) false consent fields k (false, c) = (b, d) ∧
          Match.retainAt (names []) false consent fields k (false, c') = (b, d') ∧ Below d d') :
    Below (Tree.sift (Match.preserveAt (names []) false consent fields) o)
      (Tree.sift (Match.preserveAt (names []) false consent fields) o') := by
  refine h.sift hu.fits.nodup hu'.fits.nodup fun k c c' hc hc' hcc x hx => ?_
  obtain ⟨b, d, d', hd, hd', hdd⟩ :=
    hat (hu.fits.sub k (Tree.mem_keys_of_child? hc)) (hu.child hc) (hu'.child hc') hcc
  rw [Match.preserveAt, hd] at hx
  rw [Match.preserveAt, hd']
  exact hdd.settleAt hx

/-- **Retention by clear keys keeps a child below another**, and retains both or none. -/
theorem Below.retainAt : ∀ (fields : List (String × Value)) {names : List String → List String}
    {c c' : Outline} {k : String} (b : Bool), ClearIn names fields → k ∈ names [] →
      Fitted (fun p => names (k :: p)) c → Fitted (fun p => names (k :: p)) c' → Below c c' →
        ∃ b' d d', Match.retainAt (names []) false consent fields k (b, c) = (b', d) ∧
          Match.retainAt (names []) false consent fields k (b, c') = (b', d') ∧ Below d d'
  | [], _, c, c', _, b, _, _, _, _, h => ⟨b, c, c', rfl, rfl, h⟩
  | (key, v) :: rest, names, c, c', k, b, .cons hkey hbelow hrest, hmem, hu, hu', h => by
    rw [Match.retainAt_cons, Match.retainAt_cons]
    by_cases hk : stands (names []) key k = true
    · rw [if_pos hk, if_pos hk, fst_retainOne_false, fst_retainOne_false]
      refine Below.retainAt rest _ hrest hmem (hu.follows (trims_retainOne false v c).toFollows)
        (hu'.follows (trims_retainOne false v c').toFollows) ?_
      cases v with
      | obj sub =>
        have hsub := hbelow sub rfl k hmem hk
        have hreads {x : Outline} (hx : Fitted (fun p => names (k :: p)) x) :=
          hx.fits.reads hsub.forall_clear
        rw [Match.snd_retainOne_obj false hu.fits.nodup (hreads hu),
          Match.snd_retainOne_obj false hu'.fits.nodup (hreads hu')]
        exact h.sift_preserveAt hu hu' (Below.retainAt sub false hsub)
      | _ => exact h
    · rw [if_neg hk, if_neg hk]
      exact Below.retainAt rest b hrest hmem hu hu' h

end Retain

/-! ## Actions -/

/-- The locations by which an action, if it is enabled, marks or retains nodes: those of its tags,
the trees of its condition and, without a condition, those of what it includes. -/
def guides (a : Action) : List Object :=
  if a.enabled then
    (match a.effect, a.condition? with
      | .setTag _ (some locations), _ => [locations]
      | .includeData locations, none => [locations]
      | _, _ => []) ++ (a.condition?.map Condition.trees).getD []
  else []

section Actions

variable {names : List String → List String} {o o' : Outline} {a : Action}

theorem Below.markTagged {effect : Effect} (hu : Fitted names o) (hu' : Fitted names o')
    (hclear : ∀ tags locations, effect = .setTag tags (some locations) → ClearIn names locations)
    (h : Below o o') : Below (Outline.markTagged effect o) (Outline.markTagged effect o') := by
  unfold Outline.markTagged
  split
  · exact h.walkFields marking_markAll Below.markAll _ hu hu' (hclear _ _ rfl)
  · exact h

theorem Below.markSeen {c : Condition} (hu : Fitted names o) (hu' : Fitted names o')
    (hclear : ∀ tree ∈ c.trees, ClearIn names tree) (h : Below o o') :
    Below (Outline.markSeen c o) (Outline.markSeen c o') := by
  rw [markSeen_eq, markSeen_eq]
  generalize c.trees = trees at hclear
  induction trees generalizing o o' with
  | nil => exact h
  | cons tree trees ih =>
    obtain ⟨htree, hclear⟩ := List.forall_mem_cons.mp hclear
    have hfollows (x : Outline) := (marks_walkFields marking_mark tree x).toFollows
    exact ih (hu.follows (hfollows o)) (hu'.follows (hfollows o'))
      (h.walkFields marking_mark Below.mark tree hu hu' htree) hclear

theorem Below.change {effect : Effect} (hu : Fitted names o) (hu' : Fitted names o')
    (hclear : ∀ locations, effect = .includeData locations → ClearIn names locations)
    (h : Below o o') : Below (Outline.change effect o) (Outline.change effect o') := by
  cases effect with
  | setTag tags locations? => exact h
  | includeData locations =>
    have hl := hclear locations rfl
    change Below (Match.preserve false consent (.obj locations) o).run
      (Match.preserve false consent (.obj locations) o').run
    rw [Match.preserve_eq_sift hu.fits.nodup (hu.fits.reads hl.forall_clear),
      Match.preserve_eq_sift hu'.fits.nodup (hu'.fits.reads hl.forall_clear)]
    exact h.sift_preserveAt hu hu' (Below.retainAt locations false hl)
  | excludeData locations =>
    simp only [Outline.change, Match.remove]
    exact h.removeFields locations hu hu'

/-- **An action keeps an outline below another** if it marks and retains by clear keys. -/
theorem Below.apply (hu : Fitted names o) (hu' : Fitted names o')
    (hclear : ∀ l ∈ guides a, ClearIn names l) (h : Below o o') :
    Below (apply o a) (apply o' a) := by
  unfold Outline.apply
  by_cases ha : a.enabled = true
  · rw [if_pos ha, if_pos ha]
    rw [guides, if_pos ha] at hclear
    have htags : Below (Outline.markTagged a.effect o) (Outline.markTagged a.effect o') :=
      h.markTagged hu hu' fun tags locations heffect => hclear locations (by simp [heffect])
    have hfollows (x : Outline) := (marks_markTagged a.effect x).toFollows
    cases hcond : a.condition? with
    | some c =>
      exact htags.markSeen (hu.follows (hfollows o)) (hu'.follows (hfollows o'))
        fun tree htree => hclear tree (by simp [hcond, htree])
    | none =>
      exact htags.change (hu.follows (hfollows o)) (hu'.follows (hfollows o'))
        fun locations heffect => hclear locations (by simp [heffect, hcond])
  · rw [if_neg ha, if_neg ha]
    exact h

theorem Below.foldl_apply {actions : List Action} (hu : Fitted names o) (hu' : Fitted names o')
    (hclear : ∀ a ∈ actions, ∀ l ∈ guides a, ClearIn names l) (h : Below o o') :
    Below (actions.foldl Outline.apply o) (actions.foldl Outline.apply o') := by
  induction actions generalizing o o' with
  | nil => exact h
  | cons a actions ih =>
    obtain ⟨ha, hclear⟩ := List.forall_mem_cons.mp hclear
    exact ih (hu.follows (follows_apply o a)) (hu'.follows (follows_apply o' a)) hclear
      (h.apply hu hu' ha)

/-- An exclusion leaves an outline below what it was. -/
theorem below_apply_exclude (hu : Fitted names o) (hcond : a.condition? = none)
    {locations : Object} (heffect : a.effect = .excludeData locations) :
    Below (apply o a) o := by
  unfold Outline.apply
  split
  · rw [hcond, heffect]
    simp only [Outline.markTagged, Outline.change, Match.remove]
    exact .removeFields_left locations hu hu (.refl o)
  · exact .refl o

/-- An action under a condition leaves an outline above what it was. -/
theorem below_apply_of_condition (hclosed : Closed o) {c : Condition}
    (hcond : a.condition? = some c) : Below o (apply o a) := by
  unfold Outline.apply
  split
  · rw [hcond]
    exact ((marks_markTagged a.effect o).trans (marks_markSeen c _)).below hclosed
  · exact .refl o

end Actions

/-! ## Whole lists of actions -/

section Final

variable (properties : List Property) (disabledFolders : NameSet)

theorem fitted_final (actions : List Action) :
    Fitted (layout (listed disabledFolders properties))
      (final properties actions disabledFolders) :=
  (fitted_build disabledFolders properties).follows (follows_foldl _ actions)

theorem select_subset_of_below {actions actions' : List Action}
    (h : Below (final properties actions disabledFolders)
      (final properties actions' disabledFolders)) :
    select properties actions disabledFolders ⊆ select properties actions' disabledFolders := by
  intro n hn
  obtain ⟨p, hp, rfl⟩ := List.mem_map.mp (NameSet.mem_ofList.mp hn)
  obtain ⟨hp, hpath⟩ := List.mem_filter.mp hp
  exact mem_select_of_hasPath properties disabledFolders hp (h.hasPath hpath)

/-- **One more exclusion selects no more, and one more action under a condition no less.**  What
comes after the new action marks and retains by clear keys only; what comes before it, and what is
excluded after it, may have any keys. -/
theorem select_insert (before after : List Action)
    (h : ∀ a ∈ after, ∀ l ∈ guides a, Legible (listed disabledFolders properties) l) :
    (∀ a locations, a.condition? = none → a.effect = .excludeData locations →
      select properties (before ++ a :: after) disabledFolders ⊆
        select properties (before ++ after) disabledFolders) ∧
    ∀ a c, a.condition? = some c → select properties (before ++ after) disabledFolders ⊆
      select properties (before ++ a :: after) disabledFolders := by
  have hbefore := fitted_final properties disabledFolders before
  have hfit (a : Action) := hbefore.follows (follows_apply _ a)
  have hclear (a : Action) (ha : a ∈ after) (l : Object) (hl : l ∈ guides a) :=
    Legible.clearIn (h a ha l hl)
  refine ⟨fun a locations hcond heffect => ?_, fun a c hcond => ?_⟩
  · refine select_subset_of_below properties disabledFolders ?_
    rw [final_append, final_append, List.foldl_cons]
    exact (below_apply_exclude hbefore hcond heffect).foldl_apply (hfit a) hbefore hclear
  · refine select_subset_of_below properties disabledFolders ?_
    rw [final_append, final_append, List.foldl_cons]
    have hclosed := closed_final properties disabledFolders before
    exact (below_apply_of_condition hclosed hcond).foldl_apply hbefore (hfit a) hclear

end Final

/-- Excluding one name, and including one whose key is clear. -/
theorem select_insert_three_names :
    let properties : List Property :=
      [⟨"cpu", { key := "1" }, {}⟩, ⟨"disk", { key := "2" }, {}⟩, ⟨"net", { key := "3" }, {}⟩]
    let keyed (key : String) : Object := [(key, .bool true)]
    let after : List Action := [⟨true, none, .includeData (keyed "cpu" ++ keyed "isk")⟩]
    let exclude : Action := ⟨true, none, .excludeData (keyed "d")⟩
    let tag : Action := ⟨true, some (.any [keyed "n"]), .setTag [] none⟩
    (∀ a ∈ after, ∀ l ∈ guides a, Legible (listed [] properties) l) ∧
      select properties (exclude :: after) [] ⊆ select properties after [] ∧
      select properties after [] ⊆ select properties (tag :: after) [] ∧
      select properties (exclude :: after) [] = ["cpu"] ∧
      select properties after [] = ["cpu", "disk"] ∧
      select properties (tag :: after) [] = ["cpu", "disk", "net"] := by
  intro properties keyed after exclude tag
  have hlegible : ∀ a ∈ after, ∀ l ∈ guides a, Legible (listed [] properties) l := by
    decide +kernel
  obtain ⟨hexclude, htag⟩ := select_insert properties [] [] after hlegible
  exact ⟨hlegible, hexclude exclude _ rfl rfl, htag tag _ rfl, by decide +kernel,
    by decide +kernel, by decide +kernel⟩

/-- **With keys that are not clear both may fail.**  Without `a`, the key `a` of the inclusion is a
pattern and retains `ab`; with `a`, it does not. -/
theorem not_select_insert :
    (¬ ∀ (properties : List Property) (disabledFolders : NameSet) (before after : List Action)
      (a : Action) (locations : Object), a.condition? = none → a.effect = .excludeData locations →
        select properties (before ++ a :: after) disabledFolders ⊆
          select properties (before ++ after) disabledFolders) ∧
    ¬ ∀ (properties : List Property) (disabledFolders : NameSet) (before after : List Action)
      (a : Action) (trees : List ConditionTree), a.condition? = some (.any trees) →
        select properties (before ++ after) disabledFolders ⊆
          select properties (before ++ a :: after) disabledFolders := by
  let properties : List Property := [⟨"a", { key := "a" }, {}⟩, ⟨"ab", { key := "ab" }, {}⟩]
  let a : Object := [("a", .bool true)]
  let exclude : Action := ⟨true, none, .excludeData a⟩
  let retain : Action := ⟨true, none, .includeData a⟩
  let tag : Action := ⟨true, some (.any [a]), .setTag [] none⟩
  refine ⟨fun h => ?_, fun h => ?_⟩
  · have hsub := h properties [] [] [retain] exclude a rfl rfl
    have hgrown : select properties [exclude, retain] [] = ["ab"] := by decide +kernel
    have hless : select properties [retain] [] = ["a"] := by decide +kernel
    rw [List.nil_append, List.nil_append, hgrown, hless] at hsub
    exact absurd (hsub List.mem_cons_self) (by decide)
  · have hsub := h properties [] [] [exclude, retain] tag [a] rfl
    have hmore : select properties [exclude, retain] [] = ["ab"] := by decide +kernel
    have hshrunk : select properties [tag, exclude, retain] [] = ["a"] := by decide +kernel
    rw [List.nil_append, List.nil_append, hmore, hshrunk] at hsub
    exact absurd (hsub List.mem_cons_self) (by decide)

/-- **Each kind of guide matters**: after an exclusion of `a`, the key `a` of an inclusion, of a
condition and of a tag stands for `ab`, which is selected only then. -/
theorem each_guide_matters :
    let properties : List Property := [⟨"a", { key := "a" }, {}⟩, ⟨"ab", { key := "ab" }, {}⟩]
    let keyed (key : String) : Object := [(key, .bool true)]
    let exclude (key : String) : Action := ⟨true, none, .excludeData (keyed key)⟩
    let tag (condition? : Option Condition) (locations? : Option Object) : Action :=
      ⟨true, condition?, .setTag [] locations?⟩
    ∀ after ∈ [[⟨true, none, .includeData (keyed "a")⟩],
        [tag (some (.any [keyed "a"])) none, exclude "ab"],
        [tag none (some (keyed "a")), exclude "ab"]],
      "ab" ∈ select properties (exclude "a" :: after) [] ∧ "ab" ∉ select properties after [] := by
  decide +kernel

end Outline

end DeviceStats
