import DeviceStats.Proofs.Outline.Layout

/-!
# Proofs/Outline/Agreement — full data and cut data agree on what is kept

The full data hold all properties, the cut data only the kept ones.  At the top they agree on the
kept properties by name; a group is the same in both, or differs by dropped properties only
(`GroupAgrees`).  Whatever treats the children one by one keeps it so (`Agrees.sift`).
-/

namespace DeviceStats.Outline

open Json (Value Object)
open Layout
open Match (Tree Fits Clear stands)

/-! ## Groups -/

/-- What is left of named values when only some names are kept. -/
def keptOf (keep : String → Bool) (fields : Object) : Object := fields.filter fun kv => keep kv.1

/-- What is kept of sifted fields is sifted of what is kept. -/
theorem keptOf_sift (keep : String → Bool) (f : String → Value → Option Value) (fields : Object) :
    keptOf keep (Named.sift f fields) = Named.sift f (keptOf keep fields) := by
  induction fields with
  | nil => rfl
  | cons kv fields ih =>
    obtain ⟨k, v⟩ := kv
    unfold keptOf at ih ⊢
    rw [Named.sift_cons, List.filter_append, ih, List.filter_cons]
    cases hk : keep k with
    | true =>
      rw [if_pos rfl, Named.sift_cons]
      cases f k v <;> simp [hk]
    | false => cases f k v <;> simp [hk]

/-- A group of the full data and what the cut data have of it. -/
inductive GroupAgrees (names : List String) (keep : String → Bool) :
    Option Value → Option Value → Prop
  | gone : GroupAgrees names keep none none
  /-- Nothing of it is dropped. -/
  | whole {v : Value} (h : ∀ n ∈ Tree.keys v, n ∈ names → keep n = true) :
    GroupAgrees names keep (some v) (some v)
  | part {fields : Object} (h : Fits names (Value.obj fields)) :
    GroupAgrees names keep (some (.obj fields)) (some (.obj (keptOf keep fields)))
  /-- All of it is dropped. -/
  | lost {fields : Object} (h : Fits names (Value.obj fields)) (hnone : keptOf keep fields = []) :
    GroupAgrees names keep (some (.obj fields)) none

/-- A change of groups that treats the properties one by one. -/
structure Even (names : List String) (s : Value → Option Value) : Prop where
  keys : ∀ v v', s v = some v' → (Tree.keys v').Sublist (Tree.keys v)
  sift : (∀ fields, Fits names (Value.obj fields) → s (.obj fields) = none) ∨
    ∃ r, ∀ fields, Fits names (Value.obj fields) →
      s (.obj fields) = some (.obj (Named.sift r fields))

section Group

variable {names : List String} {keep : String → Bool}

theorem fits_keptOf {fields : Object} (h : Fits names (Value.obj fields)) :
    Fits names (Value.obj (keptOf keep fields)) :=
  Fits.of_sublist h (List.filter_sublist.map _)

theorem fits_sift {fields : Object} (h : Fits names (Value.obj fields))
    (r : String → Value → Option Value) : Fits names (Value.obj (Named.sift r fields)) :=
  Fits.of_sublist h (Named.keys_sift_sublist r fields)

/-- **An even change keeps groups in agreement.** -/
theorem GroupAgrees.bind {s : Value → Option Value} (hs : Even names s) {x y : Option Value}
    (h : GroupAgrees names keep x y) : GroupAgrees names keep (x.bind s) (y.bind s) := by
  cases h with
  | gone => exact .gone
  | @whole v hkeys =>
    rw [Option.bind_some]
    cases hv : s v with
    | none => exact .gone
    | some v' => exact .whole fun n hn => hkeys n ((hs.keys v v' hv).subset hn)
  | @part fields hfits =>
    rw [Option.bind_some, Option.bind_some]
    obtain hnone | ⟨r, hr⟩ := hs.sift
    · rw [hnone _ hfits, hnone _ (fits_keptOf hfits)]
      exact .gone
    · rw [hr _ hfits, hr _ (fits_keptOf hfits), ← keptOf_sift]
      exact .part (fits_sift hfits r)
  | @lost fields hfits hkept =>
    rw [Option.bind_some, Option.bind_none]
    obtain hnone | ⟨r, hr⟩ := hs.sift
    · rw [hnone _ hfits]
      exact .gone
    · rw [hr _ hfits]
      refine .lost (fits_sift hfits r) ?_
      rw [keptOf_sift, hkept]
      rfl

/-! ## Groups under locations -/

/-- Whether the keys of some locations below a name are clear. -/
def ClearBelow (tops names : List String) (g : String) (locations : List (String × Value)) : Prop :=
  ∀ e ∈ locations, stands tops e.1 g = true → ∀ sub, e.2 = .obj sub → ∀ e' ∈ sub, Clear names e'.1

theorem even_removeOne {sub : Value} (hc : ∀ sub', sub = .obj sub' → ∀ e' ∈ sub', Clear names e'.1)
    (g : String) : Even names (Match.removeOne Action.consent sub g) where
  keys _ _ hv := Match.keys_removeOne_sublist hv
  sift := by
    cases sub with
    | obj sub => exact .inr ⟨_, fun fields hf => Match.removeOne_obj hf (hc sub rfl) g⟩
    | _ => exact .inl fun _ _ => rfl

/-- Removing below a group that was cut keeps the group the cut of the full one. -/
theorem GroupAgrees.bind_removeAt {tops : List String} {g : String}
    {locations : List (String × Value)} (hc : ClearBelow tops names g locations)
    {x y : Option Value} (h : GroupAgrees names keep x y) :
    GroupAgrees names keep (x.bind (Match.removeAt tops Action.consent locations g))
      (y.bind (Match.removeAt tops Action.consent locations g)) := by
  induction locations generalizing x y with
  | nil =>
    have hnil : Match.removeAt tops Action.consent [] g = some := rfl
    rwa [hnil, Option.bind_fun_some, Option.bind_fun_some]
  | cons e locations ih =>
    obtain ⟨he, hc⟩ := List.forall_mem_cons.mp hc
    have hcons : Match.removeAt tops Action.consent (e :: locations) g = fun v =>
        (if stands tops e.1 g then Match.removeOne Action.consent e.2 g v else some v).bind
          (Match.removeAt tops Action.consent locations g) :=
      funext (Match.removeAt_cons Action.consent e locations g)
    rw [hcons, ← Option.bind_assoc, ← Option.bind_assoc]
    refine ih hc ?_
    by_cases hg : stands tops e.1 g = true
    · simp only [if_pos hg]
      exact h.bind (even_removeOne (he hg) g)
    · simpa only [if_neg hg, Option.bind_fun_some] using h

/-! ## Retained groups -/

/-- A group of the full data and what the cut data have of it, with whether each is retained. -/
inductive Pending (names : List String) (keep : String → Bool) :
    Option (Bool × Value) → Option (Bool × Value) → Prop
  | gone : Pending names keep none none
  | whole {b : Bool} {v : Value} (h : ∀ n ∈ Tree.keys v, n ∈ names → keep n = true) :
    Pending names keep (some (b, v)) (some (b, v))
  /-- What is retained in the cut data is in the full data; there alone only if all is dropped. -/
  | part {b b' : Bool} {fields : Object} (h : Fits names (Value.obj fields))
    (hle : b' = true → b = true) (hnone : b = true → b' = false → keptOf keep fields = []) :
    Pending names keep (some (b, .obj fields)) (some (b', .obj (keptOf keep fields)))
  | lost {b : Bool} {fields : Object} (h : Fits names (Value.obj fields))
    (hnone : keptOf keep fields = []) : Pending names keep (some (b, .obj fields)) none

/-- Before anything is retained in them, groups that agree are pending. -/
theorem GroupAgrees.pending {x y : Option Value} (h : GroupAgrees names keep x y) :
    Pending names keep (x.map (false, ·)) (y.map (false, ·)) := by
  cases h with
  | gone => exact .gone
  | whole h => exact .whole h
  | part h => exact .part h id fun hb => nomatch hb
  | lost h hnone => exact .lost h hnone

/-- When all locations are done, pending groups agree again. -/
theorem Pending.settle {x y : Option (Bool × Value)} (h : Pending names keep x y) (g : String) :
    GroupAgrees names keep (x.bind (Match.settleAt Action.consent g))
      (y.bind (Match.settleAt Action.consent g)) := by
  cases h with
  | gone => exact .gone
  | @whole b v h =>
    cases b with
    | false => exact .gone
    | true => exact .whole h
  | @part b b' fields h hle hnone =>
    cases b' with
    | true =>
      rw [hle rfl]
      exact .part h
    | false =>
      cases b with
      | false => exact .gone
      | true => exact .lost h (hnone rfl rfl)
  | @lost b fields h hnone =>
    cases b with
    | false => exact .gone
    | true => exact .lost h hnone

/-- What one field of locations retains of a group: it is retained if anything in it is. -/
theorem retainOne_obj {fields : Object} (hf : Fits names (Value.obj fields)) {sub : Object}
    (hc : ∀ e ∈ sub, Clear names e.1) :
    Match.retainOne true Action.consent (.obj sub) (Value.obj fields) =
      (!(Named.sift (Match.preserveAt names true Action.consent sub) fields).isEmpty,
        .obj (Named.sift (Match.preserveAt names true Action.consent sub) fields)) := by
  have htree := Match.pruneOthers_retainFields Action.consent true hf.nodup (hf.reads hc) rfl
  have hflags (k : String) :=
    Match.mem_retained true Action.consent hf.nodup (hf.reads hc) (k := k)
  refine Prod.ext ?_ htree
  change (!(Match.retainFields true Action.consent sub ([], Value.obj fields)).run.1.isEmpty ||
    false) = _
  rw [Bool.or_false]
  refine congrArg (!·) (Bool.eq_iff_iff.mpr ?_)
  rw [List.isEmpty_iff, List.isEmpty_iff, List.eq_nil_iff_forall_not_mem, Named.sift,
    List.filterMap_eq_nil_iff]
  refine ⟨fun hnone kv hkv => Option.map_eq_none_iff.mpr ?_, fun hnone k hk => ?_⟩
  · have hchild : Tree.child? (Value.obj fields) kv.1 = some kv.2 :=
      (Named.get?_eq_some_iff hf.nodup).mpr hkv
    have hflag := mt (hflags kv.1).mpr (hnone kv.1)
    have hdropped : (Match.retainAt names true Action.consent sub kv.1 (false, kv.2)).1 = false :=
      Bool.eq_false_iff.mpr fun hkept => hflag ⟨kv.2, hchild, hkept⟩
    rw [Match.preserveAt, Match.settleAt, hdropped]
    rfl
  · obtain ⟨c, hchild, hkept⟩ := (hflags k).mp hk
    have := Option.map_eq_none_iff.mp (hnone (k, c) (Named.mem_of_get?_eq_some hchild))
    rw [Match.preserveAt, Match.settleAt, if_pos hkept] at this
    cases this

/-- A group with which a location did what it does to its properties: it is retained too if anything
of it is left. -/
theorem Pending.part_of_left {b b' : Bool} {fields : Object} (h : Fits names (Value.obj fields))
    (hle : b' = true → b = true) : Pending names keep
      (some (b || !fields.isEmpty, .obj fields))
      (some (b' || !(keptOf keep fields).isEmpty, .obj (keptOf keep fields))) := by
  refine .part h (fun hb' => ?_) fun _ hb' => ?_
  · by_cases hb : b = true
    · rw [hb, Bool.true_or]
    · have hold : b' = false := Bool.eq_false_iff.mpr fun hold => hb (hle hold)
      rw [hold, Bool.false_or] at hb'
      cases fields with
      | nil => exact nomatch hb'
      | cons kv fields => exact Bool.or_true b
  · have hempty := (Bool.or_eq_false_iff.mp hb').2
    exact List.isEmpty_iff.mp (by simpa using hempty)

/-- One location retains the same in the full group and in the cut one. -/
theorem Pending.retainOne {sub : Value}
    (hc : ∀ sub', sub = .obj sub' → ∀ e' ∈ sub', Clear names e'.1)
    {x y : Option (Bool × Value)} (h : Pending names keep x y) :
    Pending names keep
      (x.map fun s => (s.1 || (Match.retainOne true Action.consent sub s.2).1,
        (Match.retainOne true Action.consent sub s.2).2))
      (y.map fun s => (s.1 || (Match.retainOne true Action.consent sub s.2).1,
        (Match.retainOne true Action.consent sub s.2).2)) := by
  cases h with
  | gone => exact .gone
  | whole h =>
    exact .whole fun n hn => h n ((Match.keys_retainOne_sublist true sub _).subset hn)
  | @part b b' fields h hle hnone =>
    cases sub with
    | obj sub =>
      simp only [Option.map_some, retainOne_obj h (hc sub rfl),
        retainOne_obj (fits_keptOf h) (hc sub rfl), ← keptOf_sift]
      exact .part_of_left (fits_sift h _) hle
    | _ =>
      simp only [Option.map_some, Match.retainOne, Bool.or_true]
      exact .part h (fun _ => rfl) fun _ hb => by cases hb
  | @lost b fields h hnone =>
    cases sub with
    | obj sub =>
      simp only [Option.map_some, Option.map_none, retainOne_obj h (hc sub rfl)]
      refine .lost (fits_sift h _) ?_
      rw [keptOf_sift, hnone]
      rfl
    | _ => exact .lost h hnone

theorem Pending.retainAt {tops : List String} {g : String} {locations : List (String × Value)}
    (hc : ClearBelow tops names g locations) {x y : Option (Bool × Value)}
    (h : Pending names keep x y) :
    Pending names keep (x.map (Match.retainAt tops true Action.consent locations g))
      (y.map (Match.retainAt tops true Action.consent locations g)) := by
  induction locations generalizing x y with
  | nil =>
    have hnil : Match.retainAt tops true Action.consent [] g = id := rfl
    rwa [hnil, Option.map_id, id, id]
  | cons e locations ih =>
    obtain ⟨he, hc⟩ := List.forall_mem_cons.mp hc
    by_cases hg : stands tops e.1 g = true
    · have hcons : Match.retainAt tops true Action.consent (e :: locations) g =
          Match.retainAt tops true Action.consent locations g ∘
            fun s => (s.1 || (Match.retainOne true Action.consent e.2 s.2).1,
              (Match.retainOne true Action.consent e.2 s.2).2) := by
        funext s
        rw [Match.retainAt_cons, if_pos hg]
        rfl
      rw [hcons, ← Option.map_map, ← Option.map_map]
      exact ih hc (h.retainOne (he hg))
    · have hcons : Match.retainAt tops true Action.consent (e :: locations) g =
          Match.retainAt tops true Action.consent locations g := by
        funext s
        rw [Match.retainAt_cons, if_neg hg]
      rw [hcons]
      exact ih hc h

/-- Preserving what locations address keeps a cut group the cut of the full one. -/
theorem GroupAgrees.bind_preserveAt {tops : List String} {g : String}
    {locations : List (String × Value)} (hc : ClearBelow tops names g locations)
    {x y : Option Value} (h : GroupAgrees names keep x y) :
    GroupAgrees names keep (x.bind (Match.preserveAt tops true Action.consent locations g))
      (y.bind (Match.preserveAt tops true Action.consent locations g)) := by
  have hbind (z : Option Value) : z.bind (Match.preserveAt tops true Action.consent locations g) =
      ((z.map (false, ·)).map (Match.retainAt tops true Action.consent locations g)).bind
        (Match.settleAt Action.consent g) := by
    cases z <;> rfl
  rw [hbind, hbind]
  exact (h.pending.retainAt hc).settle g

end Group

/-! ## Whole data -/

/-- Full data and cut data that agree on what is kept. -/
structure Agrees (ps : List Property) (keep : List String → Bool) (full cut : Value) : Prop where
  fits : Fits (heads ps) full
  fits_cut : Fits (heads ps) cut
  top : ∀ p ∈ ps, p.parent? = none →
    Tree.child? cut p.name = if keep [p.name] then Tree.child? full p.name else none
  group : ∀ g, IsGroup ps g → GroupAgrees (members ps g) (fun n => keep [g, n])
    (Tree.child? full g) (Tree.child? cut g)

section Agrees

variable {ps : List Property} {keep : List String → Bool} {full cut : Value}
  {locations : List (String × Value)}

/-- **What treats the children one by one keeps data in agreement.** -/
theorem Agrees.sift (h : Agrees ps keep full cut) {f : String → Value → Option Value}
    (hf : ∀ g, IsGroup ps g → ∀ x y, GroupAgrees (members ps g) (fun n => keep [g, n]) x y →
      GroupAgrees (members ps g) (fun n => keep [g, n]) (x.bind (f g)) (y.bind (f g))) :
    Agrees ps keep (Tree.sift f full) (Tree.sift f cut) where
  fits := h.fits.sift f
  fits_cut := h.fits_cut.sift f
  top p hp hpar := by
    rw [Tree.child?_sift h.fits.nodup, Tree.child?_sift h.fits_cut.nodup, h.top p hp hpar]
    cases keep [p.name] <;> rfl
  group g hg := by
    rw [Tree.child?_sift h.fits.nodup, Tree.child?_sift h.fits_cut.nodup]
    exact hf g hg _ _ (h.group g hg)

/-- Legible locations are clear at the top, and below each group that they stand for. -/
theorem Legible.clearBelow (hl : Legible ps locations) {g : String} (hg : IsGroup ps g) :
    ClearBelow (heads ps) (members ps g) g locations :=
  fun e he hstands => (hl e he).2 g hg hstands

theorem change_excludeData (definitions : TagDefinitions) (scope : Tag.Scope) {v : Value}
    (hv : Fits (heads ps) v) (hl : Legible ps locations) :
    Action.change definitions scope (.excludeData locations) v =
      Tree.sift (Match.removeAt (heads ps) Action.consent locations) v := by
  rw [← Match.snd_removeFields hv (Legible.clear hl) 0]
  simp only [Action.change, Match.remove]

theorem change_includeData (definitions : TagDefinitions) (scope : Tag.Scope) {v : Value}
    (hv : Fits (heads ps) v) (hl : Legible ps locations) :
    Action.change definitions scope (.includeData locations) v =
      Tree.sift (Match.preserveAt (heads ps) true Action.consent locations) v :=
  Match.preserve_eq_sift hv.nodup (hv.reads (Legible.clear hl))

/-- **Excluding keeps data in agreement.** -/
theorem Agrees.excludeData (h : Agrees ps keep full cut) (hl : Legible ps locations)
    (definitions : TagDefinitions) (scope scope' : Tag.Scope) :
    Agrees ps keep (Action.change definitions scope (.excludeData locations) full)
      (Action.change definitions scope' (.excludeData locations) cut) := by
  rw [change_excludeData definitions scope h.fits hl,
    change_excludeData definitions scope' h.fits_cut hl]
  exact h.sift fun g hg _ _ hxy => hxy.bind_removeAt (Legible.clearBelow hl hg)

/-- **Including keeps data in agreement.** -/
theorem Agrees.includeData (h : Agrees ps keep full cut) (hl : Legible ps locations)
    (definitions : TagDefinitions) (scope scope' : Tag.Scope) :
    Agrees ps keep (Action.change definitions scope (.includeData locations) full)
      (Action.change definitions scope' (.includeData locations) cut) := by
  rw [change_includeData definitions scope h.fits hl,
    change_includeData definitions scope' h.fits_cut hl]
  exact h.sift fun g hg _ _ hxy => hxy.bind_preserveAt (Legible.clearBelow hl hg)

end Agrees

/-! ## What an outline still shows -/

/-- Whether an outline has a node for every dropped property that is left in the full data. -/
def Outlined (ps : List Property) (keep : List String → Bool) (full : Value) (o : Outline) : Prop :=
  ∀ p ∈ ps, keep p.path = false → (Tree.at? full p.path).isSome → o.hasPath p.path = true

section Outlined

variable {ps : List Property} {keep : List String → Bool} {full cut : Value} {o : Outline}
  {locations : List (String × Value)} {tops names : List String}

/-- A relation of data and outlines that removal at one name keeps. -/
theorem removeAt_rel {R : Value → Outline → Prop} {k : String}
    (hR : ∀ e ∈ locations, stands tops e.1 k = true → ∀ v v' x, R v x →
      Match.removeOne Action.consent e.2 k v = some v' →
      ∃ x', Match.removeOne consent e.2 k x = some x' ∧ R v' x')
    {v v' : Value} {x : Outline} (h : R v x)
    (hv : Match.removeAt tops Action.consent locations k v = some v') :
    ∃ x', Match.removeAt tops consent locations k x = some x' ∧ R v' x' := by
  induction locations generalizing v x with
  | nil =>
    obtain rfl := Option.some.inj hv
    exact ⟨x, rfl, h⟩
  | cons e locations ih =>
    obtain ⟨he, hR⟩ := List.forall_mem_cons.mp hR
    rw [Match.removeAt_cons] at hv
    obtain ⟨w, hw, hv⟩ := Option.bind_eq_some_iff.mp hv
    rw [Match.removeAt_cons]
    by_cases hk : stands tops e.1 k = true
    · rw [if_pos hk] at hw ⊢
      obtain ⟨y, hy, hwy⟩ := he hk v w x h hw
      rw [hy]
      exact ih hR hwy hv
    · rw [if_neg hk] at hw ⊢
      obtain rfl := Option.some.inj hw
      exact ih hR h hv

/-- **What stays in the data stays in the outline**: only what is addressed is removed. -/
theorem exists_removeAt {k : String} {v v' : Value} (x : Outline)
    (h : Match.removeAt tops Action.consent locations k v = some v') :
    ∃ x', Match.removeAt tops consent locations k x = some x' := by
  have hstep : ∀ e ∈ locations, stands tops e.1 k = true → ∀ v v' x, True →
      Match.removeOne Action.consent e.2 k v = some v' →
      ∃ x', Match.removeOne consent e.2 k x = some x' ∧ True := by
    intro e _ _ v v' x _ hv
    cases hsub : e.2 with
    | obj sub => exact ⟨_, rfl, trivial⟩
    | _ =>
      rw [hsub] at hv
      exact nomatch hv
  obtain ⟨x', hx', -⟩ := removeAt_rel (R := fun _ _ => True) hstep (x := x) trivial h
  exact ⟨x', hx'⟩

/-- Data and an outline of a group, which has a property if the data have it. -/
structure Shows (names : List String) (n : String) (v : Value) (x : Outline) : Prop where
  fits : Fits names v
  fits_outline : Fits names x
  shows : n ∈ Tree.keys v → n ∈ Tree.keys x

theorem mem_keys_sift {α : Type} [Match.Tree α] [Match.LawfulTree α] {t : α}
    (hn : (Tree.keys t).Nodup) {f : String → α → Option α} {k : String} :
    k ∈ Tree.keys (Tree.sift f t) ↔ ∃ c c', Tree.child? t k = some c ∧ f k c = some c' := by
  rw [Tree.mem_keys_iff, Tree.child?_sift hn]
  simp only [Option.bind_eq_some_iff]
  exact ⟨fun ⟨c', c, hc, hc'⟩ => ⟨c, c', hc, hc'⟩, fun ⟨c, c', hc, hc'⟩ => ⟨c', c, hc, hc'⟩⟩

/-- An outline shows a member of a group as long as each change leaves it there. -/
theorem Shows.sift {n : String} {v : Value} {x : Outline} (h : Shows names n v x)
    {f : String → Value → Option Value} {φ : String → Outline → Option Outline}
    (hf : ∀ c c' y, f n c = some c' → ∃ y', φ n y = some y') :
    Shows names n (Tree.sift f v) (Tree.sift φ x) where
  fits := h.fits.sift f
  fits_outline := h.fits_outline.sift φ
  shows hn := by
    obtain ⟨c, c', hc, hc'⟩ := (mem_keys_sift h.fits.nodup).mp hn
    obtain ⟨y, hy⟩ := Tree.mem_keys_iff.mp (h.shows (Tree.mem_keys_of_child? hc))
    obtain ⟨y', hy'⟩ := hf c c' y hc'
    exact (mem_keys_sift h.fits_outline.nodup).mpr ⟨y, y', hy, hy'⟩

theorem Shows.removeAt {g n : String} (hc : ClearBelow tops names g locations) {v v' : Value}
    {x : Outline} (h : Shows names n v x)
    (hv : Match.removeAt tops Action.consent locations g v = some v') :
    ∃ x', Match.removeAt tops consent locations g x = some x' ∧ Shows names n v' x' := by
  refine removeAt_rel (R := Shows names n) (fun e he hk v v' x h hv => ?_) h hv
  cases hsub : e.2 with
  | obj sub =>
    have hclear := hc e he hk sub hsub
    rw [hsub, Match.removeOne_obj h.fits hclear] at hv
    obtain rfl := Option.some.inj hv
    exact ⟨_, Match.removeOne_obj h.fits_outline hclear g,
      h.sift fun _ _ y hc' => exists_removeAt y hc'⟩
  | _ =>
    rw [hsub] at hv
    exact nomatch hv

/-- Without strictness a retained node is always matched. -/
theorem fst_retainOne_false (sub : Value) (x : Outline) :
    (Match.retainOne false consent sub x).1 = true := by
  cases sub with
  | obj sub =>
    by_cases hb : Tree.isBranch x = true
    · simp only [Match.retainOne, if_pos hb, Bool.not_false, Bool.or_true]
    · simp only [Match.retainOne, if_neg hb, Bool.not_false]
  | _ => rfl

/-- A relation of data and outlines that retention at one name keeps; what is retained in the data
is retained in the outline. -/
theorem retainAt_rel {R : Value → Outline → Prop} {k : String}
    (hR : ∀ e ∈ locations, stands tops e.1 k = true → ∀ v x, R v x →
      R (Match.retainOne true Action.consent e.2 v).2 (Match.retainOne false consent e.2 x).2)
    {s : Bool × Value} {s' : Bool × Outline} (h : R s.2 s'.2) (hle : s.1 = true → s'.1 = true) :
    R (Match.retainAt tops true Action.consent locations k s).2
        (Match.retainAt tops false consent locations k s').2 ∧
      ((Match.retainAt tops true Action.consent locations k s).1 = true →
        (Match.retainAt tops false consent locations k s').1 = true) := by
  induction locations generalizing s s' with
  | nil => exact ⟨h, hle⟩
  | cons e locations ih =>
    obtain ⟨he, hR⟩ := List.forall_mem_cons.mp hR
    rw [Match.retainAt_cons, Match.retainAt_cons]
    by_cases hk : stands tops e.1 k = true
    · rw [if_pos hk, if_pos hk]
      refine ih hR (he hk _ _ h) fun _ => ?_
      rw [fst_retainOne_false, Bool.or_true]
    · rw [if_neg hk, if_neg hk]
      exact ih hR h hle

theorem preserveAt_rel {R : Value → Outline → Prop} {k : String}
    (hR : ∀ e ∈ locations, stands tops e.1 k = true → ∀ v x, R v x →
      R (Match.retainOne true Action.consent e.2 v).2 (Match.retainOne false consent e.2 x).2)
    {v v' : Value} {x : Outline} (h : R v x)
    (hv : Match.preserveAt tops true Action.consent locations k v = some v') :
    ∃ x', Match.preserveAt tops false consent locations k x = some x' ∧ R v' x' := by
  have hstart : R (false, v).2 (false, x).2 := h
  obtain ⟨hrel, hle⟩ := retainAt_rel hR hstart id
  unfold Match.preserveAt Match.settleAt at hv ⊢
  by_cases hkept : (Match.retainAt tops true Action.consent locations k (false, v)).1 = true
  · rw [if_pos hkept] at hv
    rw [if_pos (hle hkept)]
    obtain rfl := Option.some.inj hv
    exact ⟨_, rfl, hrel⟩
  · rw [if_neg hkept] at hv
    exact nomatch hv

theorem exists_preserveAt {k : String} {v v' : Value} (x : Outline)
    (h : Match.preserveAt tops true Action.consent locations k v = some v') :
    ∃ x', Match.preserveAt tops false consent locations k x = some x' := by
  obtain ⟨x', hx', -⟩ := preserveAt_rel (R := fun _ _ => True) (x := x)
    (fun _ _ _ _ _ _ => trivial) trivial h
  exact ⟨x', hx'⟩

theorem Shows.preserveAt {g n : String} (hc : ClearBelow tops names g locations) {v v' : Value}
    {x : Outline} (h : Shows names n v x)
    (hv : Match.preserveAt tops true Action.consent locations g v = some v') :
    ∃ x', Match.preserveAt tops false consent locations g x = some x' ∧ Shows names n v' x' := by
  refine preserveAt_rel (R := Shows names n) (fun e he hk v x h => ?_) h hv
  cases hsub : e.2 with
  | obj sub =>
    have hclear := hc e he hk sub hsub
    rw [Match.snd_retainOne_obj true h.fits.nodup (h.fits.reads hclear),
      Match.snd_retainOne_obj false h.fits_outline.nodup (h.fits_outline.reads hclear)]
    exact h.sift fun _ _ y hc' => exists_preserveAt y hc'
  | _ => exact h

/-- A group that has a dropped property has no other names than those of its properties. -/
theorem GroupAgrees.fits_of_mem {keep : String → Bool} {v : Value} {y : Option Value}
    (h : GroupAgrees names keep (some v) y) {n : String} (hn : n ∈ names) (hk : keep n = false)
    (hmem : n ∈ Tree.keys v) : Fits names v := by
  cases h with
  | whole hkeep => exact absurd (hkeep n hmem hn) (by simp [hk])
  | part h => exact h
  | lost h _ => exact h

section Sift

variable (h : Outlined ps keep full o) (hag : Agrees ps keep full cut) (hs : Shaped ps o)
  {f : String → Value → Option Value} {φ : String → Outline → Option Outline} {p : Property}

include h hag hs

/-- A property at the top that is still in the full data is still in the outline. -/
theorem Outlined.sift_top
    (htop : ∀ k v v' x, f k v = some v' → ∃ x', φ k x = some x') (hp : p ∈ ps)
    (hk : keep p.path = false) (hpar : p.parent? = none)
    (hsome : (Tree.at? (Tree.sift f full) p.path).isSome) :
    (Tree.sift φ o).hasPath p.path = true := by
  have hout := h p hp hk
  rw [at?_of_parent?_eq_none _ hpar] at hsome hout
  rw [path_of_parent?_eq_none hpar] at hout ⊢
  rw [Tree.child?_sift hag.fits.nodup] at hsome
  obtain ⟨v', hv'⟩ := Option.isSome_iff_exists.mp hsome
  obtain ⟨v, hv, hv'⟩ := Option.bind_eq_some_iff.mp hv'
  obtain ⟨x, hx⟩ := hasPath_singleton.mp (hout (by rw [hv]; rfl))
  obtain ⟨x', hx'⟩ := htop p.name v v' x hv'
  refine hasPath_singleton.mpr ⟨x', ?_⟩
  rw [Tree.child?_sift hs.fits.nodup, hx]
  exact hx'

/-- A member of a group that is still in the full data is still in the outline. -/
theorem Outlined.sift_group {g : String}
    (hkeys : ∀ v v', f g v = some v' → (Tree.keys v').Sublist (Tree.keys v))
    (hgroup : ∀ n v v' x, Shows (members ps g) n v x → f g v = some v' →
      ∃ x', φ g x = some x' ∧ Shows (members ps g) n v' x')
    (hp : p ∈ ps) (hk : keep p.path = false) (hpar : p.parent? = some g)
    (hsome : (Tree.at? (Tree.sift f full) p.path).isSome) :
    (Tree.sift φ o).hasPath p.path = true := by
  have hout := h p hp hk
  have hg : IsGroup ps g := ⟨p, hp, hpar⟩
  rw [at?_of_parent?_eq_some _ hpar] at hsome hout
  rw [path_of_parent?_eq_some hpar] at hout hk ⊢
  rw [Tree.child?_sift hag.fits.nodup] at hsome
  obtain ⟨w, hw⟩ := Option.isSome_iff_exists.mp hsome
  obtain ⟨v', hv', hw⟩ := Option.bind_eq_some_iff.mp hw
  obtain ⟨v, hv, hv'⟩ := Option.bind_eq_some_iff.mp hv'
  have hmem' : p.name ∈ Tree.keys v' := Tree.mem_keys_of_child? hw
  have hmem := (hkeys v v' hv').subset hmem'
  obtain ⟨c, hc⟩ := Tree.mem_keys_iff.mp hmem
  have hpath := hout (by rw [hv, Option.bind_some, hc]; rfl)
  obtain ⟨x, hx, hinner⟩ := hasPath_cons.mp hpath
  have hfits : Fits (members ps g) v :=
    GroupAgrees.fits_of_mem (hv ▸ hag.group g hg) (mem_members.mpr ⟨p, hp, hpar, rfl⟩) hk hmem
  have hshows : Shows (members ps g) p.name v x :=
    ⟨hfits, hs.group g x hx, fun _ => Tree.mem_keys_iff.mpr (hasPath_singleton.mp hinner)⟩
  obtain ⟨x', hx', hshows'⟩ := hgroup p.name v v' x hshows hv'
  refine hasPath_cons.mpr ⟨x', ?_, ?_⟩
  · rw [Tree.child?_sift hs.fits.nodup, hx]
    exact hx'
  · exact hasPath_singleton.mpr (Tree.mem_keys_iff.mp (hshows'.shows hmem'))

/-- **What stays in the full data stays in the outline**, if it does so child by child. -/
theorem Outlined.sift
    (hkeys : ∀ k v v', f k v = some v' → (Tree.keys v').Sublist (Tree.keys v))
    (htop : ∀ k v v' x, f k v = some v' → ∃ x', φ k x = some x')
    (hgroup : ∀ g, IsGroup ps g → ∀ n v v' x, Shows (members ps g) n v x → f g v = some v' →
      ∃ x', φ g x = some x' ∧ Shows (members ps g) n v' x') :
    Outlined ps keep (Tree.sift f full) (Tree.sift φ o) := by
  intro p hp hk hsome
  cases hpar : p.parent? with
  | none => exact h.sift_top hag hs htop hp hk hpar hsome
  | some g => exact h.sift_group hag hs (hkeys g) (hgroup g ⟨p, hp, hpar⟩) hp hk hpar hsome

end Sift

/-- **Excluding keeps what is left outlined.** -/
theorem Outlined.excludeData (h : Outlined ps keep full o) (hag : Agrees ps keep full cut)
    (hs : Shaped ps o) (hl : Legible ps locations) (definitions : TagDefinitions)
    (scope : Tag.Scope) :
    Outlined ps keep (Action.change definitions scope (.excludeData locations) full)
      (change (.excludeData locations) o) := by
  have ho : change (.excludeData locations) o =
      Tree.sift (Match.removeAt (heads ps) consent locations) o := by
    rw [← Match.snd_removeFields hs.fits (Legible.clear hl) 0]
    simp only [change, Match.remove]
    rfl
  rw [change_excludeData definitions scope hag.fits hl, ho]
  exact h.sift hag hs (fun _ _ _ => Match.keys_removeAt_sublist)
    (fun _ _ _ x hv => exists_removeAt x hv)
    fun g hg _ _ _ _ hshows hv => hshows.removeAt (Legible.clearBelow hl hg) hv

/-- **Including keeps what is left outlined.** -/
theorem Outlined.includeData (h : Outlined ps keep full o) (hag : Agrees ps keep full cut)
    (hs : Shaped ps o) (hl : Legible ps locations) (definitions : TagDefinitions)
    (scope : Tag.Scope) :
    Outlined ps keep (Action.change definitions scope (.includeData locations) full)
      (change (.includeData locations) o) := by
  have ho : change (.includeData locations) o =
      Tree.sift (Match.preserveAt (heads ps) false consent locations) o :=
    Match.preserve_eq_sift hs.fits.nodup (hs.fits.reads (Legible.clear hl))
  rw [change_includeData definitions scope hag.fits hl, ho]
  exact h.sift hag hs (fun _ _ _ => Match.keys_preserveAt_sublist)
    (fun _ _ _ x hv => exists_preserveAt x hv)
    fun g hg _ _ _ _ hshows hv => hshows.preserveAt (Legible.clearBelow hl hg) hv

end Outlined

end DeviceStats.Outline
