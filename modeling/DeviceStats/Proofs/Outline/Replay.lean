import DeviceStats.Proofs.Outline.Tagging

/-!
# Proofs/Outline/Replay — actions keep full data and cut data in agreement

The actions are carried out on the outline first, and what it keeps in the end is kept from the
start.  Action by action, the full data and the cut data stay in agreement on it, and the outline
still has a node for every dropped property that is left in the full data (`Agrees.apply`).
-/

namespace DeviceStats

open Json (Value Object)
open Layout
open Match (Tree Fits Clear stands)

namespace Outline

/-! ## What actions look at -/

/-- The locations of an effect; without any, none. -/
def locationsOf : Effect → Object
  | .setTag _ locations? => locations?.getD []
  | .includeData locations => locations
  | .excludeData locations => locations

/-- The trees of a condition; without one, none. -/
def treesOf (a : Action) : List ConditionTree := (a.condition?.map Condition.trees).getD []

/-- Whether all keys of an action are clear. -/
def ClearKeys (ps : List Property) (a : Action) : Prop :=
  (∀ tree ∈ treesOf a, Legible ps tree) ∧ Legible ps (locationsOf a.effect)

/-- Whether tags go to a group itself. -/
def TagsItself (ps : List Property) (locations : Object) (g : String) : Prop :=
  ∃ e ∈ locations, stands (heads ps) e.1 g = true ∧ ∀ sub, e.2 ≠ .obj sub

/-- What an action may ask of a group as such: the group has something that is not dropped, and it
gets no tag with the name of a dropped property. -/
structure Asks (ps : List Property) (keep : List String → Bool) (a : Action) (full : Value) :
    Prop where
  condition : ∀ tree ∈ treesOf a, ∀ g, IsGroup ps g → AsksFor ps tree g →
    Peopled (members ps g) (fun n => keep [g, n]) (Tree.child? full g)
  tags : ∀ tags locations, a.effect = .setTag tags (some locations) → a.applies full = true →
    ∀ g, IsGroup ps g → TagsItself ps locations g →
      Peopled (members ps g) (fun n => keep [g, n]) (Tree.child? full g) ∧
      ∀ n ∈ members ps g, keep [g, n] = false → n ∉ Named.keys tags

/-- Whether all actions ask only that, each of what those before it leave. -/
def AsksAll (ps : List Property) (keep : List String → Bool) (definitions : TagDefinitions) :
    List Action → Value → Prop
  | [], _ => True
  | a :: actions, full =>
    (a.enabled = true → Asks ps keep a full) ∧
      AsksAll ps keep definitions actions (Action.apply definitions (scopeOf ps) full a)

section Decide

variable (ps : List Property) (keep : List String → Bool)

instance (a : Action) : Decidable (ClearKeys ps a) :=
  inferInstanceAs (Decidable ((∀ tree ∈ treesOf a, Legible ps tree) ∧ _))

instance (locations : Object) (g : String) : Decidable (TagsItself ps locations g) :=
  inferInstanceAs (Decidable (∃ e ∈ locations, stands (heads ps) e.1 g = true ∧
    ∀ sub, e.2 = .obj sub → False))

instance (a : Action) (full : Value) : Decidable (Asks ps keep a full) :=
  have : Decidable (∀ tree ∈ treesOf a, ∀ g, IsGroup ps g → AsksFor ps tree g →
      Peopled (members ps g) (fun n => keep [g, n]) (Tree.child? full g)) := inferInstance
  match heffect : a.effect with
  | .setTag tags (some locations) =>
    decidable_of_iff (_ ∧ (a.applies full = true → ∀ g, IsGroup ps g → TagsItself ps locations g →
      Peopled (members ps g) (fun n => keep [g, n]) (Tree.child? full g) ∧
      ∀ n ∈ members ps g, keep [g, n] = false → n ∉ Named.keys tags))
      ⟨fun h => ⟨h.1, fun tags' locations' h' => by
          rw [heffect] at h'
          cases h'
          exact h.2⟩,
        fun h => ⟨h.condition, h.tags tags locations heffect⟩⟩
  | .setTag _ none | .includeData _ | .excludeData _ =>
    decidable_of_iff _ ⟨fun h => ⟨h, fun _ _ h' => by rw [heffect] at h'; cases h'⟩, Asks.condition⟩

instance decidableAsksAll (definitions : TagDefinitions) : (actions : List Action) →
    (full : Value) → Decidable (AsksAll ps keep definitions actions full)
  | [], _ => inferInstanceAs (Decidable True)
  | a :: actions, full =>
    have := decidableAsksAll definitions actions (Action.apply definitions (scopeOf ps) full a)
    inferInstanceAs (Decidable ((a.enabled = true → Asks ps keep a full) ∧ _))

end Decide

section Replay

variable {ps : List Property} {keep : List String → Bool} {full cut : Value} {o : Outline}
  {a : Action} (definitions : TagDefinitions)

theorem Outlined.mono {full' : Value} {o' : Outline} (h : Outlined ps keep full o)
    (hfull : ∀ p ∈ ps, keep p.path = false → (Tree.at? full' p.path).isSome →
      (Tree.at? full p.path).isSome)
    (ho : ∀ p : Property, o.hasPath p.path = true → o'.hasPath p.path = true) :
    Outlined ps keep full' o' :=
  fun p hp hk hsome => ho p (h p hp hk (hfull p hp hk hsome))

/-- **What an action looks at is kept.** -/
theorem Outlined.heeds (h : Outlined ps keep full o) (hs : Shaped ps o) (hc : Closed o)
    (ha : a.enabled = true) (hclear : ClearKeys ps a) (hasks : Asks ps keep a full)
    (hmarks : ∀ p, MarkedAt (Outline.apply o a) p → keep p = true) {tree : ConditionTree}
    (ht : tree ∈ treesOf a) : Heeds ps keep full tree where
  passes p hp hpass hsome := by
    refine Bool.of_not_eq_false fun hk => ?_
    cases hcond : a.condition? with
    | none =>
      rw [treesOf, hcond] at ht
      exact nomatch ht
    | some c =>
      have htrees : treesOf a = c.trees := by rw [treesOf, hcond]; rfl
      have hmark := markedAt_apply_of_passes ha hcond hs hc (htrees ▸ hclear.1) hp
        (h p hp hk hsome) (htrees ▸ ht) hpass
      rw [hmarks p.path hmark] at hk
      exact nomatch hk
  asks g hg hask := hasks.condition tree ht g hg hask

/-- **An action takes place on full data just if it does on cut data.** -/
theorem Agrees.applies_eq (h : Agrees ps keep full cut) (hout : Outlined ps keep full o)
    (hs : Shaped ps o) (hc : Closed o) (ha : a.enabled = true) (hclear : ClearKeys ps a)
    (hasks : Asks ps keep a full)
    (hmarks : ∀ p, MarkedAt (Outline.apply o a) p → keep p = true) :
    a.applies full = a.applies cut := by
  unfold Action.applies
  cases hcond : a.condition? with
  | none => rfl
  | some c =>
    have htrees : treesOf a = c.trees := by rw [treesOf, hcond]; rfl
    rw [Option.all_some, Option.all_some, h.holds_eq (htrees ▸ hclear.1) fun tree ht =>
      hout.heeds hs hc ha hclear hasks hmarks (htrees ▸ ht)]

theorem tagLocations_of_effect_eq {tags : Object} {locations? : Option Object}
    (h : a.effect = .setTag tags locations?) :
    tagLocations a.effect = locations?.getD [] := by
  rw [h]
  cases locations? <;> rfl

/-- What an action asks of a group that it tags itself. -/
theorem Asks.tagsItself (h : Asks ps keep a full) {tags : Object} {locations? : Option Object}
    (heffect : a.effect = .setTag tags locations?) (happlies : a.applies full = true) {g : String}
    (hg : IsGroup ps g) (htags : TagsItself ps (locations?.getD []) g) :
    Peopled (members ps g) (fun n => keep [g, n]) (Tree.child? full g) ∧
      ∀ n ∈ members ps g, keep [g, n] = false → n ∉ Named.keys tags := by
  cases locations? with
  | none =>
    obtain ⟨e, he, -⟩ := htags
    exact nomatch he
  | some locations => exact h.tags tags locations heffect happlies g hg htags

/-- **What an action may tag is kept.** -/
theorem Outlined.tags (h : Outlined ps keep full o) (hs : Shaped ps o) (hc : Closed o)
    (ha : a.enabled = true) (hclear : ClearKeys ps a) (hasks : Asks ps keep a full)
    (hmarks : ∀ p, MarkedAt (Outline.apply o a) p → keep p = true) {tags : Object}
    {locations? : Option Object} (heffect : a.effect = .setTag tags locations?)
    (happlies : a.applies full = true) {g : String} (hg : IsGroup ps g) :
    Tags (members ps g) (fun n => keep [g, n]) (heads ps) tags (locations?.getD []) g
      (Tree.child? full g) := by
  have hloc := tagLocations_of_effect_eq heffect
  have hlegible : Legible ps (tagLocations a.effect) := by
    have hl := hclear.2
    rw [heffect] at hl
    rwa [hloc]
  have hself {e : String × Value} (he : e ∈ locations?.getD [])
      (hk : stands (heads ps) e.1 g = true) (hleaf : ∀ sub, e.2 ≠ .obj sub) :=
    hasks.tagsItself heffect happlies hg ⟨e, he, hk, hleaf⟩
  refine ⟨fun e he hk v hv n hn hmem => ?_, fun e he hk hleaf => (hself he hk hleaf).1,
    fun e he hk hleaf _ => (hself he hk hleaf).2⟩
  obtain ⟨p, hp, hpar, rfl⟩ := mem_members.mp hmem
  refine Bool.of_not_eq_false fun hkeep => ?_
  obtain ⟨c, hchild⟩ := Tree.mem_keys_iff.mp hn
  have hpath : p.path = [g, p.name] := path_of_parent?_eq_some hpar
  have hsome : (Tree.at? full p.path).isSome := by
    rw [at?_of_parent?_eq_some _ hpar, hv, Option.bind_some, hchild]
    rfl
  have hhead : head p = g := head_of_parent?_eq_some hpar
  have hmark := markedAt_apply_of_stands ha hs hc hlegible
    (h p hp (hpath ▸ hkeep) hsome) (hloc ▸ he) (hhead ▸ hk)
  rw [← hpath, hmarks p.path hmark] at hkeep
  exact nomatch hkeep

/-! ## One action -/

/-- What treats the children one by one brings no property back. -/
theorem isSome_at?_of_sift {v : Value} (hn : (Tree.keys v).Nodup)
    {f : String → Value → Option Value}
    (hf : ∀ k c c', f k c = some c' → (Tree.keys c').Sublist (Tree.keys c)) {p : Property}
    (hsome : (Tree.at? (Tree.sift f v) p.path).isSome) : (Tree.at? v p.path).isSome := by
  refine isSome_at?_of_below (fun k c' hc' => ?_) hsome
  rw [Tree.child?_sift hn] at hc'
  obtain ⟨c, hc, hc'⟩ := Option.bind_eq_some_iff.mp hc'
  exact ⟨c, hc, fun n hn => (hf k c c' hc').subset hn⟩

/-- **The effect of an action keeps data in agreement**, and brings no dropped property back. -/
theorem Agrees.change (h : Agrees ps keep full cut) (hout : Outlined ps keep full o)
    (hap : Apart ps) (hs : Shaped ps o) (hc : Closed o) (ha : a.enabled = true)
    (hclear : ClearKeys ps a) (hasks : Asks ps keep a full)
    (hmarks : ∀ p, MarkedAt (Outline.apply o a) p → keep p = true)
    (happlies : a.applies full = true) :
    Agrees ps keep (Action.change definitions (scopeOf ps) a.effect full)
        (Action.change definitions (scopeOf (keptProperties keep ps)) a.effect cut) ∧
      ∀ p ∈ ps, keep p.path = false →
        (Tree.at? (Action.change definitions (scopeOf ps) a.effect full) p.path).isSome →
        (Tree.at? full p.path).isSome := by
  have hl := hclear.2
  cases heffect : a.effect with
  | setTag tags locations? =>
    rw [heffect] at hl
    have ht := fun g hg => hout.tags hs hc ha hclear hasks hmarks heffect happlies (g := g) hg
    exact ⟨h.place hap locations? hl ht, fun p hp hk => isSome_at?_of_place h hl ht hp hk⟩
  | includeData locations =>
    rw [heffect] at hl
    change Legible ps locations at hl
    refine ⟨h.includeData hl definitions _ _, fun p _ _ hsome => ?_⟩
    rw [change_includeData definitions _ h.fits hl] at hsome
    exact isSome_at?_of_sift h.fits.nodup (fun _ _ _ => Match.keys_preserveAt_sublist) hsome
  | excludeData locations =>
    rw [heffect] at hl
    change Legible ps locations at hl
    refine ⟨h.excludeData hl definitions _ _, fun p _ _ hsome => ?_⟩
    rw [change_excludeData definitions _ h.fits hl] at hsome
    exact isSome_at?_of_sift h.fits.nodup (fun _ _ _ => Match.keys_removeAt_sublist) hsome

/-- **An action that always takes place leaves a node for what it leaves.** -/
theorem Outlined.change (h : Outlined ps keep full o) (hag : Agrees ps keep full cut)
    (hs : Shaped ps o) (hclear : ClearKeys ps a)
    (hback : ∀ p ∈ ps, keep p.path = false →
      (Tree.at? (Action.change definitions (scopeOf ps) a.effect full) p.path).isSome →
      (Tree.at? full p.path).isSome) :
    Outlined ps keep (Action.change definitions (scopeOf ps) a.effect full)
      (Outline.change a.effect (markTagged a.effect o)) := by
  have hl := hclear.2
  cases heffect : a.effect with
  | setTag tags locations? =>
    rw [heffect] at hback
    exact h.mono hback fun p => (marks_markTagged _ o).hasPath
  | includeData locations =>
    rw [heffect] at hl
    exact h.includeData hag hs hl definitions _
  | excludeData locations =>
    rw [heffect] at hl
    exact h.excludeData hag hs hl definitions _

/-- **An action that takes place leaves a node for what it leaves**; with a condition, it only
marks. -/
theorem Outlined.apply_of_applies (h : Outlined ps keep full o) (hag : Agrees ps keep full cut)
    (hs : Shaped ps o) (ha : a.enabled = true) (hclear : ClearKeys ps a)
    (hback : ∀ p ∈ ps, keep p.path = false →
      (Tree.at? (Action.change definitions (scopeOf ps) a.effect full) p.path).isSome →
      (Tree.at? full p.path).isSome) :
    Outlined ps keep (Action.change definitions (scopeOf ps) a.effect full)
      (Outline.apply o a) := by
  rw [Outline.apply, if_pos ha]
  cases a.condition? with
  | none => exact h.change definitions hag hs hclear hback
  | some c =>
    exact h.mono hback fun p hp =>
      (marks_markSeen c _).hasPath ((marks_markTagged a.effect o).hasPath hp)

/-- An action that does not take place has a condition, so it takes no node out. -/
theorem Outlined.apply_of_not_applies (h : Outlined ps keep full o) (ha : a.enabled = true)
    (happlies : a.applies full ≠ true) : Outlined ps keep full (Outline.apply o a) := by
  refine h.mono (fun p _ _ => id) fun p hp => ?_
  rw [Outline.apply, if_pos ha]
  cases hcond : a.condition? with
  | none =>
    rw [Action.applies, ha, hcond] at happlies
    exact absurd rfl happlies
  | some c => exact (marks_markSeen c _).hasPath ((marks_markTagged a.effect o).hasPath hp)

/-- **An action keeps data in agreement**, and the outline shows what is left. -/
theorem Agrees.apply (h : Agrees ps keep full cut) (hout : Outlined ps keep full o)
    (hap : Apart ps) (hs : Shaped ps o) (hc : Closed o)
    (hclear : a.enabled = true → ClearKeys ps a)
    (hasks : a.enabled = true → Asks ps keep a full)
    (hmarks : ∀ p, MarkedAt (Outline.apply o a) p → keep p = true) :
    Agrees ps keep (Action.apply definitions (scopeOf ps) full a)
        (Action.apply definitions (scopeOf (keptProperties keep ps)) cut a) ∧
      Outlined ps keep (Action.apply definitions (scopeOf ps) full a) (Outline.apply o a) := by
  unfold Action.apply
  cases ha : a.enabled with
  | false =>
    have hno (v : Value) : a.applies v = false := by rw [Action.applies, ha]; rfl
    rw [hno, hno, Outline.apply, ha]
    exact ⟨h, hout⟩
  | true =>
    have hclear := hclear ha
    have hasks := hasks ha
    rw [← h.applies_eq hout hs hc ha hclear hasks hmarks]
    by_cases happlies : a.applies full = true
    · rw [if_pos happlies, if_pos happlies]
      obtain ⟨hag, hback⟩ := h.change definitions hout hap hs hc ha hclear hasks
        hmarks happlies
      exact ⟨hag, hout.apply_of_applies definitions h hs ha hclear hback⟩
    · rw [if_neg happlies, if_neg happlies]
      exact ⟨h, hout.apply_of_not_applies ha happlies⟩

/-! ## All actions -/

/-- **Actions keep data in agreement**, each on what the one before it has left. -/
theorem Agrees.applyAll (hap : Apart ps) {actions : List Action} (h : Agrees ps keep full cut)
    (hout : Outlined ps keep full o) (hs : Shaped ps o) (hc : Closed o)
    (hclear : ∀ a ∈ actions, a.enabled = true → ClearKeys ps a)
    (hasks : AsksAll ps keep definitions actions full)
    (hkeep : ∀ p, MarkedAt (actions.foldl Outline.apply o) p → keep p = true) :
    Agrees ps keep (Action.applyAll definitions (scopeOf ps) actions full)
        (Action.applyAll definitions (scopeOf (keptProperties keep ps)) actions cut) ∧
      Outlined ps keep (Action.applyAll definitions (scopeOf ps) actions full)
        (actions.foldl Outline.apply o) := by
  induction actions generalizing full cut o with
  | nil => exact ⟨h, hout⟩
  | cons a actions ih =>
    obtain ⟨ha, hclear⟩ := List.forall_mem_cons.mp hclear
    have hstep := follows_apply o a
    obtain ⟨hag, hout'⟩ := h.apply definitions hout hap hs hc ha hasks.1
      fun p hp => hkeep p ((follows_foldl _ actions).marks (hstep.closed hc) p hp)
    exact ih hag hout' (hstep.shaped hs) (hstep.closed hc) hclear hasks.2 hkeep

/-- **What is left in the end is the same at every place of a property**, if what the outline has in
the end is kept. -/
theorem Agrees.at?_eq (h : Agrees ps keep full cut) (hout : Outlined ps keep full o)
    (hkeep : ∀ p ∈ ps, o.hasPath p.path = true → keep p.path = true) {p : Property} (hp : p ∈ ps) :
    Tree.at? cut p.path = Tree.at? full p.path := by
  rw [h.at?_cut hp]
  cases hk : keep p.path with
  | true => rfl
  | false =>
    cases hsome : Tree.at? full p.path with
    | none => rfl
    | some v =>
      have := hkeep p hp (hout p hp hk (by rw [hsome]; rfl))
      rw [hk] at this
      exact nomatch this

end Replay

end Outline

end DeviceStats
