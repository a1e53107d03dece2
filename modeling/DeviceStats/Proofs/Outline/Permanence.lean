import DeviceStats.Proofs.Match.Visits
import DeviceStats.Proofs.Outline.Beginning

/-!
# Proofs/Outline/Permanence — what an action comes by is never pruned

A walk over an outline marks the nodes that it comes by and no others
(`markedAt_walk_mark_iff`).  Marked nodes stay with all above them, so a property that a condition
or a located tag comes by is selected whatever the actions after it take out (`permanence`).
-/

namespace DeviceStats

open Json (Value)
open Match (Tree Alike Visits matchingKeys)

namespace Outline

/-! ## Outlines marked in some places -/

/-- Marking moves no node, so the names are the same at every path. -/
theorem Marks.alike {o o' : Outline} (h : Marks o o') : Alike o o' := by
  intro p
  cases hx : Tree.at? o p with
  | some x =>
    obtain ⟨x', hx', hkeys⟩ := h.keys p x hx
    rw [hx']
    exact congrArg some hkeys.symm
  | none =>
    cases hx' : Tree.at? o' p with
    | none => rfl
    | some x' =>
      obtain ⟨x, hsome, -⟩ := h.nodes p x' hx'
      rw [hx] at hsome
      exact nomatch hsome

/-- An outline that comes of another by marking just the nodes in some places. -/
structure Inked (places : List String → Prop) (o o' : Outline) : Prop where
  marks : Marks o o'
  markedAt_iff : ∀ p, MarkedAt o' p ↔ MarkedAt o p ∨ places p

section Inked

variable {places places' : List String → Prop} {o o' o'' c c' : Outline} {k : String}

theorem Inked.refl (o : Outline) : Inked (fun _ => False) o o := ⟨.refl o, fun _ => by simp⟩

/-- Marks of two walks are those of either. -/
theorem Inked.trans (h : Inked places o o') (h' : Inked places' o' o'') :
    Inked (fun p => places p ∨ places' p) o o'' :=
  ⟨h.marks.trans h'.marks, fun p => by rw [h'.markedAt_iff, h.markedAt_iff, or_assoc]⟩

theorem Inked.congr (h : Inked places o o') (hp : ∀ p, places p ↔ places' p) :
    Inked places' o o' := ⟨h.marks, fun p => by rw [h.markedAt_iff, hp]⟩

theorem markedAt_nil_iff : MarkedAt o [] ↔ o.isKept = true := by simp [MarkedAt]

theorem markedAt_cons_iff {p : List String} :
    MarkedAt o (k :: p) ↔ ∃ c, Tree.child? o k = some c ∧ MarkedAt c p := by
  constructor
  · rintro ⟨x, hx, hkept⟩
    obtain ⟨c, hc, hx⟩ := Option.bind_eq_some_iff.mp hx
    exact ⟨c, hc, x, hx, hkept⟩
  · rintro ⟨c, hc, h⟩
    exact markedAt_cons hc h

/-- Marking below a child marks nothing elsewhere. -/
theorem Inked.setChild (hc : Tree.child? o k = some c) (h : Inked places c c')
    (hk : c'.isKept = true) :
    Inked (fun p => ∃ q, p = k :: q ∧ places q) o (Tree.setChild o k c') where
  marks := h.marks.setChild hc hk
  markedAt_iff p := by
    cases p with
    | nil => simp [markedAt_nil_iff]
    | cons j p =>
      rw [markedAt_cons_iff, markedAt_cons_iff, Tree.child?_setChild hc]
      by_cases hkj : k = j
      · subst hkj
        simp [hc, h.markedAt_iff]
      · simp [hkj, Ne.symm hkj]

/-- Several children marked below. -/
theorem Inked.foldl_update {g : Outline → Outline} {below : Outline → List String → Prop}
    (hg : ∀ c, Inked (below c) c (g c) ∧ (g c).isKept = true)
    (hbelow : ∀ c c' p, Alike c c' → below c p → below c' p) (ks : List String) (o : Outline) :
    Inked (fun p => ∃ k ∈ ks, ∃ c q, p = k :: q ∧ Tree.child? o k = some c ∧ below c q) o
      (ks.foldl (Tree.update fun _ c => some (g c)) o) := by
  induction ks generalizing o with
  | nil => exact (Inked.refl o).congr fun p => by simp
  | cons k ks ih =>
    have hstep : Inked (fun p => ∃ c q, p = k :: q ∧ Tree.child? o k = some c ∧ below c q) o
        (Tree.update (fun _ c => some (g c)) o k) := by
      unfold Tree.update
      cases hc : Tree.child? o k with
      | none => exact (Inked.refl o).congr fun p => by simp
      | some c =>
        exact ((hg c).1.setChild hc (hg c).2).congr fun p => by simp
    refine (hstep.trans (ih _)).congr fun p => ?_
    rw [List.exists_mem_cons_iff]
    refine or_congr_right (exists_congr fun j => and_congr_right fun _ => ?_)
    constructor
    · rintro ⟨c, q, hp, hc, h⟩
      obtain ⟨c', hc', halike⟩ := hstep.marks.alike.symm.exists_child? hc
      exact ⟨c', q, hp, hc', hbelow c c' q halike h⟩
    · rintro ⟨c, q, hp, hc, h⟩
      obtain ⟨c', hc', halike⟩ := hstep.marks.alike.exists_child? hc
      exact ⟨c', q, hp, hc', hbelow c c' q halike h⟩

end Inked

/-! ## What a walk marks -/

section Walk

variable {f : Outline → Outline} {below : Outline → List String → Prop}
  {fields : List (String × Value)} {o : Outline}

/-- The places below the nodes that a walk comes by. -/
def BelowVisits (below : Outline → List String → Prop) (fields : List (String × Value))
    (o : Outline) (p : List String) : Prop :=
  ∃ q r x, p = q ++ r ∧ Visits o fields q ∧ Tree.at? o q = some x ∧ below x r

/-- What a walk visits depends on names alone, and so does what it marks below. -/
theorem BelowVisits.alike (hbelow : ∀ c c' p, Alike c c' → below c p → below c' p) :
    ∀ (o o' : Outline) (p : List String), Alike o o' → BelowVisits below fields o p →
      BelowVisits below fields o' p := by
  rintro o o' p halike ⟨q, r, x, hp, hvisits, hx, h⟩
  obtain ⟨x', hx', hnode⟩ := halike.exists_at? hx
  exact ⟨q, r, x', hp, hvisits.alike halike, hx', hbelow x x' r hnode h⟩

/-- What one field of locations comes by, then what the others do. -/
theorem belowVisits_cons {key : String} {v : Value} {p : List String} :
    BelowVisits below ((key, v) :: fields) o p ↔
      (∃ k ∈ matchingKeys o key, ∃ c q, p = k :: q ∧ Tree.child? o k = some c ∧
        (below c q ∨ ∃ sub, v = .obj sub ∧ BelowVisits below sub c q)) ∨
        BelowVisits below fields o p := by
  simp only [BelowVisits, Visits.cons_iff]
  constructor
  · rintro ⟨q, r, x, rfl, (⟨k, hk, rfl | ⟨sub, c, s, hsub, hc, hs, rfl⟩⟩ | h), hx, hb⟩
    · exact .inl ⟨k, hk, x, r, rfl, Tree.at?_singleton o k ▸ hx, .inl hb⟩
    · rw [Tree.at?_cons, hc] at hx
      exact .inl ⟨k, hk, c, s ++ r, rfl, hc, .inr ⟨sub, hsub, s, r, x, rfl, hs, hx, hb⟩⟩
    · exact .inr ⟨q, r, x, rfl, h, hx, hb⟩
  · rintro (⟨k, hk, c, r, rfl, hc, hb | ⟨sub, hsub, s, r, x, rfl, hs, hx, hb⟩⟩ |
      ⟨q, r, x, hp, h, hx, hb⟩)
    · exact ⟨[k], r, c, rfl, .inl ⟨k, hk, .inl rfl⟩, (Tree.at?_singleton o k).trans hc, hb⟩
    · refine ⟨k :: s, r, x, rfl, .inl ⟨k, hk, .inr ⟨sub, c, s, hsub, hc, hs, rfl⟩⟩, ?_, hb⟩
      rw [Tree.at?_cons, hc]
      exact hx
    · exact ⟨q, r, x, hp, .inr h, hx, hb⟩

/-- Below a leaf nothing is visited. -/
theorem not_belowVisits_of_not_isBranch (h : Tree.isBranch o = false) (p : List String) :
    ¬ BelowVisits below fields o p := by
  rintro ⟨q, r, x, -, hvisits, -⟩
  exact Visits.not_of_keys_eq_nil (Tree.keys_of_not_isBranch h) hvisits

/-- **A walk marks what its visits mark, and nothing else.** -/
theorem inked_walkFields (hf : ∀ c, Inked (below c) c (f c) ∧ (f c).isKept = true)
    (hbelow : ∀ c c' p, Alike c c' → below c p → below c' p) :
    ∀ (fields : List (String × Value)) (o : Outline),
      Inked (BelowVisits below fields o) o (Match.walkFields (changing f) fields o).run
  | [], o => by
    rw [Match.walkFields]
    refine (Inked.refl o).congr fun p => ⟨False.elim, ?_⟩
    rintro ⟨q, r, x, -, ⟨he, -⟩ | ⟨he, -⟩, -⟩ <;> exact absurd he List.not_mem_nil
  | (key, v) :: rest, o => by
    have henter (c : Outline) :
        Inked (fun p => below c p ∨ ∃ sub, v = .obj sub ∧ BelowVisits below sub c p) c
          (Match.enter f v (f c)) ∧ (Match.enter f v (f c)).isKept = true := by
      obtain ⟨hc, hk⟩ := hf c
      cases v with
      | obj sub =>
        simp only [Match.enter, Value.obj.injEq, exists_eq_left']
        by_cases hb : Tree.isBranch (f c) = true
        · rw [if_pos hb]
          have hsub := inked_walkFields hf hbelow sub (f c)
          refine ⟨(hc.trans hsub).congr fun p => or_congr_right ?_, hsub.marks.top hk⟩
          exact ⟨BelowVisits.alike hbelow _ _ p hc.marks.alike.symm,
            BelowVisits.alike hbelow _ _ p hc.marks.alike⟩
        · rw [if_neg hb]
          refine ⟨hc.congr fun p => (or_iff_left fun h => ?_).symm, hk⟩
          exact not_belowVisits_of_not_isBranch (Bool.eq_false_iff.mpr hb) p
            (h.alike hbelow _ _ p hc.marks.alike)
      | _ => exact ⟨hc.congr fun p => by simp, hk⟩
    have hstep := Inked.foldl_update henter (fun c c' p halike h => h.imp (hbelow c c' p halike)
      (Exists.imp fun sub => And.imp_right fun h => h.alike hbelow _ _ p halike))
      (matchingKeys o key) o
    rw [show changing f = fun _ c => (f c, none) from rfl, Match.walkFields_cons]
    refine (hstep.trans (inked_walkFields hf hbelow rest _)).congr fun p => ?_
    rw [belowVisits_cons]
    exact or_congr_right ⟨BelowVisits.alike hbelow _ _ p hstep.marks.alike.symm,
      BelowVisits.alike hbelow _ _ p hstep.marks.alike⟩

theorem inked_mark (c : Outline) : Inked (· = []) c c.mark where
  marks := marks_mark c
  markedAt_iff p := by
    obtain ⟨kept, nested?⟩ := c
    cases p with
    | nil => exact ⟨fun _ => .inr rfl, fun _ => ⟨_, rfl, rfl⟩⟩
    | cons k p => exact ⟨.inl, fun h => h.resolve_right (List.cons_ne_nil k p)⟩

/-- Only what is there is marked. -/
theorem MarkedAt.hasPath {p : List String} (h : MarkedAt o p) : o.hasPath p = true :=
  let ⟨x, hx, _⟩ := h
  Option.isSome_iff_exists.mpr ⟨x, hx⟩

theorem inked_markAll (c : Outline) : Inked (fun p => c.hasPath p = true) c c.markAll where
  marks := marks_markAll c
  markedAt_iff p := by
    refine ⟨fun h => .inr ((marks_markAll c).toFollows.hasPath h.hasPath), fun h => ?_⟩
    obtain ⟨x, hx⟩ := Option.isSome_iff_exists.mp (h.elim MarkedAt.hasPath id)
    exact ⟨x.markAll, by rw [at?_markAll, hx]; rfl, isKept_markAll x⟩

/-- **A walk that marks what it comes by marks nothing else.** -/
theorem markedAt_walk_mark_iff {p : List String} :
    MarkedAt (Match.walkFields (changing mark) fields o).run p ↔
      MarkedAt o p ∨ Visits o fields p := by
  have h : Inked (BelowVisits (fun _ p => p = []) fields o) o _ := inked_walkFields
    (fun c => ⟨inked_mark c, isKept_mark c⟩) (fun _ _ _ _ => id) fields o
  rw [h.markedAt_iff]
  refine or_congr_right ⟨?_, fun hv => ?_⟩
  · rintro ⟨q, r, x, rfl, hv, -, rfl⟩
    rwa [List.append_nil]
  · obtain ⟨x, hx⟩ := Option.isSome_iff_exists.mp hv.isSome_at?
    exact ⟨p, [], x, (List.append_nil p).symm, hv, hx, rfl⟩

/-- **A walk that marks all marks what is at or below what it comes by**, and nothing else. -/
theorem markedAt_walk_markAll_iff {p : List String} :
    MarkedAt (Match.walkFields (changing markAll) fields o).run p ↔
      MarkedAt o p ∨ o.hasPath p = true ∧ ∃ q, q <+: p ∧ Visits o fields q := by
  have hbelow (c c' : Outline) (p : List String) (h : Alike c c') (hp : c.hasPath p = true) :
      c'.hasPath p = true := by
    obtain ⟨x, hx⟩ := Option.isSome_iff_exists.mp hp
    obtain ⟨x', hx', -⟩ := h.exists_at? hx
    exact Option.isSome_iff_exists.mpr ⟨x', hx'⟩
  have h := inked_walkFields (fun c => ⟨inked_markAll c, isKept_markAll c⟩) hbelow fields o
  rw [h.markedAt_iff]
  refine or_congr_right ⟨?_, ?_⟩
  · rintro ⟨q, r, x, rfl, hv, hx, hr⟩
    refine ⟨?_, q, List.prefix_append q r, hv⟩
    rw [hasPath, Tree.at?_append, hx]
    exact hr
  · rintro ⟨hp, q, ⟨r, rfl⟩, hv⟩
    obtain ⟨x, hx⟩ := Option.isSome_iff_exists.mp hv.isSome_at?
    refine ⟨q, r, x, rfl, hv, hx, ?_⟩
    rwa [hasPath, Tree.at?_append, hx] at hp

end Walk

/-! ## What an action comes by -/

/-- Whether an action, if it is enabled, comes by a node: a tree of its condition does, or tags go
to the node or to one above it. -/
def ComesBy (o : Outline) (a : Action) (p : List String) : Prop :=
  a.enabled = true ∧
    ((∃ c, a.condition? = some c ∧ ∃ tree ∈ c.trees, Visits o tree p) ∨
      ∃ tags locations, a.effect = .setTag tags (some locations) ∧ o.hasPath p = true ∧
        ∃ q, q <+: p ∧ Visits o locations q)

section ComesBy

variable {o : Outline} {a : Action} {p : List String}

/-- What any tree of a condition visits is marked when the whole condition is looked at. -/
theorem markedAt_markSeen_of_visits {c : Condition} {tree : ConditionTree} (ht : tree ∈ c.trees)
    (hc : Closed o) (h : Visits o tree p) : MarkedAt (markSeen c o) p :=
  markedAt_markSeen_of_walk ht hc fun _ hbefore =>
    markedAt_walk_mark_iff.mpr (.inr (h.alike hbefore.alike))

/-- **What an action comes by is marked after it.** -/
theorem markedAt_apply_of_comesBy (hc : Closed o) (h : ComesBy o a p) :
    MarkedAt (apply o a) p := by
  obtain ⟨ha, h⟩ := h
  have htags := marks_markTagged a.effect o
  have hclosed := htags.closed hc
  rw [apply, if_pos ha]
  obtain ⟨c, hcond, tree, ht, hv⟩ | ⟨tags, locations, heffect, hp, hv⟩ := h
  · rw [hcond]
    exact markedAt_markSeen_of_visits ht hclosed (hv.alike htags.alike)
  · have hmarked : MarkedAt (markTagged a.effect o) p := by
      rw [markTagged_eq, heffect]
      exact markedAt_walk_markAll_iff.mpr (.inr ⟨hp, hv⟩)
    cases a.condition? with
    | some c => exact (marks_markSeen c _).marks hclosed p hmarked
    | none => exact (trims_change a.effect _).marks hclosed p hmarked

end ComesBy

/-! ## Whole lists of actions -/

section Final

variable (properties : List Property) (disabledFolders : NameSet)

theorem final_append (before after : List Action) :
    final properties (before ++ after) disabledFolders =
      after.foldl apply (final properties before disabledFolders) := by
  rw [final, List.foldl_append, final]

theorem closed_final (actions : List Action) :
    Closed (final properties actions disabledFolders) :=
  (follows_foldl _ actions).closed (closed_build disabledFolders properties)

/-- A property whose node is left is selected. -/
theorem mem_select_of_hasPath {actions : List Action} {p : Property} (hp : p ∈ properties)
    (h : (final properties actions disabledFolders).hasPath p.path = true) :
    p.name ∈ select properties actions disabledFolders :=
  NameSet.mem_ofList.mpr (List.mem_map_of_mem (List.mem_filter.mpr ⟨hp, h⟩))

/-- **What an action comes by stays.**  No action adds a node.  A node that an enabled action comes
by, through a tree of its condition or as a place of its tags or below one, is there and marked
after that action and after every later one, and a property whose place it is is selected. -/
theorem permanence (before : List Action) :
    (∀ after p, (final properties (before ++ after) disabledFolders).hasPath p = true →
      (final properties before disabledFolders).hasPath p = true) ∧
    ∀ a p, ComesBy (final properties before disabledFolders) a p → ∀ after,
      MarkedAt (final properties (before ++ a :: after) disabledFolders) p ∧
      ∀ q ∈ properties, q.path = p →
        q.name ∈ select properties (before ++ a :: after) disabledFolders := by
  refine ⟨fun after p hp => ?_, fun a p h after => ?_⟩
  · rw [final_append] at hp
    exact (follows_foldl _ after).hasPath hp
  · have hc := closed_final properties disabledFolders before
    have hmarked : MarkedAt (final properties (before ++ a :: after) disabledFolders) p := by
      rw [final_append, List.foldl_cons]
      exact (follows_foldl _ after).marks ((follows_apply _ a).closed hc) p
        (markedAt_apply_of_comesBy hc h)
    refine ⟨hmarked, fun q hq hpath => mem_select_of_hasPath properties disabledFolders hq ?_⟩
    rw [hpath]
    exact hmarked.hasPath

end Final

/-- A tag at a group keeps what is in it from an action that includes other data only. -/
theorem permanence_tagged_group :
    let properties : List Property := [
      ⟨"version", { key := "v", placement? := some ⟨some "system", false⟩ }, {}⟩,
      ⟨"pools", { key := "p" }, {}⟩]
    let tag : Action := ⟨true, none, .setTag [("site", .str "dc1")] (some [("sys", .bool true)])⟩
    let includePools : Action := ⟨true, none, .includeData [("pools", .bool true)]⟩
    ComesBy (final properties [] []) tag ["system", "version"] ∧
      "version" ∈ select properties [tag, includePools] [] ∧
      "version" ∉ select properties [includePools] [] := by
  intro properties tag includePools
  have hvisits : Visits (final properties [] []) [("sys", .bool true)] ["system"] :=
    .here List.mem_cons_self (by decide +kernel)
  have h : ComesBy (final properties [] []) tag ["system", "version"] :=
    ⟨rfl, .inr ⟨_, _, rfl, by decide +kernel, _, ⟨["version"], rfl⟩, hvisits⟩⟩
  have hstays := ((permanence properties [] []).2 tag _ h [includePools]).2 _ List.mem_cons_self rfl
  exact ⟨h, hstays, by decide +kernel⟩

end Outline

end DeviceStats
