import DeviceStats.Proofs.Json.Paths
import DeviceStats.Tag.Placement

/-!
# Proofs/Tag/Targets — tags are written nowhere but into their targets

The targets are known before any tag is written (`IsTarget`), but a written tag can take the place of
what another target points into, and can make items for a later collection.  All of that lies below
the name of a tag in a target (`ThroughTag`): every other node stays (`framed_place`), where an object
with targets in it may get further names.
-/

namespace DeviceStats.Tag

open Json (Value Object Segment named Distinct)
open Json.Value (Alike Framed)
open Match (Tree)

variable {definitions : TagDefinitions} {tags : Object} {subject : String} {scope : Scope}
variable {locations : Option Value} {v w x : Value} {o : Object} {p q : List Segment}
variable {t : List String}

/-! ## Targets -/

/-- The path of what tags are written into: a found node, a whole event, or an item of a collection
of a report. -/
def IsTarget (scope : Scope) (locations : Option Value) (v : Value) (t : List String) : Prop :=
  match named? locations, scope with
  | some l, _ => ∃ f ∈ Match.deep v l, f.full = t
  | none, .event _ => t = []
  | none, .report collections => ∃ c ∈ collections, ∃ k o, t = c.path ++ [k] ∧
      Tree.at? v t = some (.obj o)

theorem isTarget_found {l : Value} {f : Match.Found} (hl : named? locations = some l)
    (hf : f ∈ Match.deep v l) : IsTarget scope locations v f.full := by
  unfold IsTarget
  rw [hl]
  exact ⟨f, hf, rfl⟩

theorem isTarget_event (field? : Option String) (hl : named? locations = none) :
    IsTarget (.event field?) locations v [] := by
  unfold IsTarget
  rw [hl]

theorem isTarget_item {collections : List Collection} {c : Collection} {k : String}
    (hl : named? locations = none) (hc : c ∈ collections)
    (ho : Tree.at? v (c.path ++ [k]) = some (.obj o)) :
    IsTarget (.report collections) locations v (c.path ++ [k]) := by
  unfold IsTarget
  rw [hl]
  exact ⟨c, hc, k, o, rfl, ho⟩

/-- A path that goes through a target and on by the name of a tag. -/
def ThroughTag (tags : Object) (scope : Scope) (locations : Option Value) (v : Value)
    (p : List Segment) : Prop :=
  ∃ t, IsTarget scope locations v t ∧ ∃ n ∈ Named.keys tags, named (t ++ [n]) <+: p

theorem ThroughTag.mono (h : ThroughTag tags scope locations v p) (hq : p <+: q) :
    ThroughTag tags scope locations v q := by
  obtain ⟨t, ht, n, hn, hp⟩ := h
  exact ⟨t, ht, n, hn, hp.trans hq⟩

/-- A path without names of tags goes through none. -/
theorem not_throughTag (h : ∀ n ∈ Named.keys tags, .name n ∉ p) :
    ¬ ThroughTag tags scope locations v p := by
  rintro ⟨t, -, n, hn, hp⟩
  exact h n hn (hp.subset (List.mem_map_of_mem (List.mem_append_right t List.mem_cons_self)))

/-- Paths that go on by the name of a tag. -/
def ByTag (tags : Object) (p : List Segment) : Prop := ∃ n ∈ Named.keys tags, [.name n] <+: p

theorem IsTarget.throughTag (h : IsTarget scope locations v t) (hp : ByTag tags p) :
    ThroughTag tags scope locations v (named t ++ p) := by
  obtain ⟨n, hn, hp⟩ := hp
  refine ⟨t, h, n, hn, ?_⟩
  rw [named, List.map_append]
  exact (List.prefix_append_right_inj _).mpr hp

/-! ## Tags written over what is there -/

variable (definitions subject) in
/-- A written tag leaves the names that are there, and what stands under others than its own. -/
theorem write_overwriting (o : Object) (tag : String × Value) :
    Named.keys o <+: Named.keys (write true definitions subject o tag) ∧
      ∀ k, tag.1 ≠ k → Named.get? (write true definitions subject o tag) k = Named.get? o k := by
  rw [write]
  simp only [Bool.not_true, Bool.false_and, Bool.false_eq_true, if_false]
  split
  · exact ⟨Named.keys_prefix_insert o _ _, fun k hk => by rw [Named.get?_insert, if_neg hk]⟩
  · exact ⟨List.prefix_refl _, fun _ _ => rfl⟩

variable (definitions tags subject) in
theorem foldl_write_overwriting (o : Object) :
    Named.keys o <+: Named.keys (tags.foldl (write true definitions subject) o) ∧
      ∀ k, k ∉ Named.keys tags →
        Named.get? (tags.foldl (write true definitions subject) o) k = Named.get? o k := by
  induction tags generalizing o with
  | nil => exact ⟨List.prefix_refl _, fun _ _ => rfl⟩
  | cons tag tags ih =>
    obtain ⟨hkeys, hget⟩ := write_overwriting definitions subject o tag
    obtain ⟨hkeys', hget'⟩ := ih (write true definitions subject o tag)
    refine ⟨hkeys.trans hkeys', fun k hk => ?_⟩
    obtain ⟨hne, hk⟩ := not_or.mp (mt List.mem_cons.mpr hk)
    exact (hget' k hk).trans (hget k (Ne.symm hne))

/-- **Tags written into an item** change no more than what stands under their names. -/
theorem framed_apply (x : Value) :
    Framed (ByTag tags) x (apply true definitions tags subject x) := by
  cases x with
  | obj o =>
    obtain ⟨hkeys, hget⟩ := foldl_write_overwriting definitions tags subject o
    intro p hp
    refine Alike.of_obj hkeys fun k q hq => ?_
    have hk : k ∉ Named.keys tags := fun hk => hp ⟨k, hk, hq ▸ List.prefix_append [_] q⟩
    rw [hget k hk]
    exact .refl _
  | null | bool | num | str | arr => exact .refl _

/-- Paths that go through an object under a name and on by the name of a tag. -/
def ThroughItem (tags : Object) (v : Value) (p : List Segment) : Prop :=
  ∃ k o q, Tree.child? v k = some (Value.obj o) ∧ ByTag tags q ∧ p = .name k :: q

theorem framed_placeItems (field? : Option String) (v : Value) :
    Framed (ThroughItem tags v) v (placeItems definitions tags field? v) := by
  cases v with
  | obj items =>
    intro p hp
    let tag (k : String) (x : Value) := apply true definitions tags (subjectOf k x field?) x
    have hkeys : Named.keys (items.map fun kv => (kv.1, tag kv.1 kv.2)) = Named.keys items :=
      Named.keys_map tag items
    refine Alike.of_obj (hkeys ▸ List.prefix_refl _) fun k q hq => ?_
    change Alike _ ((Named.get? (items.map fun kv => (kv.1, tag kv.1 kv.2)) k).bind _)
    rw [Named.get?_map]
    cases hget : Named.get? items k with
    | none => exact .none
    | some x =>
      cases x with
      | obj o => exact framed_apply _ q fun htag => hp ⟨k, o, q, hget, htag, hq⟩
      | null | bool | num | str | arr => exact .refl _
  | null | bool | num | str | arr => exact .refl _

/-! ## Placing tags -/

/-- What is an object after changes was one before, or lies below the name of a tag. -/
theorem exists_obj_of_framed {R : List Segment → Prop} (h : Framed R v w) (ht : ¬ R (named t))
    (hw : Tree.at? w t = some (.obj o)) : ∃ o', Tree.at? v t = some (.obj o') := by
  have halike := h (named t) ht
  rw [Value.node?_named, Value.node?_named, hw] at halike
  obtain ⟨x, hx, hext⟩ := halike.exists_of_some_eq
  cases hext with
  | refl => exact ⟨o, hx⟩
  | obj _ => exact ⟨_, hx⟩

/-- One found node is tagged within the frame, whatever has been written before. -/
theorem framed_placeAt (f : Match.Found) (hf : IsTarget scope locations v f.full) (w : Value) :
    Framed (ThroughTag tags scope locations v) w (placeAt definitions tags scope w f) :=
  Value.framed_modifyAt fun x _ p hp => framed_apply x p fun htag => hp (hf.throughTag htag)

/-- One collection is tagged within the frame if those before it have been. -/
theorem framed_placeItems_at {collections : List Collection} {c : Collection}
    (hl : named? locations = none) (hc : c ∈ collections)
    (hw : Framed (ThroughTag tags (.report collections) locations v) v w) :
    Framed (ThroughTag tags (.report collections) locations v) w
      (Tree.modifyAt (placeItems definitions tags c.subjectField?) c.path w) := by
  refine Value.framed_modifyAt fun x hx p hp => framed_placeItems _ x p ?_
  rintro ⟨k, o, q, hk, hq, rfl⟩
  have hitem : Tree.at? w (c.path ++ [k]) = some (.obj o) := by
    rw [Tree.at?_append, hx, Option.bind_some, Tree.at?_singleton, hk]
  have hpath : named c.path ++ .name k :: q = named (c.path ++ [k]) ++ q := by simp [named]
  replace hp : ¬ ThroughTag tags (.report collections) locations v (named (c.path ++ [k]) ++ q) :=
    hpath ▸ hp
  -- an item that earlier collections have made lies below a tag, and one that was there is a target
  by_cases hthrough : ThroughTag tags (.report collections) locations v (named (c.path ++ [k]))
  · exact hp (hthrough.mono (List.prefix_append _ q))
  · obtain ⟨o', ho'⟩ := exists_obj_of_framed hw hthrough hitem
    exact hp ((isTarget_item hl hc ho').throughTag hq)

/-- **Placing tags changes nothing but what stands under their names in the targets.** -/
theorem framed_place (definitions : TagDefinitions) (tags : Object) (scope : Scope)
    (locations : Option Value) (v : Value) :
    Framed (ThroughTag tags scope locations v) v (place definitions tags scope locations v) := by
  unfold place
  cases hl : named? locations with
  | some l =>
    exact (Value.Framed.refl v).foldl fun w f hf _ => framed_placeAt f (isTarget_found hl hf) w
  | none =>
    cases scope with
    | event field? =>
      exact fun p hp => framed_apply v p fun htag => hp ((isTarget_event field? hl).throughTag htag)
    | report collections =>
      exact (Value.Framed.refl v).foldl fun w c hc hw => framed_placeItems_at hl hc hw

/-- **Placing tags touches only the targets.**  A node to which no path through a target and the name
of a tag leads stays: it is there if it was and is the same, or an object with further names behind
those it had.  So does a target that is no object. -/
theorem place_only_at_targets (definitions : TagDefinitions) (tags : Object) (scope : Scope)
    (locations : Option Value) (v : Value) :
    let w := place definitions tags scope locations v
    (∀ p, ¬ ThroughTag tags scope locations v p → Alike (v.node? p) (w.node? p)) ∧
      ∀ t x, IsTarget scope locations v t → Tree.at? v t = some x → x.obj? = none →
        ¬ ThroughTag tags scope locations v (named t) → Tree.at? w t = some x := by
  intro w
  have hframed : Framed (ThroughTag tags scope locations v) v w :=
    framed_place definitions tags scope locations v
  refine ⟨hframed, fun t x _ hx hobj ht => ?_⟩
  have halike := hframed (named t) ht
  rw [Value.node?_named, Value.node?_named, hx] at halike
  obtain ⟨y, hy, hext⟩ := halike.exists_of_eq_some
  exact hext.eq_of_obj?_eq_none hobj ▸ hy

/-- A server is tagged; a number that is a target too stays, as does what is no target. -/
theorem place_only_at_one_server :
    let tags : Object := [("site", .str "north")]
    let locations : Value := .obj [("vs1", .bool true), ("total", .bool true)]
    let v : Value := .obj [("vs1", .obj [("up", .bool true)]), ("total", .int 1)]
    let w := place [] tags .defaultEvent (some locations) v
    w.node? (named ["vs1", "up"]) = some (.bool true) ∧
      Tree.at? w ["vs1", "site"] = some (.str "north") ∧ Tree.at? w ["total"] = some (.int 1) := by
  intro tags locations v w
  obtain ⟨hframe, hscalar⟩ := place_only_at_targets [] tags .defaultEvent (some locations) v
  refine ⟨?_, rfl, ?_⟩
  · obtain ⟨y, hy, hext⟩ := (hframe (named ["vs1", "up"]) (not_throughTag (by decide)))
      |>.exists_of_eq_some
    exact hy.trans (congrArg some (hext.eq_of_obj?_eq_none rfl))
  · exact hscalar ["total"] (.int 1) (isTarget_found (f := ⟨[], "total"⟩) rfl (by decide +kernel))
      rfl rfl (not_throughTag (by decide))

/-- A number that is a target gives way to a tag of the object it stands in, which is a target too;
what has been written is then tagged itself. -/
theorem not_place_only_at_targets :
    ¬ ∀ (definitions : TagDefinitions) (tags : Object) (scope : Scope) (locations : Option Value)
      (v : Value), Distinct tags → v.isObj = true → v.Each {} Distinct →
        let w := place definitions tags scope locations v
        (∀ p, ¬ ThroughTag tags scope locations v p → Alike (v.node? p) (w.node? p)) ∧
          ∀ t x, IsTarget scope locations v t → Tree.at? v t = some x → x.obj? = none →
            Tree.at? w t = some x := by
  intro h
  let tags : Object := [("b", .obj [("x", .int 1)])]
  let locations : Value := .obj [("a", .bool true), ("a$", .obj [("b", .bool true)])]
  let v : Value := .obj [("a", .obj [("b", .int 1)])]
  obtain ⟨-, hscalar⟩ := h [] tags .defaultEvent (some locations) v (by decide) rfl (by decide +kernel)
  have hkept := hscalar ["a", "b"] (.int 1)
    (isTarget_found (f := ⟨["a"], "b"⟩) rfl (by decide +kernel)) rfl rfl
  have hreplaced : ((Tree.at? (place [] tags .defaultEvent (some locations) v) ["a", "b"]).bind
      Value.obj?).isSome = true := by decide +kernel
  rw [hkept] at hreplaced
  cases hreplaced

end DeviceStats.Tag
