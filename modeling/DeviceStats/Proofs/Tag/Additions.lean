import DeviceStats.Proofs.Json.Paths
import DeviceStats.Proofs.Step.Tagging
import Mathlib.Data.List.Induction

/-!
# Proofs/Tag/Additions — tagging adds tags to items and does nothing else

An item is an object to which a path of names leads none of which is skipped (`Reaches`).  Tagging
makes of the node at a path below an item what the path alone says (`node?_item`): an item gets the
tags that it lacks and that have a value for its subject, behind what it has, and every other node
stays.  So nothing is lost or moved, an added entry is a tag of an item, and without the added
entries the value is what it was (`inject_only_adds`).
-/

namespace DeviceStats.Tag

open Json (Value Object Distinct Segment named)
open Json.Value (Extends)

variable {definitions : TagDefinitions} {tags : Object} {opts : InjectOptions}
variable {subject j k n : String} {o : Object} {v x y : Value} {p q : List Segment}

/-! ## Items -/

/-- A path of names, none of which is skipped, leads to an item; its key is the last of them. -/
structure Reaches (tags : Object) (opts : InjectOptions) (p : List Segment) (k : String) : Prop where
  last : p.getLast? = some (.name k)
  names : ∀ s ∈ p, ∃ j, s = .name j ∧ j ∉ opts.skip ∧ j ∉ Named.keys tags

theorem isSkipped_eq_false_iff :
    isSkipped tags opts k = false ↔ k ∉ opts.skip ∧ k ∉ Named.keys tags := by
  rw [isSkipped, Bool.or_eq_false_iff, ← Bool.not_eq_true, ← Bool.not_eq_true,
    List.contains_iff_mem, Named.has_eq_true_iff]

theorem reaches_singleton (h : isSkipped tags opts k = false) : Reaches tags opts [.name k] k where
  last := rfl
  names := List.forall_mem_singleton.mpr ⟨k, rfl, isSkipped_eq_false_iff.mp h⟩

theorem reaches_cons_iff {s : Segment} (h : isSkipped tags opts k = false) :
    Reaches tags opts (.name k :: s :: p) j ↔ Reaches tags opts (s :: p) j := by
  refine ⟨fun hr => ⟨hr.last, (List.forall_mem_cons.mp hr.names).2⟩, fun hr => ⟨hr.last, ?_⟩⟩
  exact List.forall_mem_cons.mpr ⟨⟨k, rfl, isSkipped_eq_false_iff.mp h⟩, hr.names⟩

theorem not_reaches_of_isSkipped (h : isSkipped tags opts k = true) :
    ¬ Reaches tags opts (.name k :: p) j := by
  intro hr
  obtain ⟨i, hi, hskip⟩ := hr.names _ List.mem_cons_self
  cases hi
  exact Bool.false_ne_true ((isSkipped_eq_false_iff.mpr hskip).symm.trans h)

theorem not_reaches_of_index {i : Nat} (h : .index i ∈ p) : ¬ Reaches tags opts p j := by
  intro hr
  obtain ⟨k, hk, -⟩ := hr.names _ h
  cases hk

/-! ## What tagging makes of a node -/

/-- Below an item with a key, the node at a path is tagged if it is an item, and else as it was. -/
theorem node?_item (h : x.node? p = some y) :
    (∃ j, Reaches tags opts (.name k :: p) j ∧
      (item definitions tags opts k x).node? p = some (item definitions tags opts j y)) ∨
    (∀ j, ¬ Reaches tags opts (.name k :: p) j) ∧
      (item definitions tags opts k x).node? p = some y := by
  induction p generalizing k x with
  | nil =>
    obtain rfl := Option.some.inj h
    cases hk : isSkipped tags opts k with
    | false => exact .inl ⟨k, reaches_singleton hk, rfl⟩
    | true =>
      rw [item_eq_self_of_isSkipped hk]
      exact .inr ⟨fun j => not_reaches_of_isSkipped hk, rfl⟩
  | cons s p ih =>
    obtain ⟨c, hc, hy⟩ := Option.bind_eq_some_iff.mp h
    cases s with
    | index i =>
      -- only an array has a part at a place, and arrays are not looked into
      rw [item_eq_self_of_obj?_eq_none (Value.obj?_of_part?_index hc)]
      exact .inr ⟨fun j => not_reaches_of_index (List.mem_cons_of_mem _ List.mem_cons_self), h⟩
    | name i =>
      obtain ⟨o, rfl, hget⟩ := Value.part?_name_eq_some hc
      cases hk : isSkipped tags opts k with
      | false =>
        rw [item_eq_tagged hk, Value.node?_obj_name, get?_tagged_of_eq_some hget, Option.bind_some]
        simp only [reaches_cons_iff hk]
        exact ih hy
      | true =>
        rw [item_eq_self_of_isSkipped hk]
        exact .inr ⟨fun j => not_reaches_of_isSkipped hk, h⟩

variable (definitions tags opts) in
/-- Below the whole value, which is no item, the same holds. -/
theorem node?_inject {s : Segment} (h : v.node? (s :: p) = some y) :
    (∃ j, Reaches tags opts (s :: p) j ∧ (inject definitions tags opts v).node? (s :: p) =
      some (item definitions tags opts j y)) ∨
    (∀ j, ¬ Reaches tags opts (s :: p) j) ∧
      (inject definitions tags opts v).node? (s :: p) = some y := by
  obtain ⟨x, hx, hy⟩ := Option.bind_eq_some_iff.mp h
  cases s with
  | index i =>
    rw [inject_eq_self_of_obj?_eq_none (Value.obj?_of_part?_index hx)]
    exact .inr ⟨fun j => not_reaches_of_index List.mem_cons_self, h⟩
  | name k =>
    obtain ⟨o, rfl, hget⟩ := Value.part?_name_eq_some hx
    rw [inject, Value.node?_obj_name, get?_injectFields, hget]
    exact node?_item hy

/-! ## Nothing is lost -/

theorem extends_item (k : String) (x : Value) : Extends x (item definitions tags opts k x) := by
  cases hk : isSkipped tags opts k with
  | true => exact item_eq_self_of_isSkipped hk ▸ .refl x
  | false =>
    cases x with
    | obj o =>
      obtain ⟨new, hnew, -⟩ := exists_tagged_eq_append definitions tags opts k o
      rw [item_eq_tagged hk, hnew]
      refine .obj ⟨Named.keys new, ?_⟩
      rw [← keys_injectFields o, Named.keys, Named.keys, Named.keys, List.map_append]
    | null | bool | num | str | arr => rw [item_eq_self_of_obj?_eq_none rfl]; exact .refl _

variable (definitions tags opts) in
/-- **A path of a value is a path of the tagged value**, and what it leads to is extended at most. -/
theorem extends_node?_inject (h : v.node? p = some x) :
    ∃ y, (inject definitions tags opts v).node? p = some y ∧ Extends x y := by
  cases p with
  | nil =>
    obtain rfl := Option.some.inj h
    refine ⟨_, rfl, ?_⟩
    cases v with
    | obj o => exact .obj (keys_injectFields o ▸ List.prefix_refl _)
    | null | bool | num | str | arr => exact .refl _
  | cons s p =>
    rcases node?_inject definitions tags opts h with ⟨j, -, hw⟩ | ⟨-, hw⟩
    · exact ⟨_, hw, extends_item j x⟩
    · exact ⟨_, hw, .refl x⟩

/-! ## What is added -/

theorem Reaches.isSkipped_eq_false (h : Reaches tags opts p k) : isSkipped tags opts k = false := by
  obtain ⟨j, hj, hskip⟩ := h.names _ (List.mem_of_getLast? h.last)
  cases hj
  exact isSkipped_eq_false_iff.mpr hskip

/-- **An entry that an object lacks is added exactly if the object is an item and the entry a tag
that has a value for its subject.** -/
theorem node?_inject_of_has_eq_false (htags : Distinct tags) (h : v.node? p = some (.obj o))
    (hn : o.has n = false) :
    (inject definitions tags opts v).node? (p ++ [.name n]) = some x ↔
      ∃ k, Reaches tags opts p k ∧
        (tags.get? n).bind (resolve definitions (subjectIn opts k o)) = some x := by
  have hget : Named.get? o n = none := Named.get?_eq_none_iff_has.mpr hn
  rw [Value.node?_concat]
  cases p with
  | nil =>
    obtain rfl := Option.some.inj h
    have hnone : Named.get? (injectFields definitions tags opts o) n = none := by
      rw [get?_injectFields, hget, Option.map_none]
    refine iff_of_false (fun hx => ?_) fun ⟨k, hk, _⟩ => by cases hk.last
    cases hnone.symm.trans hx
  | cons s p =>
    rcases node?_inject definitions tags opts h with ⟨j, hj, hw⟩ | ⟨hno, hw⟩ <;>
      rw [hw, Option.bind_some]
    · have hpart : (item definitions tags opts j (.obj o)).part? (.name n) =
          (tags.get? n).bind (resolve definitions (subjectIn opts j o)) := by
        rw [item_eq_tagged hj.isSkipped_eq_false]
        refine (get?_tagged htags j n).trans ?_
        rw [hget, Option.map_none, Option.none_or]
      rw [hpart]
      refine ⟨fun hx => ⟨j, hj, hx⟩, fun ⟨k, hk, hx⟩ => ?_⟩
      cases hj.last.symm.trans hk.last
      exact hx
    · refine iff_of_false (fun hx => ?_) fun ⟨k, hk, _⟩ => hno k hk
      cases hget.symm.trans hx

/-- What is new lies at or below an entry that its object lacked. -/
theorem exists_prefix_of_node?_inject (hw : ((inject definitions tags opts v).node? q).isSome)
    (hv : v.node? q = none) : ∃ p o n, p ++ [.name n] <+: q ∧ v.node? p = some (.obj o) ∧
      Named.has o n = false := by
  induction q using List.reverseRecOn with
  | nil => cases hv
  | append_singleton q s ih =>
    rw [Value.node?_concat] at hv hw
    cases hq : v.node? q with
    | none =>
      obtain ⟨p, o, n, hp, ho⟩ := ih (Option.isSome_of_isSome_bind hw) hq
      exact ⟨p, o, n, hp.trans (List.prefix_append q [s]), ho⟩
    | some x =>
      obtain ⟨y, hy, hext⟩ := extends_node?_inject definitions tags opts hq
      rw [hq, Option.bind_some] at hv
      rw [hy, Option.bind_some] at hw
      cases hext with
      | refl => simp [hv] at hw
      | obj hkeys =>
        cases s with
        | name n => exact ⟨q, _, n, List.prefix_refl _, hq, Named.get?_eq_none_iff_has.mp hv⟩
        | index i => cases hw

/-- **What is new lies at or below an entry of an item, under the name of a tag.** -/
theorem exists_reaches_of_node?_inject (htags : Distinct tags)
    (hw : ((inject definitions tags opts v).node? q).isSome) (hv : v.node? q = none) :
    ∃ p o n k, p ++ [.name n] <+: q ∧ v.node? p = some (.obj o) ∧ Named.has o n = false ∧
      tags.has n = true ∧ Reaches tags opts p k := by
  obtain ⟨p, o, n, ⟨rest, rfl⟩, hp, hn⟩ := exists_prefix_of_node?_inject hw hv
  rw [Value.node?_append] at hw
  obtain ⟨x, hx⟩ := Option.isSome_iff_exists.mp (Option.isSome_of_isSome_bind hw)
  obtain ⟨k, hk, hresolve⟩ := (node?_inject_of_has_eq_false htags hp hn).mp hx
  obtain ⟨tag, htag, -⟩ := Option.bind_eq_some_iff.mp hresolve
  have hhas : tags.has n = true := by rw [← Named.isSome_get?, htag, Option.isSome_some]
  exact ⟨p, o, n, k, List.prefix_append _ rest, hp, hn, hhas, hk⟩

/-! ## Additions taken out again -/

variable (definitions tags opts) in
theorem only_injectFields_append (new : Object) (hn : Distinct o)
    (hitem : ∀ kv ∈ o, (item definitions tags opts kv.1 kv.2).only
      (fun p => (kv.2.node? p).isSome) = kv.2)
    (hnew : ∀ kv ∈ new, o.has kv.1 = false) :
    (Value.obj (injectFields definitions tags opts o ++ new)).only
      (fun p => ((Value.obj o).node? p).isSome) = .obj o := by
  rw [injectFields_eq]
  exact Value.only_map_append _ new hn hitem hnew

theorem only_item (hx : x.Each {} Distinct) (k : String) :
    (item definitions tags opts k x).only (fun p => (x.node? p).isSome) = x := by
  induction x using Value.partsInduction generalizing k with
  | obj o ih =>
    cases hk : isSkipped tags opts k with
    | true => rw [item_eq_self_of_isSkipped hk, Value.only_eq_self hx]
    | false =>
      obtain ⟨hn, hvalues⟩ := Value.each_obj.mp hx
      obtain ⟨new, hnew, hlacks⟩ := exists_tagged_eq_append definitions tags opts k o
      rw [item_eq_tagged hk, hnew]
      exact only_injectFields_append definitions tags opts new hn
        (fun kv hkv => ih kv hkv (hvalues kv hkv rfl) kv.1) fun kv hkv => (hlacks kv hkv).1
  | arr items => rw [item_eq_self_of_obj?_eq_none rfl, Value.only_eq_self hx]
  | scalar x ha ho => rw [item_eq_self_of_obj?_eq_none ho, Value.only_eq_self hx]

/-- **Without the entries that were not there before, a tagged value is what it was.** -/
theorem only_inject (hv : v.Each {} Distinct) :
    (inject definitions tags opts v).only (fun p => (v.node? p).isSome) = v := by
  cases v with
  | obj o =>
    obtain ⟨hn, hvalues⟩ := Value.each_obj.mp hv
    have hfields := only_injectFields_append definitions tags opts [] hn
      (fun kv hkv => only_item (hvalues kv hkv rfl) kv.1) (List.forall_mem_nil _)
    rwa [List.append_nil] at hfields
  | null | bool | num | str | arr => exact Value.only_eq_self hv

/-! ## Tagging only adds -/

/-- **Tagging only adds.**  Every path of a value is one of the tagged value, and what it leads to is
the same or an object with further names behind those it had; an entry that was not there is added
exactly to an item and under the name of a tag, with what the tag resolves to for the item; all that
is new lies in such entries; and without them the tagged value is what it was. -/
theorem inject_only_adds (definitions : TagDefinitions) (tags : Object) (opts : InjectOptions)
    (v : Value) (htags : Distinct tags) (hv : v.Each {} Distinct) :
    (∀ p x, v.node? p = some x →
      ∃ y, (inject definitions tags opts v).node? p = some y ∧ Extends x y) ∧
    (∀ p o n x, v.node? p = some (.obj o) → Named.has o n = false →
      ((inject definitions tags opts v).node? (p ++ [.name n]) = some x ↔
        ∃ k, Reaches tags opts p k ∧
          (tags.get? n).bind (resolve definitions (subjectIn opts k o)) = some x)) ∧
    (∀ q, ((inject definitions tags opts v).node? q).isSome → v.node? q = none →
      ∃ p o n k, p ++ [.name n] <+: q ∧ v.node? p = some (.obj o) ∧ Named.has o n = false ∧
        tags.has n = true ∧ Reaches tags opts p k) ∧
    (inject definitions tags opts v).only (fun p => (v.node? p).isSome) = v :=
  ⟨fun _ _ => extends_node?_inject definitions tags opts,
    fun _ _ _ _ => node?_inject_of_has_eq_false htags,
    fun _ => exists_reaches_of_node?_inject htags, only_inject hv⟩

/-- A server that has one of two tags gets the other; the statistics and the pools in it are no
items. -/
theorem inject_only_adds_one_server :
    let tags : Object := [("site", .str "north"),
      ("meta", .obj [("unit", .obj [("pattern", .str "^vs(1)$"), ("group", .int 1)])])]
    let server : Object := [("site", .str "south"), ("pools", .arr [.obj [("up", .bool true)]]),
      ("stats", .obj [("bits", .int 1)])]
    let v : Value := .obj [("vs1", .obj server)]
    let w := inject [] tags { skip := ["stats"] } v
    Distinct tags ∧ v.Each {} Distinct ∧
      w.node? (named ["vs1", "meta"]) = some (.obj [("unit", .str "1")]) ∧
      (∀ x, w.node? (named ["vs1", "stats", "site"]) ≠ some x) ∧
      w.only (fun p => (v.node? p).isSome) = v := by
  intro tags server v w
  have htags : Distinct tags := by decide
  have hv : v.Each {} Distinct := by decide +kernel
  obtain ⟨-, hadded, -, honly⟩ := inject_only_adds [] tags { skip := ["stats"] } v htags hv
  refine ⟨htags, hv, ?_, fun x hx => ?_, honly⟩
  · refine (hadded (named ["vs1"]) server "meta" _ rfl rfl).mpr
      ⟨"vs1", reaches_singleton (by decide), ?_⟩
    have hsubject : subjectIn { skip := ["stats"] } "vs1" server = "vs1" := rfl
    have hcapture : TagDefinition.capture ⟨"^vs(1)$", some 1⟩ "vs1" = some "1" := by decide +kernel
    have hinline : inline? [("pattern", .str "^vs(1)$"), ("group", .int 1)] =
        some ⟨"^vs(1)$", some 1⟩ := rfl
    have hmeta : inline? [("unit", .obj [("pattern", .str "^vs(1)$"), ("group", .int 1)])] = none :=
      rfl
    simp [tags, Named.get?_cons, resolve, resolveFields, hsubject, hinline, hmeta, hcapture]
  · obtain ⟨k, hk, -⟩ := (hadded (named ["vs1", "stats"]) _ "site" x rfl rfl).mp hx
    obtain ⟨j, hj, hskip, -⟩ := hk.names (.name "stats") (by decide)
    cases hj
    exact hskip (by decide)

end DeviceStats.Tag
