import DeviceStats.Proofs.Json.Decoders
import Mathlib.Logic.Relation
import Mathlib.Order.WellFounded

/-!
# Proofs/Property/Rendering — no conditional is left, and only chosen branches count

Settling goes from a value to the ones it `Enters`: what becomes of an object once its block is
settled, what stands in an object without a block, the elements of an array.  Each is smaller, so
settling comes to its end (`wellFounded_enters`).  What it leaves holds no block
(`each_plain_of_resolve`) and is left as it is (`resolve_eq_self`); it fails exactly if a block that
it comes by does (`exists_resolve_eq_ok_iff`), and what stands in a branch that is not chosen does
not matter (`SameChosen.resolve_eq`).
-/

namespace DeviceStats.Conditional

open Json (Value Object)
open Json.Decoder (mem_of_mapM_eq_ok exists_ok_of_mapM_eq_ok mem_of_mapM_eq_error mapM_map_eq)
open Relation (ReflTransGen)

variable {facts : Facts} {o : Object} {block v w : Value} {e : ConditionError}

/-! ## What is come by -/

/-- What a value is settled by settling. -/
inductive Enters (facts : Facts) : Value → Value → Prop
  | settled {o : Object} {block v : Value} (hif : Named.get? o "if" = some block)
      (h : settle facts o block = .ok v) : Enters facts (.obj o) v
  | field {o : Object} {kv : String × Value} (hif : Named.get? o "if" = none) (h : kv ∈ o) :
      Enters facts (.obj o) kv.2
  | item {items : List Value} {v : Value} (h : v ∈ items) : Enters facts (.arr items) v

theorem Enters.size_lt (h : Enters facts v w) : w.size < v.size := by
  cases h with
  | settled hif h => exact size_settle_lt hif h
  | field hif h => exact Nat.lt_succ_of_lt (Value.size_field_lt h)
  | item h => exact Nat.lt_succ_of_lt (Value.size_item_lt h)

/-- **Settling comes to its end**: there is no endless row of values each of which enters the
next. -/
theorem wellFounded_enters (facts : Facts) : WellFounded fun w v => Enters facts v w :=
  Subrelation.wf (fun h => h.size_lt) (measure Value.size).wf

/-- An `if` block that settling a value comes by. -/
def Reaches (facts : Facts) (v block : Value) : Prop :=
  ∃ o, ReflTransGen (Enters facts) v (.obj o) ∧ Named.get? o "if" = some block

theorem Reaches.of_enters (hv : Enters facts v w) (h : Reaches facts w block) :
    Reaches facts v block := by
  obtain ⟨o, hsteps, hif⟩ := h
  exact ⟨o, .head hv hsteps, hif⟩

/-! ## Settling, shape by shape -/

theorem resolveItems_eq (items : List Value) :
    resolveItems facts items = items.mapM (resolve facts) := by
  induction items with
  | nil => rw [resolveItems]; rfl
  | cons v vs ih => rw [resolveItems, List.mapM_cons, ih]

def resolveField (facts : Facts) (kv : String × Value) : Except ConditionError (String × Value) :=
  do return (kv.1, ← resolve facts kv.2)

theorem resolveFields_eq (fields : Object) :
    resolveFields facts fields = fields.mapM (resolveField facts) := by
  induction fields with
  | nil => rw [resolveFields]; rfl
  | cons kv rest ih =>
    rw [resolveFields, List.mapM_cons, ih, resolveField, bind_assoc]
    rfl

/-- An object with a block is settled, and then what becomes of it. -/
theorem resolve_of_block (hif : Named.get? o "if" = some block) :
    resolve facts (.obj o) = settle facts o block >>= resolve facts := by
  rw [resolve]
  split
  · rename_i b hb
    obtain rfl : block = b := Option.some.inj (hif.symm.trans hb)
    split
    · rename_i hs
      rw [hs]
      rfl
    · rename_i hs
      rw [hs]
      rfl
  · rename_i hnone
    rw [hif] at hnone
    cases hnone

theorem resolve_plain (hif : Named.get? o "if" = none) :
    resolve facts (.obj o) = do return .obj (← o.mapM (resolveField facts)) := by
  rw [resolve]
  split
  · rename_i b hb
    rw [hif] at hb
    cases hb
  · rw [resolveFields_eq]

theorem resolve_arr (items : List Value) :
    resolve facts (.arr items) = do return .arr (← items.mapM (resolve facts)) := by
  rw [resolve, resolveItems_eq]

theorem resolve_scalar (ha : v.arr? = none) (ho : v.obj? = none) : resolve facts v = .ok v := by
  cases v with
  | arr | obj => simp [Value.arr?, Value.obj?] at ha ho
  | null | bool | num | str =>
    rw [resolve]
    all_goals
      rintro _ h
      cases h

/-- Induction along settling. -/
@[elab_as_elim]
theorem settlingInduction (facts : Facts) {motive : Value → Prop}
    (block : ∀ (o : Object) block, Named.get? o "if" = some block →
      (∀ v, settle facts o block = .ok v → motive v) → motive (.obj o))
    (plain : ∀ o : Object, Named.get? o "if" = none → (∀ kv ∈ o, motive kv.2) → motive (.obj o))
    (arr : ∀ items, (∀ v ∈ items, motive v) → motive (.arr items))
    (scalar : ∀ v, v.arr? = none → v.obj? = none → motive v) (v : Value) : motive v := by
  induction v using (wellFounded_enters facts).induction with
  | _ v ih =>
    cases v with
    | obj o =>
      cases hif : Named.get? o "if" with
      | some b => exact block o b hif fun v h => ih v (.settled hif h)
      | none => exact plain o hif fun kv h => ih kv.2 (.field hif h)
    | arr items => exact arr items fun v h => ih v (.item h)
    | null | bool | num | str => exact scalar _ rfl rfl

theorem error_of_map {α β : Type} {x : Except ConditionError α} {f : α → β}
    (h : (do return f (← x)) = (.error e : Except ConditionError β)) : x = .error e := by
  cases x with
  | error e' => exact congrArg Except.error (Except.error.inj h)
  | ok a => cases h

/-! ## What is left -/

/-- An object without a block. -/
def Plain (o : Object) : Prop := "if" ∉ Named.keys o

instance : DecidablePred Plain := fun o => inferInstanceAs (Decidable ("if" ∉ Named.keys o))

theorem exists_of_resolveField {kv kw : String × Value} (h : resolveField facts kv = .ok kw) :
    kw.1 = kv.1 ∧ resolve facts kv.2 = .ok kw.2 := by
  obtain ⟨w, hw, h⟩ := exists_ok_of_bind h
  cases h
  exact ⟨rfl, hw⟩

/-- **No block is left**, at any depth. -/
theorem each_plain_of_resolve (h : resolve facts v = .ok w) : w.Each {} Plain := by
  induction v using settlingInduction facts generalizing w with
  | block o block hif ih =>
    rw [resolve_of_block hif] at h
    obtain ⟨u, hu, h⟩ := exists_ok_of_bind h
    exact ih u hu h
  | plain o hif ih =>
    rw [resolve_plain hif] at h
    obtain ⟨fields, hfields, h⟩ := exists_ok_of_bind h
    cases h
    refine Value.each_obj.mpr ⟨fun hmem => ?_, fun kw hkw _ => ?_⟩
    · obtain ⟨kw, hkw, hname⟩ := List.mem_map.mp hmem
      obtain ⟨kv, hkv, hkw⟩ := mem_of_mapM_eq_ok hfields hkw
      have hkey := (exists_of_resolveField hkw).1
      exact Named.get?_eq_none_iff.mp hif
        (List.mem_map.mpr ⟨kv, hkv, hkey.symm.trans hname⟩)
    · obtain ⟨kv, hkv, hkw⟩ := mem_of_mapM_eq_ok hfields hkw
      exact ih kv hkv (exists_of_resolveField hkw).2
  | arr items ih =>
    rw [resolve_arr] at h
    obtain ⟨ws, hws, h⟩ := exists_ok_of_bind h
    cases h
    refine Value.each_arr.mpr fun _ w hw => ?_
    obtain ⟨v, hv, hw⟩ := mem_of_mapM_eq_ok hws hw
    exact ih v hv hw
  | scalar v ha ho =>
    rw [resolve_scalar ha ho] at h
    cases h
    exact Value.each_scalar ha ho

/-- **What holds no block is left as it is.** -/
theorem resolve_eq_self (facts : Facts) (h : v.Each {} Plain) : resolve facts v = .ok v := by
  induction v using Value.partsInduction with
  | arr items ih =>
    have hitems := mapM_map_eq (f := resolve facts) (g := id) fun v hv =>
      ih v hv (Value.each_arr.mp h rfl v hv)
    rw [List.map_id] at hitems
    rw [resolve_arr, hitems]
    rfl
  | obj o ih =>
    obtain ⟨hplain, hvalues⟩ := Value.each_obj.mp h
    have hfields := mapM_map_eq (f := resolveField facts) (g := id) fun kv hkv => by
      rw [id, resolveField, ih kv hkv (hvalues kv hkv rfl)]
      rfl
    rw [List.map_id] at hfields
    rw [resolve_plain (Named.get?_eq_none_iff.mpr hplain), hfields]
    rfl
  | scalar v ha ho => exact resolve_scalar ha ho

/-! ## Failures -/

/-- Why a block cannot be judged: it is no object, or it is one and asks for something unknown, of
which the first is named. -/
inductive Fails : Value → ConditionError → Prop
  | notObject {block : Value} (h : block.obj? = none) : Fails block (.notObject block)
  | unknown {front back : Object} {name : String} {arg : Value}
      (hfront : ∀ kv ∈ front, (ofName? kv.1).isSome = true) (h : ofName? name = none) :
      Fails (.obj (front ++ (name, arg) :: back)) (.unknown name)

theorem fails_of_allHold {conditions : Object} (h : allHold facts conditions = .error e) :
    Fails (.obj conditions) e := by
  -- what has been judged is known and moves to the front
  suffices ∀ front : Object, (∀ kv ∈ front, (ofName? kv.1).isSome = true) →
      Fails (.obj (front ++ conditions)) e from this [] nofun
  induction conditions with
  | nil => cases h
  | cons kv rest ih =>
    obtain ⟨name, arg⟩ := kv
    intro front hfront
    rw [allHold] at h
    cases hname : ofName? name with
    | none =>
      rw [hname] at h
      cases h
      exact .unknown hfront hname
    | some c =>
      rw [hname] at h
      rw [List.append_cons]
      refine ih ?_ _ (List.forall_mem_append.mpr ⟨hfront, List.forall_mem_singleton.mpr ?_⟩)
      · cases hrest : allHold facts rest with
        | error e' =>
          rw [hrest] at h
          exact h
        | ok b =>
          rw [hrest] at h
          cases h
      · rw [hname, Option.isSome_some]

theorem allHold_unknown {front back : Object} {name : String} {arg : Value}
    (hfront : ∀ kv ∈ front, (ofName? kv.1).isSome = true) (h : ofName? name = none) :
    allHold facts (front ++ (name, arg) :: back) = .error (.unknown name) := by
  induction front with
  | nil => rw [List.nil_append, allHold, h]
  | cons kv front ih =>
    obtain ⟨hkv, hfront⟩ := List.forall_mem_cons.mp hfront
    obtain ⟨c, hc⟩ := Option.isSome_iff_exists.mp hkv
    rw [List.cons_append, allHold, hc, ih hfront]
    rfl

/-- **Judging fails exactly for these reasons.** -/
theorem blockHolds_eq_error_iff : blockHolds facts block = .error e ↔ Fails block e := by
  constructor
  · intro h
    cases block with
    | obj conditions => exact fails_of_allHold h
    | null | bool | num | str | arr =>
      cases h
      exact .notObject rfl
  · intro h
    cases h with
    | notObject h =>
      cases block with
      | obj => cases h
      | null | bool | num | str | arr => rfl
    | unknown hfront h => exact allHold_unknown hfront h

theorem settle_eq_error_iff : settle facts o block = .error e ↔ Fails block e := by
  have hjudged : blockHolds facts block = .error e ↔ Fails block e := blockHolds_eq_error_iff
  rw [← hjudged, settle]
  cases blockHolds facts block with
  | error e' =>
    exact ⟨fun h => congrArg _ (Except.error.inj h), fun h => congrArg _ (Except.error.inj h)⟩
  | ok holds => exact ⟨nofun, nofun⟩

theorem Reaches.here (hif : Named.get? o "if" = some block) : Reaches facts (.obj o) block :=
  ⟨o, .refl, hif⟩

/-- **Settling fails only because of a block that it comes by.** -/
theorem exists_fails_of_resolve (h : resolve facts v = .error e) :
    ∃ block, Reaches facts v block ∧ Fails block e := by
  induction v using settlingInduction facts with
  | block o block hif ih =>
    rw [resolve_of_block hif] at h
    cases hs : settle facts o block with
    | error e' =>
      rw [hs] at h
      cases h
      exact ⟨block, .here hif, settle_eq_error_iff.mp hs⟩
    | ok u =>
      rw [hs] at h
      obtain ⟨b, hb, hfails⟩ := ih u hs h
      exact ⟨b, hb.of_enters (.settled hif hs), hfails⟩
  | plain o hif ih =>
    rw [resolve_plain hif] at h
    obtain ⟨kv, hkv, hfield⟩ := mem_of_mapM_eq_error (error_of_map h)
    obtain ⟨b, hb, hfails⟩ := ih kv hkv (error_of_map hfield)
    exact ⟨b, hb.of_enters (.field hif hkv), hfails⟩
  | arr items ih =>
    rw [resolve_arr] at h
    obtain ⟨u, hu, hitem⟩ := mem_of_mapM_eq_error (error_of_map h)
    obtain ⟨b, hb, hfails⟩ := ih u hu hitem
    exact ⟨b, hb.of_enters (.item hu), hfails⟩
  | scalar v ha ho =>
    rw [resolve_scalar ha ho] at h
    cases h

/-- What settling enters is settled. -/
theorem Enters.exists_resolve_eq_ok (hv : Enters facts v w) (h : ∃ u, resolve facts v = .ok u) :
    ∃ u, resolve facts w = .ok u := by
  obtain ⟨u, hu⟩ := h
  cases hv with
  | settled hif hs =>
    rw [resolve_of_block hif, hs] at hu
    exact ⟨u, hu⟩
  | field hif hkv =>
    rw [resolve_plain hif] at hu
    obtain ⟨fields, hfields, -⟩ := exists_ok_of_bind hu
    obtain ⟨kw, hkw⟩ := exists_ok_of_mapM_eq_ok hfields hkv
    exact ⟨kw.2, (exists_of_resolveField hkw).2⟩
  | item hmem =>
    rw [resolve_arr] at hu
    obtain ⟨ws, hws, -⟩ := exists_ok_of_bind hu
    exact exists_ok_of_mapM_eq_ok hws hmem

theorem exists_resolve_eq_ok_of_steps (hv : ∃ u, resolve facts v = .ok u)
    (h : ReflTransGen (Enters facts) v w) : ∃ u, resolve facts w = .ok u := by
  induction h with
  | refl => exact hv
  | tail _ hstep ih => exact hstep.exists_resolve_eq_ok ih

/-- **Settling succeeds exactly if no block fails that it comes by.** -/
theorem exists_resolve_eq_ok_iff : (∃ w, resolve facts v = .ok w) ↔
    ∀ block, Reaches facts v block → ∀ e, ¬ Fails block e := by
  constructor
  · rintro hv block ⟨o, hsteps, hif⟩ e hfails
    obtain ⟨w, hw⟩ := exists_resolve_eq_ok_of_steps hv hsteps
    rw [resolve_of_block hif, settle_eq_error_iff.mpr hfails] at hw
    cases hw
  · intro h
    cases hv : resolve facts v with
    | ok w => exact ⟨w, rfl⟩
    | error e =>
      obtain ⟨block, hblock, hfails⟩ := exists_fails_of_resolve hv
      exact absurd hfails (h block hblock e)

/-! ## Branches that are not chosen -/

/-- The name of the branch that is not chosen. -/
def otherName (holds : Bool) : String := if holds then "else" else "then"

/-- Two values that differ at one place only, in a branch that is not chosen: there the second has
whatever it has. -/
inductive SameChosen (facts : Facts) : Value → Value → Prop
  | branch {o : Object} {block : Value} {holds : Bool} (x : Value)
      (hif : Named.get? o "if" = some block) (h : blockHolds facts block = .ok holds) :
      SameChosen facts (.obj o) (.obj (o.insert (otherName holds) x))
  | settled {o o' : Object} {block v v' : Value} (hif : Named.get? o "if" = some block)
      (hif' : Named.get? o' "if" = some block) (h : settle facts o block = .ok v)
      (h' : settle facts o' block = .ok v') (hv : SameChosen facts v v') :
      SameChosen facts (.obj o) (.obj o')
  | field {o : Object} {key : String} {v v' : Value} (hif : Named.get? o "if" = none)
      (hkey : Named.get? o key = some v) (hv : SameChosen facts v v') :
      SameChosen facts (.obj o) (.obj (o.insert key v'))
  | item {items : List Value} {i : Nat} {v v' : Value} (hi : items[i]? = some v)
      (hv : SameChosen facts v v') : SameChosen facts (.arr items) (.arr (items.set i v'))

theorem mapM_set {items : List Value} {i : Nat} (hi : items[i]? = some v)
    (h : resolve facts w = resolve facts v) :
    (items.set i w).mapM (resolve facts) = items.mapM (resolve facts) := by
  induction items generalizing i with
  | nil => rfl
  | cons u us ih =>
    cases i with
    | zero =>
      obtain rfl := Option.some.inj hi
      rw [List.set_cons_zero, List.mapM_cons, List.mapM_cons, h]
    | succ i =>
      rw [List.set_cons_succ, List.mapM_cons, List.mapM_cons, ih hi]

theorem mapM_insert {key : String} (hkey : Named.get? o key = some v)
    (h : resolve facts w = resolve facts v) :
    (o.insert key w).mapM (resolveField facts) = o.mapM (resolveField facts) := by
  induction o with
  | nil => cases hkey
  | cons kv rest ih =>
    obtain ⟨k, u⟩ := kv
    rw [Named.get?_cons] at hkey
    rw [Named.insert]
    split at hkey
    · rename_i hk
      obtain rfl := Option.some.inj hkey
      rw [if_pos hk, List.mapM_cons, List.mapM_cons, resolveField, resolveField, h]
    · rename_i hk
      rw [if_neg hk, List.mapM_cons, List.mapM_cons, ih hkey]

/-- What stands in the other branch does not matter to a block. -/
theorem settle_insert_otherName {holds : Bool} (h : blockHolds facts block = .ok holds)
    (o : Object) (x : Value) :
    settle facts (o.insert (otherName holds) x) block = settle facts o block := by
  have hother : bare (o.insert (otherName holds) x) = bare o ∧
      branch? (o.insert (otherName holds) x) holds = branch? o holds := by
    cases holds with
    | true =>
      simp [otherName, bare, branch?, Named.erase_insert, Named.get?_insert]
    | false =>
      simp [otherName, bare, branch?, Named.erase_insert]
  rw [settle, settle, h]
  change Except.ok (joined _ _) = Except.ok (joined _ _)
  rw [hother.1, hother.2]

/-- **Branches that are not chosen do not matter.** -/
theorem SameChosen.resolve_eq (h : SameChosen facts v w) : resolve facts w = resolve facts v := by
  induction h with
  | @branch o block holds x hif h =>
    have hif' : Named.get? (o.insert (otherName holds) x) "if" = some block := by
      rw [Named.get?_insert, if_neg (by cases holds <;> decide), hif]
    rw [resolve_of_block hif, resolve_of_block hif', settle_insert_otherName h]
  | settled hif hif' h h' _ ih =>
    rw [resolve_of_block hif, resolve_of_block hif', h, h']
    exact ih
  | @field o key v v' hif hkey _ ih =>
    have hne : key ≠ "if" := by
      rintro rfl
      rw [hif] at hkey
      cases hkey
    have hif' : Named.get? (o.insert key v') "if" = none := by
      rw [Named.get?_insert, if_neg hne, hif]
    rw [resolve_plain hif, resolve_plain hif', mapM_insert hkey ih]
  | @item items i v v' hi _ ih =>
    rw [resolve_arr, resolve_arr, mapM_set hi ih]

/-! ## Rendering -/

/-- **Rendering comes to its end and leaves no conditional**: what it gives holds no block at any
depth, so that settling gives it again.  It fails exactly if a block fails that it comes by, and
with the error of such a block; what stands in a branch that is not chosen does not matter. -/
theorem render_settles (facts : Facts) (v : Value) :
    (WellFounded fun w v => Enters facts v w) ∧
      (∀ w, render facts v = .ok w → w.Each {} Plain ∧ ∀ facts', resolve facts' w = .ok w) ∧
      (∀ e, render facts v = .error e →
        ∃ block, Reaches facts (Template.fill facts v) block ∧ Fails block e) ∧
      ((∃ w, render facts v = .ok w) ↔
        ∀ block, Reaches facts (Template.fill facts v) block → ∀ e, ¬ Fails block e) ∧
      ∀ v', SameChosen facts (Template.fill facts v) v' → resolve facts v' = render facts v := by
  refine ⟨wellFounded_enters facts, fun w hw => ?_, fun e => exists_fails_of_resolve,
    exists_resolve_eq_ok_iff, fun v' h => h.resolve_eq⟩
  have hplain := each_plain_of_resolve hw
  exact ⟨hplain, fun facts' => resolve_eq_self facts' hplain⟩

/-- The branch that is chosen brings a block of its own, in which an unknown condition stands in the
branch that is not chosen; where that branch is rendered, it fails. -/
theorem render_settles_chained :
    let facts : Facts := ⟨[("bashDisabled", .bool true)]⟩
    let shell : Value := .obj [("bashDisabled", .bool true)]
    let asm : Value := .obj [("isModuleProvisioned", .str "asm")]
    let cloudy : Value := .obj [("if", .obj [("isCloudy", .null)])]
    let old : Value := .obj [("key", .str "old")]
    let o : Object := [("key", .str "new"), ("if", shell),
      ("then", .obj [("if", asm), ("then", cloudy), ("else", old)]), ("else", cloudy)]
    (render facts (.obj o) = .ok old ∧ old.Each {} Plain ∧ resolve facts old = .ok old) ∧
      (render facts cloudy = .error (.unknown "isCloudy") ∧
        ∃ block, Reaches facts cloudy block ∧ Fails block (.unknown "isCloudy")) ∧
      resolve facts (.obj (o.insert "else" .null)) = .ok old := by
  intro facts shell asm cloudy old o
  have hok : render facts (.obj o) = .ok old := by
    have hif : Named.get? o "if" = some shell := rfl
    change resolve facts (.obj o) = _
    rw [resolve_of_block hif]
    change resolve facts (.obj [("key", .str "new"), ("if", asm), ("then", cloudy),
      ("else", old)]) = _
    rw [resolve_of_block rfl]
    exact resolve_eq_self facts (by decide)
  have herror : render facts cloudy = .error (.unknown "isCloudy") := by
    change resolve facts cloudy = _
    rw [resolve_of_block rfl]
    rfl
  have hbranch : SameChosen facts (.obj o) (.obj (o.insert (otherName true) .null)) :=
    .branch .null rfl rfl
  obtain ⟨-, hleft, -, -, hsame⟩ := render_settles facts (.obj o)
  obtain ⟨hplain, hagain⟩ := hleft old hok
  exact ⟨⟨hok, hplain, hagain facts⟩, ⟨herror, (render_settles facts cloudy).2.2.1 _ herror⟩,
    (hsame _ hbranch).trans hok⟩

end DeviceStats.Conditional
