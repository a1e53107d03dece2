import DeviceStats.Action
import DeviceStats.Proofs.Json.Records

/-!
# Proofs/Action/Grammar — which objects are actions

The fields of an action may be given in any order, and for all but one of them null counts as
nothing.  An object is read as an action just if it keeps to the grammar (`Action.Grammatical`).
-/

namespace DeviceStats

open Json (Value Object Decoder Field Distinct)
open Json.Decoder

namespace Action

/-! ## The record of an action -/

/-- What an object gives under a name, null being nothing. -/
def givenUnder (o : Object) (name : String) : Option Value := (o.get? name).filter (!·.isNull)

/-- What the fields of an object make of the record of an action. -/
structure Draft.ReadFrom (d : Draft) (o : Object) : Prop where
  enabled : o.get? "enable" = none ∧ d.enabled = true ∨ o.get? "enable" = some (.bool d.enabled)
  all : givenUnder o "ifAllMatch" = d.all?
  any : givenUnder o "ifAnyMatch" = d.any?.map .arr
  tags : ∃ fields? : Option Object, givenUnder o "setTag" = fields?.map Value.obj ∧
    d.setTag? = fields?.map Named.ofPairs
  included : givenUnder o "includeData" = d.include?
  excluded : givenUnder o "excludeData" = d.exclude?
  locations : givenUnder o "locations" = d.locations?

/-- Whether an action is enabled: without a field for it, it is as it starts, and null does not
count as nothing here. -/
theorem given_boolean {v? : Option Value} {b start : Bool} :
    Given (boolean : Decoder Value ActionFault Bool) v? start b ↔
      v? = none ∧ b = start ∨ v? = some (.bool b) := by
  cases v? <;> simp [Given, boolean_iff]

/-- An optional field holds any value but null. -/
theorem given_value {v? w? : Option Value} :
    Given (Decoder.optional (value : Decoder Value ActionFault Value)) v? none w? ↔
      v?.filter (!·.isNull) = w? := by
  rw [given_optional]
  cases v?.filter (!·.isNull) <;> cases w? <;> simp [value_iff]

/-- An optional list is an array or null. -/
theorem given_list {v? : Option Value} {vs? : Option (List Value)} :
    Given (Decoder.optional (list (value : Decoder Value ActionFault Value))) v? none vs? ↔
      v?.filter (!·.isNull) = vs?.map .arr := by
  rw [given_optional]
  cases v?.filter (!·.isNull) <;> cases vs? <;> simp [list_value_iff]

/-- Optional named values are an object or null, of which each name keeps its last value. -/
theorem given_named {v? : Option Value} {o? : Option Object} :
    Given (Decoder.optional (named (value : Decoder Value ActionFault Value))) v? none o? ↔
      ∃ fields? : Option Object, v?.filter (!·.isNull) = fields?.map Value.obj ∧
        o? = fields?.map Named.ofPairs := by
  rw [given_optional]
  generalize v?.filter (!·.isNull) = w?
  constructor
  · rintro (h | _)
    · obtain ⟨fields, rfl, rfl⟩ := named_value_iff.mp h
      exact ⟨some fields, rfl, rfl⟩
    · exact ⟨none, rfl, rfl⟩
  · rintro ⟨_ | fields, rfl, rfl⟩
    · exact .none
    · exact .some (named_value_iff.mpr ⟨fields, rfl, rfl⟩)

/-- **The record of an action has what the object gives**, in whatever order. -/
theorem Draft.decode_obj_iff {o : Object} (ho : Distinct o) {d : Draft} :
    Draft.decode (.obj o) = .ok d ↔ d.ReadFrom o := by
  rw [Draft.decode, record_obj_lookUp ho (by decide) (by simp [commute_given])
    (by simp [Field.given])]
  constructor
  · intro h
    obtain ⟨enabled, henabled, h⟩ := (lookUp_given true rfl).mp h
    obtain ⟨all?, hall, h⟩ := (lookUp_given none rfl).mp h
    obtain ⟨any?, hany, h⟩ := (lookUp_given none rfl).mp h
    obtain ⟨setTag?, htag, h⟩ := (lookUp_given none rfl).mp h
    obtain ⟨include?, hinclude, h⟩ := (lookUp_given none rfl).mp h
    obtain ⟨exclude?, hexclude, h⟩ := (lookUp_given none rfl).mp h
    obtain ⟨locations?, hlocations, h⟩ := (lookUp_given none rfl).mp h
    cases h
    exact ⟨given_boolean.mp henabled, given_value.mp hall, given_list.mp hany, given_named.mp htag,
      given_value.mp hinclude, given_value.mp hexclude, given_value.mp hlocations⟩
  · intro h
    exact (lookUp_given true rfl).mpr ⟨_, given_boolean.mpr h.enabled,
      (lookUp_given none rfl).mpr ⟨_, given_value.mpr h.all,
      (lookUp_given none rfl).mpr ⟨_, given_list.mpr h.any,
      (lookUp_given none rfl).mpr ⟨_, given_named.mpr h.tags,
      (lookUp_given none rfl).mpr ⟨_, given_value.mpr h.included,
      (lookUp_given none rfl).mpr ⟨_, given_value.mpr h.excluded,
      (lookUp_given none rfl).mpr ⟨_, given_value.mpr h.locations, rfl⟩⟩⟩⟩⟩⟩⟩

/-! ## The grammar -/

/-- The grammar of actions, for what an object gives under its names. -/
structure Grammatical (o : Object) : Prop where
  enable : ∀ v ∈ o.get? "enable", ∃ b, v = .bool b
  oneCondition : ¬((givenUnder o "ifAllMatch").isSome ∧ (givenUnder o "ifAnyMatch").isSome)
  all : ∀ v ∈ givenUnder o "ifAllMatch", v.isObj
  any : ∀ v ∈ givenUnder o "ifAnyMatch", ∃ vs, v = .arr vs ∧ ∀ w ∈ vs, w.isObj
  /-- Just one effect is given. -/
  oneEffect : (["setTag", "includeData", "excludeData"].map fun name =>
    (givenUnder o name).isSome).count true = 1
  setTag : ∀ v ∈ givenUnder o "setTag", v.isObj
  locations : ∀ v ∈ givenUnder o "locations", v.isObj
  located : (givenUnder o "includeData").isSome ∨ (givenUnder o "excludeData").isSome →
    (givenUnder o "locations").isSome

theorem isObj_iff {v : Value} : v.isObj = true ↔ ∃ o, v = .obj o := by
  cases v <;> simp [Value.isObj, Value.obj?]

/-- All values are objects just if each of them gives one. -/
theorem isSome_mapM_obj? {vs : List Value} :
    (vs.mapM Value.obj?).isSome = true ↔ ∀ v ∈ vs, v.isObj = true := by
  induction vs with
  | nil => simp
  | cons v vs ih =>
    rw [List.forall_mem_cons, ← ih, List.mapM_cons, Value.isObj]
    cases v.obj? <;> cases vs.mapM Value.obj? <;> simp

theorem mapM_obj?_eq_some_iff {vs : List Value} {trees : List Object} :
    vs.mapM Value.obj? = some trees ↔ vs = trees.map .obj := by
  induction vs generalizing trees with
  | nil => cases trees <;> simp
  | cons v vs ih =>
    rw [List.mapM_cons]
    cases trees with
    | nil => cases v.obj? <;> cases vs.mapM Value.obj? <;> simp
    | cons tree trees =>
      rw [List.map_cons, List.cons.injEq, ← ih]
      cases v <;> cases vs.mapM Value.obj? <;> simp [Value.obj?]

namespace Draft

variable {d : Draft}

/-- A condition can be read unless two are given or a tree is no object. -/
theorem exists_condition_iff :
    (∃ c?, d.condition? = .ok c?) ↔
      ¬(d.all?.isSome ∧ d.any?.isSome) ∧ (∀ v ∈ d.all?, v.isObj) ∧
        ∀ vs ∈ d.any?, ∀ v ∈ vs, v.isObj := by
  rcases hall : d.all? with _ | v <;> rcases hany : d.any? with _ | vs
  · simp [condition?, hall, hany]
  · have hmapM : (vs.mapM Value.obj?).isSome = true ↔ ∀ v ∈ vs, v.isObj = true := isSome_mapM_obj?
    cases h : vs.mapM Value.obj? <;> simp_all [condition?]
  · cases v <;> simp [condition?, hall, hany, Value.isObj, Value.obj?]
  · simp [condition?, hall, hany]

/-- Locations can be read unless they are no object. -/
theorem exists_places_iff : (∃ l?, d.places? = .ok l?) ↔ ∀ v ∈ d.locations?, v.isObj := by
  rcases h : d.locations? with _ | v
  · simp [places?, h]
  · cases v <;> simp [places?, h, Value.isObj, Value.obj?]

theorem isSome_of_places {l? : Option Object} (h : d.places? = .ok l?) :
    l?.isSome = d.locations?.isSome := by
  unfold places? at h
  split at h <;> cases h <;> rename_i hl <;> rw [hl] <;> rfl

/-- An effect can be read if exactly one is given, and those that select data need locations. -/
theorem exists_effect_iff {l? : Option Object} :
    (∃ e, d.effect l? = .ok e) ↔
      [d.setTag?.isSome, d.include?.isSome, d.exclude?.isSome].count true = 1 ∧
        (d.include?.isSome ∨ d.exclude?.isSome → l?.isSome) := by
  rcases htag : d.setTag? with _ | tags <;> rcases hin : d.include? with _ | v <;>
    rcases hex : d.exclude? with _ | w <;> cases l? <;> simp [effect, htag, hin, hex]

/-- The parts that an action is made of. -/
theorem action_eq_ok_iff {a : Action} :
    d.action = .ok a ↔ d.enabled = a.enabled ∧ d.condition? = .ok a.condition? ∧
      ∃ l?, d.places? = .ok l? ∧ d.effect l? = .ok a.effect := by
  obtain ⟨enabled, c?, e⟩ := a
  constructor
  · intro h
    obtain ⟨c?, hc, h⟩ := exists_ok_of_bind h
    obtain ⟨l?, hl, h⟩ := exists_ok_of_bind h
    obtain ⟨e, he, h⟩ := exists_ok_of_bind h
    cases h
    exact ⟨rfl, hc, l?, hl, he⟩
  · rintro ⟨rfl, hc, l?, hl, he⟩
    exact bind_eq_ok hc (bind_eq_ok hl (bind_eq_ok he rfl))

/-- An action can be read if its condition, its locations and its effect can. -/
theorem exists_action_iff :
    (∃ a, d.action = .ok a) ↔
      (∃ c?, d.condition? = .ok c?) ∧ (∃ l?, d.places? = .ok l? ∧ ∃ e, d.effect l? = .ok e) := by
  constructor
  · rintro ⟨a, h⟩
    obtain ⟨-, hc, l?, hl, he⟩ := action_eq_ok_iff.mp h
    exact ⟨⟨a.condition?, hc⟩, l?, hl, a.effect, he⟩
  · rintro ⟨⟨c?, hc⟩, l?, hl, e, he⟩
    exact ⟨⟨d.enabled, c?, e⟩, action_eq_ok_iff.mpr ⟨rfl, hc, l?, hl, he⟩⟩

/-- A record is an action if it has at most one condition and just one effect, each of its form and
with the locations that it needs. -/
theorem exists_action_iff_fields :
    (∃ a, d.action = .ok a) ↔
      (¬(d.all?.isSome ∧ d.any?.isSome) ∧ (∀ v ∈ d.all?, v.isObj) ∧
        ∀ vs ∈ d.any?, ∀ v ∈ vs, v.isObj) ∧
      (∀ v ∈ d.locations?, v.isObj) ∧
      [d.setTag?.isSome, d.include?.isSome, d.exclude?.isSome].count true = 1 ∧
        (d.include?.isSome ∨ d.exclude?.isSome → d.locations?.isSome) := by
  rw [exists_action_iff, exists_condition_iff, ← exists_places_iff]
  refine and_congr_right fun _ => ⟨?_, ?_⟩
  · rintro ⟨l?, hl, he⟩
    rw [← isSome_of_places hl]
    exact ⟨⟨l?, hl⟩, exists_effect_iff.mp he⟩
  · rintro ⟨⟨l?, hl⟩, he⟩
    rw [← isSome_of_places hl] at he
    exact ⟨l?, hl, exists_effect_iff.mpr he⟩

end Draft

/-- The record of a grammatical object. -/
theorem Grammatical.exists_readFrom {o : Object} (h : Grammatical o) :
    ∃ d : Draft, d.ReadFrom o := by
  have henable : ∃ b, o.get? "enable" = none ∧ b = true ∨ o.get? "enable" = some (.bool b) := by
    cases hv : o.get? "enable" with
    | none => exact ⟨true, .inl ⟨rfl, rfl⟩⟩
    | some v =>
      obtain ⟨b, rfl⟩ := h.enable v hv
      exact ⟨b, .inr rfl⟩
  have hany : ∃ vs?, givenUnder o "ifAnyMatch" = Option.map Value.arr vs? := by
    cases hv : givenUnder o "ifAnyMatch" with
    | none => exact ⟨none, rfl⟩
    | some v =>
      obtain ⟨vs, rfl, -⟩ := h.any v hv
      exact ⟨some vs, rfl⟩
  have htag : ∃ fields?, givenUnder o "setTag" = Option.map Value.obj fields? := by
    cases hv : givenUnder o "setTag" with
    | none => exact ⟨none, rfl⟩
    | some v =>
      obtain ⟨fields, rfl⟩ := isObj_iff.mp (h.setTag v hv)
      exact ⟨some fields, rfl⟩
  obtain ⟨b, henable⟩ := henable
  obtain ⟨vs?, hany⟩ := hany
  obtain ⟨fields?, htag⟩ := htag
  exact ⟨⟨b, _, vs?, fields?.map Named.ofPairs, _, _, _⟩,
    ⟨henable, rfl, hany, ⟨fields?, htag, rfl⟩, rfl, rfl, rfl⟩⟩

/-- The grammar of an object is what its record needs to be an action. -/
theorem Draft.ReadFrom.grammatical_iff {d : Draft} {o : Object} (h : d.ReadFrom o) :
    Grammatical o ↔ ∃ a, d.action = .ok a := by
  obtain ⟨fields?, htag, hset⟩ := h.tags
  have hsome : (givenUnder o "setTag").isSome = d.setTag?.isSome := by
    rw [htag, hset, Option.isSome_map, Option.isSome_map]
  have hany : (givenUnder o "ifAnyMatch").isSome = d.any?.isSome := by rw [h.any, Option.isSome_map]
  rw [exists_action_iff_fields, ← hsome, ← hany, ← h.all, ← h.included, ← h.excluded, ← h.locations]
  constructor
  · intro hg
    refine ⟨⟨hg.oneCondition, hg.all, fun vs hvs => ?_⟩, hg.locations, hg.oneEffect, hg.located⟩
    obtain ⟨ws, heq, hws⟩ := hg.any (.arr vs) (by rw [h.any, hvs]; rfl)
    exact Value.arr.inj heq ▸ hws
  · rintro ⟨⟨hone, hall, hobjs⟩, hloc, heffect, hlocated⟩
    refine ⟨fun v hv => ?_, hone, hall, fun v hv => ?_, heffect, fun v hv => ?_, hloc, hlocated⟩
    · rcases h.enabled with ⟨hnone, -⟩ | hsome
      · cases hnone.symm.trans hv
      · exact ⟨d.enabled, Option.some.inj (hv.symm.trans hsome)⟩
    · obtain ⟨vs, hvs, rfl⟩ := Option.map_eq_some_iff.mp (h.any ▸ hv)
      exact ⟨vs, rfl, hobjs vs hvs⟩
    · obtain ⟨fields, -, rfl⟩ := Option.map_eq_some_iff.mp (htag ▸ hv)
      rfl

/-- An action is read in two parts: the fields, and what they say together. -/
theorem decode_eq_ok_iff {v : Value} {a : Action} :
    decode v = .ok a ↔ ∃ d, Draft.decode v = .ok d ∧ d.action = .ok a := by
  constructor
  · intro h
    obtain ⟨d, hd, h⟩ := exists_ok_of_bind h
    exact ⟨d, hd, ok_of_mapError h⟩
  · rintro ⟨d, hd, ha⟩
    exact bind_eq_ok hd (by rw [ha]; rfl)

/-- **The grammar of actions.**  An object is read as an action just if it is grammatical. -/
theorem exists_decode_iff {o : Object} (ho : Distinct o) :
    (∃ a, decode (.obj o) = .ok a) ↔ Grammatical o := by
  constructor
  · rintro ⟨a, h⟩
    obtain ⟨d, hd, ha⟩ := decode_eq_ok_iff.mp h
    exact ((Draft.decode_obj_iff ho).mp hd).grammatical_iff.mpr ⟨a, ha⟩
  · intro h
    obtain ⟨d, hd⟩ := h.exists_readFrom
    obtain ⟨a, ha⟩ := hd.grammatical_iff.mp h
    exact ⟨a, decode_eq_ok_iff.mpr ⟨d, (Draft.decode_obj_iff ho).mpr hd, ha⟩⟩

/-! ## Lists of actions -/

section Lists

variable {index : Nat} {v : Value} {vs : List Value}

/-- The first element that is refused ends the reading, under its own index. -/
theorem decodeFrom_cons_of_error {c : Json.DecodeError ActionFault} (h : decode v = .error c) :
    decodeFrom index (v :: vs) = .error ⟨index, c⟩ := by
  rw [decodeFrom, h]
  rfl

theorem decodeFrom_cons_of_ok {a : Action} (h : decode v = .ok a) :
    decodeFrom index (v :: vs) = (decodeFrom (index + 1) vs).map (a :: ·) := by
  rw [decodeFrom, h]
  change (decodeFrom (index + 1) vs >>= fun as => Except.ok (a :: as)) = _
  cases decodeFrom (index + 1) vs <;> rfl

/-- A list is read just if every element is, in its order. -/
theorem decodeFrom_eq_ok_iff {as : List Action} :
    decodeFrom index vs = .ok as ↔ vs.map decode = as.map .ok := by
  induction vs generalizing index as with
  | nil => cases as <;> simp [decodeFrom]
  | cons v vs ih =>
    rw [List.map_cons]
    cases hv : decode v with
    | error c =>
      rw [decodeFrom_cons_of_error hv]
      cases as <;> simp
    | ok a =>
      rw [decodeFrom_cons_of_ok hv]
      cases as with
      | nil => cases decodeFrom (index + 1) vs <;> simp [Except.map]
      | cons b bs =>
        have htail : decodeFrom (index + 1) vs = .ok bs ↔ vs.map decode = bs.map .ok := ih
        rw [List.map_cons, List.cons.injEq, ← htail, Except.ok.injEq]
        cases decodeFrom (index + 1) vs <;> simp [Except.map]

/-- The first element that is refused stands at a place, and is refused for a cause. -/
def RefusedAt (vs : List Value) (i : Nat) (c : Json.DecodeError ActionFault) : Prop :=
  ∃ v, vs[i]? = some v ∧ decode v = .error c ∧ ∀ w ∈ vs.take i, ∃ a, decode w = .ok a

/-- With a first element that is refused nothing else is reported. -/
theorem refusedAt_cons_of_error {i : Nat} {c c' : Json.DecodeError ActionFault}
    (h : decode v = .error c) : RefusedAt (v :: vs) i c' ↔ i = 0 ∧ c' = c := by
  constructor
  · rintro ⟨w, hw, hc, hbefore⟩
    cases i with
    | zero =>
      cases hw
      cases h.symm.trans hc
      exact ⟨rfl, rfl⟩
    | succ i =>
      obtain ⟨a, ha⟩ := hbefore v List.mem_cons_self
      cases h.symm.trans ha
  · rintro ⟨rfl, rfl⟩
    exact ⟨v, rfl, h, by simp⟩

/-- Behind a first element that is read, what is reported is counted from the next. -/
theorem refusedAt_cons_of_ok {a : Action} {i : Nat} {c : Json.DecodeError ActionFault}
    (h : decode v = .ok a) : RefusedAt (v :: vs) i c ↔ ∃ j, i = j + 1 ∧ RefusedAt vs j c := by
  constructor
  · rintro ⟨w, hw, hc, hbefore⟩
    cases i with
    | zero =>
      cases hw
      cases h.symm.trans hc
    | succ j =>
      rw [List.take_succ_cons] at hbefore
      exact ⟨j, rfl, w, hw, hc, (List.forall_mem_cons.mp hbefore).2⟩
  · rintro ⟨j, rfl, w, hw, hc, hbefore⟩
    refine ⟨w, hw, hc, ?_⟩
    rw [List.take_succ_cons]
    exact List.forall_mem_cons.mpr ⟨⟨a, h⟩, hbefore⟩

/-- Otherwise the first element that is refused is reported. -/
theorem decodeFrom_eq_error_iff {e : ActionError} :
    decodeFrom index vs = .error e ↔ ∃ i, e.index = index + i ∧ RefusedAt vs i e.cause := by
  induction vs generalizing index with
  | nil => simp [decodeFrom, RefusedAt]
  | cons v vs ih =>
    obtain ⟨place, cause⟩ := e
    cases hv : decode v with
    | error c =>
      rw [decodeFrom_cons_of_error hv]
      simp only [refusedAt_cons_of_error hv, Except.error.injEq, ActionError.mk.injEq]
      constructor
      · rintro ⟨rfl, rfl⟩
        exact ⟨0, rfl, rfl, rfl⟩
      · rintro ⟨i, rfl, rfl, rfl⟩
        exact ⟨rfl, rfl⟩
    | ok a =>
      rw [decodeFrom_cons_of_ok hv]
      have hmap : (decodeFrom (index + 1) vs).map (a :: ·) = .error ⟨place, cause⟩ ↔
          decodeFrom (index + 1) vs = .error ⟨place, cause⟩ := by
        cases decodeFrom (index + 1) vs <;> simp [Except.map]
      simp only [hmap, ih, refusedAt_cons_of_ok hv]
      constructor
      · rintro ⟨j, hplace, hj⟩
        exact ⟨j + 1, by omega, j, rfl, hj⟩
      · rintro ⟨_, hplace, j, rfl, hj⟩
        exact ⟨j, by omega, hj⟩

/-- A list can be read just if each of its elements can. -/
theorem exists_decodeFrom_iff :
    (∃ as, decodeFrom index vs = .ok as) ↔ ∀ v ∈ vs, ∃ a, decode v = .ok a := by
  constructor
  · rintro ⟨as, h⟩ v hv
    have hmem : decode v ∈ as.map .ok := decodeFrom_eq_ok_iff.mp h ▸ List.mem_map_of_mem hv
    obtain ⟨a, -, ha⟩ := List.mem_map.mp hmem
    exact ⟨a, ha.symm⟩
  · intro h
    cases hread : decodeFrom index vs with
    | ok as => exact ⟨as, rfl⟩
    | error e =>
      obtain ⟨i, -, v, hv, hc, -⟩ := decodeFrom_eq_error_iff.mp hread
      obtain ⟨a, ha⟩ := h v (List.mem_of_getElem? hv)
      cases hc.symm.trans ha

end Lists

end Action

end DeviceStats
