import DeviceStats.Proofs.Action.Grammar

/-!
# Proofs/Action/Written — actions written and read

The written form of an action says all there is to say about it: no other action has it
(`Action.encode_injective`), and an action that has been read is read back from it
(`Action.decode_encode_of_decode`).
-/

namespace DeviceStats

open Json (Value Object Decoder Field Distinct)
open Json.Decoder

namespace Action

/-! ## What is written -/

/-- What is written of a condition, if there is one. -/
def conditionEntries : Option Condition → List (String × Value)
  | some (.all tree) => [("ifAllMatch", .obj tree)]
  | some (.any trees) => [("ifAnyMatch", .arr (trees.map .obj))]
  | none => []

/-- What is written of an effect: its payload and its locations. -/
def effectEntries : Effect → List (String × Value)
  | .setTag tags locations? =>
    ("setTag", .obj tags) :: (locations?.map fun l => ("locations", Value.obj l)).toList
  | .includeData locations => [("includeData", .obj []), ("locations", .obj locations)]
  | .excludeData locations => [("excludeData", .obj []), ("locations", .obj locations)]

/-- What is written of an action, in order. -/
def entries (a : Action) : Object :=
  ("enable", .bool a.enabled) :: (conditionEntries a.condition? ++ effectEntries a.effect)

theorem encode_eq (a : Action) : a.encode = .obj a.entries := rfl

/-- The entries of a condition are told from those of an effect by their names. -/
def isCondition (entry : String × Value) : Bool :=
  entry.1 == "ifAllMatch" || entry.1 == "ifAnyMatch"

/-- The entries of the condition can be told from the rest. -/
theorem filter_entries (c? : Option Condition) (e : Effect) :
    (conditionEntries c? ++ effectEntries e).filter isCondition = conditionEntries c? := by
  rcases c? with _ | tree | trees <;> rcases e with ⟨tags, _ | l⟩ | l | l <;> rfl

theorem map_obj_injective : Function.Injective (List.map Value.obj) :=
  List.map_injective_iff.mpr fun _ _ => Value.obj.inj

/-- No two conditions are written alike, … -/
theorem conditionEntries_injective : Function.Injective conditionEntries := by
  rintro (_ | tree | trees) (_ | tree' | trees') h <;>
    simp [conditionEntries, map_obj_injective.eq_iff] at h <;> simp [h]

/-- … and neither are two effects. -/
theorem effectEntries_injective : Function.Injective effectEntries := by
  rintro (⟨tags, _ | l⟩ | l | l) (⟨tags', _ | l'⟩ | l' | l') h <;>
    simp [effectEntries] at h <;> simp [h]

/-- **No two actions are written alike.** -/
theorem encode_injective : Function.Injective encode := by
  rintro ⟨enabled, c?, e⟩ ⟨enabled', c?', e'⟩ h
  rw [encode_eq, encode_eq, Value.obj.injEq, entries, entries, List.cons.injEq, Prod.mk.injEq,
    Value.bool.injEq] at h
  obtain ⟨⟨-, rfl⟩, h⟩ := h
  have hcondition := congrArg (List.filter isCondition) h
  rw [filter_entries, filter_entries] at hcondition
  obtain rfl := conditionEntries_injective hcondition
  obtain rfl := effectEntries_injective (List.append_cancel_left h)
  rfl

/-! ## What is written is read -/

/-- The record that an action is written as. -/
def draft (a : Action) : Draft where
  enabled := a.enabled
  all? :=
    match a.condition? with
    | some (.all tree) => some (.obj tree)
    | _ => none
  any? :=
    match a.condition? with
    | some (.any trees) => some (trees.map .obj)
    | _ => none
  setTag? :=
    match a.effect with
    | .setTag tags _ => some tags
    | _ => none
  include? :=
    match a.effect with
    | .includeData _ => some (.obj [])
    | _ => none
  exclude? :=
    match a.effect with
    | .excludeData _ => some (.obj [])
    | _ => none
  locations? :=
    match a.effect with
    | .setTag _ locations? => locations?.map .obj
    | .includeData locations => some (.obj locations)
    | .excludeData locations => some (.obj locations)

/-- Whether no name stands twice among the tags that an action sets. -/
def Tidy (a : Action) : Prop :=
  ∀ tags locations?, a.effect = .setTag tags locations? → Distinct tags

/-- The record that an action is written as makes the action. -/
theorem action_draft (a : Action) : a.draft.action = .ok a := by
  obtain ⟨enabled, c?, e⟩ := a
  have hcondition : (Action.draft ⟨enabled, c?, e⟩).condition? = .ok c? := by
    rcases c? with _ | tree | trees
    · rfl
    · rfl
    · have htrees : (trees.map Value.obj).mapM Value.obj? = some trees :=
        mapM_obj?_eq_some_iff.mpr rfl
      simp only [Draft.condition?, draft, htrees]
  rw [Draft.action, hcondition]
  rcases e with ⟨tags, _ | l⟩ | l | l <;> rfl

/-- No field of an action is written twice. -/
theorem distinct_entries (a : Action) : Distinct a.entries := by
  obtain ⟨enabled, c?, e⟩ := a
  rcases c? with _ | tree | trees <;> rcases e with ⟨tags, _ | l⟩ | l | l <;>
    simp [Distinct, Named.keys, entries, conditionEntries, effectEntries]

/-- The record of a tidy action is what its fields say. -/
theorem readFrom_draft {a : Action} (ha : a.Tidy) : a.draft.ReadFrom a.entries := by
  obtain ⟨enabled, c?, e⟩ := a
  have htags : ∃ fields? : Option Object,
      givenUnder (entries ⟨enabled, c?, e⟩) "setTag" = fields?.map Value.obj ∧
        (Action.draft ⟨enabled, c?, e⟩).setTag? = fields?.map Named.ofPairs := by
    cases e with
    | setTag tags locations? =>
      refine ⟨some tags, ?_, ?_⟩
      · rcases c? with _ | tree | trees <;> rfl
      · exact congrArg some (Named.ofPairs_of_nodup (ha tags locations? rfl)).symm
    | includeData locations | excludeData locations =>
      exact ⟨none, by rcases c? with _ | tree | trees <;> rfl, rfl⟩
  rcases c? with _ | tree | trees <;> rcases e with ⟨tags, _ | l⟩ | l | l <;>
    exact ⟨.inr rfl, rfl, rfl, htags, rfl, rfl, rfl⟩

theorem decode_encode {a : Action} (h : a.Tidy) : decode a.encode = .ok a :=
  decode_eq_ok_iff.mpr ⟨a.draft,
    (Draft.decode_obj_iff a.distinct_entries).mpr (readFrom_draft h), a.action_draft⟩

/-- What has been read under `setTag` repeats no name. -/
theorem Draft.distinct_of_decode {v : Value} {d : Draft} (h : Draft.decode v = .ok d) :
    ∀ tags ∈ d.setTag?, Distinct tags := by
  refine record_keeps (P := fun d : Draft => ∀ tags ∈ d.setTag?, Distinct tags) (Q := fun _ => True)
    ?_ (fun l _ => l.forall_true) h nofun
  simp only [List.forall_mem_cons, List.not_mem_nil, false_imp_iff, implies_true, and_true]
  exact ⟨keeps_given fun _ _ => id, keeps_given fun _ _ => id, keeps_given fun _ _ => id,
    keeps_optional (R := Distinct) (fun _ _ _ _ => nodup_keys_of_named) fun _ _ hb _ => hb,
    keeps_given fun _ _ => id, keeps_given fun _ _ => id, keeps_given fun _ _ => id⟩

/-- Only a record with tags sets tags, and just these. -/
theorem Draft.setTag_of_effect {d : Draft} {l? locations? : Option Object} {tags : Object}
    (h : d.effect l? = .ok (.setTag tags locations?)) : d.setTag? = some tags := by
  unfold effect at h
  split at h
  · rename_i htag _ _
    cases h
    exact htag
  · split at h <;> cases h
  · split at h <;> cases h
  · cases h
  · cases h

/-- What has been read is tidy, so the written form of it is read back. -/
theorem tidy_of_decode {v : Value} {a : Action} (h : decode v = .ok a) : a.Tidy := by
  obtain ⟨d, hd, ha⟩ := decode_eq_ok_iff.mp h
  obtain ⟨-, -, l?, -, he⟩ := Draft.action_eq_ok_iff.mp ha
  intro tags locations? heffect
  rw [heffect] at he
  exact Draft.distinct_of_decode hd tags (Draft.setTag_of_effect he)

/-- **Actions are read by their grammar, and writing undoes it.**  An object is read just if it is
grammatical; an action that has been read is read back from its written form; a list is read just if
all its elements are, in their order, and otherwise the first that is refused is reported. -/
theorem grammar_and_written_form :
    (∀ o : Object, Distinct o → ((∃ a, decode (.obj o) = .ok a) ↔ Grammatical o)) ∧
      (∀ v a, decode v = .ok a → decode a.encode = .ok a) ∧
      (∀ vs, (∃ as, decodeAll vs = .ok as) ↔ ∀ v ∈ vs, ∃ a, decode v = .ok a) ∧
      (∀ vs as, decodeAll vs = .ok as ↔ vs.map decode = as.map .ok) ∧
      ∀ vs e, decodeAll vs = .error e ↔ ∃ v, vs[e.index]? = some v ∧ decode v = .error e.cause ∧
        ∀ w ∈ vs.take e.index, ∃ a, decode w = .ok a := by
  refine ⟨fun o ho => exists_decode_iff ho, fun v a h => decode_encode (tidy_of_decode h),
    fun vs => exists_decodeFrom_iff, fun vs as => decodeFrom_eq_ok_iff,
    fun vs e => decodeFrom_eq_error_iff.trans ⟨?_, ?_⟩⟩
  · rintro ⟨i, hi, h⟩
    rw [Nat.zero_add] at hi
    exact hi ▸ h
  · exact fun h => ⟨e.index, (Nat.zero_add _).symm, h⟩

/-- Fields in another order, a null condition, a payload that does not count, and locations that
lack. -/
theorem grammar_and_written_form_three_objects :
    let tagging : Object := [("setTag", .obj [("tenant", .str "A")]), ("ifAllMatch", .null),
      ("ifAnyMatch", .arr [.obj [("a", .str "b")]])]
    let inclusion : Object := [("locations", .obj [("x", .obj [])]), ("includeData", .bool true),
      ("enable", .bool false)]
    let exclusion : Object := [("excludeData", .obj []), ("locations", .null)]
    Grammatical tagging ∧ Grammatical inclusion ∧ ¬Grammatical exclusion ∧
      (∃ a, decode (.obj inclusion) = .ok a ∧ decode a.encode = .ok a) ∧
      (∃ as, decodeAll [.obj tagging, .obj inclusion] = .ok as) ∧
      ∃ v, [Value.obj tagging, .obj inclusion, .obj exclusion][2]? = some v ∧
        decode v = .error (.refused .excludeWithoutLocations) := by
  intro tagging inclusion exclusion
  obtain ⟨hgrammar, hwritten, hlist, -, herror⟩ := grammar_and_written_form
  have htagging : ∃ a, decode (.obj tagging) = .ok a := ⟨_, rfl⟩
  obtain ⟨a, ha⟩ : ∃ a, decode (.obj inclusion) = .ok a := ⟨_, rfl⟩
  refine ⟨(hgrammar tagging (by decide)).mp htagging, (hgrammar inclusion (by decide)).mp ⟨a, ha⟩,
    fun h => ?_, ⟨a, ha, hwritten _ a ha⟩, (hlist _).mpr ?_, ?_⟩
  · obtain ⟨b, hb⟩ := (hgrammar exclusion (by decide)).mpr h
    cases hb
  · simp only [List.forall_mem_cons, List.not_mem_nil, false_imp_iff, implies_true, and_true]
    exact ⟨htagging, a, ha⟩
  · obtain ⟨v, hv, hcause, -⟩ := (herror [.obj tagging, .obj inclusion, .obj exclusion]
      ⟨2, .refused .excludeWithoutLocations⟩).mp rfl
    exact ⟨v, hv, hcause⟩

end Action

end DeviceStats
