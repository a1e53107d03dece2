import DeviceStats.Declaration
import DeviceStats.Proofs.Json.Objects
import DeviceStats.Proofs.Match.Children

/-!
# Proofs/Property/Verdicts — a declaration is judged property by property

A declaration is compiled in one go that collects what is rejected, and validated in another that
stops at the first rejection.  Both walk over the same judgements: `Property.Judged` says what one
declared property is, and `Declaration.Accounts` how the judgements are dealt out to the two lists
that compiling yields.  Validating is read off those lists (`countValid_of_accounts`), and so is
what became of a property (`Accounts.judged_outcomeIn`), which no other property has a part in.
-/

namespace DeviceStats

open Json (Value Object Distinct)

variable {facts : Facts} {defaults : TagDefaults}

/-! ## One property -/

/-- What a declared property is for a device.  Its conditions are settled first and its descriptor
is read second; a disabled one need not name an endpoint. -/
inductive Property.Judged (facts : Facts) (defaults : TagDefaults) (name : String)
    (declared : Value) : Declaration.Verdict → Prop
  | unsettled {e : ConditionError} (h : Conditional.render facts declared = .error e) :
      Judged facts defaults name declared (.error (.condition e))
  | unreadable {rendered : Value} {e : StepError}
      (hrender : Conditional.render facts declared = .ok rendered)
      (h : Descriptor.decode rendered = .error e) :
      Judged facts defaults name declared (.error (.descriptor name e))
  | disabled {rendered : Value} {descriptor : Descriptor}
      (hrender : Conditional.render facts declared = .ok rendered)
      (hdecode : Descriptor.decode rendered = .ok descriptor) (h : descriptor.disabled = true) :
      Judged facts defaults name declared (.ok none)
  | noEndpoint {rendered : Value} {descriptor : Descriptor}
      (hrender : Conditional.render facts declared = .ok rendered)
      (hdecode : Descriptor.decode rendered = .ok descriptor)
      (henabled : descriptor.disabled = false) (h : descriptor.endpoint.isEmpty = true) :
      Judged facts defaults name declared (.error (.noEndpoint name))
  | compiled {rendered : Value} {descriptor : Descriptor}
      (hrender : Conditional.render facts declared = .ok rendered)
      (hdecode : Descriptor.decode rendered = .ok descriptor)
      (henabled : descriptor.disabled = false) (h : descriptor.endpoint.isEmpty = false) :
      Judged facts defaults name declared (.ok (some ⟨name, descriptor, defaults⟩))

namespace Property

variable {name : String} {declared : Value} {v w : Declaration.Verdict}

/-- A property is judged in one way only, the way it is compiled. -/
theorem judged_iff : Judged facts defaults name declared v ↔
    compile? facts defaults name declared = v := by
  constructor
  · intro h
    cases h with
    | unsettled h => simp [compile?, h, Except.mapError, bind, Except.bind]
    | unreadable hrender h => simp [compile?, hrender, h, Except.mapError, bind, Except.bind]
    | disabled hrender hdecode h =>
      simp [compile?, hrender, hdecode, h, Except.mapError, bind, Except.bind, pure, Except.pure]
    | noEndpoint hrender hdecode henabled h | compiled hrender hdecode henabled h =>
      simp [compile?, hrender, hdecode, henabled, h, Except.mapError, bind, Except.bind, pure,
        Except.pure]
  · rintro rfl
    cases hrender : Conditional.render facts declared with
    | error e =>
      simpa [compile?, hrender, Except.mapError, bind, Except.bind] using .unsettled hrender
    | ok rendered =>
      cases hdecode : Descriptor.decode rendered with
      | error e =>
        simpa [compile?, hrender, hdecode, Except.mapError, bind, Except.bind] using
          .unreadable hrender hdecode
      | ok descriptor =>
        simp only [compile?, hrender, hdecode, Except.mapError, bind, Except.bind]
        split
        · next h => exact .disabled hrender hdecode h
        · next henabled =>
          have henabled := Bool.eq_false_iff.mpr henabled
          split
          · next h => exact .noEndpoint hrender hdecode henabled h
          · next h => exact .compiled hrender hdecode henabled (Bool.eq_false_iff.mpr h)

theorem Judged.unique (hv : Judged facts defaults name declared v)
    (hw : Judged facts defaults name declared w) : v = w :=
  (judged_iff.mp hv).symm.trans (judged_iff.mp hw)

theorem Judged.name_eq {p : Property} (h : Judged facts defaults name declared (.ok (some p))) :
    p.name = name := by
  cases h
  rfl

end Property

namespace Declaration

open Property (Judged)

/-! ## All of them -/

/-- How declared properties are dealt out: each is compiled, disabled or rejected, one after the
other. -/
inductive Accounts (facts : Facts) (defaults : TagDefaults) :
    Object → List Property → List (String × PropertyError) → Prop
  | nil : Accounts facts defaults [] [] []
  | compiled {name : String} {declared : Value} {p : Property} {stats : Object}
      {ps : List Property} {es : List (String × PropertyError)}
      (h : Judged facts defaults name declared (.ok (some p)))
      (rest : Accounts facts defaults stats ps es) :
      Accounts facts defaults ((name, declared) :: stats) (p :: ps) es
  | disabled {name : String} {declared : Value} {stats : Object}
      {ps : List Property} {es : List (String × PropertyError)}
      (h : Judged facts defaults name declared (.ok none))
      (rest : Accounts facts defaults stats ps es) :
      Accounts facts defaults ((name, declared) :: stats) ps es
  | rejected {name : String} {declared : Value} {e : PropertyError} {stats : Object}
      {ps : List Property} {es : List (String × PropertyError)}
      (h : Judged facts defaults name declared (.error e))
      (rest : Accounts facts defaults stats ps es) :
      Accounts facts defaults ((name, declared) :: stats) ps ((name, e) :: es)

/-- **Compiling accounts for every declared property**, in the order of declaration. -/
theorem accounts (d : Declaration) (facts : Facts) :
    Accounts facts d.defaults d.stats (d.properties facts) (d.rejections facts) := by
  unfold properties rejections verdicts
  induction d.stats with
  | nil => exact .nil
  | cons kv stats ih =>
    obtain ⟨name, declared⟩ := kv
    simp only [List.map_cons, List.filterMap_cons]
    rcases hv : Property.compile? facts d.defaults name declared with e | - | p
    · exact .rejected (Property.judged_iff.mpr hv) ih
    · exact .disabled (Property.judged_iff.mpr hv) ih
    · exact .compiled (Property.judged_iff.mpr hv) ih

/-- The first rejection; without any, how many properties were compiled. -/
def firstOrCount (ps : List Property) : List (String × PropertyError) → Except PropertyError Nat
  | [] => .ok ps.length
  | (_, e) :: _ => .error e

/-- Validating comes to what the two lists hold. -/
theorem countValid_of_accounts {stats : Object} {ps : List Property}
    {es : List (String × PropertyError)} (h : Accounts facts defaults stats ps es) :
    countValid facts defaults stats = firstOrCount ps es := by
  induction h with
  | nil => rfl
  | @compiled _ _ _ _ _ es h _ ih =>
    rw [countValid, Property.judged_iff.mp h, ih]
    cases es <;> rfl
  | @disabled _ _ _ _ es h _ ih =>
    rw [countValid, Property.judged_iff.mp h, ih]
    cases es <;> rfl
  | rejected h =>
    rw [countValid, Property.judged_iff.mp h]
    rfl

/-! ## What became of one of them -/

/-- What compiled properties and rejections say of a name. -/
def outcomeIn (ps : List Property) (es : List (String × PropertyError)) (name : String) : Verdict :=
  match Named.get? es name with
  | some e => .error e
  | none => .ok (ps.find? (·.name == name))

/-- What compiling a declaration says of a name. -/
def outcome (d : Declaration) (facts : Facts) (name : String) : Verdict :=
  outcomeIn (d.properties facts) (d.rejections facts) name

section Outcome

variable {stats : Object} {ps : List Property} {es : List (String × PropertyError)}
  {name : String}

/-- A rejection has the last word on its name. -/
theorem outcomeIn_rejected (k : String) (e : PropertyError) :
    outcomeIn ps ((k, e) :: es) name = if k = name then .error e else outcomeIn ps es name := by
  unfold outcomeIn
  rw [Named.get?_cons]
  by_cases h : k = name <;> simp [h]

theorem outcomeIn_compiled_of_ne {p : Property} (h : p.name ≠ name) :
    outcomeIn (p :: ps) es name = outcomeIn ps es name := by
  rw [outcomeIn, outcomeIn, List.find?_cons_of_neg (by simpa using h)]

theorem outcomeIn_compiled {p : Property} (h : outcomeIn ps es p.name = .ok none) :
    outcomeIn (p :: ps) es p.name = .ok (some p) := by
  cases he : Named.get? es p.name with
  | some e => simp [outcomeIn, he] at h
  | none => simp [outcomeIn, he]

/-- Nothing is said of a name that is not declared. -/
theorem Accounts.outcomeIn_of_not_mem (h : Accounts facts defaults stats ps es)
    (hname : name ∉ Named.keys stats) : outcomeIn ps es name = .ok none := by
  induction h with
  | nil => rfl
  | compiled h rest ih =>
    obtain ⟨hne, hname⟩ := not_or.mp (mt List.mem_cons.mpr hname)
    rw [outcomeIn_compiled_of_ne (h.name_eq ▸ Ne.symm hne), ih hname]
  | disabled h rest ih => exact ih (mt (List.mem_cons_of_mem _) hname)
  | rejected h rest ih =>
    obtain ⟨hne, hname⟩ := not_or.mp (mt List.mem_cons.mpr hname)
    rw [outcomeIn_rejected, if_neg (Ne.symm hne), ih hname]

/-- **What is said of a declared name is how its property is judged.** -/
theorem Accounts.judged_outcomeIn (h : Accounts facts defaults stats ps es) (hn : Distinct stats)
    {declared : Value} (hname : (name, declared) ∈ stats) :
    Judged facts defaults name declared (outcomeIn ps es name) := by
  induction h with
  | nil => cases hname
  | @compiled k _ p stats ps es h rest ih =>
    obtain ⟨hk, hn⟩ := List.nodup_cons.mp hn
    rcases List.mem_cons.mp hname with heq | hname
    · cases heq
      obtain rfl := h.name_eq
      rwa [outcomeIn_compiled (rest.outcomeIn_of_not_mem hk)]
    · have hne : k ≠ name := fun heq => hk (heq ▸ List.mem_map.mpr ⟨_, hname, rfl⟩)
      rw [outcomeIn_compiled_of_ne (h.name_eq ▸ hne)]
      exact ih hn hname
  | @disabled k _ stats ps es h rest ih =>
    obtain ⟨hk, hn⟩ := List.nodup_cons.mp hn
    rcases List.mem_cons.mp hname with heq | hname
    · cases heq
      rwa [rest.outcomeIn_of_not_mem hk]
    · exact ih hn hname
  | @rejected k _ e stats ps es h rest ih =>
    obtain ⟨hk, hn⟩ := List.nodup_cons.mp hn
    rw [outcomeIn_rejected]
    rcases List.mem_cons.mp hname with heq | hname
    · cases heq
      rwa [if_pos rfl]
    · have hne : k ≠ name := fun heq => hk (heq ▸ List.mem_map.mpr ⟨_, hname, rfl⟩)
      rw [if_neg hne]
      exact ih hn hname

end Outcome

/-! ## Validating and compiling -/

/-- **Validating and compiling agree**, whatever is declared and whatever a device is like.
Validating succeeds exactly if nothing is rejected, with the number of compiled properties, and
fails exactly with the first rejection.  Every declared property is dealt out once, in order, to the
compiled ones, the disabled ones or the rejections.  What became of it is read off by its name: it
is how the property is judged, and the same in every other declaration with the same tags and
definitions, whatever else that declares. -/
theorem validate_agrees (d : Declaration) (facts : Facts) :
    (∀ n, d.validate facts = .ok n ↔
      d.rejections facts = [] ∧ n = (d.properties facts).length) ∧
    (∀ e, d.validate facts = .error e ↔
      ∃ name rest, d.rejections facts = (name, e) :: rest) ∧
    Accounts facts d.defaults d.stats (d.properties facts) (d.rejections facts) ∧
    (Distinct d.stats → ∀ name declared, (name, declared) ∈ d.stats →
      Judged facts d.defaults name declared (d.outcome facts name) ∧
      ∀ d' : Declaration, Distinct d'.stats → d'.globalTags = d.globalTags →
        d'.definitions = d.definitions → (name, declared) ∈ d'.stats →
        d'.outcome facts name = d.outcome facts name) := by
  have hvalidate : d.validate facts = _ := countValid_of_accounts (d.accounts facts)
  refine ⟨fun n => ?_, fun e => ?_, d.accounts facts, fun hn name declared hmem => ?_⟩
  · rw [hvalidate]
    cases d.rejections facts <;> simp [firstOrCount, eq_comm]
  · rw [hvalidate]
    cases d.rejections facts <;> simp [firstOrCount, Prod.ext_iff]
  · have hjudged := (d.accounts facts).judged_outcomeIn hn hmem
    refine ⟨hjudged, fun d' hn' htags hdefinitions hmem' => ?_⟩
    have hdefaults : d'.defaults = d.defaults := by rw [defaults, defaults, htags, hdefinitions]
    have hjudged' := (d'.accounts facts).judged_outcomeIn hn' hmem'
    exact (hdefaults ▸ hjudged').unique hjudged

/-- A compiled property, one with an unknown condition, a disabled one and one without an endpoint;
two of them, judged alike, among others in another order. -/
theorem validate_agrees_four_stats :
    let unknown : Value := .obj [("key", .str "x"), ("if", .obj [("nope", .bool true)]),
      ("then", .obj [])]
    let disabled : Value := .obj [("key", .str ""), ("disabled", .bool true)]
    let d : Declaration := { stats := [("a", .obj [("key", .str "sys")]), ("b", unknown),
      ("c", disabled), ("d", .obj [("key", .str "::x")])] }
    let d' : Declaration := { stats := [("c", disabled), ("z", .obj []), ("b", unknown)] }
    (∃ e rest, d.validate ⟨[]⟩ = .error e ∧ d.rejections ⟨[]⟩ = ("b", e) :: rest) ∧
      d'.outcome ⟨[]⟩ "b" = d.outcome ⟨[]⟩ "b" ∧ d'.outcome ⟨[]⟩ "c" = d.outcome ⟨[]⟩ "c" := by
  intro unknown disabled d d'
  obtain ⟨-, herror, -, hothers⟩ := validate_agrees d ⟨[]⟩
  have hnames : (d.rejections ⟨[]⟩).map (·.1) = ["b", "d"] := by decide +kernel
  obtain ⟨⟨_, e⟩, rest, hrejections, rfl, -⟩ := List.map_eq_cons_iff.mp hnames
  exact ⟨⟨e, rest, (herror e).mpr ⟨"b", rest, hrejections⟩, hrejections⟩,
    (hothers (by decide) "b" unknown (by simp [d])).2 d' (by decide) rfl rfl (by simp [d']),
    (hothers (by decide) "c" disabled (by simp [d])).2 d' (by decide) rfl rfl (by simp [d'])⟩

end Declaration

end DeviceStats
