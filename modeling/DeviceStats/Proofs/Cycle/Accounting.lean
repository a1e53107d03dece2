import DeviceStats.Collector
import DeviceStats.Proofs.Cycle.Outcomes

/-!
# Proofs/Cycle/Accounting — what becomes of every declared property

A property is rejected, disabled, pruned, or selected; a selected one whose handler was called has
come to what the one answer to its request makes of it, and one whose handler was never called was
not run.  `Ends` says so of the events of a cycle.  At the end of a cycle every declared property
has exactly one such fate, and the report says of each what its fate is and nothing else
(`accounting`).
-/

namespace DeviceStats

open Json (Value Object)

/-- What can become of a declared property. -/
inductive Fate
  | rejected (e : PropertyError)
  | disabled
  | pruned (p : Property)
  | succeeded (p : Property) (v : Value)
  | fetchError (p : Property) (e : LoadError)
  | transformError (p : Property) (e : TransformError)
  | notRun (p : Property) (reason : Unrun)

namespace Fate

/-- Why a property was rejected. -/
def rejection? : Fate → Option Cause
  | rejected e => some (.declaration e)
  | _ => none

/-- Why a selected property has no value. -/
def failure? : Fate → Option Cause
  | fetchError _ e => some (.fetch e)
  | transformError _ e => some (.transform e)
  | notRun _ reason => some (.scheduling reason)
  | _ => none

/-- What is put into the stats for a property. -/
def inserted? : Fate → Option (Property × Value)
  | succeeded p v => some (p, v)
  | fetchError p _ => if p.descriptor.custom then some (p, .obj []) else none
  | _ => none

end Fate

namespace Cycle

/-- The place among the selected properties of what is declared at a position. -/
def placeOf (names : NameSet) (vs : List (String × Declaration.Verdict)) (j : Nat) : Nat :=
  (((vs.take j).filterMap fun nv => Declaration.compiled? nv.2).filter
    fun p => names.contains p.name).length

/-- What becomes of the property declared at a position, after the events `es` have led to the cycle
`c`; `names` are the names of the selected properties. -/
inductive Ends (names : NameSet) (vs : List (String × Declaration.Verdict)) (c : Cycle)
    (es : List Event) (j : Nat) : Fate → Prop
  | rejected {name e} (h : vs[j]? = some (name, .error e)) : Ends names vs c es j (.rejected e)
  | disabled {name} (h : vs[j]? = some (name, .ok none)) : Ends names vs c es j .disabled
  | pruned {name p} (h : vs[j]? = some (name, .ok (some p)))
      (hn : names.contains p.name = false) : Ends names vs c es j (.pruned p)
  | succeeded {name p a v} (h : vs[j]? = some (name, .ok (some p)))
      (hn : names.contains p.name = true) (hr : c.Ran (placeOf names vs j))
      (ha : .answer (Request.ofProperty p).key (.ok a) ∈ es)
      (hv : p.pipeline.normalize (withItems a) = .ok v) :
      Ends names vs c es j (.succeeded p v)
  | fetchError {name p e} (h : vs[j]? = some (name, .ok (some p)))
      (hn : names.contains p.name = true) (hr : c.Ran (placeOf names vs j))
      (ha : .answer (Request.ofProperty p).key (.error e) ∈ es) :
      Ends names vs c es j (.fetchError p e)
  | transformError {name p a e} (h : vs[j]? = some (name, .ok (some p)))
      (hn : names.contains p.name = true) (hr : c.Ran (placeOf names vs j))
      (ha : .answer (Request.ofProperty p).key (.ok a) ∈ es)
      (hv : p.pipeline.normalize (withItems a) = .error e) :
      Ends names vs c es j (.transformError p e)
  | notRun {name p} (h : vs[j]? = some (name, .ok (some p)))
      (hn : names.contains p.name = true) (hr : ¬ c.Ran (placeOf names vs j)) :
      Ends names vs c es j (.notRun p (c.unrun (placeOf names vs j)))

/-! ## Fates from outcomes -/

/-- The fate of the selected property at a place. -/
def fateAt (c : Cycle) (place : Nat) (p : Property) : Fate :=
  match c.outcome? place with
  | some (.ok v) => .succeeded p v
  | some (.error (.fetch e)) => .fetchError p e
  | some (.error (.transform e)) => .transformError p e
  | _ => .notRun p (c.unrun place)

/-- The fate of what is declared, where the next selected property has a place. -/
def fateOf (names : NameSet) (c : Cycle) (place : Nat) : Declaration.Verdict → Fate
  | .error e => .rejected e
  | .ok none => .disabled
  | .ok (some p) => if names.contains p.name then c.fateAt place p else .pruned p

/-- The selected ones of what is declared. -/
def survivors (names : NameSet) (vs : List (String × Declaration.Verdict)) : List Property :=
  (vs.filterMap fun nv => Declaration.compiled? nv.2).filter fun p => names.contains p.name

section Survivors

variable {names : NameSet} {vs : List (String × Declaration.Verdict)}

theorem survivors_cons (nv : String × Declaration.Verdict) :
    survivors names (nv :: vs) = survivors names [nv] ++ survivors names vs := by
  simp only [survivors, ← List.filter_append, ← List.filterMap_append, List.singleton_append]

theorem survivors_singleton (names : NameSet) (name : String) (p : Property) :
    survivors names [(name, .ok (some p))] = if names.contains p.name then [p] else [] := by
  have hp : (([(name, .ok (some p))] : List (String × Declaration.Verdict)).filterMap
    fun nv => Declaration.compiled? nv.2) = [p] := rfl
  rw [survivors, hp, List.filter_singleton]
  cases names.contains p.name <;> rfl

theorem placeOf_cons (nv : String × Declaration.Verdict) (j : Nat) :
    placeOf names (nv :: vs) (j + 1) = (survivors names [nv]).length + placeOf names vs j := by
  have hcons : survivors names (nv :: vs.take j) = _ := survivors_cons nv
  have := congrArg List.length hcons
  rwa [List.length_append] at this

/-- A selected property is at its place. -/
theorem survivors_getElem?_placeOf {j : Nat} {name : String} {p : Property}
    (h : vs[j]? = some (name, .ok (some p))) (hn : names.contains p.name = true) :
    (survivors names vs)[placeOf names vs j]? = some p := by
  induction vs generalizing j with
  | nil => simp at h
  | cons nv vs ih =>
    rw [survivors_cons]
    cases j with
    | zero =>
      obtain rfl : nv = (name, .ok (some p)) := by simpa using h
      rw [survivors_singleton, if_pos hn]
      rfl
    | succ j =>
      rw [placeOf_cons, List.getElem?_append_right (Nat.le_add_right _ _),
        Nat.add_sub_cancel_left]
      exact ih (by simpa using h)

end Survivors

section End

variable {names : NameSet} {vs : List (String × Declaration.Verdict)} {c₀ c : Cycle}
  {es : List Event} {n : Nat}

/-- A selected property has the fate that its outcome gives it. -/
theorem Reached.ends_fateAt (h : Reached c₀ c es n) (hd : c.phase = .done)
    (hs : c₀.selected = survivors names vs) {j : Nat} {name : String} {p : Property}
    (hj : vs[j]? = some (name, .ok (some p))) (hn : names.contains p.name = true) :
    Ends names vs c es j (c.fateAt (placeOf names vs j) p) := by
  have hran := h.ran_iff_exists_outcome hd (i := placeOf names vs j)
  unfold fateAt
  cases ho : c.outcome? (placeOf names vs j) with
  | none =>
    refine .notRun hj hn fun hr => ?_
    obtain ⟨o, ho'⟩ := hran.mp hr
    rw [ho] at ho'
    cases ho'
  | some o =>
    have hr := hran.mpr ⟨o, ho⟩
    obtain ⟨q, a, hq, ha, rfl⟩ := h.exists_answer ho
    obtain rfl : p = q := Option.some.inj
      ((survivors_getElem?_placeOf hj hn).symm.trans (hs ▸ h.selected ▸ hq))
    cases a with
    | error e => exact .fetchError hj hn hr ha
    | ok a =>
      have hmap : Except.map withItems (.ok a : Answer) = .ok (withItems a) := rfl
      rw [hmap]
      unfold outcomeOf
      simp only
      cases hv : p.pipeline.normalize (withItems a) with
      | ok v => exact .succeeded hj hn hr ha hv
      | error e => exact .transformError hj hn hr ha hv

/-- Everything declared has a fate. -/
theorem Reached.ends_fateOf (h : Reached c₀ c es n) (hd : c.phase = .done)
    (hs : c₀.selected = survivors names vs) {j : Nat} {nv : String × Declaration.Verdict}
    (hj : vs[j]? = some nv) : Ends names vs c es j (fateOf names c (placeOf names vs j) nv.2) := by
  obtain ⟨name, v⟩ := nv
  match v with
  | .error e => exact .rejected hj
  | .ok none => exact .disabled hj
  | .ok (some p) =>
    unfold fateOf
    simp only
    split
    · rename_i hn
      exact h.ends_fateAt hd hs hj hn
    · rename_i hn
      exact .pruned hj (Bool.eq_false_iff.mpr hn)

/-- Who ran has the outcome that the answer to its request gives it. -/
theorem Reached.outcome?_of_answer (h : Reached c₀ c es n) (hd : c.phase = .done)
    (hs : c₀.selected = survivors names vs) {j : Nat} {name : String} {p : Property} {a : Answer}
    (hj : vs[j]? = some (name, .ok (some p))) (hn : names.contains p.name = true)
    (hr : c.Ran (placeOf names vs j)) (ha : .answer (Request.ofProperty p).key a ∈ es) :
    c.outcome? (placeOf names vs j) = some (outcomeOf p (a.map withItems)) := by
  obtain ⟨o, ho⟩ := (h.ran_iff_exists_outcome hd).mp hr
  obtain ⟨q, b, hq, hb, rfl⟩ := h.exists_answer ho
  obtain rfl : p = q := Option.some.inj
    ((survivors_getElem?_placeOf hj hn).symm.trans (hs ▸ h.selected ▸ hq))
  rw [ho, h.answer_eq ha hb]

/-- What is declared has no other fate than that. -/
theorem Reached.eq_fateOf (h : Reached c₀ c es n) (hd : c.phase = .done)
    (hs : c₀.selected = survivors names vs) {j : Nat} {f : Fate}
    (hf : Ends names vs c es j f) :
    ∃ nv, vs[j]? = some nv ∧ f = fateOf names c (placeOf names vs j) nv.2 := by
  have hselected {p : Property} (hn : names.contains p.name = true) :
      fateOf names c (placeOf names vs j) (.ok (some p)) = c.fateAt (placeOf names vs j) p :=
    if_pos hn
  cases hf with
  | rejected hj => exact ⟨_, hj, rfl⟩
  | disabled hj => exact ⟨_, hj, rfl⟩
  | pruned hj hn => exact ⟨_, hj, by rw [fateOf, hn]; rfl⟩
  | @succeeded name p a v hj hn hr ha hv =>
    have ho := h.outcome?_of_answer hd hs hj hn hr ha
    have hout : outcomeOf p (Except.map withItems (.ok a)) = .ok v :=
      congrArg (Except.mapError Cause.transform) hv
    rw [hout] at ho
    exact ⟨_, hj, by rw [hselected hn, fateAt, ho]⟩
  | fetchError hj hn hr ha =>
    have ho := h.outcome?_of_answer hd hs hj hn hr ha
    exact ⟨_, hj, by rw [hselected hn, fateAt, ho]; rfl⟩
  | @transformError name p a e hj hn hr ha hv =>
    have ho := h.outcome?_of_answer hd hs hj hn hr ha
    have hout : outcomeOf p (Except.map withItems (.ok a)) = .error (.transform e) :=
      congrArg (Except.mapError Cause.transform) hv
    rw [hout] at ho
    exact ⟨_, hj, by rw [hselected hn, fateAt, ho]⟩
  | notRun hj hn hr =>
    have ho : c.outcome? (placeOf names vs j) = none :=
      Option.eq_none_iff_forall_ne_some.mpr fun o ho =>
        hr ((h.ran_iff_exists_outcome hd).mpr ⟨o, ho⟩)
    exact ⟨_, hj, by rw [hselected hn, fateAt, ho]⟩

/-- **Whatever is declared has exactly one fate.** -/
theorem Reached.existsUnique_fate (h : Reached c₀ c es n) (hd : c.phase = .done)
    (hs : c₀.selected = survivors names vs) {j : Nat} (hj : j < vs.length) :
    ∃! f, Ends names vs c es j f := by
  have hnv := List.getElem?_eq_getElem hj
  refine ⟨_, h.ends_fateOf hd hs hnv, fun f hf => ?_⟩
  obtain ⟨nv, hnv', rfl⟩ := h.eq_fateOf hd hs hf
  rw [Option.some.inj (hnv.symm.trans hnv')]

end End

/-! ## The report of the fates -/

/-- The fates of what is declared, where the next selected property has a place. -/
def fatesFrom (names : NameSet) (c : Cycle) (place : Nat) :
    List (String × Declaration.Verdict) → List Fate
  | [] => []
  | nv :: vs =>
    fateOf names c place nv.2 ::
      fatesFrom names c (place + (survivors names [nv]).length) vs

end Cycle

/-- The failures of named properties for some of the causes that their fates have. -/
def Fate.failures (cause? : Fate → Option Cause) (names : List String) (fates : List Fate) :
    List Failure :=
  (names.zip fates).filterMap fun (name, f) => (cause? f).map (⟨name, ·⟩)

namespace Cycle

section Fates

variable {names : NameSet} {vs : List (String × Declaration.Verdict)} {c₀ c : Cycle}
  {es : List Event} {n : Nat}

theorem length_fatesFrom (place : Nat) : (fatesFrom names c place vs).length = vs.length := by
  induction vs generalizing place with
  | nil => rfl
  | cons nv vs ih => rw [fatesFrom, List.length_cons, List.length_cons, ih]

theorem fatesFrom_getElem? (place j : Nat) : (fatesFrom names c place vs)[j]? =
    vs[j]?.map fun nv => fateOf names c (place + placeOf names vs j) nv.2 := by
  induction vs generalizing place j with
  | nil => rfl
  | cons nv vs ih =>
    cases j with
    | zero => rfl
    | succ j =>
      rw [fatesFrom, List.getElem?_cons_succ, List.getElem?_cons_succ, ih, placeOf_cons,
        Nat.add_assoc]

/-- Everything declared has the fate that is listed for it. -/
theorem Reached.ends_of_getElem? (h : Reached c₀ c es n) (hd : c.phase = .done)
    (hs : c₀.selected = survivors names vs) {j : Nat} {f : Fate}
    (hj : (fatesFrom names c 0 vs)[j]? = some f) : Ends names vs c es j f := by
  rw [fatesFrom_getElem?, Nat.zero_add] at hj
  obtain ⟨nv, hnv, rfl⟩ := Option.map_eq_some_iff.mp hj
  exact h.ends_fateOf hd hs hnv

/-- The report with what a fate adds to it. -/
def reportFate (r : Report) (name : String) (f : Fate) : Report where
  stats :=
    match f.inserted? with
    | some (p, v) => Report.place r.stats p v
    | none => r.stats
  failures := r.failures ++ (f.failure?.map (⟨name, ·⟩)).toList

/-- A report adds a selected property as its fate says. -/
theorem Reached.add_eq (h : Reached c₀ c es n) (r : Report) (i : Nat) (p : Property) :
    r.add p (c.outcome? i) (c.unrun i) = reportFate r p.name (c.fateAt i p) := by
  unfold fateAt
  cases ho : c.outcome? i with
  | none => rfl
  | some o =>
    obtain ⟨q, a, -, -, rfl⟩ := h.exists_answer ho
    cases a with
    | error e =>
      have hout : outcomeOf q (Except.map withItems (.error e)) = .error (.fetch e) := rfl
      cases hc : p.descriptor.custom <;>
        simp [hout, Report.add, reportFate, Report.value?, Cause.isFetch, Fate.inserted?,
          Fate.failure?, hc]
    | ok a =>
      have hout : outcomeOf q (Except.map withItems (.ok a)) =
        (q.pipeline.normalize (withItems a)).mapError .transform := rfl
      rw [hout]
      cases q.pipeline.normalize (withItems a) with
      | ok v => simp [Except.mapError, Report.add, reportFate, Report.value?, Fate.inserted?,
          Fate.failure?]
      | error e => simp [Except.mapError, Report.add, reportFate, Report.value?, Cause.isFetch,
          Fate.inserted?, Fate.failure?]

/-- What the selected properties came to, where the first of them has a place. -/
def resultsFrom (c : Cycle) (place : Nat) (ps : List Property) :
    List (Property × Option Outcome × Unrun) :=
  ps.mapIdx fun i p => (p, c.outcome? (place + i), c.unrun (place + i))

theorem resultsFrom_append (place : Nat) (ps qs : List Property) :
    c.resultsFrom place (ps ++ qs) =
      c.resultsFrom place ps ++ c.resultsFrom (place + ps.length) qs := by
  simp only [resultsFrom, List.mapIdx_append, Nat.add_assoc, Nat.add_comm ps.length]

/-- A report adds what is declared as its fate says, and nothing for what is not selected. -/
theorem Reached.foldl_add_singleton (h : Reached c₀ c es n) (place : Nat) (r : Report)
    {nv : String × Declaration.Verdict} (hv : ∀ p, nv.2 = .ok (some p) → p.name = nv.1) :
    (c.resultsFrom place (survivors names [nv])).foldl (fun r (p, o, u) => r.add p o u) r =
      reportFate r nv.1 (fateOf names c place nv.2) := by
  obtain ⟨name, v⟩ := nv
  match v with
  | .error e | .ok none => simp [survivors, Declaration.compiled?, resultsFrom, reportFate, fateOf,
      Fate.inserted?, Fate.failure?]
  | .ok (some p) =>
    obtain rfl : p.name = name := hv p rfl
    cases hn : names.contains p.name with
    | true =>
      rw [survivors_singleton, if_pos hn, fateOf, if_pos hn]
      exact h.add_eq r place p
    | false =>
      rw [survivors_singleton, fateOf, hn]
      simp [resultsFrom, reportFate, Fate.inserted?, Fate.failure?]

/-- Adding up the selected ones of what is declared adds up the fates. -/
theorem Reached.foldl_add (h : Reached c₀ c es n) (place : Nat) (r : Report)
    (hv : ∀ nv ∈ vs, ∀ p, nv.2 = .ok (some p) → p.name = nv.1) :
    (c.resultsFrom place (survivors names vs)).foldl (fun r (p, o, u) => r.add p o u) r =
      { stats := ((fatesFrom names c place vs).filterMap Fate.inserted?).foldl
          (fun stats (p, v) => Report.place stats p v) r.stats
        failures := r.failures ++
          Fate.failures Fate.failure? (vs.map (·.1)) (fatesFrom names c place vs) } := by
  induction vs generalizing place r with
  | nil => simp [survivors, resultsFrom, fatesFrom, Fate.failures]
  | cons nv vs ih =>
    obtain ⟨hnv, hvs⟩ := List.forall_mem_cons.mp hv
    rw [survivors_cons, resultsFrom_append, List.foldl_append, ih _ _ hvs,
      h.foldl_add_singleton place r hnv, fatesFrom]
    cases hi : (fateOf names c place nv.2).inserted? <;>
      cases hf : (fateOf names c place nv.2).failure? <;>
      simp [reportFate, hi, hf, Fate.failures]

/-- The rejections are the fates that say so. -/
theorem rejections_eq (place : Nat) :
    (vs.filterMap Declaration.rejected?).map (fun (name, e) => Failure.mk name (.declaration e)) =
      Fate.failures Fate.rejection? (vs.map (·.1)) (fatesFrom names c place vs) := by
  induction vs generalizing place with
  | nil => rfl
  | cons nv vs ih =>
    obtain ⟨name, v⟩ := nv
    have ih := ih (place + (survivors names [(name, v)]).length)
    have hselected (p : Property) : (fateOf names c place (.ok (some p))).rejection? = none := by
      unfold fateOf fateAt
      simp only
      split
      · split <;> rfl
      · rfl
    match v with
    | .error e => exact congrArg (Failure.mk name (.declaration e) :: ·) ih
    | .ok none => exact ih
    | .ok (some p) =>
      rw [fatesFrom, List.map_cons, Fate.failures, List.zip_cons_cons, List.filterMap_cons_none,
        List.filterMap_cons_none]
      · exact ih
      · exact congrArg (Option.map _) (hselected p)
      · rfl

/-- **The report says what the fates say.** -/
theorem Reached.assemble_eq (h : Reached c₀ c es n) (hs : c₀.selected = survivors names vs)
    (hv : ∀ nv ∈ vs, ∀ p, nv.2 = .ok (some p) → p.name = nv.1) :
    Report.assemble (vs.filterMap Declaration.rejected?) c.results =
      { stats := ((fatesFrom names c 0 vs).filterMap Fate.inserted?).foldl
          (fun stats (p, v) => Report.place stats p v) []
        failures :=
          Fate.failures Fate.rejection? (vs.map (·.1)) (fatesFrom names c 0 vs) ++
            Fate.failures Fate.failure? (vs.map (·.1)) (fatesFrom names c 0 vs) } := by
  have hresults : c.results = c.resultsFrom 0 (survivors names vs) := by
    simp only [results, resultsFrom, Nat.zero_add, h.selected, hs]
  rw [Report.assemble, hresults, h.foldl_add 0 _ hv, rejections_eq 0]

end Fates

/-! ## No property is reported twice -/

/-- Of two ways to pick that never pick from the same, together each picks once. -/
theorem filterMap_append_perm {β γ : Type} {f g : β → Option γ}
    (h : ∀ b, f b = none ∨ g b = none) (l : List β) :
    (l.filterMap f ++ l.filterMap g).Perm (l.filterMap fun b => f b <|> g b) := by
  induction l with
  | nil => exact .refl _
  | cons b l ih =>
    cases hf : f b with
    | none => cases hg : g b with
      | none => simpa [hf, hg] using ih
      | some x => simpa [hf, hg] using List.perm_middle.trans (ih.cons x)
    | some x =>
      have hg : g b = none := (h b).resolve_left (by simp [hf])
      simpa [hf, hg] using ih.cons x

/-- Whatever is reported is reported once. -/
theorem nodup_failures {names : List String} {fates : List Fate} (hn : names.Nodup)
    (hlen : names.length ≤ fates.length) :
    ((Fate.failures Fate.rejection? names fates ++ Fate.failures Fate.failure? names fates).map
      (·.property)).Nodup := by
  have hone (f : Fate) : f.rejection? = none ∨ f.failure? = none := by
    cases f <;> first | exact .inl rfl | exact .inr rfl
  have hperm := filterMap_append_perm
    (f := fun nf : String × Fate => nf.2.rejection?.map (Failure.mk nf.1 ·))
    (g := fun nf => nf.2.failure?.map (Failure.mk nf.1 ·))
    (fun nf => (hone nf.2).imp (congrArg (Option.map _)) (congrArg (Option.map _)))
    (names.zip fates)
  refine (hperm.map (·.property)).nodup_iff.mpr (hn.sublist ?_)
  rw [List.map_filterMap]
  have hfst : (names.zip fates).filterMap (fun nf => some nf.1) = names := by
    rw [← Function.comp_def some, List.filterMap_eq_map]
    exact List.map_fst_zip hlen
  refine List.Sublist.trans (Queue.filterMap_sublist_filterMap (g := fun nf => some nf.1) ?_ _) ?_
  · intro nf name hname
    obtain ⟨failure, hf, rfl⟩ := Option.map_eq_some_iff.mp hname
    rcases hone nf.2 with h | h <;> rw [h] at hf <;> simp at hf <;>
      obtain ⟨cause, -, rfl⟩ := hf <;> rfl
  · rw [hfst]

end Cycle

/-! ## The end of a cycle -/

theorem Declaration.keys_verdicts (d : Declaration) (facts : Facts) :
    (d.verdicts facts).map (·.1) = Named.keys d.stats := by
  rw [verdicts, List.map_map]
  rfl

/-- A property that is compiled keeps its name. -/
theorem Declaration.name_of_verdict {d : Declaration} {facts : Facts} {nv : String × Verdict}
    (h : nv ∈ d.verdicts facts) {p : Property} (hp : nv.2 = .ok (some p)) : p.name = nv.1 := by
  obtain ⟨⟨name, declared⟩, -, rfl⟩ := List.mem_map.mp h
  obtain ⟨-, -, -, hname⟩ := Property.exists_of_compile? hp
  exact hname

theorem Report.failures_act (r : Report) (d : Declaration) (selected : List Property) :
    (r.act d selected).failures = r.failures := by
  unfold Report.act
  simp only
  split <;> rfl

namespace Collector

/-- What a collector reports is the report on a cycle that events lead to. -/
theorem exists_run_collect (k : Collector) (device : Device) (d : Declaration) (facts : Facts) :
    ∃ es c, (Cycle.new (k.select d facts).1 k.tuning.workers k.tuning.maxQueue
        k.stopRequested).run? es = some c ∧
      (k.collect device d facts).1.report =
        (Report.assemble (d.rejections facts) c.results).act d (k.select d facts).1 := by
  obtain ⟨es, hes⟩ := Cycle.Thread.exists_run_whole device k.tuning (k.select d facts).1
    k.stopRequested
  exact ⟨es, _, hes, rfl⟩

/-- **Every declared property is accounted for.**  However the events of a cycle are interleaved,
whatever a device answers, and whenever a stop is requested: at the end everything declared has
exactly one fate.  The failures are the rejections and then the causes of the selected properties
without a value, both in the order of declaration, and nothing is reported twice; the values put
into the stats are those of the fates.  What was never pushed is what follows a place. -/
theorem accounting (k : Collector) (d : Declaration) (facts : Facts) {es : List Cycle.Event}
    {c : Cycle}
    (h : (Cycle.new (k.select d facts).1 k.tuning.workers k.tuning.maxQueue
      k.stopRequested).run? es = some c) (hd : c.phase = .done) :
    let selected := (k.select d facts).1
    let names := (k.selections.select (d.properties facts) d.actions d.disabledFolders).1
    let report := Report.assemble (d.rejections facts) c.results
    (∀ j < d.stats.length, ∃! f, Cycle.Ends names (d.verdicts facts) c es j f) ∧
    (∃ fates : List Fate, fates.length = d.stats.length ∧
      (∀ j f, fates[j]? = some f → Cycle.Ends names (d.verdicts facts) c es j f) ∧
      (report.act d selected).failures =
        Fate.failures Fate.rejection? (Named.keys d.stats) fates ++
          Fate.failures Fate.failure? (Named.keys d.stats) fates ∧
      report.stats = (fates.filterMap Fate.inserted?).foldl
        (fun stats (p, v) => Report.place stats p v) []) ∧
    ((Named.keys d.stats).Nodup → (report.failures.map (·.property)).Nodup) ∧
    ∃ n ≤ selected.length,
      (Cycle.new selected k.tuning.workers k.tuning.maxQueue k.stopRequested).pushed es =
        List.range n ∧
      (∀ i < n, c.unrun i = .discarded) ∧
      (∀ i, n ≤ i → i < selected.length → c.refused? = some (n, c.unrun i)) := by
  intro selected names report
  obtain ⟨n, hr⟩ := Cycle.exists_reached h
  have hs : (Cycle.new selected k.tuning.workers k.tuning.maxQueue k.stopRequested).selected
      = Cycle.survivors names (d.verdicts facts) := rfl
  have hlen : (d.verdicts facts).length = d.stats.length := List.length_map _
  have hreport := hr.assemble_eq hs fun nv hnv p hp => Declaration.name_of_verdict hnv hp
  rw [d.keys_verdicts facts] at hreport
  have hfates : (Cycle.fatesFrom names c 0 (d.verdicts facts)).length = d.stats.length :=
    (Cycle.length_fatesFrom 0).trans hlen
  have hselected : c.selected = selected := hr.selected
  have hhalted := (hr.placed.of_done hd).1
  refine ⟨fun j hj => hr.existsUnique_fate hd hs (hlen ▸ hj),
    ⟨_, hfates, fun j f hj => hr.ends_of_getElem? hd hs hj, ?_, ?_⟩, fun hn => ?_,
    n, hselected ▸ hhalted.le, hr.pushed, fun i hi => hhalted.unrun_of_lt hi,
    fun i hi hlt => hhalted.refused?_of_le hi (hselected ▸ hlt)⟩
  · rw [Report.failures_act]
    exact congrArg Report.failures hreport
  · exact congrArg Report.stats hreport
  · have : report.failures = _ := congrArg Report.failures hreport
    rw [this]
    refine Cycle.nodup_failures hn (Nat.le_of_eq ?_)
    rw [hfates, Named.keys, List.length_map]

/-- A property with a value, one that a device does not know, a disabled one and one that the queue
has no room for. -/
theorem accounting_four_stats :
    let d : Declaration := { stats := [
      ("a", .obj [("key", .str "a")]), ("b", .obj [("key", .str "b")]),
      ("c", .obj [("key", .str "c"), ("disabled", .bool true)]),
      ("d", .obj [("key", .str "d")])] }
    let k : Collector := { tuning := { workers := 1, maxQueue := 2 } }
    ∃ (es : List Cycle.Event) (c : Cycle),
      (Cycle.new (k.select d ⟨[]⟩).1 1 2 false).run? es = some c ∧ c.phase = .done ∧
      ∀ j < 4, ∃! f, Cycle.Ends
        (k.selections.select (d.properties ⟨[]⟩) d.actions d.disabledFolders).1 (d.verdicts ⟨[]⟩)
        c es j f := by
  intro d k
  let es : List Cycle.Event := [.push, .push, .push, .pass, .begin 0, .ask 1,
    .answer "a" (.ok (.bool true)), .take 1, .finish 0, .turn 0, .begin 0, .ask 2,
    .answer "b" (.error (.notFound "b")), .take 2, .finish 0, .turn 0, .notice, .look]
  have hrun : ((Cycle.new (k.select d ⟨[]⟩).1 1 2 false).run? es).map (·.phase) = some .done := by
    decide +kernel
  obtain ⟨c, hc, hd⟩ := Option.map_eq_some_iff.mp hrun
  exact ⟨es, c, hc, hd, (accounting k d ⟨[]⟩ hc hd).1⟩

end Collector

end DeviceStats
