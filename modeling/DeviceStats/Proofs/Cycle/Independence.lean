import DeviceStats.Proofs.Cycle.Liveness
import DeviceStats.Proofs.Cycle.Unstopped

/-!
# Proofs/Cycle/Independence — the order of events does not matter

A device reacts to a request in one way, or not in time.  A course is a run in which no stop is
requested and every request that was sent is answered accordingly.  At its end every selected
property has come to what the one answer to its request makes of it (`Course.results_eq`), so
neither the number of workers nor the order of events shows in the report.  Every course can be
followed to its end (`Course.exists_done`).
-/

namespace DeviceStats

open Json (Value)

/-- What comes of a request: what the device makes of it, or that there was no answer in time. -/
def Request.given (react : Request → Option Answer) (r : Request) : Answer :=
  (react r).getD (.error (.timeout r.endpoint))

/-- No two requests of some properties have one key. -/
def Request.Apart (ps : List Property) : Prop :=
  ∀ p ∈ ps, ∀ q ∈ ps, (ofProperty p).key = (ofProperty q).key → ofProperty p = ofProperty q

namespace Cycle

/-- Whether an event fits where no stop is requested and a device reacts in a given way. -/
def Event.Fits (react : Request → Option Answer) (c : Cycle) : Event → Prop
  | .requestStop => False
  | .answer key a => ∀ r task, Named.get? c.cells key = some (.loading r task) → a = r.given react
  | _ => True

/-- Events that lead to a cycle where no stop is requested and a device reacts in a given way. -/
inductive Course (react : Request → Option Answer) (c₀ : Cycle) : List Event → Cycle → Prop
  | start : Course react c₀ [] c₀
  | next {es : List Event} {e : Event} {c c' : Cycle} (h : Course react c₀ es c) (he : e.Fits react c)
      (hs : c.step? e = some c') : Course react c₀ (es ++ [e]) c'

variable {react : Request → Option Answer} {c₀ c : Cycle} {e : Event} {es : List Event}
  {selected : List Property} {workers limit : Nat}

/-- A course is a run. -/
theorem Course.run (h : Course react c₀ es c) : c₀.run? es = some c := by
  induction h with
  | start => rfl
  | @next es e c c' _ _ hs ih =>
    rw [run?_append, ih]
    simpa [run?] using hs

theorem Course.requestStop_not_mem (h : Course react c₀ es c) : .requestStop ∉ es := by
  induction h with
  | start => exact List.not_mem_nil
  | next _ he _ ih =>
    intro hmem
    rcases List.mem_append.mp hmem with hmem | hmem
    · exact ih hmem
    · rw [← List.mem_singleton.mp hmem] at he
      exact he

/-- A request that is out is that of a selected property. -/
theorem exists_property_of_loading
    (h : (new selected workers limit false).run? es = some c) {key : String} {r : Request}
    {task : Queue.TaskId} (hk : Named.get? c.cells key = some (.loading r task)) :
    ∃ q ∈ selected, Request.ofProperty q = r ∧ r.key = key := by
  obtain ⟨n, hr⟩ := exists_reached h
  obtain ⟨hkey, p, -, -, -, hp⟩ := (Shared.run h).loading key r task hk
  rw [request?, hr.selected] at hp
  obtain ⟨q, hq, hqr⟩ := Option.map_eq_some_iff.mp hp
  exact ⟨q, List.mem_of_getElem? hq, hqr, hkey⟩

/-- **Every answer in a course is what the device makes of the property's request.** -/
theorem Course.answer_eq (h : Course react (new selected workers limit false) es c)
    (hkeys : Request.Apart selected) {p : Property} (hp : p ∈ selected) {a : Answer}
    (ha : .answer (Request.ofProperty p).key a ∈ es) :
    a = (Request.ofProperty p).given react := by
  induction h with
  | start => cases ha
  | @next es e c c' h he hs ih =>
    rcases List.mem_append.mp ha with ha | ha
    · exact ih ha
    · obtain rfl := List.mem_singleton.mp ha
      cases step_of_step? hs with
      | answer hk =>
        obtain ⟨q, hq, hqr, hkey⟩ := exists_property_of_loading h.run hk
        rw [he _ _ hk, ← hqr, hkeys q hq p hp (hqr ▸ hkey)]
      | inQueue hqe => cases hqe

/-- A run is a course if all answers in it are what the device makes of the requests. -/
theorem Course.of_run (h : (new selected workers limit false).run? es = some c)
    (hes : .requestStop ∉ es)
    (ha : ∀ p ∈ selected, ∀ a, .answer (Request.ofProperty p).key a ∈ es →
      a = (Request.ofProperty p).given react) :
    Course react (new selected workers limit false) es c := by
  refine run?_induction (P := fun c es => .requestStop ∉ es →
    (∀ p ∈ selected, ∀ a, .answer (Request.ofProperty p).key a ∈ es →
      a = (Request.ofProperty p).given react) → Course react (new selected workers limit false) es c)
    h (fun _ _ => .start) ?_ hes ha
  intro m fs e c' hm hs ih hes ha
  have hm' := ih (fun hmem => hes (List.mem_append_left _ hmem))
    fun p hp a hmem => ha p hp a (List.mem_append_left _ hmem)
  refine hm'.next ?_ (step?_of_step hs)
  have hlast : e ∈ fs ++ [e] := List.mem_append_right _ List.mem_cons_self
  cases e with
  | requestStop => exact hes hlast
  | answer key a =>
    intro r task hk
    obtain ⟨q, hq, rfl, rfl⟩ := exists_property_of_loading hm hk
    exact ha q hq a hlast
  | _ => trivial

/-! ## The end of a course -/

/-- What a property comes to. -/
def outcomeBy (react : Request → Option Answer) (p : Property) : Outcome :=
  outcomeOf p (((Request.ofProperty p).given react).map withItems)

/-- **At the end of a course every selected property has come to what the device makes of its
request.** -/
theorem Course.results_eq (h : Course react (new selected workers limit false) es c)
    (hkeys : Request.Apart selected) (hroom : selected.length ≤ limit) (hd : c.phase = .done) :
    c.results = selected.map fun p => (p, some (outcomeBy react p), .discarded) := by
  obtain ⟨n, hr⟩ := exists_reached h.run
  have hu : Unstopped c := .run h.run h.requestStop_not_mem hroom
  have hselected : c.selected = selected := hr.selected
  have hunrun (i : Nat) : c.unrun i = .discarded := by rw [unrun, hu.unrefused]
  refine List.ext_getElem? fun i => ?_
  rw [results, List.getElem?_mapIdx, List.getElem?_map, hselected]
  cases hp : selected[i]? with
  | none => rfl
  | some p =>
    obtain ⟨hi, -⟩ := List.getElem?_eq_some_iff.mp hp
    obtain ⟨o, ho⟩ := hr.exists_outcome hu hd (hselected ▸ hi)
    obtain ⟨q, a, hq, ha, rfl⟩ := hr.exists_answer ho
    obtain rfl : p = q := Option.some.inj (hp.symm.trans (hselected ▸ hq))
    have hanswer := h.answer_eq hkeys (List.mem_of_getElem? hp) ha
    rw [Option.map_some, Option.map_some, ho, hunrun, hanswer, outcomeBy]

/-- An event that a cycle does of its own fits. -/
theorem Event.IsOwn.fits (he : e.IsOwn) : e.Fits react c := by
  cases e <;> trivial

/-- A course whose cycle is not done goes on, and comes closer to its end. -/
theorem Course.exists_next
    (h : Course react (new selected workers limit false) es c) (hd : c.phase ≠ .done) :
    ∃ e c', Course react (new selected workers limit false) (es ++ [e]) c' ∧ c'.cost < c.cost := by
  obtain ⟨n, hl⟩ := exists_live h.run
  have hgo {e : Event} {c' : Cycle} (he : e.Fits react c) (hs : Step c e c') :
      ∃ e c', Course react (new selected workers limit false) (es ++ [e]) c' ∧ c'.cost < c.cost := by
    refine ⟨e, c', h.next he (step?_of_step hs), hs.cost_lt ?_ hl.watched.length_le⟩
    rintro rfl
    exact he
  rcases hl.exists_step hd with ⟨e, c', he, hs⟩ | ⟨key, r, task, hk⟩
  · exact hgo he.fits hs
  · refine hgo (e := .answer key (r.given react)) (fun r' task' hk' => ?_) (.answer hk)
    cases hk.symm.trans hk'
    rfl

/-- **Every course can be followed to its end.** -/
theorem Course.exists_done (h : Course react (new selected workers limit false) es c) :
    ∃ fs c', Course react (new selected workers limit false) (es ++ fs) c' ∧ c'.phase = .done := by
  induction hcost : c.cost using Nat.strong_induction_on generalizing es c with
  | _ m ih =>
    by_cases hd : c.phase = .done
    · exact ⟨[], c, (List.append_nil es).symm ▸ h, hd⟩
    · obtain ⟨e, c', hc', hlt⟩ := h.exists_next hd
      obtain ⟨fs, c'', hc'', hd''⟩ := ih c'.cost (hcost ▸ hlt) hc' rfl
      rw [List.append_assoc] at hc''
      exact ⟨[e] ++ fs, c'', hc'', hd''⟩

end Cycle

namespace Collector

/-- The report on a cycle whose requests a device answers in a given way. -/
def reportBy (k : Collector) (react : Request → Option Answer) (d : Declaration) (facts : Facts) :
    Report :=
  let selected := (k.select d facts).1
  (Report.assemble (d.rejections facts)
    (selected.map fun p => (p, some (Cycle.outcomeBy react p), .discarded))).act d selected

/-- **The order of events does not matter.**  Let a device react to every request in one way, or not
in time, let the requests of the selected properties have keys of their own, and let the queue have
room for all of them.  However many workers there are and however the events of a cycle are
interleaved, as long as no stop is requested: at its end the cycle reports what the device makes of
the requests, the stats in their order and the failures in theirs.  And every such cycle can be
followed to its end. -/
theorem independence (k : Collector) (d : Declaration) (facts : Facts)
    (react : Request → Option Answer) (hroom : (k.select d facts).1.length ≤ k.tuning.maxQueue)
    (hkeys : Request.Apart (k.select d facts).1) (workers : Nat) {es : List Cycle.Event} {c : Cycle}
    (h : Cycle.Course react (.new (k.select d facts).1 workers k.tuning.maxQueue false) es c) :
    (c.phase = .done → (Report.assemble (d.rejections facts) c.results).act d (k.select d facts).1 =
      k.reportBy react d facts) ∧
    ∃ fs c', Cycle.Course react (.new (k.select d facts).1 workers k.tuning.maxQueue false)
      (es ++ fs) c' ∧ c'.phase = .done := by
  refine ⟨fun hd => ?_, h.exists_done⟩
  rw [h.results_eq hkeys hroom hd, reportBy]

/-- Two properties with one request and a third whose request is not answered in time, run by one
worker, and by three in another order. -/
theorem independence_three_stats :
    let d : Declaration := { stats := [
      ("a", .obj [("key", .str "x")]), ("b", .obj [("key", .str "x")]),
      ("c", .obj [("key", .str "y")])] }
    let k : Collector := {}
    let react : Request → Option Answer := fun r =>
      if r.endpoint = "x" then some (.ok (.bool true)) else none
    let report (c : Cycle) : Report :=
      (Report.assemble (d.rejections ⟨[]⟩) c.results).act d (k.select d ⟨[]⟩).1
    ∃ (es es' : List Cycle.Event) (c c' : Cycle),
      Cycle.Course react (.new (k.select d ⟨[]⟩).1 1 k.tuning.maxQueue false) es c ∧
      Cycle.Course react (.new (k.select d ⟨[]⟩).1 3 k.tuning.maxQueue false) es' c' ∧
      c.phase = .done ∧ c'.phase = .done ∧ report c = report c' := by
  intro d k react report
  let es : List Cycle.Event := [.push, .push, .push, .push, .pass, .begin 0, .ask 1,
    .answer "x" (.ok (.bool true)), .take 1, .finish 0, .turn 0, .begin 0, .ask 2, .take 2,
    .finish 0, .turn 0, .begin 0, .ask 3, .answer "y" (.error (.timeout "y")), .take 3, .finish 0,
    .turn 0, .notice, .look]
  let es' : List Cycle.Event := [.push, .push, .push, .push, .pass, .begin 2, .begin 1, .begin 0,
    .ask 3, .ask 2, .ask 1, .answer "y" (.error (.timeout "y")), .take 3, .finish 2, .turn 2,
    .answer "x" (.ok (.bool true)), .take 2, .take 1, .finish 1, .finish 0, .turn 0, .turn 1,
    .notice, .look]
  have hplain : ∀ p ∈ (k.select d ⟨[]⟩).1, p.descriptor.keyArgs?.isNone = true := by decide +kernel
  have hrequest {p : Property} (hp : p ∈ (k.select d ⟨[]⟩).1) :
      Request.ofProperty p = ⟨p.endpoint, none⟩ := by
    rw [Request.ofProperty, Option.isNone_iff_eq_none.mp (hplain p hp)]
  have hkeys : Request.Apart (k.select d ⟨[]⟩).1 := by
    intro p hp q hq hkey
    rw [hrequest hp, hrequest hq] at hkey ⊢
    rw [show p.endpoint = q.endpoint from hkey]
  have hroom : (k.select d ⟨[]⟩).1.length ≤ k.tuning.maxQueue := by decide +kernel
  have hcourse (workers : Nat) (fs : List Cycle.Event)
      (hrun : (((Cycle.new (k.select d ⟨[]⟩).1 workers k.tuning.maxQueue false).run? fs).map
        (·.phase)) = some .done)
      (hstop : .requestStop ∉ fs) (hanswers : ∀ key a, .answer key a ∈ fs →
        key = "x" ∧ a = .ok (.bool true) ∨ key = "y" ∧ a = .error (.timeout "y")) :
      ∃ c, Cycle.Course react (.new (k.select d ⟨[]⟩).1 workers k.tuning.maxQueue false) fs c ∧
        c.phase = .done := by
    obtain ⟨c, hc, hd⟩ := Option.map_eq_some_iff.mp hrun
    refine ⟨c, .of_run hc hstop fun p hp a ha => ?_, hd⟩
    rw [hrequest hp] at ha ⊢
    rcases hanswers _ _ ha with ⟨hkey, rfl⟩ | ⟨hkey, rfl⟩
    · obtain hkey : p.endpoint = "x" := hkey
      simp [Request.given, react, hkey]
    · obtain hkey : p.endpoint = "y" := hkey
      simp [Request.given, react, hkey]
  obtain ⟨c, hc, hd⟩ := hcourse 1 es (by decide +kernel) (by simp [es])
    fun key a ha => by simpa [es] using ha
  obtain ⟨c', hc', hd'⟩ := hcourse 3 es' (by decide +kernel) (by simp [es'])
    fun key a ha => by simpa [es', or_comm] using ha
  refine ⟨es, es', c, c', hc, hc', hd, hd', ?_⟩
  exact ((independence k d ⟨[]⟩ react hroom hkeys 1 hc).1 hd).trans
    ((independence k d ⟨[]⟩ react hroom hkeys 3 hc').1 hd').symm

end Collector

end DeviceStats
