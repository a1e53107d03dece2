import DeviceStats.Proofs.Json.Names
import DeviceStats.Proofs.Outline.Pruning

/-!
# Proofs/Cycle/Assembly — where a collected value is found

Values are put into a report in the order of declaration, and what is put in later may meet what is
there: a group needs the name under which a property at the top stands.  Among the values put in,
only these two kinds ever meet (`Cycle.Ends.name_ne`), so a group keeps its entries while no property at
the top takes its name (`get?_fill`), and a property at the top has its value, with the entries that
came to it (`Collector.assembly`).
-/

namespace DeviceStats

open Json (Value Object)
open Layout
open Outline (entriesOf place_of_parent?_eq_some place_of_parent?_eq_none get?_place_of_ne)
open Match (Tree)

/-! ## Entries that come to a value -/

namespace Report

/-- A value with the entries of a group that come to it: an object takes them in, and anything else
gives way to them. -/
def joined (x? : Option Value) : Object → Option Value
  | [] => x?
  | entries@(_ :: _) => some (.obj (Named.extend ((x?.bind Value.obj?).getD []) entries))

theorem joined_append (x? : Option Value) (entries more : Object) :
    joined (joined x? entries) more = joined x? (entries ++ more) := by
  cases entries with
  | nil => rfl
  | cons e entries => cases more with
    | nil => rw [List.append_nil]; rfl
    | cons e' more =>
      refine congrArg (fun o => some (Value.obj o)) ?_
      exact (List.foldl_append ..).symm

/-- Some values put in their places, one after the other. -/
def fill (stats : Object) (pvs : List (Property × Value)) : Object :=
  pvs.foldl (fun stats (p, v) => place stats p v) stats

/-- What is put into the group of a name. -/
def entriesIn (g : String) (pvs : List (Property × Value)) : Object :=
  pvs.filterMap fun (p, v) => if p.parent? = some g then some (p.name, v) else none

theorem entriesIn_cons (g : String) (p : Property) (v : Value) (pvs : List (Property × Value)) :
    entriesIn g ((p, v) :: pvs) =
      (if p.parent? = some g then [(p.name, v)] else []) ++ entriesIn g pvs := by
  by_cases h : p.parent? = some g <;> simp [entriesIn, h]

theorem mem_entriesIn {g n : String} {w : Value} {pvs : List (Property × Value)} :
    (n, w) ∈ entriesIn g pvs ↔ ∃ p, (p, w) ∈ pvs ∧ p.parent? = some g ∧ p.name = n := by
  simp [entriesIn]

/-- **What stands under a name no property at the top takes** has the entries of its group. -/
theorem get?_fill {g : String} {pvs : List (Property × Value)}
    (h : ∀ q w, (q, w) ∈ pvs → q.parent? = none → q.name ≠ g) (stats : Object) :
    Named.get? (fill stats pvs) g = joined (Named.get? stats g) (entriesIn g pvs) := by
  induction pvs generalizing stats with
  | nil => rfl
  | cons pv pvs ih =>
    obtain ⟨p, v⟩ := pv
    refine (ih (fun q w hq => h q w (List.mem_cons_of_mem _ hq)) (place stats p v)).trans ?_
    rw [entriesIn_cons, ← joined_append]
    refine congrArg (joined · (entriesIn g pvs)) ?_
    by_cases hg : p.parent? = some g
    · rw [if_pos hg, place_of_parent?_eq_some hg, Named.get?_insert, if_pos rfl]
      unfold entriesOf joined
      rcases Named.get? stats g with - | (_ | _ | _ | _ | _ | _) <;> rfl
    · rw [if_neg hg]
      refine get?_place_of_ne (fun hhead => ?_) true stats v
      cases hpar : p.parent? with
      | none => exact h p v List.mem_cons_self hpar ((head_of_parent?_eq_none hpar).symm.trans hhead)
      | some g' => exact hg (hpar.trans (congrArg some
          ((head_of_parent?_eq_some hpar).symm.trans hhead)))

section Fill

variable {p : Property} {v : Value} {pvs : List (Property × Value)} {stats : Object}

/-- **A value in a group stays** while no property at the top takes the name of the group. -/
theorem at?_fill_of_parent?_eq_some {g : String} (hp : p.parent? = some g)
    (hnames : ∀ q w, (q, w) ∈ pvs → q.name ≠ p.name)
    (h : ∀ q w, (q, w) ∈ pvs → q.parent? = none → q.name ≠ g) :
    Tree.at? (Value.obj (fill (place stats p v) pvs)) p.path = some v := by
  rw [at?_of_parent?_eq_some _ hp]
  have hthere : Named.get? (place stats p v) g =
      some (.obj (Named.insert (entriesOf stats g) p.name v)) := by
    rw [place_of_parent?_eq_some hp, Named.get?_insert, if_pos rfl]
  have hname : Named.get? (Named.insert (entriesOf stats g) p.name v) p.name = some v := by
    rw [Named.get?_insert, if_pos rfl]
  change (Named.get? (fill (place stats p v) pvs) g).bind _ = some v
  rw [get?_fill h, hthere]
  cases hentries : entriesIn g pvs with
  | nil => exact hname
  | cons e entries =>
    refine (Named.get?_extend_of_not_mem (fun hmem => ?_) _).trans hname
    rw [← hentries] at hmem
    obtain ⟨⟨n, w⟩, he, rfl⟩ := List.mem_map.mp hmem
    obtain ⟨q, hq, -, hname⟩ := mem_entriesIn.mp he
    exact hnames q w hq hname

/-- **A value at the top has the entries that come to it.** -/
theorem at?_fill_of_parent?_eq_none (hp : p.parent? = none)
    (hnames : ∀ q w, (q, w) ∈ pvs → q.name ≠ p.name) :
    Tree.at? (Value.obj (fill (place stats p v) pvs)) p.path =
      joined (some v) (entriesIn p.name pvs) := by
  rw [at?_of_parent?_eq_none _ hp]
  change Named.get? (fill (place stats p v) pvs) p.name = _
  rw [get?_fill fun q w hq _ => hnames q w hq, place_of_parent?_eq_none hp, Named.get?_insert,
    if_pos rfl]

end Fill

/-- What is put in before one of the values, and what after it. -/
theorem fill_of_getElem? {fates : List Fate} {j : Nat} {p : Property} {v : Value}
    (h : fates[j]? = some (.succeeded p v)) (stats : Object) :
    fill stats (fates.filterMap Fate.inserted?) =
      fill (place (fill stats ((fates.take j).filterMap Fate.inserted?)) p v)
        ((fates.drop (j + 1)).filterMap Fate.inserted?) := by
  have hsplit : fates = fates.take j ++ .succeeded p v :: fates.drop (j + 1) := by
    obtain ⟨hlt, hget⟩ := List.getElem?_eq_some_iff.mp h
    rw [← hget, List.getElem_cons_drop, List.take_append_drop]
  nth_rewrite 1 [hsplit]
  rw [fill, List.filterMap_append, List.foldl_append]
  rfl

theorem act_of_actions_eq_nil {d : Declaration} (h : d.actions = []) (r : Report)
    (selected : List Property) : r.act d selected = r := by
  rw [act, h]
  rfl

end Report

/-! ## The end of a cycle -/

/-- Only what is compiled under a name puts a value in. -/
theorem Cycle.Ends.name_of_inserted? {names : NameSet} {d : Declaration} {facts : Facts}
    {c : Cycle} {es : List Event} {j : Nat} {f : Fate}
    (h : Ends names (d.verdicts facts) c es j f) {p : Property} {v : Value}
    (hi : f.inserted? = some (p, v)) : (Named.keys d.stats)[j]? = some p.name := by
  have hkey {name : String} {q : Property}
      (hj : (d.verdicts facts)[j]? = some (name, .ok (some q))) :
      (Named.keys d.stats)[j]? = some q.name := by
    rw [← d.keys_verdicts facts, List.getElem?_map, hj]
    exact congrArg some (Declaration.name_of_verdict (List.mem_of_getElem? hj) rfl).symm
  cases h with
  | succeeded hj =>
    cases hi
    exact hkey hj
  | @fetchError _ q _ hj =>
    obtain ⟨-, heq⟩ := Option.ite_none_right_eq_some.mp hi
    cases heq
    exact hkey hj
  | rejected | disabled | pruned | transformError | notRun => cases hi

/-- As names are declared once, no other value is put in under the name of one. -/
theorem Cycle.Ends.name_ne {names : NameSet} {d : Declaration} {facts : Facts} {c : Cycle}
    {es : List Event} {i j : Nat} {f g : Fate} (hf : Ends names (d.verdicts facts) c es i f)
    (hg : Ends names (d.verdicts facts) c es j g) (hne : i ≠ j)
    (hnames : (Named.keys d.stats).Nodup) {p q : Property} {v w : Value}
    (hp : f.inserted? = some (p, v)) (hq : g.inserted? = some (q, w)) : q.name ≠ p.name := by
  intro heq
  have hpkey := hf.name_of_inserted? hp
  have hqkey := hg.name_of_inserted? hq
  obtain ⟨hi, -⟩ := List.getElem?_eq_some_iff.mp hpkey
  exact hne ((List.getElem?_inj hi hnames).mp (hpkey.trans (heq ▸ hqkey.symm)))

namespace Collector

/-- Every end of a cycle gives all that is declared a fate, and the values of the fates are put
in. -/
theorem exists_fates (k : Collector) (d : Declaration) (facts : Facts) {es : List Cycle.Event}
    {c : Cycle}
    (h : (Cycle.new (k.select d facts).1 k.tuning.workers k.tuning.maxQueue
      k.stopRequested).run? es = some c) (hd : c.phase = .done) :
    let names := (k.selections.select (d.properties facts) d.actions d.disabledFolders).1
    ∃ fates : List Fate, fates.length = d.stats.length ∧
      (∀ j f, fates[j]? = some f → Cycle.Ends names (d.verdicts facts) c es j f) ∧
      (Report.assemble (d.rejections facts) c.results).stats =
        Report.fill [] (fates.filterMap Fate.inserted?) := by
  intro names
  obtain ⟨n, hr⟩ := Cycle.exists_reached h
  have hs : (Cycle.new (k.select d facts).1 k.tuning.workers k.tuning.maxQueue
      k.stopRequested).selected = Cycle.survivors names (d.verdicts facts) := rfl
  exact ⟨_, (Cycle.length_fatesFrom 0).trans (List.length_map _),
    fun j f hj => hr.ends_of_getElem? hd hs hj, congrArg Report.stats
      (hr.assemble_eq hs fun nv hnv p hp => Declaration.name_of_verdict hnv hp)⟩

/-- **Where the collected values are found.**  However the events of a cycle are interleaved: if no
action changes the report, the value of every selected property that succeeded is at its path.  In a
group it stays as it was put in if no property at the top that is declared later and given a value
has the name of the group.  At the top it stays if no such property is in a group of that name, and
else the entries of that group come to it. -/
theorem assembly (k : Collector) (d : Declaration) (facts : Facts) {es : List Cycle.Event}
    {c : Cycle}
    (h : (Cycle.new (k.select d facts).1 k.tuning.workers k.tuning.maxQueue
      k.stopRequested).run? es = some c) (hd : c.phase = .done)
    (hnames : (Named.keys d.stats).Nodup) (hactions : d.actions = []) :
    let names := (k.selections.select (d.properties facts) d.actions d.disabledFolders).1
    let stats := Value.obj (k.reportOf d facts c).stats
    ∃ fates : List Fate, fates.length = d.stats.length ∧
      (∀ j f, fates[j]? = some f → Cycle.Ends names (d.verdicts facts) c es j f) ∧
      ∀ j p v, fates[j]? = some (.succeeded p v) →
        let later := (fates.drop (j + 1)).filterMap Fate.inserted?
        (∀ g, p.parent? = some g → (∀ q w, (q, w) ∈ later → q.parent? = none → q.name ≠ g) →
          Tree.at? stats p.path = some v) ∧
        (p.parent? = none →
          Tree.at? stats p.path = Report.joined (some v) (Report.entriesIn p.name later)) := by
  intro names stats
  obtain ⟨fates, hlen, hends, hstats⟩ := exists_fates k d facts h hd
  refine ⟨fates, hlen, hends, fun j p v hj => ?_⟩
  let before := (fates.take j).filterMap Fate.inserted?
  let later := (fates.drop (j + 1)).filterMap Fate.inserted?
  have hother (q : Property) (w : Value) (hq : (q, w) ∈ later) : q.name ≠ p.name := by
    obtain ⟨f, hf, hi⟩ := List.mem_filterMap.mp hq
    obtain ⟨i, hf⟩ := List.mem_iff_getElem?.mp hf
    rw [List.getElem?_drop] at hf
    exact (hends j _ hj).name_ne (hends _ f hf) (by omega) hnames rfl hi
  have hstats : stats = Value.obj
      (Report.fill (Report.place (Report.fill [] before) p v) later) := by
    refine congrArg Value.obj ?_
    rw [reportOf, Report.act_of_actions_eq_nil hactions, hstats, Report.fill_of_getElem? hj]
  rw [hstats]
  exact ⟨fun g hp hlater => Report.at?_fill_of_parent?_eq_some hp hother hlater,
    fun hp => Report.at?_fill_of_parent?_eq_none hp hother⟩

/-- An entry comes to an object at the top, in the group of which it is found. -/
theorem assembly_two_stats :
    let d : Declaration := { stats := [("a", .obj [("key", .str "a")]),
      ("b", .obj [("key", .str "b"), ("structure", .obj [("parentKey", .str "a")])])] }
    let k : Collector := { tuning := { workers := 1, maxQueue := 2 } }
    ∃ (es : List Cycle.Event) (c : Cycle),
      (Cycle.new (k.select d ⟨[]⟩).1 1 2 false).run? es = some c ∧ c.phase = .done ∧
      ∃ fates : List Fate, fates.length = 2 ∧
        ∀ j p v, fates[j]? = some (.succeeded p v) → p.parent? = none →
          Tree.at? (Value.obj (k.reportOf d ⟨[]⟩ c).stats) p.path =
            Report.joined (some v) (Report.entriesIn p.name
              ((fates.drop (j + 1)).filterMap Fate.inserted?)) := by
  intro d k
  let es : List Cycle.Event := [.push, .push, .push, .pass, .begin 0, .ask 1,
    .answer "a" (.ok (.obj [("x", .bool true)])), .take 1, .finish 0, .turn 0, .begin 0, .ask 2,
    .answer "b" (.ok (.bool false)), .take 2, .finish 0, .turn 0, .notice, .look]
  have hrun : ((Cycle.new (k.select d ⟨[]⟩).1 1 2 false).run? es).map (·.phase) = some .done := by
    decide +kernel
  obtain ⟨c, hc, hd⟩ := Option.map_eq_some_iff.mp hrun
  obtain ⟨fates, hlen, -, hat⟩ := assembly k d ⟨[]⟩ hc hd (by decide) rfl
  exact ⟨es, c, hc, hd, fates, hlen, fun j p v hj => (hat j p v hj).2⟩

/-- **A value may give way to a later one**: `b` needs a group where `a` has put no object. -/
theorem not_kept_of_group_name : ¬ ∀ (k : Collector) (d : Declaration) (facts : Facts)
    (es : List Cycle.Event) (c : Cycle),
    (Cycle.new (k.select d facts).1 k.tuning.workers k.tuning.maxQueue
      k.stopRequested).run? es = some c → c.phase = .done → (Named.keys d.stats).Nodup →
    d.actions = [] → ∀ j p v, Cycle.Ends
      (k.selections.select (d.properties facts) d.actions d.disabledFolders).1 (d.verdicts facts)
      c es j (.succeeded p v) →
    Tree.at? (Value.obj (k.reportOf d facts c).stats) p.path = some v := by
  let d : Declaration := { stats := [("a", .obj [("key", .str "a")]),
    ("b", .obj [("key", .str "b"), ("structure", .obj [("parentKey", .str "a")])])] }
  let k : Collector := { tuning := { workers := 1, maxQueue := 2 } }
  let names := (k.selections.select (d.properties ⟨[]⟩) d.actions d.disabledFolders).1
  let es : List Cycle.Event := [.push, .push, .push, .pass, .begin 0, .ask 1,
    .answer "a" (.ok (.int 1)), .take 1, .finish 0, .turn 0, .begin 0, .ask 2,
    .answer "b" (.ok (.int 2)), .take 2, .finish 0, .turn 0, .notice, .look]
  let isOne (f : Fate) : Bool :=
    match f with
    | .succeeded p v => p.path == ["a"] && v.text == "1"
    | _ => false
  have hrun : ((Cycle.new (k.select d ⟨[]⟩).1 1 2 false).run? es).map (fun c => (c.phase,
      ((Cycle.fatesFrom names c 0 (d.verdicts ⟨[]⟩))[0]?).map isOne,
      (Tree.at? (Value.obj (k.reportOf d ⟨[]⟩ c).stats) ["a"]).map Value.text)) =
      some (.done, some true, some "\x7b\"b\":2\x7d") := by
    decide +kernel
  obtain ⟨c, hc, heq⟩ := Option.map_eq_some_iff.mp hrun
  obtain ⟨hd, hrest⟩ := Prod.mk.inj heq
  obtain ⟨hfate, htext⟩ := Prod.mk.inj hrest
  obtain ⟨f, hf, hone⟩ := Option.map_eq_some_iff.mp hfate
  obtain ⟨n, hr⟩ := Cycle.exists_reached hc
  have hends : Cycle.Ends names (d.verdicts ⟨[]⟩) c es 0 f := hr.ends_of_getElem? hd rfl hf
  cases f with
  | succeeded p v =>
    obtain ⟨hpath, hv⟩ := Bool.and_eq_true_iff.mp hone
    intro hall
    have hkept := hall k d ⟨[]⟩ es c hc hd (by decide) rfl 0 p v hends
    rw [beq_iff_eq.mp hpath] at hkept
    rw [hkept, Option.map_some, beq_iff_eq.mp hv] at htext
    exact absurd htext (by decide)
  | _ => cases hone

end Collector

end DeviceStats
