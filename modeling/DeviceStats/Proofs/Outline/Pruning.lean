import DeviceStats.Proofs.Cycle.Accounting
import DeviceStats.Proofs.Cycle.Unstopped
import DeviceStats.Proofs.Outline.Beginning

/-!
# Proofs/Outline/Pruning — when what was never collected is not missed

A cycle collects only what the outline keeps.  The report has the same value at the place of every
property as one for which everything was collected, if the declaration is `Harmless`: its keys are
clear, and no action asks something of a group that only dropped properties could answer
(`Collector.pruning`).  A key that is the name of a dropped property and matches another name is not
clear, and the report then differs (`Collector.not_pruning_of_alike_names`).
-/

namespace DeviceStats

open Json (Value Object)
open Layout
open Match (Tree)

namespace Outline

/-! ## What is selected -/

section Selected

variable {properties : List Property} {actions : List Action} {disabledFolders : NameSet}

theorem shaped_final : Shaped (listed disabledFolders properties)
    (final properties actions disabledFolders) :=
  (follows_foldl _ actions).shaped (shaped_build disabledFolders properties)

/-- A property in a folder that is switched off has no node. -/
theorem isOff_of_hasPath (hn : (properties.map (·.name)).Nodup) {p : Property}
    (hp : p ∈ properties)
    (hpath : (final properties actions disabledFolders).hasPath p.path = true) :
    isOff disabledFolders p = false := by
  cases hpar : p.parent? with
  | none => simp [isOff, hpar]
  | some g =>
    rw [path_of_parent?_eq_some hpar] at hpath
    obtain ⟨x, hx, hinner⟩ := hasPath_cons.mp hpath
    have hmem := (shaped_final.group g x hx).sub p.name
      (Tree.mem_keys_iff.mpr (hasPath_singleton.mp hinner))
    obtain ⟨q, hq, -, hname⟩ := mem_members.mp hmem
    obtain ⟨hq, hoff⟩ := List.mem_filter.mp hq
    obtain rfl := List.inj_on_of_nodup_map hn hq hp hname
    exact Bool.not_eq_eq_eq_not.mp hoff

/-- **The selected properties are those that the outline keeps.** -/
theorem filter_select (hn : (properties.map (·.name)).Nodup) :
    (properties.filter fun p => (select properties actions disabledFolders).contains p.name) =
      keptProperties (final properties actions disabledFolders).hasPath
        (listed disabledFolders properties) := by
  rw [keptProperties, listed, List.filter_filter]
  refine List.filter_congr fun p hp => Bool.eq_iff_iff.mpr ?_
  rw [List.contains_iff_mem, select, NameSet.mem_ofList, List.mem_map, Bool.and_eq_true]
  constructor
  · rintro ⟨q, hq, hname⟩
    obtain ⟨hq, hpath⟩ := List.mem_filter.mp hq
    obtain rfl := List.inj_on_of_nodup_map hn hq hp hname
    exact ⟨hpath, by rw [isOff_of_hasPath hn hq hpath]; rfl⟩
  · rintro ⟨hpath, -⟩
    exact ⟨p, List.mem_filter.mpr ⟨hp, hpath⟩, rfl⟩

end Selected

/-! ## The same report -/

/-- What a report has at a path after the actions. -/
theorem at?_act (r : Report) (d : Declaration) (selected : List Property) {path : List String}
    (hne : path ≠ []) : Tree.at? (.obj (r.act d selected).stats) path = Tree.at?
      (Action.applyAll d.definitions (scopeOf selected) d.actions (.obj r.stats)) path := by
  obtain ⟨k, path, rfl⟩ := List.exists_cons_of_ne_nil hne
  unfold Report.act scopeOf
  simp only
  cases Action.applyAll d.definitions (.report (Declaration.collections selected)) d.actions
    (.obj r.stats) <;> rfl

end Outline

/-! ## Declarations that are pruned without harm -/

namespace Declaration

open Outline

/-- The properties of a declaration outside the folders that are switched off. -/
def candidates (d : Declaration) (facts : Facts) : List Property :=
  listed d.disabledFolders (d.properties facts)

/-- Whether the outline has a node at a path after all actions. -/
def keeps (d : Declaration) (facts : Facts) : List String → Bool :=
  (final (d.properties facts) d.actions d.disabledFolders).hasPath

/-- The candidates that the outline keeps. -/
def kept (d : Declaration) (facts : Facts) : List Property :=
  keptProperties (d.keeps facts) (d.candidates facts)

/-- The report on some properties, each of which has a value. -/
def reportOn (d : Declaration) (value : Property → Value) (ps : List Property) : Report :=
  ({ stats := dataOf value ps } : Report).act d ps

/-- Whether the keys of all actions are clear. -/
def KeysClear (d : Declaration) (facts : Facts) : Prop :=
  ∀ a ∈ d.actions, a.enabled = true → ClearKeys (d.candidates facts) a

/-- Whether no action asks something of a group that only dropped properties answer. -/
def GroupsAsked (d : Declaration) (facts : Facts) (value : Property → Value) : Prop :=
  AsksAll (d.candidates facts) (d.keeps facts) d.definitions d.actions
    (.obj (dataOf value (d.candidates facts)))

/-- Whether a declaration is read alike with all candidates and with the kept ones alone. -/
structure Harmless (d : Declaration) (facts : Facts) (value : Property → Value) : Prop where
  apart : Apart (d.candidates facts)
  clear : d.KeysClear facts
  asks : d.GroupsAsked facts value

section Harmless

variable (d : Declaration) (facts : Facts) (value : Property → Value)

instance : Decidable (d.KeysClear facts) :=
  inferInstanceAs (Decidable (∀ a ∈ d.actions, a.enabled = true → ClearKeys (d.candidates facts) a))

instance : Decidable (d.GroupsAsked facts value) :=
  inferInstanceAs (Decidable (AsksAll _ _ _ _ _))

instance : Decidable (d.Harmless facts value) :=
  decidable_of_iff
    (Apart (d.candidates facts) ∧ d.KeysClear facts ∧ d.GroupsAsked facts value)
    ⟨fun h => ⟨h.1, h.2.1, h.2.2⟩, fun h => ⟨h.apart, h.clear, h.asks⟩⟩

variable {d facts value}

/-- **The kept candidates alone give the same report.** -/
theorem Harmless.at?_eq (h : d.Harmless facts value) {p : Property}
    (hp : p ∈ d.candidates facts) :
    Tree.at? (Value.obj (d.reportOn value (d.kept facts)).stats) p.path =
      Tree.at? (Value.obj (d.reportOn value (d.candidates facts)).stats) p.path := by
  have hstart : Outlined (d.candidates facts) (d.keeps facts)
      (.obj (dataOf value (d.candidates facts))) (build d.disabledFolders (d.properties facts)) :=
    fun q hq _ _ => hasPath_build d.disabledFolders (d.properties facts) hq
  have hmarked (q : List String) :
      MarkedAt (d.actions.foldl apply (build d.disabledFolders (d.properties facts))) q →
        d.keeps facts q = true :=
    fun ⟨x, hx, _⟩ => Option.isSome_iff_exists.mpr ⟨x, hx⟩
  obtain ⟨hag, hout⟩ := (agrees_dataOf h.apart (d.keeps facts) value).applyAll d.definitions
    h.apart hstart (shaped_build d.disabledFolders (d.properties facts))
    (closed_build d.disabledFolders (d.properties facts)) h.clear h.asks hmarked
  rw [reportOn, reportOn, at?_act _ d _ (path_ne_nil p), at?_act _ d _ (path_ne_nil p)]
  exact hag.at?_eq hout (fun _ _ => id) hp

end Harmless

/-- Whether the kept candidates alone give another report. -/
def Differs (d : Declaration) (facts : Facts) (value : Property → Value) : Prop :=
  ∃ p ∈ d.candidates facts, Tree.at? (Value.obj (d.reportOn value (d.kept facts)).stats) p.path ≠
    Tree.at? (Value.obj (d.reportOn value (d.candidates facts)).stats) p.path

theorem differs_of_text {d : Declaration} {facts : Facts} {value : Property → Value}
    (h : ∃ p ∈ d.candidates facts,
      (Tree.at? (Value.obj (d.reportOn value (d.kept facts)).stats) p.path).map Value.text ≠
        (Tree.at? (Value.obj (d.reportOn value (d.candidates facts)).stats) p.path).map
          Value.text) : d.Differs facts value := by
  obtain ⟨p, hp, hne⟩ := h
  exact ⟨p, hp, fun heq => hne (congrArg (Option.map Value.text) heq)⟩

/-- **Each condition is needed.**  A property has the name of a group that is emptied; a dropped
property has a name that matches another; a group is asked for after it was emptied. -/
theorem each_condition_needed :
    let plain (key : String) : Value := .obj [("key", .str key)]
    let inGroup (key group : String) : Value :=
      .obj [("key", .str key), ("structure", .obj [("parentKey", .str group)])]
    let exclude (condition? : Option Condition) (locations : Object) : Action :=
      ⟨true, condition?, .excludeData locations⟩
    let twice : Declaration := {
      stats := [("x", plain "x"), ("y", inGroup "y" "x")]
      actions := [exclude none [("x", .obj [("y", .bool true)])]] }
    let alike : Declaration := {
      stats := [("a", plain "a"), ("ab", plain "ab")]
      actions := [exclude none [("a", .bool true)]] }
    let emptied : Declaration := {
      stats := [("c", plain "c"), ("n", inGroup "n" "p")]
      actions := [exclude none [("p", .obj [("n", .bool true)])],
        exclude (some (.all [("p", .obj [])])) [("c", .bool true)]] }
    let value (p : Property) : Value := .str p.name
    (¬ Apart (twice.candidates ⟨[]⟩) ∧ twice.KeysClear ⟨[]⟩ ∧ twice.GroupsAsked ⟨[]⟩ value ∧
      twice.Differs ⟨[]⟩ value) ∧
    (Apart (alike.candidates ⟨[]⟩) ∧ ¬ alike.KeysClear ⟨[]⟩ ∧ alike.GroupsAsked ⟨[]⟩ value ∧
      alike.Differs ⟨[]⟩ value) ∧
    Apart (emptied.candidates ⟨[]⟩) ∧ emptied.KeysClear ⟨[]⟩ ∧ ¬ emptied.GroupsAsked ⟨[]⟩ value ∧
      emptied.Differs ⟨[]⟩ value := by
  intro plain inGroup exclude twice alike emptied value
  refine ⟨⟨?_, ?_, ?_, differs_of_text ?_⟩, ⟨?_, ?_, ?_, differs_of_text ?_⟩,
    ⟨?_, ?_, ?_, differs_of_text ?_⟩⟩ <;>
    decide +kernel

end Declaration

/-! ## Reports of a cycle -/

/-- The names of compiled properties are those of the declared ones. -/
theorem Declaration.names_sublist {vs : List (String × Verdict)}
    (h : ∀ nv ∈ vs, ∀ p, nv.2 = .ok (some p) → p.name = nv.1) :
    ((vs.filterMap fun nv => compiled? nv.2).map (·.name)).Sublist (vs.map (·.1)) := by
  induction vs with
  | nil => exact .slnil
  | cons nv vs ih =>
    have hvs := ih fun nv' hnv' => h nv' (List.mem_cons_of_mem nv hnv')
    obtain ⟨name, e | - | p⟩ := nv
    · exact hvs.cons name
    · exact hvs.cons name
    · obtain rfl : p.name = name := h _ List.mem_cons_self p rfl
      exact hvs.cons_cons p.name

/-- No two compiled properties have one name. -/
theorem Declaration.nodup_names {d : Declaration} (facts : Facts)
    (h : (Named.keys d.stats).Nodup) : ((d.properties facts).map (·.name)).Nodup := by
  have hkeys := d.keys_verdicts facts
  exact (hkeys ▸ h).sublist (names_sublist fun nv hnv p => name_of_verdict hnv)

namespace Collector

open Outline

/-- The report on a cycle. -/
def reportOf (k : Collector) (d : Declaration) (facts : Facts) (c : Cycle) : Report :=
  (Report.assemble (d.rejections facts) c.results).act d (k.select d facts).1

/-- Events lead a cycle to its end undisturbed: every request and every normalization succeeds, no
stop is requested, and the queue has room. -/
structure Undisturbed (k : Collector) (d : Declaration) (facts : Facts) (load : String → Value)
    (value : Property → Value) (es : List Cycle.Event) (c : Cycle) : Prop where
  names : (Named.keys d.stats).Nodup
  /-- If the selection is remembered, it is that of this declaration. -/
  selection : (k.selections.select (d.properties facts) d.actions d.disabledFolders).1 =
    Outline.select (d.properties facts) d.actions d.disabledFolders
  run : (Cycle.new (k.select d facts).1 k.tuning.workers k.tuning.maxQueue false).run? es = some c
  done : c.phase = .done
  unstopped : .requestStop ∉ es
  room : (k.select d facts).1.length ≤ k.tuning.maxQueue
  loads : ∀ key a, .answer key a ∈ es → a = .ok (load key)
  values : ∀ p ∈ d.candidates facts,
    p.pipeline.normalize (withItems (load (Request.ofProperty p).key)) = .ok (value p)

section Undisturbed

variable {k : Collector} {d : Declaration} {facts : Facts} {load : String → Value}
  {value : Property → Value} {es : List Cycle.Event} {c : Cycle}

theorem Undisturbed.select_eq (h : Undisturbed k d facts load value es c) :
    (k.select d facts).1 = d.kept facts := by
  rw [Declaration.kept, Declaration.keeps, Declaration.candidates,
    ← filter_select (d.nodup_names facts h.names), ← h.selection]
  rfl

/-- The report is that on the kept candidates. -/
theorem Undisturbed.at?_reportOf (h : Undisturbed k d facts load value es c) {path : List String}
    (hne : path ≠ []) : Tree.at? (Value.obj (k.reportOf d facts c).stats) path =
      Tree.at? (Value.obj (d.reportOn value (d.kept facts)).stats) path := by
  obtain ⟨n, hr⟩ := Cycle.exists_reached h.run
  have hc : c.selected = d.kept facts := hr.selected.trans h.select_eq
  have houtcome : ∀ q ∈ c.selected, ∀ a, .answer (Request.ofProperty q).key a ∈ es →
      Cycle.outcomeOf q (a.map withItems) = .ok (value q) := by
    intro q hq a ha
    rw [h.loads _ a ha]
    have hq : q ∈ d.candidates facts := List.mem_of_mem_filter (hc ▸ hq)
    exact congrArg (Except.mapError Cause.transform) (h.values q hq)
  have hstats := hr.stats_eq (.run h.run h.unstopped h.room) h.done value houtcome
    (d.rejections facts)
  rw [reportOf, Declaration.reportOn, at?_act _ d _ hne, at?_act _ d _ hne, h.select_eq, hstats, hc]
  rfl

/-- **What is pruned is not missed.**  However the events of an undisturbed cycle are interleaved:
if the declaration is harmless, the report has at the place of every candidate what the report on
all of them has there, and nothing where that has nothing. -/
theorem pruning (h : Undisturbed k d facts load value es c) (hharmless : d.Harmless facts value) :
    ∀ p ∈ d.candidates facts, Tree.at? (Value.obj (k.reportOf d facts c).stats) p.path =
      Tree.at? (Value.obj (d.reportOn value (d.candidates facts)).stats) p.path := by
  intro p hp
  rw [h.at?_reportOf (path_ne_nil p)]
  exact hharmless.at?_eq hp

end Undisturbed

/-- What normalization makes of the response to a property, if it succeeds. -/
def valueOf (load : String → Value) (p : Property) : Value :=
  match p.pipeline.normalize (withItems (load (Request.ofProperty p).key)) with
  | .ok v => v
  | .error _ => .null

theorem normalize_eq_valueOf {load : String → Value} {p : Property}
    (h : (p.pipeline.normalize (withItems (load (Request.ofProperty p).key))).isOk = true) :
    p.pipeline.normalize (withItems (load (Request.ofProperty p).key)) = .ok (valueOf load p) := by
  unfold valueOf
  split
  · assumption
  · rename_i herror
    rw [herror] at h
    cases h

/-- A run to the end, without a request to stop and with room for all, is undisturbed if the device
answers and every answer can be normalized. -/
theorem exists_undisturbed {k : Collector} {d : Declaration} {facts : Facts}
    {load : String → Value} {es : List Cycle.Event} (hnames : (Named.keys d.stats).Nodup)
    (hselection : (k.selections.select (d.properties facts) d.actions d.disabledFolders).1 =
      Outline.select (d.properties facts) d.actions d.disabledFolders)
    (hdone : ((Cycle.new (k.select d facts).1 k.tuning.workers k.tuning.maxQueue false).run?
      es).map (·.phase) = some .done)
    (hstop : .requestStop ∉ es) (hroom : (k.select d facts).1.length ≤ k.tuning.maxQueue)
    (hloads : ∀ key a, .answer key a ∈ es → a = .ok (load key))
    (hok : ∀ p ∈ d.candidates facts,
      (p.pipeline.normalize (withItems (load (Request.ofProperty p).key))).isOk = true) :
    ∃ c, Undisturbed k d facts load (valueOf load) es c := by
  obtain ⟨c, hc, hd⟩ := Option.map_eq_some_iff.mp hdone
  exact ⟨c, hnames, hselection, hc, hd, hstop, hroom, hloads,
    fun p hp => normalize_eq_valueOf (hok p hp)⟩

/-- One of three properties is taken out before it is collected, and one if its group matches. -/
theorem pruning_three_stats :
    let inGroup (key : String) : Value :=
      .obj [("key", .str key), ("structure", .obj [("parentKey", .str "g")])]
    let d : Declaration := {
      stats := [("a", .obj [("key", .str "a")]), ("m", inGroup "m"), ("n", inGroup "n")]
      actions := [⟨true, none, .excludeData [("g", .obj [("n", .bool true)])]⟩,
        ⟨true, some (.all [("g", .obj [("m", .str "m")])]), .excludeData [("a", .bool true)]⟩] }
    let k : Collector := { tuning := { workers := 1, maxQueue := 2 } }
    let value := valueOf .str
    ∃ (es : List Cycle.Event) (c : Cycle), Undisturbed k d ⟨[]⟩ .str value es c ∧
      d.Harmless ⟨[]⟩ value ∧
      ∀ p ∈ d.candidates ⟨[]⟩, Tree.at? (Value.obj (k.reportOf d ⟨[]⟩ c).stats) p.path =
        Tree.at? (Value.obj (d.reportOn value (d.candidates ⟨[]⟩)).stats) p.path := by
  intro inGroup d k value
  let es : List Cycle.Event := [.push, .push, .push, .pass, .begin 0, .ask 1,
    .answer "a" (.ok (.str "a")), .take 1, .finish 0, .turn 0, .begin 0, .ask 2,
    .answer "m" (.ok (.str "m")), .take 2, .finish 0, .turn 0, .notice, .look]
  have hloads : ∀ key a, .answer key a ∈ es → a = .ok (.str key) := by
    intro key a ha
    simp [es] at ha
    obtain ⟨rfl, rfl⟩ | ⟨rfl, rfl⟩ := ha <;> rfl
  have hharmless : d.Harmless ⟨[]⟩ value := by decide +kernel
  obtain ⟨c, h⟩ : ∃ c, Undisturbed k d ⟨[]⟩ .str value es c :=
    exists_undisturbed (by decide) rfl (by decide +kernel) (by simp [es]) (by decide +kernel)
      hloads (by decide +kernel)
  exact ⟨es, c, h, hharmless, pruning h hharmless⟩

/-- **Pruning may lose what it keeps**: without `a`, the key `a` is a pattern and takes `ab` out. -/
theorem not_pruning_of_alike_names : ¬ ∀ (k : Collector) (d : Declaration) (facts : Facts)
    (load : String → Value) (value : Property → Value) (es : List Cycle.Event) (c : Cycle),
    Undisturbed k d facts load value es c →
      ∀ p ∈ d.candidates facts, Tree.at? (Value.obj (k.reportOf d facts c).stats) p.path =
        Tree.at? (Value.obj (d.reportOn value (d.candidates facts)).stats) p.path := by
  let d : Declaration := {
    stats := [("a", .obj [("key", .str "a")]), ("ab", .obj [("key", .str "ab")])]
    actions := [⟨true, none, .excludeData [("a", .bool true)]⟩] }
  let k : Collector := { tuning := { workers := 1, maxQueue := 2 } }
  let es : List Cycle.Event := [.push, .push, .pass, .begin 0, .ask 1,
    .answer "ab" (.ok (.str "ab")), .take 1, .finish 0, .turn 0, .notice, .look]
  let value := valueOf .str
  have hloads : ∀ key a, .answer key a ∈ es → a = .ok (.str key) := by
    intro key a ha
    simp [es] at ha
    obtain ⟨rfl, rfl⟩ := ha
    rfl
  have hdiffers : d.Differs ⟨[]⟩ value := Declaration.differs_of_text (by decide +kernel)
  obtain ⟨c, h⟩ : ∃ c, Undisturbed k d ⟨[]⟩ .str value es c :=
    exists_undisturbed (by decide) rfl (by decide +kernel) (by simp [es]) (by decide +kernel)
      hloads (by decide +kernel)
  obtain ⟨p, hp, hne⟩ := hdiffers
  intro hall
  refine hne ?_
  rw [← h.at?_reportOf (path_ne_nil p)]
  exact hall k d ⟨[]⟩ .str value es c h p hp

end Collector

end DeviceStats
