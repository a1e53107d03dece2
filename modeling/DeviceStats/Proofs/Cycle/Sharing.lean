import DeviceStats.Collector
import DeviceStats.Proofs.Cycle.Outcomes
import DeviceStats.Proofs.Cycle.Queue
import DeviceStats.Proofs.Match.Paths
import Mathlib.Data.List.Perm.Subperm

/-!
# Proofs/Cycle/Sharing — properties with one request share one response

The cells of a cycle are the requests it sent, in order, and no key is sent twice (`Shared.keys`,
`Shared.nodup`).  Whoever has asked finds its key among them (`Shared.asked`), and a request that
is still out has a property on its way that sent it (`Shared.loading`).  So there are at most as
many requests out as properties on their way, and at most as many of those as workers
(`inFlight_le`).
-/

namespace DeviceStats

open Json (Value)

/-- Who has asked asks no more. -/
theorem Pursuit.ask_of_asked {p : Pursuit} (h : p.asked = true) (task : Queue.TaskId) :
    p.ask task = p := by
  obtain ⟨t, place, asked⟩ := p
  obtain rfl : asked = true := h
  unfold Pursuit.ask
  split <;> rfl

@[simp] theorem Pursuit.place_ask (p : Pursuit) (task : Queue.TaskId) :
    (p.ask task).place = p.place := by
  unfold Pursuit.ask
  split <;> rfl

@[simp] theorem Pursuit.task_ask (p : Pursuit) (task : Queue.TaskId) :
    (p.ask task).task = p.task := by
  unfold Pursuit.ask
  split <;> rfl

namespace Cycle

/-- The key of the request of the property at a place. -/
def keyAt? (c : Cycle) (place : Nat) : Option String := (c.request? place).map Request.key

/-- The ids of the tasks whose handlers were called. -/
def calledIds (c : Cycle) : List Queue.TaskId := c.queue.calls.map (·.task.id)

/-- What is known of the requests of a cycle. -/
structure Shared (c : Cycle) : Prop where
  keys : Named.keys c.cells = c.loads
  nodup : c.loads.Nodup
  asked : ∀ p ∈ c.pursuits, p.asked = true → ∃ key ∈ c.loads, c.keyAt? p.place = some key
  settled : ∀ o ∈ c.outcomes, ∃ key ∈ c.loads, c.keyAt? o.1 = some key
  sent : ∀ key ∈ c.loads, ∃ i, c.keyAt? i = some key ∧ i + 1 ∈ c.calledIds
  /-- A request that is out was sent by a property that waits for it. -/
  loading : ∀ key r task, Named.get? c.cells key = some (.loading r task) → r.key = key ∧
    ∃ p ∈ c.pursuits, p.task = task ∧ p.asked = true ∧ c.request? p.place = some r

theorem Shared.new (selected : List Property) (workers limit : Nat) (stopRequested : Bool) :
    Shared (.new selected workers limit stopRequested) where
  keys := rfl
  nodup := List.nodup_nil
  asked p hp := absurd hp List.not_mem_nil
  settled o ho := absurd ho List.not_mem_nil
  sent key hkey := absurd hkey List.not_mem_nil
  loading key r task hcell := by cases hcell

section Step

variable {c c' : Cycle} {e : Event} {es : List Event} {task : Queue.TaskId} {p : Pursuit}
  {r : Request}

theorem keyAt?_congr (h : c'.selected = c.selected) (i : Nat) : c'.keyAt? i = c.keyAt? i := by
  rw [keyAt?, request?, h]
  rfl

theorem keyAt?_of_request? {i : Nat} (h : c.request? i = some r) : c.keyAt? i = some r.key := by
  rw [keyAt?, h]
  rfl

/-- What touches no request, and no property that has asked. -/
theorem Shared.congr (h : Shared c) (hs : c'.selected = c.selected) (hc : c'.cells = c.cells)
    (hl : c'.loads = c.loads) (ho : c'.outcomes = c.outcomes)
    (hp : ∀ p, p.asked = true → (p ∈ c'.pursuits ↔ p ∈ c.pursuits))
    (hcalls : c.calledIds ⊆ c'.calledIds) : Shared c' where
  keys := by rw [hc, hl, h.keys]
  nodup := hl ▸ h.nodup
  asked p hmem ha := by
    rw [hl, keyAt?_congr hs]
    exact h.asked p ((hp p ha).mp hmem) ha
  settled o hmem := by
    rw [hl, keyAt?_congr hs]
    exact h.settled o (ho ▸ hmem)
  sent key hkey := by
    obtain ⟨i, hi, hcalled⟩ := h.sent key (hl ▸ hkey)
    exact ⟨i, (keyAt?_congr hs i).trans hi, hcalls hcalled⟩
  loading key r task hcell := by
    obtain ⟨hkey, p, hmem, htask, ha, hr⟩ := h.loading key r task (hc ▸ hcell)
    refine ⟨hkey, p, (hp p ha).mpr hmem, htask, ha, ?_⟩
    rw [request?, hs]
    exact hr

/-- A key is among the cells as soon as its request was sent. -/
theorem Shared.has_eq_true_iff (h : Shared c) {key : String} :
    Named.has c.cells key = true ↔ key ∈ c.loads := by
  rw [Named.has_eq_true_iff, h.keys]

/-- No two cells have one key. -/
theorem Shared.nodup_keys (h : Shared c) : (Named.keys c.cells).Nodup := h.keys ▸ h.nodup

/-- Pursuits of one task are at one place. -/
theorem Settled.place_eq (h : Settled c es) (hp : c.pursuit? task = some p) {q : Pursuit}
    (hq : q ∈ c.pursuits) (hqt : q.task = task) : q.place = p.place := by
  have hplace := h.places q hq
  rw [hqt, (h.task_eq hp).2] at hplace
  exact (Nat.succ.inj hplace).symm

/-- After a task has asked, whoever has asked finds its key, if that task does. -/
theorem Shared.asked_ask (h : Shared c) (hset : Settled c es) (hp : c.pursuit? task = some p)
    {loads : List String} (hl : c.loads ⊆ loads)
    (hkey : ∃ key ∈ loads, c.keyAt? p.place = some key) :
    ∀ q ∈ c.pursuits.map (·.ask task), q.asked = true →
      ∃ key ∈ loads, c.keyAt? q.place = some key := by
  intro q' hq' ha
  obtain ⟨q, hq, rfl⟩ := List.mem_map.mp hq'
  rw [Pursuit.place_ask]
  by_cases hqt : q.task = task
  · rwa [hset.place_eq hp hq hqt]
  · rw [Pursuit.ask, if_neg hqt] at ha
    obtain ⟨key, hmem, hk⟩ := h.asked q hq ha
    exact ⟨key, hl hmem, hk⟩

/-- After a task has asked, the senders of the requests that are out still wait for them. -/
theorem Shared.loading_ask (h : Shared c) {key : String} {r : Request} {holder : Queue.TaskId}
    (hcell : Named.get? c.cells key = some (.loading r holder)) (task : Queue.TaskId) :
    r.key = key ∧ ∃ p ∈ c.pursuits.map (·.ask task), p.task = holder ∧ p.asked = true ∧
      c.request? p.place = some r := by
  obtain ⟨hkey, p, hp, hholder, ha, hr⟩ := h.loading key r holder hcell
  exact ⟨hkey, p, List.mem_map.mpr ⟨p, hp, p.ask_of_asked ha task⟩, hholder, ha, hr⟩

theorem Shared.join (h : Shared c) (hset : Settled c es) (hp : c.pursuit? task = some p)
    (hr : c.request? p.place = some r) (hk : Named.has c.cells r.key = true) :
    Shared { c with pursuits := c.pursuits.map (·.ask task) } where
  keys := h.keys
  nodup := h.nodup
  asked := h.asked_ask hset hp (List.Subset.refl _)
    ⟨r.key, h.has_eq_true_iff.mp hk, keyAt?_of_request? hr⟩
  settled := h.settled
  sent := h.sent
  loading _ _ _ hcell := h.loading_ask hcell task

/-- A request is sent under a new key. -/
theorem Shared.send (h : Shared c) (hset : Settled c es) (hp : c.pursuit? task = some p)
    (hr : c.request? p.place = some r) (hk : Named.has c.cells r.key = false) :
    Shared { c with
      pursuits := c.pursuits.map (·.ask task)
      cells := Named.insert c.cells r.key (.loading r task), loads := c.loads ++ [r.key] } := by
  have hfresh : r.key ∉ c.loads := fun hmem =>
    Bool.false_ne_true (hk.symm.trans (h.has_eq_true_iff.mpr hmem))
  have hmem := List.mem_of_find?_eq_some hp
  have hlast : r.key ∈ c.loads ++ [r.key] := List.mem_append_right _ List.mem_cons_self
  obtain ⟨htask, hplace⟩ := hset.task_eq hp
  refine ⟨?_, ?_, h.asked_ask hset hp (List.subset_append_left _ _)
    ⟨r.key, hlast, keyAt?_of_request? hr⟩, fun o ho => ?_, fun key hkey => ?_,
    fun key r' holder hcell => ?_⟩
  · rw [Named.insert_of_not_mem (h.keys ▸ hfresh), Named.keys, List.map_append]
    exact congrArg (· ++ [r.key]) h.keys
  · exact (List.perm_append_singleton r.key _).nodup_iff.mpr
      (List.nodup_cons.mpr ⟨hfresh, h.nodup⟩)
  · obtain ⟨key, hkey, hk⟩ := h.settled o ho
    exact ⟨key, List.mem_append_left _ hkey, hk⟩
  · rcases List.mem_append.mp hkey with hkey | hkey
    · exact h.sent key hkey
    · refine ⟨p.place, List.mem_singleton.mp hkey ▸ keyAt?_of_request? hr, ?_⟩
      rw [← hplace, ← htask]
      exact hset.calls.mem_iff.mpr (List.mem_append_left _ (List.mem_map_of_mem hmem))
  · rw [Named.get?_insert] at hcell
    split at hcell
    · rename_i hkey
      cases hcell
      exact ⟨hkey, p.ask task, List.mem_map_of_mem hmem, by rw [Pursuit.task_ask, htask],
        by rw [Pursuit.ask, if_pos htask], by rw [Pursuit.place_ask, ← hr]; rfl⟩
    · exact h.loading_ask hcell task

theorem Shared.answer (h : Shared c) {key : String} {a : Answer}
    (hk : Named.get? c.cells key = some (.loading r task)) :
    Shared { c with cells := Named.insert c.cells key (.answered a) } where
  keys := by
    have hmem : key ∈ Named.keys c.cells :=
      List.mem_map.mpr ⟨_, Named.mem_of_get?_eq_some hk, rfl⟩
    exact (Named.keys_insert hmem _).trans h.keys
  nodup := h.nodup
  asked := h.asked
  settled := h.settled
  sent := h.sent
  loading other r' holder hcell := by
    rw [Named.get?_insert] at hcell
    split at hcell
    · cases hcell
    · exact h.loading other r' holder hcell

/-- A property comes to its end with the response to its request. -/
theorem Shared.take (h : Shared c) (hset : Settled c es) {property : Property} {a : Answer}
    (hp : c.pursuit? task = some p) (ha : p.asked = true)
    (hs : c.selected[p.place]? = some property)
    (hk : Named.get? c.cells (Request.ofProperty property).key = some (.answered a)) :
    Shared { c with
      pursuits := c.pursuits.filter fun q => q.task != task
      outcomes := c.outcomes ++ [(p.place, outcomeOf property a)]
      queue := c.queue.operate task .give } where
  keys := h.keys
  nodup := h.nodup
  asked q hq := h.asked q (List.mem_of_mem_filter hq)
  settled o ho := by
    rcases List.mem_append.mp ho with ho | ho
    · exact h.settled o ho
    · rw [List.mem_singleton.mp ho]
      exact h.asked p (List.mem_of_find?_eq_some hp) ha
  sent := h.sent
  loading key r holder hcell := by
    obtain ⟨hkey, q, hq, hholder, hqa, hqr⟩ := h.loading key r holder hcell
    refine ⟨hkey, q, List.mem_filter.mpr ⟨hq, bne_iff_ne.mpr fun hqt => ?_⟩, hholder, hqa, hqr⟩
    -- The request of the task that ends was answered, so it is not the one that is out.
    have hreq : c.request? p.place = some (Request.ofProperty property) := by rw [request?, hs]; rfl
    rw [hset.place_eq hp hq hqt, hreq] at hqr
    rw [← hkey, ← Option.some.inj hqr, hk] at hcell
    cases hcell

/-- **Every step keeps the requests shared.** -/
theorem Shared.step (h : Shared c) (hset : Settled c es) (hs : Step c e c') : Shared c' := by
  have hsame {q : Queue.Machine Nat} (hcalls : q.calls = c.queue.calls) :
      c.calledIds ⊆ q.calls.map (·.task.id) := by
    rw [hcalls]
    exact List.Subset.refl _
  cases hs with
  | @push n =>
    obtain ⟨due, passes, hm⟩ := c.queue.exists_accept_eq n 0
    refine h.congr rfl rfl rfl rfl (fun _ _ => Iff.rfl) (hsame ?_)
    rw [hm]
  | @inQueue e qe q he hq =>
    refine h.congr rfl rfl rfl rfl (fun _ _ => Iff.rfl) (hsame ?_)
    rcases Queue.Machine.calls_of_step hq with hcalls | ⟨i, w, t, rfl, -⟩
    · exact hcalls
    · cases e <;> cases he
  | begin =>
    refine h.congr rfl rfl rfl rfl (fun q hq => ?_) ?_
    · rw [List.mem_append, or_iff_left_iff_imp, List.mem_singleton]
      rintro rfl
      cases hq
    · rw [calledIds, calledIds, List.map_append]
      exact List.subset_append_left _ _
  | join hp _ hr hk => exact h.join hset hp hr hk
  | send hp _ hr hk => exact h.send hset hp hr hk
  | answer hk => exact h.answer hk
  | take hp ha hs hk => exact h.take hset hp ha hs hk
  | pushedAll | pushStopped | pushRefused | arrive | sleep | heed | requestStop =>
    exact h.congr rfl rfl rfl rfl (fun _ _ => Iff.rfl) (hsame rfl)

end Step

/-- **Every run keeps the requests shared.** -/
theorem Shared.run {selected : List Property} {workers limit : Nat} {stopRequested : Bool}
    {c : Cycle} {es : List Event}
    (h : (Cycle.new selected workers limit stopRequested).run? es = some c) : Shared c := by
  refine run?_induction (P := fun c _ => Shared c) h (.new selected workers limit stopRequested) ?_
  intro m fs e c hm hs ih
  obtain ⟨n, hn⟩ := exists_reached hm
  exact ih.step hn.settled hs

/-! ## How many requests are out -/

section Bounds

variable {c₀ c : Cycle} {es : List Event} {n : Nat}

/-- Every property on its way has a worker. -/
theorem Reached.length_pursuits_le (h : Reached c₀ c es n) :
    c.pursuits.length ≤ c.queue.begun.length := by
  have hcalled := h.settled.calls.nodup_iff.mp h.placed.ledger.nodup_calls
  obtain ⟨hnodup, -, hapart⟩ := List.nodup_append.mp hcalled
  have hsub : c.pursuits.map (·.task) ⊆ c.queue.begun.map (·.id) := by
    intro id hid
    have hcall := h.settled.calls.mem_iff.mpr (List.mem_append_left _ hid)
    refine (List.mem_append.mp (h.placed.ledger.calls.mem_iff.mp hcall)).resolve_right fun hend => ?_
    exact hapart id hid id (h.settled.ended id hend) rfl
  simpa using (List.Nodup.subperm hnodup hsub).length_le

/-- Every request that is out has a property on its way. -/
theorem Shared.inFlight_le_length_pursuits (h : Shared c) : c.inFlight ≤ c.pursuits.length := by
  have hnodup : ((c.cells.filter (·.2.isLoading)).map (·.1)).Nodup :=
    h.nodup_keys.sublist (List.filter_sublist.map _)
  have hsub : (c.cells.filter (·.2.isLoading)).map (·.1) ⊆
      c.pursuits.filterMap fun p => c.keyAt? p.place := by
    intro key hkey
    obtain ⟨⟨key, cell⟩, hcell, rfl⟩ := List.mem_map.mp hkey
    obtain ⟨hmem, hloading⟩ := List.mem_filter.mp hcell
    cases cell with
    | answered a => cases hloading
    | loading r task =>
      obtain ⟨hkey, p, hp, -, -, hr⟩ := h.loading key r task
        ((Named.get?_eq_some_iff h.nodup_keys).mpr hmem)
      exact List.mem_filterMap.mpr ⟨p, hp, hkey ▸ keyAt?_of_request? hr⟩
  calc c.inFlight = ((c.cells.filter (·.2.isLoading)).map (·.1)).length := by
        rw [inFlight, List.countP_eq_length_filter, List.length_map]
    _ ≤ (c.pursuits.filterMap fun p => c.keyAt? p.place).length := (List.Nodup.subperm hnodup hsub).length_le
    _ ≤ c.pursuits.length := List.length_filterMap_le _ _

/-- **No more requests are out than there are workers.** -/
theorem inFlight_le {selected : List Property} {workers limit : Nat} {stopRequested : Bool}
    (h : (Cycle.new selected workers limit stopRequested).run? es = some c) :
    c.inFlight ≤ max 1 workers := by
  obtain ⟨n, hn⟩ := exists_reached h
  have hheld : c.queue.begun.length ≤ c.queue.held.length :=
    (Queue.filterMap_sublist_filterMap (fun _ _ => Queue.Stage.task?_of_begun?) _).length_le
  calc c.inFlight ≤ c.pursuits.length := (Shared.run h).inFlight_le_length_pursuits
    _ ≤ c.queue.begun.length := hn.length_pursuits_le
    _ ≤ c.queue.held.length := hheld
    _ ≤ max 1 workers := length_held_queue_le h

/-- All properties with one request come to what its one response makes of them. -/
theorem Reached.exists_response (h : Reached c₀ c es n) :
    ∃ response : String → Answer, ∀ i p o, c.selected[i]? = some p → c.outcome? i = some o →
      .answer (Request.ofProperty p).key (response (Request.ofProperty p).key) ∈ es ∧
        o = outcomeOf p ((response (Request.ofProperty p).key).map withItems) := by
  classical
  refine ⟨fun key => if ha : ∃ a, Event.answer key a ∈ es then ha.choose
    else .error (.notFound key), fun i p o hp ho => ?_⟩
  obtain ⟨q, a, hq, ha, rfl⟩ := h.exists_answer ho
  obtain rfl : p = q := Option.some.inj (hp.symm.trans hq)
  have hgiven : ∃ a, Event.answer (Request.ofProperty p).key a ∈ es := ⟨a, ha⟩
  simp only [dif_pos hgiven]
  exact ⟨hgiven.choose_spec, congrArg (outcomeOf p) (h.answer_eq ha hgiven.choose_spec)⟩

end Bounds

end Cycle

namespace Collector

/-- The cycle that a collector begins. -/
def cycle (k : Collector) (d : Declaration) (facts : Facts) : Cycle :=
  .new (k.select d facts).1 k.tuning.workers k.tuning.maxQueue k.stopRequested

/-- A collector after it has run some cycles. -/
def after (k : Collector) (cycles : List (Device × Declaration × Facts)) : Collector :=
  cycles.foldl (fun k (device, d, facts) => (k.collect device d facts).2) k

/-- What a collector reports to have sent is what a cycle has sent that events lead to. -/
theorem exists_loads_collect (k : Collector) (device : Device) (d : Declaration) (facts : Facts) :
    ∃ es c, (k.cycle d facts).run? es = some c ∧ (k.collect device d facts).1.loads = c.loads := by
  obtain ⟨es, hes⟩ := Cycle.Thread.exists_run_whole device k.tuning (k.select d facts).1
    k.stopRequested
  exact ⟨es, _, hes, rfl⟩

/-- **Requests are shared, and bounded by the workers.**  However the events of a cycle are
interleaved, whatever a device answers or leaves to be given up, and whenever a stop is requested:
no request key is sent twice; at the end that of every property whose handler was called was sent
once; none is sent but those of selected properties whose handlers were called; all properties with
one key come to what the one response to it makes of them; and no more requests are out than there
are workers, where one that was given up is out no longer.  Whatever cycles a collector has run, the
next one begins without a request, and what it reports to have sent is what some events from there
have sent. -/
theorem sharing (k : Collector) (d : Declaration) (facts : Facts) {es : List Cycle.Event}
    {c : Cycle} (h : (k.cycle d facts).run? es = some c) :
    let selected := (k.select d facts).1
    c.loads.Nodup ∧
    (c.phase = .done → ∀ i p, selected[i]? = some p → c.Ran i →
      c.loads.count (Request.ofProperty p).key = 1) ∧
    (∀ key ∈ c.loads, ∃ i p, selected[i]? = some p ∧ (Request.ofProperty p).key = key ∧ c.Ran i) ∧
    (∃ response : String → Answer, ∀ i p o, selected[i]? = some p → c.outcome? i = some o →
      .answer (Request.ofProperty p).key (response (Request.ofProperty p).key) ∈ es ∧
        o = Cycle.outcomeOf p ((response (Request.ofProperty p).key).map withItems)) ∧
    c.inFlight ≤ max 1 k.tuning.workers ∧
    ∀ cycles device d facts, ((k.after cycles).cycle d facts).cells = [] ∧
      ((k.after cycles).cycle d facts).loads = [] ∧
      ∃ es c, ((k.after cycles).cycle d facts).run? es = some c ∧
        ((k.after cycles).collect device d facts).1.loads = c.loads := by
  intro selected
  obtain ⟨n, hr⟩ := Cycle.exists_reached h
  have hshared : c.Shared := .run h
  have hselected : c.selected = selected := hr.selected
  have hkeyAt {i : Nat} {key : String} (hkey : c.keyAt? i = some key) :
      ∃ p, selected[i]? = some p ∧ (Request.ofProperty p).key = key := by
    rw [Cycle.keyAt?, Cycle.request?, hselected, Option.map_map] at hkey
    exact Option.map_eq_some_iff.mp hkey
  refine ⟨hshared.nodup, fun hd i p hp hran => ?_, fun key hkey => ?_, hselected ▸
    hr.exists_response, Cycle.inFlight_le h, fun cycles device d facts =>
      ⟨rfl, rfl, (k.after cycles).exists_loads_collect device d facts⟩⟩
  · obtain ⟨o, ho⟩ := (hr.ran_iff_exists_outcome hd).mp hran
    obtain ⟨key, hmem, hkey⟩ := hshared.settled _ (hr.outcome?_eq_some_iff.mp ho)
    obtain ⟨q, hq, rfl⟩ := hkeyAt hkey
    obtain rfl : p = q := Option.some.inj (hp.symm.trans hq)
    exact List.count_eq_one_of_mem hshared.nodup hmem
  · obtain ⟨i, hkey, hcalled⟩ := hshared.sent key hkey
    obtain ⟨p, hp, rfl⟩ := hkeyAt hkey
    exact ⟨i, p, hp, rfl, hr.ran_iff.mpr hcalled⟩

/-- Two properties with one request that are on their way at once, and a third whose request is
given up. -/
theorem sharing_three_stats :
    let d : Declaration := { stats := [
      ("a", .obj [("key", .str "x")]), ("b", .obj [("key", .str "x")]),
      ("c", .obj [("key", .str "y")])] }
    let k : Collector := { tuning := { workers := 2 } }
    ∃ (es : List Cycle.Event) (c : Cycle), (k.cycle d ⟨[]⟩).run? es = some c ∧
      c.phase = .done ∧ c.loads = ["x", "y"] ∧
      ∀ i p, (k.select d ⟨[]⟩).1[i]? = some p → c.Ran i →
        c.loads.count (Request.ofProperty p).key = 1 := by
  intro d k
  let es : List Cycle.Event := [.push, .push, .push, .push, .pass, .begin 0, .begin 1, .ask 2,
    .ask 1, .answer "x" (.ok (.bool true)), .take 1, .take 2, .finish 1, .turn 1, .begin 1, .ask 3,
    .finish 0, .turn 0, .notice, .look, .answer "y" (.error (.timeout "y")), .take 3, .finish 1,
    .turn 1, .notice, .look]
  have hrun : ((k.cycle d ⟨[]⟩).run? es).map (fun c => (c.phase, c.loads)) =
      some (.done, ["x", "y"]) := by
    decide +kernel
  obtain ⟨c, hc, hout⟩ := Option.map_eq_some_iff.mp hrun
  obtain ⟨hd, hloads⟩ := Prod.mk.inj hout
  obtain ⟨-, honce, -⟩ := sharing k d ⟨[]⟩ hc
  exact ⟨es, c, hc, hd, hloads, honce hd⟩

end Collector

end DeviceStats
