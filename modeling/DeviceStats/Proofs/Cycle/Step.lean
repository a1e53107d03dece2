import DeviceStats.Cycle.Thread
import DeviceStats.Proofs.Queue.Step
import Mathlib.Data.List.Induction

/-!
# Proofs/Cycle/Step — what one event does to a collection cycle

`Step c e c'` lists, guards included, what an event can make of a cycle, and `step?_eq_some_iff`
says that the list is complete.  A cycle that a single thread runs is one that a list of events
leads to (`Thread.exists_run_whole`), so what holds along every run holds of it.
-/

namespace DeviceStats

open Json (Value)

/-! ## The steps -/

/-- The caller of the queue that the cycle is. -/
def Phase.waiter? : Phase → Option Nat
  | .waiting => some 0
  | .leaving => some 1
  | _ => none

/-- A pursuit after its task has asked. -/
def Pursuit.ask (task : Queue.TaskId) (p : Pursuit) : Pursuit :=
  if p.task = task then { p with asked := true } else p

namespace Cycle

/-- The event of the queue that an event of the cycle is, where it is nothing more. -/
def Event.inQueue? : Event → Option (Queue.Machine.Event Nat)
  | .pass => some .pass
  | .finish worker => some (.finish worker)
  | .turn worker => some (.turn worker)
  | .notice => some .notice
  | _ => none

/-- What an event makes of a cycle. -/
inductive Step (c : Cycle) : Event → Cycle → Prop
  | push {n} (hp : c.phase = .pushing n) (hn : n < c.selected.length)
      (hs : c.stopRequested = false) (hr : c.queue.refusal? false = none) :
      Step c .push { c with queue := c.queue.accept n 0, phase := .pushing (n + 1) }
  | pushedAll {n} (hp : c.phase = .pushing n) (hn : c.selected.length ≤ n) : Step c .push c.wait
  | pushStopped {n} (hp : c.phase = .pushing n) (hn : n < c.selected.length)
      (hs : c.stopRequested = true) :
      Step c .push { c with refused? := some (n, .unscheduled) }.wait
  | pushRefused {n e} (hp : c.phase = .pushing n) (hn : n < c.selected.length)
      (hs : c.stopRequested = false) (hr : c.queue.refusal? false = some e) :
      Step c .push { c with refused? := some (n, .refused e) }.wait
  /-- What the cycle waits for has come. -/
  | arrive {k w} (hp : c.phase.waiter? = some k) (hw : c.queue.waiters[k]? = some w)
      (ht : w.waiting = .told) (hr : c.queue.reached w.goal = true) :
      Step c .look { c with
        queue := { c.queue with waiters := c.queue.waiters.set k ⟨w.goal, .done⟩ }
        phase := .done }
  /-- The cycle looks in vain. -/
  | sleep {k w} (hp : c.phase.waiter? = some k) (hw : c.queue.waiters[k]? = some w)
      (ht : w.waiting = .told) (hr : c.queue.reached w.goal = false) :
      Step c .look { c with
        queue := { c.queue with waiters := c.queue.waiters.set k ⟨w.goal, .listening⟩ } }
  | heed (hp : c.phase = .waiting) (hs : c.stopRequested = true) :
      Step c .heed { c with phase := .leaving, queue := c.queue.halt.await .idle }
  | requestStop : Step c .requestStop { c with stopRequested := true }
  | inQueue {e qe q} (he : e.inQueue? = some qe) (hq : Queue.Machine.Step c.queue qe q) :
      Step c e { c with queue := q }
  | begin {i w t} (hw : c.queue.workers[i]? = some w) (hs : w.stage = .claimed t) :
      Step c (.begin i) { c with
        queue := { c.queue.setWorker i { w with stage := .running t } with
          signals := c.queue.signals ++ [(t.id, {})], calls := c.queue.calls ++ [⟨t, i⟩] }
        pursuits := c.pursuits ++ [⟨t.id, t.payload, false⟩] }
  /-- A property waits for a request that was sent. -/
  | join {task p r} (hp : c.pursuit? task = some p) (ha : p.asked = false)
      (hr : c.request? p.place = some r) (hk : Named.has c.cells r.key = true) :
      Step c (.ask task) { c with pursuits := c.pursuits.map (·.ask task) }
  | send {task p r} (hp : c.pursuit? task = some p) (ha : p.asked = false)
      (hr : c.request? p.place = some r) (hk : Named.has c.cells r.key = false) :
      Step c (.ask task) { c with
        pursuits := c.pursuits.map (·.ask task)
        cells := Named.insert c.cells r.key (.loading r task), loads := c.loads ++ [r.key] }
  | answer {key r task a} (hk : Named.get? c.cells key = some (.loading r task)) :
      Step c (.answer key a) { c with
        cells := Named.insert c.cells key (.answered (a.map withItems)) }
  | take {task p property a} (hp : c.pursuit? task = some p) (ha : p.asked = true)
      (hs : c.selected[p.place]? = some property)
      (hk : Named.get? c.cells (Request.ofProperty property).key = some (.answered a)) :
      Step c (.take task) { c with
        pursuits := c.pursuits.filter fun q => q.task != task
        outcomes := c.outcomes ++ [(p.place, outcomeOf property a)]
        queue := c.queue.operate task .give }

/-- An event of the queue does to the cycle what it does to its queue. -/
theorem step?_inQueue {e : Event} {qe : Queue.Machine.Event Nat} (h : e.inQueue? = some qe)
    (c : Cycle) : c.step? e = c.inQueue? qe := by
  cases e <;> cases h <;> rfl

/-- Pushing ends in one of four ways: the next property goes in, all are in, a stop was asked for,
or the queue refuses. -/
theorem step_of_push? {c c' : Cycle} (h : c.push? = some c') : Step c .push c' := by
  unfold push? at h
  split at h
  · rename_i n hp
    split at h
    · rename_i hn
      cases h
      exact .pushedAll hp hn
    · rename_i hn
      have hn := Nat.lt_of_not_le hn
      split at h
      · rename_i hs
        cases h
        exact .pushStopped hp hn hs
      · rename_i hs
        have hs := Bool.eq_false_iff.mpr hs
        rw [Queue.Machine.push] at h
        cases hr : c.queue.refusal? false with
        | none =>
          rw [hr] at h
          cases h
          exact .push hp hn hs hr
        | some e =>
          rw [hr] at h
          cases h
          exact .pushRefused hp hn hs hr
  · cases h

/-- A look ends the wait or goes on listening. -/
theorem step_of_look? {c c' : Cycle} (h : c.look? = some c') : Step c .look c' := by
  obtain ⟨k, hp, h⟩ : ∃ k, c.phase.waiter? = some k ∧ ((c.queue.look? k).map fun queue =>
      { c with
        queue
        phase := if queue.waiters[k]?.any (·.waiting == .done) then .done else c.phase })
        = some c' := by
    unfold look? at h
    split at h
    · rename_i hp
      exact ⟨0, by rw [hp]; rfl, h⟩
    · rename_i hp
      exact ⟨1, by rw [hp]; rfl, h⟩
    · cases h
  obtain ⟨q, hq, rfl⟩ := Option.map_eq_some_iff.mp h
  cases Queue.Machine.step_of_step? (e := .look k) hq with
  | @look k w hw ht =>
    obtain ⟨hk, -⟩ := List.getElem?_eq_some_iff.mp hw
    cases hr : c.queue.reached w.goal with
    | true => simpa [hr, hk] using Step.arrive hp hw ht hr
    | false => simpa [hr, hk] using Step.sleep hp hw ht hr

theorem step_of_begin? {c c' : Cycle} {i : Nat} (h : c.begin? i = some c') :
    Step c (.begin i) c' := by
  unfold begin? at h
  split at h
  · rename_i w hw
    split at h
    · rename_i t q hs hq
      cases h
      cases Queue.Machine.step_of_step? (e := .begin i) hq with
      | @begin i v u hv hu =>
        obtain rfl : w = v := Option.some.inj (hw.symm.trans hv)
        obtain rfl : t = u := Queue.Stage.claimed.inj (hs.symm.trans hu)
        exact .begin hw hs
    · cases h
  · cases h

/-- Asking joins a request that was sent already, or sends one. -/
theorem step_of_ask? {c c' : Cycle} {task : Queue.TaskId} (h : c.ask? task = some c') :
    Step c (.ask task) c' := by
  unfold ask? at h
  split at h
  · rename_i p hp
    split at h
    · rename_i r ha hr
      simp only at h
      split at h
      · rename_i hk
        cases h
        exact .join hp ha hr hk
      · rename_i hk
        cases h
        exact .send hp ha hr (Bool.eq_false_iff.mpr hk)
    · cases h
  · cases h

theorem step_of_take? {c c' : Cycle} {task : Queue.TaskId} (h : c.take? task = some c') :
    Step c (.take task) c' := by
  unfold take? at h
  split at h
  · rename_i p hp
    split at h
    · rename_i property ha hs
      split at h
      · rename_i a hk
        cases h
        exact .take hp ha hs hk
      · cases h
    · cases h
  · cases h

theorem step_of_heed? {c c' : Cycle} (h : c.heed? = some c') : Step c .heed c' := by
  unfold heed? at h
  split at h
  · rename_i hp
    split at h
    · rename_i hs
      cases h
      exact .heed hp hs
    · cases h
  · cases h

theorem step_of_answer? {c c' : Cycle} {key : String} {a : Answer} (h : c.answer? key a = some c') :
    Step c (.answer key a) c' := by
  unfold answer? at h
  split at h
  · rename_i r task hk
    cases h
    exact .answer hk
  · cases h

/-- **The steps are all that can happen.** -/
theorem step_of_step? {c c' : Cycle} {e : Event} (h : c.step? e = some c') : Step c e c' := by
  have hqueue {qe : Queue.Machine.Event Nat} (he : e.inQueue? = some qe) : Step c e c' := by
    rw [step?_inQueue he] at h
    obtain ⟨q, hq, rfl⟩ := Option.map_eq_some_iff.mp h
    exact .inQueue he (Queue.Machine.step_of_step? hq)
  cases e with
  | push => exact step_of_push? h
  | look => exact step_of_look? h
  | heed => exact step_of_heed? h
  | requestStop =>
    cases h
    exact .requestStop
  | pass | finish worker | turn worker | notice => exact hqueue rfl
  | begin worker => exact step_of_begin? h
  | ask task => exact step_of_ask? h
  | answer key a => exact step_of_answer? h
  | take task => exact step_of_take? h

/-- A cycle that is told looks once: what it waits for has come, or it listens again. -/
theorem step?_of_look {c : Cycle} {k : Nat} {w : Queue.Waiter} (hp : c.phase.waiter? = some k)
    (hw : c.queue.waiters[k]? = some w) (ht : w.waiting = .told) :
    c.step? .look = some (if c.queue.reached w.goal = true then
      { c with
        queue := { c.queue with waiters := c.queue.waiters.set k ⟨w.goal, .done⟩ }
        phase := .done }
      else { c with
        queue := { c.queue with waiters := c.queue.waiters.set k ⟨w.goal, .listening⟩ } }) := by
  obtain ⟨hk, -⟩ := List.getElem?_eq_some_iff.mp hw
  have hlook := Queue.Machine.step?_of_step (.look hw ht)
  simp only [Queue.Machine.step?] at hlook
  cases hphase : c.phase with
  | waiting | leaving =>
    obtain rfl : _ = k := Option.some.inj (hphase ▸ hp)
    cases hr : c.queue.reached w.goal <;> simp [step?, look?, hphase, hlook, hr, hk]
  | _ =>
    rw [hphase] at hp
    cases hp

/-- Each step that is listed is one that the event makes. -/
theorem step?_of_step {c c' : Cycle} {e : Event} (h : Step c e c') : c.step? e = some c' := by
  cases h with
  | push hp hn hs hr =>
    simp [step?, push?, hp, Nat.not_le.mpr hn, hs, Queue.Machine.push, hr]
  | pushedAll hp hn => simp [step?, push?, hp, hn]
  | pushStopped hp hn hs => simp [step?, push?, hp, Nat.not_le.mpr hn, hs]
  | pushRefused hp hn hs hr =>
    simp [step?, push?, hp, Nat.not_le.mpr hn, hs, Queue.Machine.push, hr]
  | arrive hp hw ht hr => rw [step?_of_look hp hw ht, if_pos hr]
  | sleep hp hw ht hr => rw [step?_of_look hp hw ht, if_neg (Bool.eq_false_iff.mp hr)]
  | heed hp hs => simp [step?, heed?, hp, hs]
  | requestStop => rfl
  | inQueue he hq => rw [step?_inQueue he, inQueue?, Queue.Machine.step?_of_step hq, Option.map_some]
  | begin hw hs =>
    have hbegin := Queue.Machine.step?_of_step (.begin hw hs)
    simp only [Queue.Machine.step?] at hbegin
    simp [step?, begin?, hw, hs, hbegin]
  | join hp ha hr hk => simp [step?, ask?, hp, ha, hr, hk, Pursuit.ask]
  | send hp ha hr hk => simp [step?, ask?, hp, ha, hr, hk, Pursuit.ask]
  | answer hk => simp [step?, answer?, hk]
  | take hp ha hs hk => simp [step?, take?, hp, ha, hs, hk]

/-- **The steps are what events do**, guards included, and nothing else is. -/
theorem step?_eq_some_iff {c c' : Cycle} {e : Event} : c.step? e = some c' ↔ Step c e c' :=
  ⟨step_of_step?, step?_of_step⟩

/-! ## Runs -/

/-- A run in two parts is a run of the first part and one of the second from where that ends. -/
theorem run?_append (c : Cycle) (es fs : List Event) :
    c.run? (es ++ fs) = (c.run? es).bind fun c' => c'.run? fs := by
  simp [run?, List.foldlM_append]

/-- A run ends with a step. -/
theorem run?_concat_eq_some {c c' : Cycle} {es : List Event} {e : Event}
    (h : c.run? (es ++ [e]) = some c') : ∃ n, c.run? es = some n ∧ Step n e c' := by
  obtain ⟨n, hn, h⟩ := Option.bind_eq_some_iff.mp (run?_append c es [e] ▸ h)
  refine ⟨n, hn, step_of_step? ?_⟩
  simpa [run?] using h

/-- **What holds at the start and what every step keeps, holds along every run**, whose events so
far it may speak of. -/
theorem run?_induction {P : Cycle → List Event → Prop} {c c' : Cycle} {es : List Event}
    (h : c.run? es = some c') (hnew : P c []) (hstep : ∀ n fs e n', c.run? fs = some n →
      Step n e n' → P n fs → P n' (fs ++ [e])) : P c' es := by
  induction es using List.reverseRecOn generalizing c' with
  | nil =>
    cases h
    exact hnew
  | append_singleton es e ih =>
    obtain ⟨n, hn, hs⟩ := run?_concat_eq_some h
    exact hstep n es e c' hn hs (ih hn)

/-! ## Cycles on a thread -/

namespace Thread

/-- Events lead to the cycle of a thread. -/
def LedFrom (c : Cycle) (r : Thread) : Prop := ∃ es, c.run? es = some r.cycle

variable {c : Cycle} {r : Thread}

/-- A cycle changes by events alone. -/
theorem LedFrom.fire (h : LedFrom c r) (e : Event) : LedFrom c (r.fire e) := by
  obtain ⟨es, hes⟩ := h
  unfold Thread.fire
  split
  · rename_i c' hc'
    refine ⟨es ++ [e], ?_⟩
    rw [run?_append, hes]
    simpa [run?] using hc'
  · exact ⟨es, hes⟩

/-- A worker that has no claim calls no handler, and the thread goes on. -/
theorem LedFrom.callHandler (h : LedFrom c r) (i : Nat) : LedFrom c (r.callHandler i) := by
  unfold Thread.callHandler
  split
  · exact h.fire _
  · exact h

theorem LedFrom.advanceWorker (h : LedFrom c r) (i : Nat) : LedFrom c (r.advanceWorker i) :=
  (((h.fire _).fire _).fire _).callHandler i

theorem LedFrom.conclude (h : LedFrom c r) (task : Queue.TaskId) : LedFrom c (r.conclude task) :=
  h.fire _

/-- The reply, or a timeout in its place, is one event, and that its sender takes it another. -/
theorem LedFrom.answer (h : LedFrom c r) (d : Device) (timeout : Nat) (request : Request)
    (task : Queue.TaskId) : LedFrom c (answer d timeout r request task) := by
  refine LedFrom.conclude ?_ task
  exact h.fire (.answer request.key ((d request).within timeout request))

/-- Asking may send a request, and a stop may be requested as soon as it is sent. -/
theorem LedFrom.ask (h : LedFrom c r) (d : Device) (timeout : Nat) (task : Queue.TaskId) :
    LedFrom c (ask d timeout r task) := by
  have hask := h.fire (.ask task)
  unfold Thread.ask
  simp only
  split
  · exact hask.conclude task
  · rename_i request _
    have hstop : LedFrom c (if (d request).stops then (r.fire (.ask task)).fire .requestStop
        else r.fire (.ask task)) := by
      split
      · exact hask.fire _
      · exact hask
    split
    · exact hstop.answer d timeout request task
    · exact hstop

theorem LedFrom.advancePursuit (h : LedFrom c r) (d : Device) (timeout : Nat)
    (task : Queue.TaskId) : LedFrom c (advancePursuit d timeout r task) := by
  unfold Thread.advancePursuit
  split
  · exact h.answer d timeout _ task
  · split
    · split
      · exact h.conclude task
      · exact h.ask d timeout task
    · exact h

theorem LedFrom.runJob (h : LedFrom c r) (d : Device) (timeout : Nat) (j : Job) :
    LedFrom c (runJob d timeout r j) := by
  cases j with
  | pass => exact h.fire .pass
  | worker i => exact h.advanceWorker i
  | pursuit task => exact h.advancePursuit d timeout task

/-- A batch is nothing but jobs, one after the other. -/
theorem LedFrom.runBatch (h : LedFrom c r) (d : Device) (timeout n : Nat) :
    LedFrom c (runBatch d timeout n r) := by
  induction n generalizing r with
  | zero => exact h
  | succ n ih =>
    unfold Thread.runBatch
    split
    · exact h
    · refine ih (LedFrom.runJob ?_ d timeout _)
      exact h

theorem LedFrom.attend (h : LedFrom c r) : LedFrom c r.attend := ((h.fire _).fire _).fire _

/-- Between two batches time may pass, which is no event. -/
theorem LedFrom.drive (h : LedFrom c r) (d : Device) (timeout fuel : Nat) :
    LedFrom c (drive d timeout fuel r) := by
  induction fuel generalizing r with
  | zero => exact h
  | succ fuel ih =>
    have hr := (h.runBatch d timeout batch).attend
    unfold Thread.drive
    simp only
    split
    · exact hr
    · split
      · exact ih hr
      · split
        · exact ih hr
        · exact hr

theorem LedFrom.pushAll (h : LedFrom c r) : LedFrom c r.pushAll := by
  have hr (l : List Nat) : LedFrom c (l.foldl (fun r _ => r.fire .push) r) := by
    induction l generalizing r with
    | nil => exact h
    | cons _ l ih => exact ih (h.fire .push)
  unfold Thread.pushAll
  simp only
  split
  · exact hr _
  · exact hr _

/-- **A cycle that a thread runs is one that events lead to.** -/
theorem exists_run_whole (d : Device) (t : Tuning) (selected : List Property)
    (stopRequested : Bool) : ∃ es, (Cycle.new selected t.workers t.maxQueue stopRequested).run? es
      = some (whole d t selected stopRequested).cycle := by
  have hnew : LedFrom (.new selected t.workers t.maxQueue stopRequested)
      { cycle := .new selected t.workers t.maxQueue stopRequested } := ⟨[], rfl⟩
  have hstart := hnew.pushAll.attend
  change LedFrom _ _
  unfold whole
  simp only
  split
  · exact hstart
  · exact hstart.drive d t.timeout _

end Thread

end Cycle

end DeviceStats
