import DeviceStats.Proofs.Queue.Ledger

/-!
# Proofs/Queue/Stopping — what a stop ends, and what it waits for

Only a pass and a worker that goes on hand out tasks, so a worker has after a step what it had
before, unless it is in rotation and the task waited (`has_of_step`).  A stopped queue has nothing
that waits (`Shut`), and a worker out of rotation stays out until it is started again
(`isOut_of_step`); both are kept by every step.  Whoever waits for a stop is done only where its
goal is reached (`waiter_of_step`).  Together: a stop is final, and waits for what runs
(`stop_is_final`).
-/

namespace DeviceStats.Queue

variable {α : Type}

/-- It takes no task, neither now nor after the one that it has. -/
def Worker.IsOut (w : Worker α) : Prop := w.stopping = true ∨ w.stopped = true ∧ w.isBusy = false

theorem Worker.IsOut.available_eq_false {w : Worker α} (h : w.IsOut) : w.available = false := by
  rcases h with h | ⟨h, -⟩ <;> simp [available, h]

/-- A worker that goes on after its task is in rotation. -/
theorem Worker.not_isOut_of_ended {w : Worker α} {t : Task α} (hs : w.stage = .ended t)
    (hl : w.stopping = false) : ¬ w.IsOut := by
  rintro (h | ⟨-, hb⟩)
  · exact Bool.noConfusion (hl.symm.trans h)
  · rw [isBusy, hs] at hb
    cases hb

/-- A worker that is told to stop is out of rotation. -/
theorem Worker.isOut_stop (w : Worker α) :
    (if w.isBusy then { w with stopping := true } else { w with stopped := true }).IsOut := by
  cases hb : w.isBusy with
  | true => exact .inl rfl
  | false => exact .inr ⟨rfl, hb⟩

namespace Machine

variable {m m' : Machine α} {e : Event α} {i : Nat} {t : Task α}

/-! ## What workers have -/

/-- **Who has a task had it, or is in rotation and took one that waited.** -/
theorem has_of_step (h : Step m e m') (ht : m'.Has i t) : m.Has i t ∨
    t ∈ m.pending ∧ ∃ w, m.workers[i]? = some w ∧ ¬ w.IsOut := by
  obtain ⟨w', hw', ht⟩ := ht
  obtain ⟨w, hw, hstep⟩ := exists_workerStep h hw'
  cases hstep with
  | same | start => exact .inl ⟨_, hw, ht⟩
  | stop => exact .inl ⟨w, hw, by split at ht <;> exact ht⟩
  | begin hs | finish hs => exact .inl ⟨w, hw, by simpa [hs] using ht⟩
  | leave | rest => cases ht
  | take ha hu =>
    cases ht
    exact .inr ⟨hu, w, hw, fun hout => Bool.noConfusion (ha.symm.trans hout.available_eq_false)⟩
  | goOn hs _ hl hu =>
    cases ht
    exact .inr ⟨hu, w, hw, Worker.not_isOut_of_ended hs hl⟩

/-! ## A queue that is shut -/

/-- A stopped queue in which nothing waits. -/
structure Shut (m : Machine α) : Prop where
  stopped : m.stopped = true
  pending : m.pending = []

theorem Shut.step (h : Shut m) (hs : Step m e m') : Shut m' := by
  refine ⟨?_, ?_⟩
  · by_contra hgo
    have hwas := (not_stopped_of_step hs (Bool.eq_false_iff.mpr hgo)).1
    exact Bool.noConfusion (h.stopped.symm.trans hwas)
  cases hs with
  | accept hr =>
    exact Bool.noConfusion (h.stopped.symm.trans (refusal?_eq_none_iff.mp hr).2.1)
  | pass =>
    obtain ⟨workers, pending, hm, hkept | hassign⟩ := m.exists_pass_eq
    · rw [hm, hkept.2]
      exact h.pending
    · rw [h.pending, assign_nil] at hassign
      rw [hm]
      exact congrArg Prod.snd hassign
  | goOn _ _ _ hr => exact Bool.noConfusion (h.stopped.symm.trans hr)
  | stop => rfl
  | startWorker _ hp => exact absurd h.pending hp
  | _ => exact h.pending

/-- Nobody gets a task of a queue that is shut. -/
theorem Shut.has_of_step (h : Shut m) (hs : Step m e m') (ht : m'.Has i t) : m.Has i t :=
  (Machine.has_of_step hs ht).resolve_right fun hp => List.not_mem_nil (h.pending ▸ hp.1)

/-- A queue is idle when nobody has a task. -/
theorem isIdle_iff_forall_not_has : m.isIdle = true ↔ ∀ i t, ¬ m.Has i t := by
  refine isIdle_eq_true_iff.trans ⟨fun h i t ⟨w, hw, ht⟩ => ?_, fun h i w hw => ?_⟩
  · have hfree := h i w hw
    rw [Worker.isBusy, ht] at hfree
    cases hfree
  · refine Bool.eq_false_iff.mpr fun hb => ?_
    obtain ⟨t, ht⟩ := Option.isSome_iff_exists.mp hb
    exact h i t ⟨w, hw, ht⟩

theorem Shut.isIdle_of_step (h : Shut m) (hs : Step m e m') (hi : m.isIdle = true) :
    m'.isIdle = true :=
  isIdle_iff_forall_not_has.mpr fun i t ht =>
    isIdle_iff_forall_not_has.mp hi i t (h.has_of_step hs ht)

/-- **A queue that is shut and idle calls no handler any more.** -/
theorem Shut.calls_of_run {es : List (Event α)} (h : Shut m) (hi : m.isIdle = true)
    (hr : m.run? es = some m') : m'.calls = m.calls := by
  refine (run?_keeps (P := fun n => (Shut n ∧ n.isIdle = true) ∧ n.calls = m.calls) ?_ hr
    ⟨⟨h, hi⟩, rfl⟩).2
  rintro n e n' ⟨⟨hn, hidle⟩, hcalls⟩ hs
  refine ⟨⟨hn.step hs, hn.isIdle_of_step hs hidle⟩, ?_⟩
  rcases Machine.calls_of_step hs with heq | ⟨i, w, t, -, hw, hst, -⟩
  · exact heq.trans hcalls
  · exact absurd hidle (not_isIdle_of_busy hw (by rw [Worker.isBusy, hst]; rfl))

/-! ## Workers out of rotation -/

/-- **A worker stays out of rotation until it is started again.** -/
theorem isOut_of_step {w : Worker α} (h : Step m e m') (he : e ≠ .startWorker i)
    (hw : m.workers[i]? = some w) (ho : w.IsOut) :
    ∃ w', m'.workers[i]? = some w' ∧ w'.IsOut := by
  obtain ⟨w', hw', hstep⟩ := workerStep_of_step h hw
  refine ⟨w', hw', ?_⟩
  have hbusy {s : Stage α} (hs : w.stage = s) (hb : s.task?.isSome = true) : w.stopping = true :=
    ho.resolve_right fun hl => by simp [Worker.isBusy, hs, hb] at hl
  cases hstep with
  | same => exact ho
  | take ha => exact Bool.noConfusion (ha.symm.trans ho.available_eq_false)
  | begin hs | finish hs => exact .inl (hbusy hs rfl)
  | leave => exact .inr ⟨rfl, rfl⟩
  | goOn hs _ hl | rest hs _ hl => exact absurd ho (Worker.not_isOut_of_ended hs hl)
  | stop => exact w.isOut_stop
  | start heq => exact absurd heq he

/-! ## Tasks that have ended -/

theorem signal?_operate (m : Machine α) (id id' : TaskId) (op : SignalOp) :
    (m.operate id' op).signal? id =
      (m.signal? id).map fun s => if id = id' then s.after op else s := by
  rw [signal?, operate, List.find?_map, signal?]
  have hp : ((fun s : TaskId × Signal => s.1 == id) ∘
      fun s => if s.1 = id' then (s.1, s.2.after op) else s) = fun s => s.1 == id := by
    funext s
    simp only [Function.comp_apply]
    split <;> rfl
  rw [hp, Option.map_map, Option.map_map]
  cases hfind : m.signals.find? fun s => s.1 == id with
  | none => rfl
  | some s =>
    have hid : s.1 = id := by simpa using List.find?_some hfind
    subst hid
    simp only [Option.map_some, Function.comp_apply]
    split <;> rfl

/-- A signal that was given stays given. -/
theorem isGiven_of_step {id : TaskId} (h : Step m e m') (hg : m.isGiven id = true) :
    m'.isGiven id = true := by
  obtain ⟨s, hs, hopened⟩ := (Option.any_eq_true ..).mp hg
  obtain ⟨hsignals, -⟩ | ⟨t, i, hsignals, -⟩ | ⟨id', op, -, rfl⟩ := signals_cases_of_step h
  · rwa [isGiven, signal?, hsignals]
  · obtain ⟨p, hfind, rfl⟩ := Option.map_eq_some_iff.mp hs
    refine (Option.any_eq_true ..).mpr ⟨p.2, ?_, hopened⟩
    rw [signal?, hsignals, List.find?_append, hfind]
    rfl
  · have hafter (h : (s.after op).opened = true) : s.opened = true := s.opened_after_le op h
    rw [isGiven, signal?_operate, hs]
    simp only [Option.map_some, Option.any_some]
    split <;> simp_all

/-- Only tasks whose signals were given have ended, or are seen to have. -/
structure Completed (m : Machine α) : Prop where
  ended : ∀ id ∈ m.ended, m.isGiven id = true
  seen : ∀ (i : Nat) (w : Worker α) (t : Task α), m.workers[i]? = some w → w.stage = .ended t →
    m.isGiven t.id = true

theorem Completed.new (concurrency limit : Nat) :
    Completed (new concurrency limit : Machine α) where
  ended _ h := absurd h List.not_mem_nil
  seen i w t hw hs := by
    have hnew := List.eq_of_mem_replicate (List.mem_of_getElem? hw)
    rw [hnew] at hs
    cases hs

/-- A step ends no task but one that its worker has seen to end. -/
theorem ended_of_step (h : Step m e m') : m'.ended = m.ended ∨
    ∃ (i : Nat) (w : Worker α) (t : Task α),
      m.workers[i]? = some w ∧ w.stage = .ended t ∧ m'.ended = m.ended ++ [t.id] := by
  cases h with
  | accept | startWorker => exact .inl (sameView_schedule _).ended
  | pass => exact .inl m.sameView_pass.ended
  | leave hw hs | goOn hw hs | rest hw hs => exact .inr ⟨_, _, _, hw, hs, rfl⟩
  | _ => exact .inl rfl

theorem mem_ended_of_step {id : TaskId} (h : Step m e m') (hid : id ∈ m.ended) :
    id ∈ m'.ended := by
  rcases ended_of_step h with heq | ⟨_, _, _, -, -, heq⟩
  · exact heq ▸ hid
  · exact heq ▸ List.mem_append_left _ hid

theorem Completed.step (h : Completed m) (hs : Step m e m') : Completed m' where
  ended id hid := by
    refine isGiven_of_step hs ?_
    rcases ended_of_step hs with heq | ⟨i, w, t, hw, hst, heq⟩ <;> rw [heq] at hid
    · exact h.ended id hid
    · rcases List.mem_append.mp hid with hid | hid
      · exact h.ended id hid
      · exact List.mem_singleton.mp hid ▸ h.seen i w t hw hst
  seen i w' t hw' hst := by
    obtain ⟨w, hw, hstep⟩ := exists_workerStep hs hw'
    refine isGiven_of_step hs ?_
    cases hstep with
    | same | start => exact h.seen i _ t hw hst
    | stop => exact h.seen i w t hw (by split at hst <;> exact hst)
    | take | begin | leave | goOn | rest => cases hst
    | finish _ hg =>
      cases hst
      exact hg

/-! ## Who waits for a stop -/

/-- Whoever is told keeps its place and its goal, and is not done by that. -/
theorem waiters_tell_getElem? {k : Nat} {w : Waiter} (hw : m.waiters[k]? = some w) :
    ∃ s, m.tell.waiters[k]? = some ⟨w.goal, s⟩ ∧ (s = .done → w.waiting = .done) := by
  rw [tell, List.getElem?_map, hw]
  by_cases hl : w.waiting = .listening
  · exact ⟨.told, by simp [hl], nofun⟩
  · exact ⟨w.waiting, by simp [hl], id⟩

/-- Another who comes to wait waits behind. -/
theorem waiters_await_getElem?_of_eq_some {k : Nat} {w : Waiter} (hw : m.waiters[k]? = some w)
    (g : Goal) : (m.await g).waiters[k]? = some w := by
  obtain ⟨hk, -⟩ := List.getElem?_eq_some_iff.mp hw
  rw [await, List.getElem?_append_left hk, hw]

/-- **Who waits keeps its place and its goal, and is done only where the goal is reached.** -/
theorem waiter_of_step {k : Nat} {w : Waiter} (h : Step m e m') (hw : m.waiters[k]? = some w) :
    ∃ s, m'.waiters[k]? = some ⟨w.goal, s⟩ ∧
      (s = .done → w.waiting = .done ∨ m.reached w.goal = true) := by
  have hsame (n : Machine α) (hn : n.waiters = m.waiters) : ∃ s,
      n.waiters[k]? = some ⟨w.goal, s⟩ ∧
        (s = .done → w.waiting = .done ∨ m.reached w.goal = true) :=
    ⟨w.waiting, hn ▸ hw, .inl⟩
  cases h with
  | accept | startWorker => exact hsame _ (sameView_schedule _).waiters
  | pass => exact hsame _ m.sameView_pass.waiters
  | refuse | begin | operate | leave | goOn | rest | stopNobody | startIdly | startNobody =>
    exact hsame _ rfl
  | drain | stop | stopWorker =>
    exact ⟨w.waiting, waiters_await_getElem?_of_eq_some hw _, .inl⟩
  | finish | notice =>
    obtain ⟨s, hs, hdone⟩ := waiters_tell_getElem? hw
    exact ⟨s, hs, fun h => .inl (hdone h)⟩
  | @look l v hv =>
    by_cases hl : l = k
    · obtain rfl : v = w := Option.some.inj (hv.symm.trans (hl ▸ hw))
      obtain ⟨hk, -⟩ := List.getElem?_eq_some_iff.mp hw
      refine ⟨_, by rw [hl]; exact List.getElem?_set_self hk, fun hdone => .inr ?_⟩
      by_contra hr
      rw [if_neg hr] at hdone
      cases hdone
    · exact ⟨w.waiting, (List.getElem?_set_ne hl).trans hw, .inl⟩

/-! ## Stops are final -/

/-- What is known after a call of stop at `n`. -/
structure Stopping (n m : Machine α) : Prop where
  shut : Shut m
  kept : ∀ i t, m.Has i t → n.Has i t
  caller : ∃ s, m.waiters[n.waiters.length]? = some ⟨.idle, s⟩ ∧ (s = .done → m.isIdle = true)

theorem waiters_await_getElem? (m : Machine α) (g : Goal) :
    (m.await g).waiters[m.waiters.length]? = some ⟨g, .told⟩ :=
  List.getElem?_concat_length

theorem Stopping.call (n : Machine α) : Stopping n (n.halt.await .idle) where
  shut := ⟨rfl, rfl⟩
  kept _ _ := id
  caller := ⟨.told, n.halt.waiters_await_getElem? .idle, fun h => by cases h⟩

theorem Stopping.step {n : Machine α} (h : Stopping n m) (hs : Step m e m') : Stopping n m' where
  shut := h.shut.step hs
  kept i t ht := h.kept i t (h.shut.has_of_step hs ht)
  caller := by
    obtain ⟨s, hw, hdone⟩ := h.caller
    obtain ⟨s', hw', hreached⟩ := waiter_of_step hs hw
    exact ⟨s', hw', fun hs' => h.shut.isIdle_of_step hs ((hreached hs').elim hdone id)⟩

theorem Stopping.of_run {n : Machine α} {fs : List (Event α)} (h : n.run? (.stop :: fs) = some m) :
    Stopping n m := by
  obtain ⟨n', hs, hrun⟩ := run?_cons_eq_some h
  cases hs
  exact run?_keeps (fun _ _ _ hm hs => hm.step hs) hrun (.call n)

/-- What is known after a call at `n` to stop a worker. -/
structure StoppingWorker (n : Machine α) (i : Nat) (m : Machine α) : Prop where
  completed : Completed m
  tasks : ∀ t, n.Has i t → m.Has i t ∨ t.id ∈ m.ended
  caller : ∃ s, m.waiters[n.waiters.length]? = some ⟨.freed i, s⟩ ∧
    (s = .done → ∀ t, n.Has i t → t.id ∈ m.ended)

theorem StoppingWorker.call {n : Machine α} {w : Worker α} (h : Completed n)
    (hw : n.workers[i]? = some w) (hs : Step n (.stopWorker i) m) : StoppingWorker n i m where
  completed := h.step hs
  tasks t ht := by
    obtain ⟨v, hv, hstep⟩ := workerStep_of_step hs hw
    obtain ⟨w', hw', ht⟩ := ht
    obtain rfl : w = w' := Option.some.inj (hw.symm.trans hw')
    exact (hstep.task?_eq_or_ended ht).imp (fun hu => ⟨v, hv, hu⟩) And.right
  caller := by
    cases hs with
    | stopNobody hnone => exact absurd (hw.symm.trans hnone) (Option.some_ne_none w)
    | stopWorker => exact ⟨.told, waiters_await_getElem? _ _, fun h => by cases h⟩

theorem StoppingWorker.step {n : Machine α} (h : StoppingWorker n i m) (hs : Step m e m') :
    StoppingWorker n i m' where
  completed := h.completed.step hs
  tasks t ht := by
    rcases h.tasks t ht with ⟨w, hw, hu⟩ | hended
    · obtain ⟨w', hw', hstep⟩ := workerStep_of_step hs hw
      exact (hstep.task?_eq_or_ended hu).imp (fun hu' => ⟨w', hw', hu'⟩) And.right
    · exact .inr (mem_ended_of_step hs hended)
  caller := by
    obtain ⟨s, hw, hdone⟩ := h.caller
    obtain ⟨s', hw', hreached⟩ := waiter_of_step hs hw
    refine ⟨s', hw', fun hs' t ht => mem_ended_of_step hs ?_⟩
    rcases hreached hs' with hs | hfree
    · exact hdone hs t ht
    · -- The worker is free, so it has let go of what it had.
      refine (h.tasks t ht).resolve_left fun ⟨w, hw, hu⟩ => ?_
      simp [reached, hw, Worker.isBusy, hu] at hfree

theorem StoppingWorker.of_run {n : Machine α} {w : Worker α} {fs : List (Event α)}
    (hn : Completed n) (hw : n.workers[i]? = some w)
    (h : n.run? (.stopWorker i :: fs) = some m) : StoppingWorker n i m := by
  obtain ⟨n', hs, hrun⟩ := run?_cons_eq_some h
  exact run?_keeps (fun _ _ _ hm hs => hm.step hs) hrun (.call hn hw hs)

/-- A worker out of rotation has only what it had. -/
theorem has_of_run_of_isOut {w : Worker α} {fs : List (Event α)} (hw : m.workers[i]? = some w)
    (ho : w.IsOut) (hr : m.run? fs = some m') (hfs : .startWorker i ∉ fs) (ht : m'.Has i t) :
    m.Has i t := by
  induction fs generalizing m w with
  | nil =>
    cases hr
    exact ht
  | cons f fs ih =>
    obtain ⟨n, hs, hr⟩ := run?_cons_eq_some hr
    obtain ⟨hf, hfs⟩ := not_or.mp (mt List.mem_cons.mpr hfs)
    obtain ⟨v, hv, hout⟩ := isOut_of_step hs (Ne.symm hf) hw ho
    rcases has_of_step hs (ih hv hout hr hfs) with ht | ⟨-, u, hu, hin⟩
    · exact ht
    · obtain rfl : w = u := Option.some.inj (hw.symm.trans hu)
      exact absurd ho hin

/-- A stopped worker has only what it had at the call, until it is started again. -/
theorem has_of_run_of_stopWorker {w : Worker α} {fs : List (Event α)} (hw : m.workers[i]? = some w)
    (hr : m.run? (.stopWorker i :: fs) = some m') (hfs : .startWorker i ∉ fs) (ht : m'.Has i t) :
    m.Has i t := by
  obtain ⟨n, hs, hr⟩ := run?_cons_eq_some hr
  cases hs with
  | stopNobody hnone => exact absurd (hw.symm.trans hnone) (Option.some_ne_none w)
  | @stopWorker _ v hv =>
    let v' := if v.isBusy then { v with stopping := true } else { v with stopped := true }
    have hv' : ((m.setWorker i v').await (.freed i)).workers[i]? = some v' :=
      (setWorker_getElem? hv v' i).trans (if_pos rfl)
    obtain ⟨u, hu, htask⟩ := has_of_run_of_isOut hv' v.isOut_stop hr hfs ht
    obtain rfl := Option.some.inj (hv'.symm.trans hu)
    refine ⟨v, hv, ?_⟩
    dsimp only [v'] at htask
    split at htask <;> exact htask

/-- **Stopping is final and waits.**  Whatever happened to a queue before, and whatever happens
after a call of stop, in whatever order: nothing waits any more, no worker has a task that it did
not have at the call, and every push is refused; the call is done only where no worker has a task,
and then no handler is ever called again.  After a call to stop a worker: the call is done only when
the task that the worker had, if any, has ended and its signal was given; and unless the worker is
started again it has no task that it did not have at the call. -/
theorem stop_is_final {concurrency limit : Nat} {es : List (Event α)} {n : Machine α}
    (hn : (new concurrency limit).run? es = some n) :
    (∀ fs m, n.run? (.stop :: fs) = some m →
      m.pending = [] ∧ (∀ i t, m.Has i t → n.Has i t) ∧
      (∀ payload priority, m.push payload priority false = .error .stopped) ∧
      ∃ s, m.waiters[n.waiters.length]? = some ⟨.idle, s⟩ ∧ (s = .done →
        m.isIdle = true ∧ ∀ gs m', m.run? gs = some m' → m'.calls = m.calls)) ∧
    ∀ i < n.workers.length, ∀ fs m, n.run? (.stopWorker i :: fs) = some m →
      (∃ s, m.waiters[n.waiters.length]? = some ⟨.freed i, s⟩ ∧ (s = .done →
        ∀ t, n.Has i t → t.id ∈ m.ended ∧ m.isGiven t.id = true)) ∧
      (.startWorker i ∉ fs → ∀ t, m.Has i t → n.Has i t) := by
  refine ⟨fun fs m hr => ?_, fun i hi fs m hr => ?_⟩
  · have h : Stopping n m := .of_run hr
    obtain ⟨s, hw, hdone⟩ := h.caller
    refine ⟨h.shut.pending, h.kept, fun payload priority => ?_, s, hw, fun hs => ?_⟩
    · simp [push, refusal?, h.shut.stopped]
    · exact ⟨hdone hs, fun gs m' hgs => h.shut.calls_of_run (hdone hs) hgs⟩
  · have hwi := List.getElem?_eq_getElem hi
    have hcompleted : Completed n :=
      run?_keeps (fun _ _ _ hm hs => hm.step hs) hn (.new concurrency limit)
    have h : StoppingWorker n i m := .of_run hcompleted hwi hr
    obtain ⟨s, hw, hdone⟩ := h.caller
    exact ⟨⟨s, hw, fun hs t ht => ⟨hdone hs t ht, h.completed.ended _ (hdone hs t ht)⟩⟩,
      fun hfs t ht => has_of_run_of_stopWorker hwi hr hfs ht⟩

/-- A stop comes when one worker runs a task and the other has not begun the one it has. -/
theorem stop_is_final_two_workers :
    let es : List (Event String) := [.push "a" 0 false, .push "b" 0 false, .push "c" 0 false,
      .pass, .begin 0]
    let fs : List (Event String) := [.look 0, .begin 1, .operate 2 .give, .finish 1, .turn 1,
      .notice, .look 0, .operate 1 .release, .finish 0, .turn 0, .notice, .look 0]
    ∃ n m, (new 2 10).run? es = some n ∧ n.run? (.stop :: fs) = some m ∧
      m.waiters[0]? = some ⟨.idle, .done⟩ ∧ m.isIdle = true ∧
      ∀ gs m', m.run? gs = some m' → m'.calls = m.calls := by
  intro es fs
  have hn : (new 2 10).run? es = some _ := rfl
  have hm := (stop_is_final hn).1 fs _ rfl
  obtain ⟨s, hw, hdone⟩ := hm.2.2.2
  cases hw
  exact ⟨_, _, hn, rfl, rfl, hdone rfl⟩

end Machine

end DeviceStats.Queue
