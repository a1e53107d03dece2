import DeviceStats.Queue.Machine
import Mathlib.Data.List.Perm.Basic

/-!
# Proofs/Queue/Step — what one event does to a queue

`Step m e m'` lists, guards included, what an event can make of a machine; `step?_eq_some_iff` says
that the list is complete.  What every step keeps holds along every run (`run?_keeps`), and what
follows speaks of steps and never unfolds the machine's functions again.
-/

namespace DeviceStats.Queue.Machine

variable {α : Type}

/-- A task is taken in inside a runtime, by a queue that goes on and has room. -/
theorem refusal?_eq_none_iff {m : Machine α} {outside : Bool} : m.refusal? outside = none ↔
    outside = false ∧ m.stopped = false ∧ m.pending.length < m.limit := by
  rw [← Nat.not_le]
  cases outside <;> cases hs : m.stopped <;> simp [refusal?, hs]

theorem assign_nil (ws : List (Worker α)) : assign ws [] = (ws, []) := by
  cases ws <;> rfl

@[simp] theorem length_assign (ws : List (Worker α)) (ts : List (Task α)) :
    (assign ws ts).1.length = ws.length := by
  induction ws generalizing ts with
  | nil => rfl
  | cons w ws ih =>
    cases ts with
    | nil => rfl
    | cons t ts =>
      unfold assign
      split <;> simp [ih]

/-- A dispatch pass leaves a worker alone that has a task. -/
theorem assign_getElem?_of_not_available {ws : List (Worker α)} {i : Nat} {w : Worker α}
    (hw : ws[i]? = some w) (ha : w.available = false) (ts : List (Task α)) :
    (assign ws ts).1[i]? = some w := by
  induction ws generalizing ts i with
  | nil => simp at hw
  | cons v ws ih =>
    cases ts with
    | nil => exact hw
    | cons t ts =>
      cases i with
      | zero =>
        obtain rfl : v = w := by simpa using hw
        simp [assign, ha]
      | succ i =>
        unfold assign
        split <;> exact ih hw _

/-- What a dispatch pass makes of each worker. -/
theorem assign_getElem? {ws : List (Worker α)} {ts : List (Task α)} {i : Nat} {w' : Worker α}
    (h : (assign ws ts).1[i]? = some w') : ∃ w, ws[i]? = some w ∧
      (w' = w ∨ w.available = true ∧ ∃ t ∈ ts, w' = { w with stage := .claimed t }) := by
  induction ws generalizing ts i with
  | nil => simp [assign] at h
  | cons w ws ih =>
    cases ts with
    | nil => exact ⟨w', by simpa [assign] using h, .inl rfl⟩
    | cons t ts =>
      by_cases ha : w.available = true
      · simp only [assign, ha, if_true] at h
        cases i with
        | zero =>
          obtain rfl : { w with stage := .claimed t } = w' := by simpa using h
          exact ⟨w, rfl, .inr ⟨ha, t, by simp, rfl⟩⟩
        | succ i =>
          obtain ⟨v, hv, hw⟩ := ih (by simpa using h)
          refine ⟨v, by simpa using hv, hw.imp id fun hclaims => ?_⟩
          obtain ⟨hv, u, hu, h⟩ := hclaims
          exact ⟨hv, u, List.mem_cons_of_mem _ hu, h⟩
      · simp only [assign, ha, if_false, Bool.false_eq_true] at h
        cases i with
        | zero => exact ⟨w, rfl, .inl (by simpa using h.symm)⟩
        | succ i =>
          obtain ⟨v, hv, hw⟩ := ih (by simpa using h)
          exact ⟨v, by simpa using hv, hw⟩

theorem setWorker_getElem? {m : Machine α} {i : Nat} {w : Worker α} (hw : m.workers[i]? = some w)
    (w' : Worker α) (j : Nat) :
    (m.setWorker i w').workers[j]? = if i = j then some w' else m.workers[j]? := by
  obtain ⟨hi, -⟩ := List.getElem?_eq_some_iff.mp hw
  simp only [setWorker, List.getElem?_set, hi, if_true]

theorem isIdle_eq_true_iff {m : Machine α} :
    m.isIdle = true ↔ ∀ (i : Nat) (w : Worker α), m.workers[i]? = some w → w.isBusy = false := by
  simp only [isIdle, List.all_eq_true, Bool.not_eq_true']
  constructor
  · intro h i w hw
    exact h w (List.mem_of_getElem? hw)
  · intro h w hw
    obtain ⟨i, hi⟩ := List.mem_iff_getElem?.mp hw
    exact h i w hi

theorem not_isIdle_of_busy {m : Machine α} {i : Nat} {w : Worker α} (hw : m.workers[i]? = some w)
    (hb : w.isBusy = true) : m.isIdle ≠ true := fun h =>
  Bool.false_ne_true ((isIdle_eq_true_iff.mp h i w hw).symm.trans hb)

/-! ## What scheduling and passing change -/

/-- Asking for a pass changes nothing but the passes asked for. -/
theorem exists_schedule_eq (m : Machine α) :
    ∃ due passes, m.schedule = { m with passDue := due, passes := passes } := by
  unfold schedule
  split
  · exact ⟨m.passDue, m.passes, rfl⟩
  · exact ⟨true, m.passes + 1, rfl⟩

/-- Taking a task in changes nothing but what waits, the next id, and the passes asked for. -/
theorem exists_accept_eq (m : Machine α) (payload : α) (priority : Int) : ∃ due passes,
    m.accept payload priority = { m with
      pending := place ⟨m.nextId, priority, payload⟩ m.pending, nextId := m.nextId + 1
      passDue := due, passes := passes } :=
  exists_schedule_eq _

/-- A dispatch pass changes nothing but who has the tasks. -/
theorem exists_pass_eq (m : Machine α) : ∃ workers pending,
    m.pass = { m with
      passDue := false, passes := m.passes - 1, workers := workers, pending := pending } ∧
    (workers = m.workers ∧ pending = m.pending ∨
      (workers, pending) = assign m.workers m.pending) := by
  unfold pass
  simp only
  split
  · exact ⟨m.workers, m.pending, rfl, .inl ⟨rfl, rfl⟩⟩
  · exact ⟨_, _, rfl, .inr rfl⟩

/-- All is as it was but who has the tasks, and the passes asked for. -/
structure SameView (m m' : Machine α) : Prop where
  limit : m'.limit = m.limit
  stopped : m'.stopped = m.stopped
  signals : m'.signals = m.signals
  waiters : m'.waiters = m.waiters
  notices : m'.notices = m.notices
  calls : m'.calls = m.calls
  ended : m'.ended = m.ended
  discarded : m'.discarded = m.discarded

theorem sameView_schedule (m : Machine α) : SameView m m.schedule := by
  obtain ⟨due, passes, hm⟩ := m.exists_schedule_eq
  rw [hm]
  exact ⟨rfl, rfl, rfl, rfl, rfl, rfl, rfl, rfl⟩

theorem sameView_pass (m : Machine α) : SameView m m.pass := by
  obtain ⟨workers, pending, hm, -⟩ := m.exists_pass_eq
  rw [hm]
  exact ⟨rfl, rfl, rfl, rfl, rfl, rfl, rfl, rfl⟩

/-! ## The steps -/

/-- What an event makes of a machine. -/
inductive Step (m : Machine α) : Event α → Machine α → Prop
  | refuse {payload priority outside e} (h : m.refusal? outside = some e) :
      Step m (.push payload priority outside) m
  | accept {payload priority outside} (h : m.refusal? outside = none) :
      Step m (.push payload priority outside) (m.accept payload priority)
  | pass (h : m.passes ≠ 0) : Step m .pass m.pass
  | begin {i w t} (hw : m.workers[i]? = some w) (hs : w.stage = .claimed t) :
      Step m (.begin i) { m.setWorker i { w with stage := .running t } with
        signals := m.signals ++ [(t.id, {})], calls := m.calls ++ [⟨t, i⟩] }
  | operate {id op} : Step m (.operate id op) (m.operate id op)
  | finish {i w t} (hw : m.workers[i]? = some w) (hs : w.stage = .running t)
      (hg : m.isGiven t.id = true) :
      Step m (.finish i) (m.setWorker i { w with stage := .ended t }).tell
  /-- A worker that was told to stop leaves the rotation. -/
  | leave {i w t} (hw : m.workers[i]? = some w) (hs : w.stage = .ended t)
      (hl : w.stopping = true) :
      Step m (.turn i) { m.setWorker i { stopping := false, stopped := true } with
        ended := m.ended ++ [t.id], notices := m.notices + 1 }
  /-- A worker goes straight on to the next task. -/
  | goOn {i w t u ts} (hw : m.workers[i]? = some w) (hs : w.stage = .ended t)
      (hl : w.stopping = false) (hr : m.stopped = false) (hp : m.pending = u :: ts) :
      Step m (.turn i) { m.setWorker i { w with stage := .claimed u } with
        ended := m.ended ++ [t.id], pending := ts }
  /-- A worker finds nothing to go on with. -/
  | rest {i w t} (hw : m.workers[i]? = some w) (hs : w.stage = .ended t)
      (hl : w.stopping = false) (hp : m.stopped = true ∨ m.pending = []) :
      Step m (.turn i) { m.setWorker i { w with stage := .free } with
        ended := m.ended ++ [t.id], notices := m.notices + 1 }
  | notice (h : m.notices ≠ 0) : Step m .notice { m with notices := m.notices - 1 }.tell
  | drain : Step m .drain (m.await .drained)
  | stop : Step m .stop (m.halt.await .idle)
  | stopWorker {i w} (hw : m.workers[i]? = some w) :
      Step m (.stopWorker i) ((m.setWorker i
        (if w.isBusy then { w with stopping := true } else { w with stopped := true })).await
          (.freed i))
  | stopNobody {i} (hw : m.workers[i]? = none) : Step m (.stopWorker i) m
  | startWorker {i w} (hw : m.workers[i]? = some w) (hp : m.pending ≠ []) :
      Step m (.startWorker i)
        (m.setWorker i { w with stopping := false, stopped := false }).schedule
  | startIdly {i w} (hw : m.workers[i]? = some w) (hp : m.pending = []) :
      Step m (.startWorker i) (m.setWorker i { w with stopping := false, stopped := false })
  | startNobody {i} (hw : m.workers[i]? = none) : Step m (.startWorker i) m
  | look {k w} (hw : m.waiters[k]? = some w) (ht : w.waiting = .told) :
      Step m (.look k) { m with
        waiters := m.waiters.set k ⟨w.goal, if m.reached w.goal then .done else .listening⟩ }

theorem step?_of_step {m m' : Machine α} {e : Event α} (h : Step m e m') :
    m.step? e = some m' := by
  cases h with
  | refuse h => simp [step?, push, h]
  | accept h => simp [step?, push, h]
  | pass h => simp [step?, h]
  | begin hw hs => simp [step?, begin?, hw, hs, setWorker]
  | operate => rfl
  | finish hw hs hg => simp [step?, finish?, hw, hs, hg]
  | leave hw hs hl => simp [step?, turn?, hw, hs, next, hl, setWorker]
  | goOn hw hs hl hr hp => simp [step?, turn?, hw, hs, next, hl, hr, hp, setWorker]
  | rest hw hs hl hp =>
    rcases hp with hp | hp
    · simp [step?, turn?, hw, hs, next, hl, hp, setWorker]
    · cases hr : m.stopped <;> simp [step?, turn?, hw, hs, next, hl, hp, hr, setWorker]
  | notice h => simp [step?, notice?, h]
  | drain => rfl
  | stop => rfl
  | stopWorker hw => simp [step?, haltWorker, hw]
  | stopNobody hw => simp [step?, haltWorker, hw]
  | startWorker hw hp => simp [step?, Machine.startWorker, hw, hp, setWorker]
  | startIdly hw hp => simp [step?, Machine.startWorker, hw, hp, setWorker]
  | startNobody hw => simp [step?, Machine.startWorker, hw]
  | look hw ht => simp [step?, look?, hw, ht]

section StepOf

variable {m m' : Machine α} {i k : Nat}

theorem step_of_push? {payload : α} {priority : Int} {outside : Bool}
    (h : m.step? (.push payload priority outside) = some m') :
    Step m (.push payload priority outside) m' := by
  cases hr : m.refusal? outside with
  | none =>
    obtain rfl : m.accept payload priority = m' := by simpa [step?, push, hr] using h
    exact .accept hr
  | some e =>
    obtain rfl : m = m' := by simpa [step?, push, hr] using h
    exact .refuse hr

theorem step_of_begin? (h : m.begin? i = some m') : Step m (.begin i) m' := by
  unfold begin? at h
  split at h
  · rename_i w hw
    split at h
    · rename_i t hs
      cases h
      exact .begin hw hs
    · cases h
  · cases h

theorem step_of_finish? (h : m.finish? i = some m') : Step m (.finish i) m' := by
  unfold finish? at h
  split at h
  · rename_i w hw
    split at h
    · rename_i t hs
      split at h
      · rename_i hg
        cases h
        exact .finish hw hs hg
      · cases h
    · cases h
  · cases h

/-- A worker that is done with its task leaves, rests or goes on. -/
theorem step_of_next {w : Worker α} {t : Task α} (hw : m.workers[i]? = some w)
    (hs : w.stage = .ended t) :
    Step m (.turn i) ({ m with ended := m.ended ++ [t.id] }.next i w) := by
  cases hl : w.stopping with
  | true => simpa [next, hl, setWorker] using Step.leave hw hs hl
  | false =>
    cases hr : m.stopped with
    | true => simpa [next, hl, hr, setWorker] using Step.rest hw hs hl (.inl hr)
    | false =>
      cases hp : m.pending with
      | nil => simpa [next, hl, hr, hp, setWorker] using Step.rest hw hs hl (.inr hp)
      | cons u ts => simpa [next, hl, hr, hp, setWorker] using Step.goOn hw hs hl hr hp

theorem step_of_turn? (h : m.turn? i = some m') : Step m (.turn i) m' := by
  unfold turn? at h
  split at h
  · rename_i w hw
    split at h
    · rename_i t hs
      cases h
      exact step_of_next hw hs
    · cases h
  · cases h

theorem step_of_stopWorker (h : m.step? (.stopWorker i) = some m') : Step m (.stopWorker i) m' := by
  cases hw : m.workers[i]? with
  | none =>
    obtain rfl : m = m' := by simpa [step?, haltWorker, hw] using h
    exact .stopNobody hw
  | some w =>
    obtain rfl := Option.some.inj (by simpa only [step?, haltWorker, hw] using h)
    exact .stopWorker hw

theorem step_of_startWorker (h : m.step? (.startWorker i) = some m') :
    Step m (.startWorker i) m' := by
  cases hw : m.workers[i]? with
  | none =>
    obtain rfl : m = m' := by simpa [step?, Machine.startWorker, hw] using h
    exact .startNobody hw
  | some w =>
    obtain rfl := Option.some.inj (by simpa only [step?, Machine.startWorker, hw] using h)
    by_cases hp : m.pending = []
    · simpa [setWorker, hp] using Step.startIdly hw hp
    · simpa [setWorker, hp] using Step.startWorker hw hp

theorem step_of_look? (h : m.look? k = some m') : Step m (.look k) m' := by
  unfold look? at h
  split at h
  · rename_i w hw
    split at h
    · rename_i ht
      cases h
      exact .look hw ht
    · cases h
  · cases h

theorem step_of_step? {e : Event α} (h : m.step? e = some m') : Step m e m' := by
  cases e with
  | push => exact step_of_push? h
  | pass =>
    by_cases hp : m.passes = 0
    · simp [step?, hp] at h
    · obtain rfl : m.pass = m' := by simpa [step?, hp] using h
      exact .pass hp
  | begin => exact step_of_begin? h
  | operate =>
    cases h
    exact .operate
  | finish => exact step_of_finish? h
  | turn => exact step_of_turn? h
  | notice =>
    by_cases hn : m.notices = 0
    · simp [step?, notice?, hn] at h
    · obtain rfl := Option.some.inj (by simpa only [step?, notice?, hn, if_false] using h)
      exact .notice hn
  | drain =>
    cases h
    exact .drain
  | stop =>
    cases h
    exact .stop
  | stopWorker => exact step_of_stopWorker h
  | startWorker => exact step_of_startWorker h
  | look => exact step_of_look? h

end StepOf

/-- **The steps are all that can happen.** -/
theorem step?_eq_some_iff {m m' : Machine α} {e : Event α} :
    m.step? e = some m' ↔ Step m e m' :=
  ⟨step_of_step?, step?_of_step⟩

/-! ## Runs -/

@[simp] theorem run?_nil (m : Machine α) : m.run? [] = some m := rfl

theorem run?_cons (m : Machine α) (e : Event α) (es : List (Event α)) :
    m.run? (e :: es) = (m.step? e).bind fun m' => m'.run? es := rfl

theorem run?_append (m : Machine α) (es fs : List (Event α)) :
    m.run? (es ++ fs) = (m.run? es).bind fun m' => m'.run? fs := by
  simp [run?, List.foldlM_append]

/-- A run of several events starts with a step. -/
theorem run?_cons_eq_some {m m' : Machine α} {e : Event α} {es : List (Event α)}
    (h : m.run? (e :: es) = some m') : ∃ n, Step m e n ∧ n.run? es = some m' := by
  obtain ⟨n, hn, h⟩ := Option.bind_eq_some_iff.mp (run?_cons m e es ▸ h)
  exact ⟨n, step_of_step? hn, h⟩

/-- A run in two parts passes a machine between them. -/
theorem run?_append_eq_some {m m' : Machine α} {es fs : List (Event α)}
    (h : m.run? (es ++ fs) = some m') : ∃ n, m.run? es = some n ∧ n.run? fs = some m' :=
  Option.bind_eq_some_iff.mp (run?_append m es fs ▸ h)

/-- **What every step keeps, every run keeps.** -/
theorem run?_keeps {P : Machine α → Prop} (hP : ∀ m e m', P m → Step m e m' → P m')
    {m m' : Machine α} {es : List (Event α)} (h : m.run? es = some m') (hm : P m) : P m' := by
  induction es generalizing m with
  | nil =>
    cases h
    exact hm
  | cons e es ih =>
    obtain ⟨n, hn, h⟩ := run?_cons_eq_some h
    exact ih h (hP m e n hm hn)

/-! ## What a step can change -/

/-- Only the beginning of a task calls a handler. -/
theorem calls_of_step {m m' : Machine α} {e : Event α} (h : Step m e m') : m'.calls = m.calls ∨
    ∃ i w t, e = .begin i ∧ m.workers[i]? = some w ∧ w.stage = .claimed t ∧
      m'.calls = m.calls ++ [⟨t, i⟩] := by
  cases h with
  | begin hw hs => exact .inr ⟨_, _, _, rfl, hw, hs, rfl⟩
  | accept | startWorker => exact .inl (sameView_schedule _).calls
  | pass => exact .inl m.sameView_pass.calls
  | _ => exact .inl rfl

/-- A step begins a task with a signal of its own, does something with one signal, or leaves calls
and signals alone. -/
theorem signals_cases_of_step {m m' : Machine α} {e : Event α} (h : Step m e m') :
    (m'.signals = m.signals ∧ m'.calls = m.calls) ∨
    (∃ t i, m'.signals = m.signals ++ [(t.id, ({} : Signal))] ∧ m'.calls = m.calls ++ [⟨t, i⟩]) ∨
    ∃ id op, e = .operate id op ∧ m' = m.operate id op := by
  cases h with
  | begin => exact .inr (.inl ⟨_, _, rfl, rfl⟩)
  | operate => exact .inr (.inr ⟨_, _, rfl, rfl⟩)
  | accept | startWorker => exact .inl ⟨(sameView_schedule _).signals, (sameView_schedule _).calls⟩
  | pass => exact .inl ⟨m.sameView_pass.signals, m.sameView_pass.calls⟩
  | _ => exact .inl ⟨rfl, rfl⟩

/-- The calls after a run are those from before it and those of its beginnings. -/
theorem exists_begin_of_mem_calls {m m' : Machine α} {es : List (Event α)} {c : Call α}
    (h : m.run? es = some m') (hc : c ∈ m'.calls) : c ∈ m.calls ∨
      ∃ fs n w, fs ++ [.begin c.worker] <+: es ∧ m.run? fs = some n ∧
        n.workers[c.worker]? = some w ∧ w.stage = .claimed c.task := by
  induction es generalizing m with
  | nil =>
    cases h
    exact .inl hc
  | cons e es ih =>
    obtain ⟨n, hs, h⟩ := run?_cons_eq_some h
    rcases ih h with hn | ⟨fs, o, w, hfs, ho, hw, hst⟩
    · rcases calls_of_step hs with hcalls | ⟨i, w, t, rfl, hw, hst, hcalls⟩
      · exact .inl (hcalls ▸ hn)
      · rw [hcalls, List.mem_append, List.mem_singleton] at hn
        rcases hn with hn | rfl
        · exact .inl hn
        · exact .inr ⟨[], m, w, List.prefix_append _ es, rfl, hw, hst⟩
    · refine .inr ⟨e :: fs, o, w, ?_, ?_, hw, hst⟩
      · exact List.prefix_cons_iff.mpr (.inr ⟨_, rfl, hfs⟩)
      · rw [run?_cons, step?_of_step hs]
        exact ho

/-- No call is forgotten. -/
theorem mem_calls_of_run {m m' : Machine α} {es : List (Event α)} {c : Call α}
    (h : m.run? es = some m') (hc : c ∈ m.calls) : c ∈ m'.calls :=
  run?_keeps (fun m _ m' (hm : c ∈ m.calls) hs => by
    rcases calls_of_step hs with hcalls | ⟨i, w, t, -, -, -, hcalls⟩ <;> simp [hcalls, hm]) h hc

/-- No step adds or removes workers. -/
theorem length_workers_of_step {m m' : Machine α} {e : Event α} (h : Step m e m') :
    m'.workers.length = m.workers.length := by
  cases h with
  | pass =>
    simp only [pass]
    split
    · rfl
    · exact length_assign _ _
  | accept | startWorker =>
    simp only [accept, schedule]
    split <;> simp [setWorker]
  | begin | finish | leave | goOn | rest | stopWorker | startIdly => exact List.length_set
  | _ => rfl

theorem limit_of_step {m m' : Machine α} {e : Event α} (h : Step m e m') : m'.limit = m.limit := by
  cases h with
  | accept | startWorker => exact (sameView_schedule _).limit
  | pass => exact m.sameView_pass.limit
  | _ => rfl

/-! ## What a step makes of a worker -/

/-- What a step makes of the worker with a number. -/
inductive WorkerStep (m : Machine α) (e : Event α) (m' : Machine α) (i : Nat) :
    Worker α → Worker α → Prop
  | same {w} : WorkerStep m e m' i w w
  /-- A dispatch pass hands it a task. -/
  | take {w t} (ha : w.available = true) (ht : t ∈ m.pending) :
      WorkerStep m e m' i w { w with stage := .claimed t }
  | begin {w t} (hs : w.stage = .claimed t) :
      WorkerStep m e m' i w { w with stage := .running t }
  | finish {w t} (hs : w.stage = .running t) (hg : m.isGiven t.id = true) :
      WorkerStep m e m' i w { w with stage := .ended t }
  | leave {w t} (hs : w.stage = .ended t) (ht : t.id ∈ m'.ended) (hl : w.stopping = true) :
      WorkerStep m e m' i w { stopping := false, stopped := true }
  | goOn {w t u} (hs : w.stage = .ended t) (ht : t.id ∈ m'.ended) (hl : w.stopping = false)
      (hu : u ∈ m.pending) : WorkerStep m e m' i w { w with stage := .claimed u }
  | rest {w t} (hs : w.stage = .ended t) (ht : t.id ∈ m'.ended) (hl : w.stopping = false) :
      WorkerStep m e m' i w { w with stage := .free }
  | stop {w} : WorkerStep m e m' i w
      (if w.isBusy then { w with stopping := true } else { w with stopped := true })
  | start {w} (he : e = .startWorker i) :
      WorkerStep m e m' i w { w with stopping := false, stopped := false }

/-- Where one worker is set, the others stay as they are. -/
theorem workerStep_setWorker {m m' : Machine α} {e : Event α} {i j : Nat} {w v : Worker α}
    (hw : m.workers[i]? = some w) (hv : m.workers[j]? = some v) (v' : Worker α)
    (hstep : j = i → v = w → WorkerStep m e m' i w v') :
    ∃ w', (m.setWorker j v').workers[i]? = some w' ∧ WorkerStep m e m' i w w' := by
  rw [setWorker_getElem? hv]
  by_cases hj : j = i
  · exact ⟨v', if_pos hj, hstep hj (Option.some.inj (hv.symm.trans (hj ▸ hw)))⟩
  · exact ⟨w, (if_neg hj).trans hw, .same⟩

/-- A dispatch pass hands an available worker a task, or leaves it as it is. -/
theorem workerStep_pass {m m' : Machine α} {e : Event α} {i : Nat} {w : Worker α}
    (hw : m.workers[i]? = some w) :
    ∃ w', m.pass.workers[i]? = some w' ∧ WorkerStep m e m' i w w' := by
  obtain ⟨workers, pending, hm, hkept | hassign⟩ := m.exists_pass_eq
  · exact ⟨w, by rw [hm, hkept.1]; exact hw, .same⟩
  · have hworkers : m.pass.workers = (assign m.workers m.pending).1 := by
      rw [hm]
      exact congrArg Prod.fst hassign
    rw [hworkers]
    obtain ⟨hi, -⟩ := List.getElem?_eq_some_iff.mp hw
    have hw' := List.getElem?_eq_getElem ((length_assign m.workers m.pending).symm ▸ hi)
    obtain ⟨v, hv, hstep⟩ := assign_getElem? hw'
    obtain rfl : w = v := Option.some.inj (hw.symm.trans hv)
    refine ⟨_, hw', ?_⟩
    rcases hstep with hsame | ⟨ha, t, ht, hclaims⟩
    · exact hsame ▸ .same
    · exact hclaims ▸ .take ha ht

/-- **A step makes something of every worker, and nothing else than that.** -/
theorem workerStep_of_step {m m' : Machine α} {e : Event α} {i : Nat} {w : Worker α}
    (h : Step m e m') (hw : m.workers[i]? = some w) :
    ∃ w', m'.workers[i]? = some w' ∧ WorkerStep m e m' i w w' := by
  have hconcat (id : TaskId) : id ∈ m.ended ++ [id] := by simp
  cases h with
  | @accept payload priority =>
    obtain ⟨due, passes, hm⟩ := m.exists_accept_eq payload priority
    exact ⟨w, by rw [hm]; exact hw, .same⟩
  | pass => exact workerStep_pass hw
  | begin hv hs => exact workerStep_setWorker hw hv _ fun _ heq => heq ▸ .begin hs
  | finish hv hs hg => exact workerStep_setWorker hw hv _ fun _ heq => heq ▸ .finish hs hg
  | leave hv hs hl =>
    exact workerStep_setWorker hw hv _ fun _ heq => .leave (heq ▸ hs) (hconcat _) (heq ▸ hl)
  | goOn hv hs hl _ hp =>
    exact workerStep_setWorker hw hv _ fun _ heq =>
      heq ▸ .goOn hs (hconcat _) hl (hp ▸ List.mem_cons_self)
  | rest hv hs hl =>
    exact workerStep_setWorker hw hv _ fun _ heq => heq ▸ .rest hs (hconcat _) hl
  | stopWorker hv => exact workerStep_setWorker hw hv _ fun _ heq => heq ▸ .stop
  | @startWorker j v hv =>
    obtain ⟨due, passes, hm⟩ :=
      exists_schedule_eq (m.setWorker j { v with stopping := false, stopped := false })
    rw [hm]
    exact workerStep_setWorker hw hv { v with stopping := false, stopped := false } fun hj heq =>
      heq ▸ .start (hj ▸ rfl)
  | @startIdly j v hv =>
    exact workerStep_setWorker hw hv { v with stopping := false, stopped := false } fun hj heq =>
      heq ▸ .start (hj ▸ rfl)
  | refuse | operate | notice | drain | stop | stopNobody | startNobody | look =>
    exact ⟨w, hw, .same⟩

/-- Every worker is what a step made of one. -/
theorem exists_workerStep {m m' : Machine α} {e : Event α} {i : Nat} {w' : Worker α}
    (h : Step m e m') (hw' : m'.workers[i]? = some w') :
    ∃ w, m.workers[i]? = some w ∧ WorkerStep m e m' i w w' := by
  obtain ⟨hi, -⟩ := List.getElem?_eq_some_iff.mp hw'
  have hw := List.getElem?_eq_getElem (length_workers_of_step h ▸ hi)
  obtain ⟨v, hv, hstep⟩ := workerStep_of_step h hw
  obtain rfl : w' = v := Option.some.inj (hw'.symm.trans hv)
  exact ⟨_, hw, hstep⟩

/-- A worker keeps its task until that has ended. -/
theorem WorkerStep.task?_eq_or_ended {m m' : Machine α} {e : Event α} {i : Nat} {w w' : Worker α}
    {t : Task α} (h : WorkerStep m e m' i w w') (ht : w.stage.task? = some t) :
    w'.stage.task? = some t ∨ w.stage = .ended t ∧ t.id ∈ m'.ended := by
  have hended {u : Task α} (hs : w.stage = .ended u) (hu : u.id ∈ m'.ended) :
      w.stage = .ended t ∧ t.id ∈ m'.ended := by
    obtain rfl : u = t := by simpa [hs, Stage.task?] using ht
    exact ⟨hs, hu⟩
  cases h with
  | same | start => exact .inl ht
  | take ha => simp [Worker.available, Worker.isBusy, ht] at ha
  | begin hs | finish hs => exact .inl (by simpa [hs, Stage.task?] using ht)
  | leave hs hu | goOn hs hu | rest hs hu => exact .inr (hended hs hu)
  | stop => exact .inl (by split <;> exact ht)

/-- Only a stop stops a queue, and for good. -/
theorem not_stopped_of_step {m m' : Machine α} {e : Event α} (h : Step m e m')
    (hs : m'.stopped = false) : m.stopped = false ∧ e ≠ .stop := by
  cases h with
  | accept | startWorker =>
    have hwas := (sameView_schedule _).stopped.symm.trans hs
    exact ⟨hwas, fun h => by cases h⟩
  | pass => exact ⟨m.sameView_pass.stopped.symm.trans hs, fun h => by cases h⟩
  | stop => cases hs
  | _ => exact ⟨hs, fun h => by cases h⟩

end DeviceStats.Queue.Machine
