import DeviceStats.Proofs.Cycle.Step
import DeviceStats.Proofs.Queue.Ledger

/-!
# Proofs/Cycle/Progress — what a cycle has pushed, and where it stands

The queue of a cycle holds nothing but the tasks of its first places, one for each place, in their
order: `Placed c n` says that the ledger of the queue is that of the places below `n`.  It also says
what each phase knows; a cycle that is done has an idle queue on which nothing waits.
-/

namespace DeviceStats

open Json (Value)

/-! ## What the queue's own events change -/

namespace Queue.Machine

variable {α : Type} {m m' : Machine α} {e : Event α}

/-- An event that neither pushes, nor stops or starts anything, nor brings a caller. -/
def Event.IsInner : Event α → Prop
  | .pass | .begin _ | .finish _ | .turn _ | .notice => True
  | _ => False

theorem stopped_of_step (he : e.IsInner) (h : Step m e m') : m'.stopped = m.stopped := by
  cases h with
  | pass => exact m.sameView_pass.stopped
  | begin | finish | leave | goOn | rest | notice => rfl
  | _ => exact he.elim

theorem pending_of_step (he : e.IsInner) (h : Step m e m') (hp : m.pending = []) :
    m'.pending = [] := by
  cases h with
  | pass =>
    simp only [pass]
    split
    · exact hp
    · rw [hp, assign_nil]
  | begin | finish | leave | rest | notice => exact hp
  | goOn _ _ _ _ hu =>
    rw [hp] at hu
    cases hu
  | _ => exact he.elim

/-- Those who wait keep waiting for the same. -/
theorem goals_of_step (he : e.IsInner) (h : Step m e m') :
    m'.waiters.map (·.goal) = m.waiters.map (·.goal) := by
  have htell (n : Machine α) : n.tell.waiters.map (·.goal) = n.waiters.map (·.goal) := by
    rw [tell, List.map_map]
    refine List.map_congr_left fun w _ => ?_
    simp only [Function.comp_apply]
    split <;> rfl
  cases h with
  | pass => rw [m.sameView_pass.waiters]
  | finish | notice => exact htell _
  | begin | leave | goOn | rest => rfl
  | _ => exact he.elim

/-- An idle queue on which nothing waits stays so. -/
theorem isIdle_of_step (he : e.IsInner) (h : Step m e m') (hp : m.pending = [])
    (hi : m.isIdle = true) : m'.isIdle = true := by
  cases h with
  | pass =>
    simp only [pass]
    split
    · exact hi
    · rw [hp, assign_nil]
      exact hi
  | begin hw hs | finish hw hs | leave hw hs | goOn hw hs | rest hw hs =>
    exact absurd hi (not_isIdle_of_busy hw (by rw [Worker.isBusy, hs]; rfl))
  | notice => exact hi
  | _ => exact he.elim

/-- Only a stop throws tasks away. -/
theorem discarded_of_step (he : e.IsInner) (h : Step m e m') : m'.discarded = m.discarded := by
  cases h with
  | pass => exact m.sameView_pass.discarded
  | begin | finish | leave | goOn | rest | notice => rfl
  | _ => exact he.elim

/-- No worker was taken out of rotation. -/
def InRotation (m : Machine α) : Prop :=
  ∀ w ∈ m.workers, w.stopping = false ∧ w.stopped = false

theorem InRotation.setWorker (h : InRotation m) {i : Nat} {w : Worker α}
    (hw : m.workers[i]? = some w) (s : Stage α) :
    InRotation (m.setWorker i { w with stage := s }) := by
  intro v hv
  rcases List.mem_or_eq_of_mem_set hv with hv | rfl
  · exact h v hv
  · exact h w (List.mem_of_getElem? hw)

theorem InRotation.step (he : e.IsInner) (h : InRotation m) (hs : Step m e m') :
    InRotation m' := by
  cases hs with
  | pass =>
    unfold pass
    simp only
    split
    · exact h
    · intro w hw
      obtain ⟨i, hi⟩ := List.mem_iff_getElem?.mp hw
      obtain ⟨v, hv, rfl | ⟨-, t, -, rfl⟩⟩ := assign_getElem? hi
      · exact h w (List.mem_of_getElem? hv)
      · exact h v (List.mem_of_getElem? hv)
  | begin hw | finish hw | goOn hw | rest hw => exact h.setWorker hw _
  | leave hw _ hl =>
    rw [(h _ (List.mem_of_getElem? hw)).1] at hl
    cases hl
  | notice => exact h
  | _ => exact he.elim

/-- A queue in rotation serves what waits, so it is drained only when nothing waits. -/
theorem pending_of_isDrained (h : InRotation m) (hw : m.workers ≠ []) (hs : m.stopped = false)
    (hd : m.isDrained = true) : m.isIdle = true ∧ m.pending = [] := by
  simp only [isDrained, Bool.and_eq_true, Bool.or_eq_true, List.isEmpty_iff] at hd
  refine ⟨hd.1, hd.2.resolve_right fun hserves => ?_⟩
  obtain ⟨w, ws, hws⟩ := List.exists_cons_of_ne_nil hw
  have hmem : w ∈ m.workers := hws ▸ List.mem_cons_self
  have hfree := List.all_eq_true.mp hd.1 w hmem
  simp [serves, hs, hws, Worker.available, hfree, h w hmem] at hserves

end Queue.Machine

/-! ## What is pushed -/

namespace Cycle

/-- An event of the queue that is one of the cycle calls no handler, brings nobody and stops
nothing. -/
theorem Event.isInner_of_inQueue? {e : Event} {qe : Queue.Machine.Event Nat}
    (he : e.inQueue? = some qe) : qe.IsInner ∧ ∀ i, qe ≠ .begin i := by
  cases e <;> cases he <;> exact ⟨trivial, fun _ h => by cases h⟩

/-- The place that an event pushes and the queue takes in. -/
def pushed? (c : Cycle) : Event → Option Nat
  | .push =>
    match c.phase with
    | .pushing next =>
      if next < c.selected.length ∧ c.stopRequested = false ∧ c.queue.refusal? false = none then
        some next
      else none
    | _ => none
  | _ => none

/-- The places that a run pushes, in order. -/
def pushed (c : Cycle) : List Event → List Nat
  | [] => []
  | e :: es =>
    (c.pushed? e).toList ++
      match c.step? e with
      | some c' => pushed c' es
      | none => []

theorem pushed_concat {c c' : Cycle} {es : List Event} (h : c.run? es = some c') (e : Event) :
    c.pushed (es ++ [e]) = c.pushed es ++ (c'.pushed? e).toList := by
  induction es generalizing c with
  | nil =>
    cases h
    simp only [List.nil_append, pushed]
    cases c'.step? e <;> simp
  | cons f es ih =>
    obtain ⟨n, hn, h⟩ := Option.bind_eq_some_iff.mp (show (c.step? f).bind _ = _ from h)
    simp only [List.cons_append, pushed, hn, ih h, List.append_assoc]

/-- The tasks of the first places. -/
def tasks (n : Nat) : List (Queue.Task Nat) := (List.range n).map fun i => ⟨i + 1, 0, i⟩

theorem tasks_succ (n : Nat) : tasks (n + 1) = tasks n ++ [⟨n + 1, 0, n⟩] := by
  simp [tasks, List.range_succ]

theorem mem_tasks_iff {n : Nat} {t : Queue.Task Nat} :
    t ∈ tasks n ↔ ∃ i < n, t = ⟨i + 1, 0, i⟩ := by
  simp [tasks, eq_comm]

/-- The cycle has pushed the first `n` places, and why it pushed no more. -/
def Halted (c : Cycle) (n : Nat) : Prop :=
  c.refused? = none ∧ n = c.selected.length ∨
    ∃ reason, c.refused? = some (n, reason) ∧ n < c.selected.length

/-- What a cycle that has pushed `n` places knows at each phase. -/
inductive AtPhase (c : Cycle) (n : Nat) : Prop
  | pushing (hp : c.phase = .pushing n) (hn : n ≤ c.selected.length) (hr : c.refused? = none)
      (hs : c.queue.stopped = false) (hw : c.queue.waiters.map (·.goal) = [])
  | waiting (hp : c.phase = .waiting) (hh : c.Halted n) (hs : c.queue.stopped = false)
      (hw : c.queue.waiters.map (·.goal) = [.drained])
  | leaving (hp : c.phase = .leaving) (hh : c.Halted n) (hq : c.queue.pending = [])
      (hw : c.queue.waiters.map (·.goal) = [.drained, .idle])
  | done (hp : c.phase = .done) (hh : c.Halted n) (hq : c.queue.pending = [])
      (hi : c.queue.isIdle = true)

/-- A cycle that has pushed `n` places. -/
structure Placed (c : Cycle) (n : Nat) : Prop where
  ledger : Queue.Ledger c.queue (tasks n)
  workers : c.queue.workers ≠ []
  rotation : c.queue.InRotation
  atPhase : c.AtPhase n

theorem Halted.congr {c c' : Cycle} {n : Nat} (h : c.Halted n) (hr : c'.refused? = c.refused?)
    (hs : c'.selected = c.selected) : c'.Halted n := by
  rw [Halted, hr, hs]
  exact h

theorem Halted.le {c : Cycle} {n : Nat} (h : c.Halted n) : n ≤ c.selected.length := by
  rcases h with ⟨-, hn⟩ | ⟨_, -, hn⟩
  · exact Nat.le_of_eq hn
  · exact Nat.le_of_lt hn

/-- What was pushed and not run was discarded. -/
theorem Halted.unrun_of_lt {c : Cycle} {n i : Nat} (h : c.Halted n) (hi : i < n) :
    c.unrun i = .discarded := by
  rcases h with ⟨hr, -⟩ | ⟨reason, hr, -⟩
  · rw [unrun, hr]
  · rw [unrun, hr]
    exact if_neg (Nat.not_le.mpr hi)

/-- What was not pushed was not run for the reason that the cycle halted. -/
theorem Halted.refused?_of_le {c : Cycle} {n i : Nat} (h : c.Halted n) (hi : n ≤ i)
    (hlt : i < c.selected.length) : c.refused? = some (n, c.unrun i) := by
  rcases h with ⟨-, hn⟩ | ⟨reason, hr, -⟩
  · exact absurd hlt (Nat.not_lt.mpr (hn ▸ hi))
  · rw [unrun, hr]
    simp only [if_pos hi]

section AtPhase

variable {c c' : Cycle} {n k : Nat}

theorem AtPhase.of_pushing (h : c.AtPhase n) (hk : c.phase = .pushing k) : k = n ∧
    n ≤ c.selected.length ∧ c.refused? = none ∧ c.queue.stopped = false ∧
    c.queue.waiters.map (·.goal) = [] := by
  cases h with
  | pushing hp hn hr hs hw => exact ⟨Phase.pushing.inj (hk.symm.trans hp), hn, hr, hs, hw⟩
  | waiting hp | leaving hp | done hp =>
    rw [hk] at hp
    cases hp

theorem AtPhase.of_waiting (h : c.AtPhase n) (hk : c.phase = .waiting) :
    c.Halted n ∧ c.queue.stopped = false ∧ c.queue.waiters.map (·.goal) = [.drained] := by
  cases h with
  | waiting _ hh hs hw => exact ⟨hh, hs, hw⟩
  | pushing hp | leaving hp | done hp =>
    rw [hk] at hp
    cases hp

theorem AtPhase.of_done (h : c.AtPhase n) (hk : c.phase = .done) :
    c.Halted n ∧ c.queue.pending = [] ∧ c.queue.isIdle = true := by
  cases h with
  | done _ hh hq hi => exact ⟨hh, hq, hi⟩
  | pushing hp | waiting hp | leaving hp =>
    rw [hk] at hp
    cases hp

/-- What is known at a phase outlives a change that fills no empty queue and wakes no idle one. -/
theorem AtPhase.congr (h : c.AtPhase n) (hp : c'.phase = c.phase) (hr : c'.refused? = c.refused?)
    (hs : c'.selected = c.selected) (hstopped : c'.queue.stopped = c.queue.stopped)
    (hgoals : c'.queue.waiters.map (·.goal) = c.queue.waiters.map (·.goal))
    (hpending : c.queue.pending = [] → c'.queue.pending = [])
    (hidle : c.queue.pending = [] → c.queue.isIdle = true → c'.queue.isIdle = true) :
    c'.AtPhase n := by
  cases h with
  | pushing hk hn hr' hst hw =>
    exact .pushing (hp.trans hk) (hs ▸ hn) (hr.trans hr') (hstopped.trans hst) (hgoals.trans hw)
  | waiting hk hh hst hw =>
    exact .waiting (hp.trans hk) (hh.congr hr hs) (hstopped.trans hst) (hgoals.trans hw)
  | leaving hk hh hpe hw =>
    exact .leaving (hp.trans hk) (hh.congr hr hs) (hpending hpe) (hgoals.trans hw)
  | done hk hh hpe hi =>
    exact .done (hp.trans hk) (hh.congr hr hs) (hpending hpe) (hidle hpe hi)

end AtPhase

theorem Placed.new (selected : List Property) (workers limit : Nat) (stopRequested : Bool) :
    Placed (.new selected workers limit stopRequested) 0 where
  ledger := .new workers limit
  workers := by
    refine List.ne_nil_of_length_pos ?_
    rw [Cycle.new, Queue.Machine.new, List.length_replicate]
    exact Nat.lt_of_lt_of_le Nat.one_pos (Nat.le_max_right _ _)
  rotation w hw := by
    rw [List.eq_of_mem_replicate hw]
    exact ⟨rfl, rfl⟩
  atPhase := .pushing rfl (Nat.zero_le _) rfl rfl rfl

/-- A cycle that is done has halted, and its queue is empty and idle. -/
theorem Placed.of_done {c : Cycle} {n : Nat} (h : Placed c n) (hd : c.phase = .done) :
    c.Halted n ∧ c.queue.pending = [] ∧ c.queue.isIdle = true :=
  h.atPhase.of_done hd

/-- An event of the queue alone. -/
theorem Placed.ofQueue {c c' : Cycle} {n : Nat} {qe : Queue.Machine.Event Nat} (h : Placed c n)
    (he : qe.IsInner) (hq : Queue.Machine.Step c.queue qe c'.queue) (hp : c'.phase = c.phase)
    (hr : c'.refused? = c.refused?) (hs : c'.selected = c.selected) : Placed c' n where
  ledger := by
    have hledger := h.ledger.step hq
    have hnone : c.queue.admitted? qe = none := by cases qe <;> first | rfl | exact he.elim
    rwa [hnone, Option.toList_none, List.append_nil] at hledger
  workers := by
    have := Queue.Machine.length_workers_of_step hq
    exact fun hnil => h.workers (List.length_eq_zero_iff.mp (by rw [← this, hnil]; rfl))
  rotation := h.rotation.step he hq
  atPhase := h.atPhase.congr hp hr hs (Queue.Machine.stopped_of_step he hq)
    (Queue.Machine.goals_of_step he hq) (Queue.Machine.pending_of_step he hq)
    (Queue.Machine.isIdle_of_step he hq)

/-- An event that leaves the queue's tasks and callers alone. -/
theorem Placed.congr {c c' : Cycle} {n : Nat} (h : Placed c n)
    (hq : c'.queue = { c.queue with signals := c'.queue.signals }) (hp : c'.phase = c.phase)
    (hr : c'.refused? = c.refused?) (hs : c'.selected = c.selected) : Placed c' n where
  ledger := by
    rw [hq]
    exact h.ledger.congr rfl rfl rfl rfl rfl rfl rfl
  workers := by
    rw [hq]
    exact h.workers
  rotation := by
    rw [hq]
    exact h.rotation
  atPhase := by
    refine h.atPhase.congr hp hr hs ?_ ?_ (fun hpe => ?_) (fun _ hi => ?_) <;> rw [hq]
    · exact hpe
    · exact hi

/-- The queue's next id is that of the next place. -/
theorem Placed.nextId_eq {c : Cycle} {n : Nat} (h : Placed c n) : c.queue.nextId = n + 1 := by
  have := congrArg List.length h.ledger.ids
  rw [List.length_map, List.length_range', tasks, List.length_map, List.length_range] at this
  rw [this, Nat.sub_add_cancel h.ledger.nextId_pos]

/-- The next property is pushed. -/
theorem Placed.accept {c : Cycle} {n : Nat} (h : Placed c n) (hp : c.phase = .pushing n)
    (hn : n < c.selected.length) (hr : c.queue.refusal? false = none) :
    Placed { c with queue := c.queue.accept n 0, phase := .pushing (n + 1) } (n + 1) := by
  have hroom := (Queue.Machine.refusal?_eq_none_iff.mp hr).2.2
  have hledger := h.ledger.accept n 0 hroom
  rw [h.nextId_eq, ← tasks_succ] at hledger
  obtain ⟨due, passes, hm⟩ := c.queue.exists_accept_eq n 0
  obtain ⟨-, -, hrefused, hst, hw⟩ := h.atPhase.of_pushing hp
  rw [hm] at hledger ⊢
  exact ⟨hledger, h.workers, h.rotation, .pushing rfl hn hrefused hst hw⟩

/-- The cycle has pushed what it could. -/
theorem Placed.wait {c c' : Cycle} {n : Nat} (h : Placed c n) (hp : c.phase = .pushing n)
    (hq : c'.queue = c.queue) (hh : c'.Halted n) : Placed c'.wait n := by
  have hledger : Queue.Ledger c'.wait.queue (tasks n) := by
    rw [Cycle.wait, hq]
    exact h.ledger.congr rfl rfl rfl rfl rfl rfl rfl
  have hworkers : c'.wait.queue.workers = c.queue.workers := by rw [Cycle.wait, hq]; rfl
  refine ⟨hledger, hworkers ▸ h.workers, fun w hw => h.rotation w (hworkers ▸ hw), ?_⟩
  obtain ⟨-, -, -, hst, hw⟩ := h.atPhase.of_pushing hp
  refine .waiting rfl hh (by rw [Cycle.wait, hq]; exact hst) ?_
  rw [Cycle.wait, hq]
  simp [Queue.Machine.await, hw]

/-- Looking changes no caller's goal. -/
theorem goals_set {ws : List Queue.Waiter} {k : Nat} {w : Queue.Waiter} (hw : ws[k]? = some w)
    (s : Queue.Waiting) : (ws.set k ⟨w.goal, s⟩).map (·.goal) = ws.map (·.goal) := by
  refine List.ext_getElem? fun j => ?_
  rw [List.getElem?_map, List.getElem?_map, List.getElem?_set]
  split
  · rename_i hj
    obtain ⟨hk, -⟩ := List.getElem?_eq_some_iff.mp hw
    rw [← hj, hw, if_pos hk]
    rfl
  · rfl

/-- **When what it waits for has come, the queue is idle and nothing waits.** -/
theorem Placed.arrived {c : Cycle} {n k : Nat} {w : Queue.Waiter} (h : Placed c n)
    (hk : c.phase.waiter? = some k) (hw : c.queue.waiters[k]? = some w)
    (hr : c.queue.reached w.goal = true) :
    c.Halted n ∧ c.queue.isIdle = true ∧ c.queue.pending = [] := by
  have hgoal : (c.queue.waiters.map (·.goal))[k]? = some w.goal := by simp [hw]
  cases h.atPhase with
  | pushing hp | done hp =>
    rw [hp] at hk
    cases hk
  | waiting hp hh hst hgoals =>
    obtain rfl : 0 = k := by simpa [hp, Phase.waiter?] using hk
    rw [hgoals] at hgoal
    rw [← Option.some.inj hgoal] at hr
    exact ⟨hh, Queue.Machine.pending_of_isDrained h.rotation h.workers hst hr⟩
  | leaving hp hh hpe hgoals =>
    obtain rfl : 1 = k := by simpa [hp, Phase.waiter?] using hk
    rw [hgoals] at hgoal
    rw [← Option.some.inj hgoal] at hr
    exact ⟨hh, hr, hpe⟩

theorem Placed.sleep {c : Cycle} {n k : Nat} {w : Queue.Waiter} (h : Placed c n)
    (hw : c.queue.waiters[k]? = some w) : Placed { c with
      queue := { c.queue with waiters := c.queue.waiters.set k ⟨w.goal, .listening⟩ } } n :=
  ⟨h.ledger.congr rfl rfl rfl rfl rfl rfl rfl, h.workers, h.rotation,
    h.atPhase.congr rfl rfl rfl rfl (goals_set hw .listening) id fun _ => id⟩

theorem Placed.heed {c : Cycle} {n : Nat} (h : Placed c n) (hp : c.phase = .waiting) :
    Placed { c with phase := .leaving, queue := c.queue.halt.await .idle } n := by
  refine ⟨h.ledger.halt.congr rfl rfl rfl rfl rfl rfl rfl, h.workers, h.rotation, ?_⟩
  obtain ⟨hh, -, hw⟩ := h.atPhase.of_waiting hp
  refine .leaving rfl hh rfl ?_
  rw [Queue.Machine.await, Queue.Machine.halt, List.map_append, hw]
  rfl

/-- A cycle at its end has pushed what it could. -/
theorem Placed.arrive {c : Cycle} {n k : Nat} {w : Queue.Waiter} (h : Placed c n)
    (hk : c.phase.waiter? = some k) (hw : c.queue.waiters[k]? = some w)
    (hr : c.queue.reached w.goal = true) : Placed { c with
      phase := .done
      queue := { c.queue with waiters := c.queue.waiters.set k ⟨w.goal, .done⟩ } } n := by
  obtain ⟨hh, hi, hpe⟩ := h.arrived hk hw hr
  exact ⟨h.ledger.congr rfl rfl rfl rfl rfl rfl rfl, h.workers, h.rotation, .done rfl hh hpe hi⟩

/-- **Every step keeps the tasks in line with the places pushed.** -/
theorem Placed.step {c c' : Cycle} {e : Event} {n : Nat} (h : Placed c n) (hs : Step c e c') :
    ∃ n', Placed c' n' ∧ List.range n ++ (c.pushed? e).toList = List.range n' := by
  have hsame (he : c.pushed? e = none) (h : Placed c' n) :
      ∃ n', Placed c' n' ∧ List.range n ++ (c.pushed? e).toList = List.range n' :=
    ⟨n, h, by rw [he, Option.toList_none, List.append_nil]⟩
  cases hs with
  | @push k hp hn hst hr =>
    obtain rfl := (h.atPhase.of_pushing hp).1
    refine ⟨k + 1, h.accept hp hn hr, ?_⟩
    simp [pushed?, hp, hn, hst, hr, List.range_succ]
  | @pushedAll k hp hn =>
    obtain ⟨rfl, hle, hrefused, -⟩ := h.atPhase.of_pushing hp
    refine hsame (by simp [pushed?, hp, Nat.not_lt.mpr hn]) (h.wait hp rfl ?_)
    exact .inl ⟨hrefused, Nat.le_antisymm hle hn⟩
  | @pushStopped k hp hn hst =>
    obtain rfl := (h.atPhase.of_pushing hp).1
    exact hsame (by simp [pushed?, hp, hst]) (h.wait hp rfl (.inr ⟨_, rfl, hn⟩))
  | @pushRefused k e hp hn hst hr =>
    obtain rfl := (h.atPhase.of_pushing hp).1
    exact hsame (by simp [pushed?, hp, hr]) (h.wait hp rfl (.inr ⟨_, rfl, hn⟩))
  | arrive hk hw ht hr => exact hsame rfl (h.arrive hk hw hr)
  | sleep hk hw => exact hsame rfl (h.sleep hw)
  | heed hp => exact hsame rfl (h.heed hp)
  | requestStop => exact hsame rfl (h.congr rfl rfl rfl rfl)
  | @inQueue e qe q he hq =>
    refine hsame (by cases e <;> first | rfl | cases he) (h.ofQueue ?_ hq rfl rfl rfl)
    exact (Event.isInner_of_inQueue? he).1
  | begin hw hst =>
    refine hsame rfl (h.ofQueue ?_ (.begin hw hst) rfl rfl rfl)
    trivial
  | join | send | answer => exact hsame rfl (h.congr rfl rfl rfl rfl)
  | take => exact hsame rfl (h.congr rfl rfl rfl rfl)

/-- **Every run pushes the first places, in order.** -/
theorem Placed.run {selected : List Property} {workers limit : Nat} {stopRequested : Bool}
    {c : Cycle} {es : List Event}
    (h : (Cycle.new selected workers limit stopRequested).run? es = some c) :
    ∃ n, Placed c n ∧
      (Cycle.new selected workers limit stopRequested).pushed es = List.range n := by
  refine run?_induction (P := fun c es => ∃ n, Placed c n ∧
    (Cycle.new selected workers limit stopRequested).pushed es = List.range n) h
    ⟨0, .new selected workers limit stopRequested, rfl⟩ ?_
  rintro m es e c hm hs ⟨n, hn, hpushed⟩
  obtain ⟨n', hn', hrange⟩ := hn.step hs
  exact ⟨n', hn', by rw [pushed_concat hm, hpushed, hrange]⟩

end Cycle

end DeviceStats
