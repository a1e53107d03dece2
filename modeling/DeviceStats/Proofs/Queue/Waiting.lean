import DeviceStats.Proofs.Queue.Step

/-!
# Proofs/Queue/Waiting — who waits in vain

A caller that looked in vain sleeps until it is told to look again; it is **hung** when it sleeps
though what it waits for has come.  Those who wait for idleness or for a worker are told of it by
the worker that becomes free (`Told`, kept by every step).  Those who wait for a drained queue are
not: a stop can drain an idle queue, and it tells nobody.  Such a stop is **unheard**, and it is the
only way to a hung caller (`hung_by_unheard_stop`).
-/

namespace DeviceStats.Queue

variable {α : Type}

/-- An event of the queue's own making, for which it needs nobody outside. -/
def Machine.Event.IsOwn : Machine.Event α → Prop
  | .pass | .begin _ | .finish _ | .turn _ | .notice | .look _ => True
  | _ => False

namespace Machine

/-- Nothing happens any more of the queue's own making. -/
def Quiet (m : Machine α) : Prop := ∀ e : Event α, e.IsOwn → m.step? e = none

/-- A caller sleeps though what it waits for has come. -/
def Hung (m : Machine α) (w : Waiter) : Prop :=
  w ∈ m.waiters ∧ w.waiting = .listening ∧ m.reached w.goal = true

/-- A stop that drains the queue while a caller sleeps until then and no word is on its way. -/
def Unheard (m : Machine α) (e : Event α) : Prop :=
  (e = .stop ∨ ∃ i, e = .stopWorker i) ∧ m.notices = 0 ∧ ⟨.drained, .listening⟩ ∈ m.waiters ∧
    m.isDrained = false ∧ ∃ m', m.step? e = some m' ∧ m'.isDrained = true

/-- If a caller sleeps though its goal is reached, word is on its way. -/
def Told (m : Machine α) (g : Goal) : Prop :=
  ⟨g, .listening⟩ ∈ m.waiters → m.reached g = true → m.notices ≠ 0

/-! ## What a step does to the goals -/

theorem isDrained_eq_true_iff {m : Machine α} :
    m.isDrained = true ↔ m.isIdle = true ∧ (m.serves = true → m.pending = []) := by
  rw [isDrained, Bool.and_eq_true, Bool.or_eq_true, List.isEmpty_iff, Bool.not_eq_true',
    ← Bool.not_eq_true, or_iff_not_imp_right, not_not]

/-- A goal that is reached was reached before, if the busy workers are still busy and an idle queue
that had something to serve still has. -/
theorem reached_of_reached {m m' : Machine α} {g : Goal} (h : m'.reached g = true)
    (hb : ∀ (i : Nat) (w : Worker α), m.workers[i]? = some w → w.isBusy = true →
      ∃ w' : Worker α, m'.workers[i]? = some w' ∧ w'.isBusy = true)
    (hd : g = .drained → m.isIdle = true → m'.isDrained = true → m.isDrained = true) :
    m.reached g = true := by
  have hidle (h : m'.isIdle = true) : m.isIdle = true := by
    refine isIdle_eq_true_iff.mpr fun i w hw => Bool.eq_false_iff.mpr fun hbusy => ?_
    obtain ⟨w', hw', hbusy'⟩ := hb i w hw hbusy
    exact Bool.false_ne_true ((isIdle_eq_true_iff.mp h i w' hw').symm.trans hbusy')
  cases g with
  | drained => exact hd rfl (hidle (isDrained_eq_true_iff.mp h).1) h
  | idle => exact hidle h
  | freed i =>
    simp only [reached] at h ⊢
    cases hw : m.workers[i]? with
    | none => rfl
    | some w =>
      cases hbusy : w.isBusy with
      | false => simp [hbusy]
      | true =>
        obtain ⟨w', hw', hbusy'⟩ := hb i w hw hbusy
        simp [hw', hbusy'] at h

/-- A worker that stays busy changes no goal to reached. -/
theorem busy_setWorker {m : Machine α} {i : Nat} {w : Worker α} (hw : m.workers[i]? = some w)
    (w' : Worker α) (hb : w.isBusy = true → w'.isBusy = true) (j : Nat) (v : Worker α)
    (hv : m.workers[j]? = some v) (hbusy : v.isBusy = true) :
    ∃ v' : Worker α, (m.setWorker i w').workers[j]? = some v' ∧ v'.isBusy = true := by
  by_cases hj : i = j
  · subst hj
    obtain rfl : w = v := Option.some.inj (hw.symm.trans hv)
    exact ⟨w', (setWorker_getElem? hw w' i).trans (if_pos rfl), hb hbusy⟩
  · exact ⟨v, (setWorker_getElem? hw w' j).trans ((if_neg hj).trans hv), hbusy⟩

/-- A dispatch pass hands out a task if one waits and a worker is available. -/
theorem exists_busy_assign {ws : List (Worker α)} {ts : List (Task α)} (hts : ts ≠ [])
    (hws : ws.any Worker.available = true) : ∃ w ∈ (assign ws ts).1, w.isBusy = true := by
  obtain ⟨t, ts, rfl⟩ := List.exists_cons_of_ne_nil hts
  induction ws with
  | nil => simp at hws
  | cons w ws ih =>
    by_cases ha : w.available = true
    · rw [assign, if_pos ha]
      exact ⟨_, List.mem_cons_self, rfl⟩
    · rw [List.any_cons, Bool.eq_false_iff.mpr ha, Bool.false_or] at hws
      obtain ⟨v, hv, hb⟩ := ih hws
      rw [assign, if_neg ha]
      exact ⟨v, List.mem_cons_of_mem w hv, hb⟩

theorem place_ne_nil (t : Task α) (ts : List (Task α)) : place t ts ≠ [] := by
  cases ts with
  | nil => exact List.cons_ne_nil _ _
  | cons p ps =>
    unfold place
    split <;> exact List.cons_ne_nil _ _

theorem reached_pass {m : Machine α} {g : Goal} (h : m.pass.reached g = true) :
    m.reached g = true := by
  cases hs : m.stopped with
  | true =>
    rw [pass] at h
    cases g <;> simpa [hs, reached, isDrained, isIdle, serves] using h
  | false =>
    have hw : m.pass.workers = (assign m.workers m.pending).1 := by simp [pass, hs]
    refine reached_of_reached h (fun i w hi hb => ⟨w, ?_, hb⟩) fun _ hi hd => ?_
    · rw [hw]
      exact assign_getElem?_of_not_available hi (by simp [Worker.available, hb]) _
    · refine isDrained_eq_true_iff.mpr ⟨hi, fun hserves => by_contra fun hp => ?_⟩
      rw [serves, Bool.and_eq_true] at hserves
      obtain ⟨w, hmem, hb⟩ := exists_busy_assign hp hserves.2
      obtain ⟨i, hi⟩ := List.mem_iff_getElem?.mp hmem
      exact not_isIdle_of_busy (hw ▸ hi) hb (isDrained_eq_true_iff.mp hd).1

/-- A worker put back into rotation reaches nothing. -/
theorem reached_start {m m' : Machine α} {g : Goal} {i : Nat} {w : Worker α}
    (hw : m.workers[i]? = some w)
    (hm : m'.workers = (m.setWorker i { w with stopping := false, stopped := false }).workers)
    (hp : m'.pending = m.pending) (hs : m'.stopped = m.stopped) (h : m'.reached g = true) :
    m.reached g = true := by
  refine reached_of_reached h (fun j v hv hb => ?_) fun _ hi hd => ?_
  · rw [hm]
    exact busy_setWorker hw { w with stopping := false, stopped := false } id j v hv hb
  · refine isDrained_eq_true_iff.mpr ⟨hi, fun hserves => ?_⟩
    rw [← hp]
    refine (isDrained_eq_true_iff.mp hd).2 ?_
    rw [serves, Bool.and_eq_true, List.any_eq_true] at hserves ⊢
    obtain ⟨hgo, v, hv, ha⟩ := hserves
    refine ⟨hs ▸ hgo, ?_⟩
    rw [hm]
    obtain ⟨j, hj⟩ := List.mem_iff_getElem?.mp hv
    by_cases hij : i = j
    · subst hij
      obtain rfl : w = v := Option.some.inj (hw.symm.trans hj)
      refine ⟨_, List.mem_of_getElem? ((setWorker_getElem? hw _ i).trans (if_pos rfl)), ?_⟩
      simp only [Worker.available, Worker.isBusy, Bool.and_eq_true] at ha ⊢
      exact ⟨⟨ha.1.1, rfl⟩, rfl⟩
    · exact ⟨v, List.mem_of_getElem? ((setWorker_getElem? hw _ j).trans ((if_neg hij).trans hj)),
        ha⟩

/-- **Only a worker that becomes free, or a stop, reaches a goal.** -/
theorem reached_of_step {m m' : Machine α} {e : Event α} {g : Goal} (hs : Step m e m')
    (hn : m'.notices ≤ m.notices) (hstop : e ≠ .stop) (hstopWorker : ∀ i, e ≠ .stopWorker i)
    (h : m'.reached g = true) : m.reached g = true := by
  have hself {n : Machine α} (hw : n.workers = m.workers) (hp : n.pending = m.pending)
      (hs : n.stopped = m.stopped) (h : n.reached g = true) : m.reached g = true := by
    cases g <;> simpa only [reached, isDrained, isIdle, serves, hw, hp, hs] using h
  cases hs with
  | refuse | stopNobody | startNobody => exact h
  | operate | drain | notice | look => exact hself rfl rfl rfl h
  | leave | rest => exact absurd hn (Nat.not_succ_le_self _)
  | begin hw hst | finish hw hst | goOn hw hst =>
    refine reached_of_reached h (busy_setWorker hw _ fun _ => rfl) fun _ hi => ?_
    exact absurd hi (not_isIdle_of_busy hw (by rw [Worker.isBusy, hst]; rfl))
  | @accept payload priority outside hr =>
    obtain ⟨due, passes, hm⟩ := m.exists_accept_eq payload priority
    rw [hm] at h
    refine reached_of_reached h (fun i w hw hb => ⟨w, hw, hb⟩) fun _ hi hd => ?_
    refine isDrained_eq_true_iff.mpr ⟨hi, fun hserves => ?_⟩
    exact absurd ((isDrained_eq_true_iff.mp hd).2 hserves) (place_ne_nil _ _)
  | pass => exact reached_pass h
  | stop => exact absurd rfl hstop
  | stopWorker => exact absurd rfl (hstopWorker _)
  | @startWorker i w hw =>
    obtain ⟨due, passes, hm⟩ := exists_schedule_eq
      (m.setWorker i { w with stopping := false, stopped := false })
    rw [hm] at h
    exact reached_start hw rfl rfl rfl h
  | startIdly hw => exact reached_start hw rfl rfl rfl h

/-- A stop reaches nothing but drainedness. -/
theorem reached_of_stop {m m' : Machine α} {e : Event α} {g : Goal} (hs : Step m e m')
    (he : e = .stop ∨ ∃ i, e = .stopWorker i) (hg : g ≠ .drained) (h : m'.reached g = true) :
    m.reached g = true := by
  rcases he with rfl | ⟨i, rfl⟩
  · cases hs with
    | stop => cases g <;> first | exact h | exact absurd rfl hg
  · cases hs with
    | stopNobody => exact h
    | @stopWorker i w hw =>
      refine reached_of_reached h (busy_setWorker hw
        (if w.isBusy then { w with stopping := true } else { w with stopped := true })
        (by split <;> exact id)) fun hd => absurd hd hg

/-! ## Word is sent -/

/-- Who has just been told does not sleep. -/
theorem not_listening_mem_tell (m : Machine α) (g : Goal) : ⟨g, .listening⟩ ∉ m.tell.waiters := by
  simp only [tell, List.mem_map, not_exists, not_and]
  intro w _ h
  split at h
  · cases h
  · rename_i hne
    exact hne (congrArg Waiter.waiting h)

/-- A caller that comes to wait does not sleep yet. -/
theorem listening_mem_await {m : Machine α} {g g' : Goal}
    (h : ⟨g, .listening⟩ ∈ (m.await g').waiters) : ⟨g, .listening⟩ ∈ m.waiters := by
  rw [await, List.mem_append, List.mem_singleton] at h
  exact h.resolve_right fun h => by cases h

/-- Who sleeps after a step slept before it, or has just looked in vain. -/
theorem listening_of_step {m m' : Machine α} {e : Event α} {g : Goal} (hs : Step m e m')
    (h : ⟨g, .listening⟩ ∈ m'.waiters) :
    ⟨g, .listening⟩ ∈ m.waiters ∨ m.reached g = false ∧ ∃ k, e = .look k := by
  cases hs with
  | finish | notice => exact absurd h (not_listening_mem_tell _ g)
  | drain | stop | stopWorker => exact .inl (listening_mem_await h)
  | accept | startWorker =>
    simp only [accept, (sameView_schedule _).waiters] at h
    exact .inl h
  | pass => exact .inl (m.sameView_pass.waiters ▸ h)
  | @look k w hw ht =>
    rcases List.mem_or_eq_of_mem_set h with h | h
    · exact .inl h
    · obtain ⟨rfl, hl⟩ := Waiter.mk.inj h
      cases hr : m.reached w.goal with
      | false => exact .inr ⟨rfl, k, rfl⟩
      | true =>
        rw [hr] at hl
        cases hl
  | _ => exact .inl h

/-- Only telling uses up a notice. -/
theorem notices_of_step {m m' : Machine α} {e : Event α} (hs : Step m e m') (he : e ≠ .notice) :
    m.notices ≤ m'.notices := by
  cases hs with
  | notice => exact absurd rfl he
  | leave | rest => exact Nat.le_succ _
  | accept | startWorker =>
    simp only [accept, (sameView_schedule _).notices]
    exact Nat.le_refl _
  | pass => exact Nat.le_of_eq m.sameView_pass.notices.symm
  | _ => exact Nat.le_refl _

/-- **Every step sends word** of what it reaches, but for an unheard stop to those who wait for a
drained queue. -/
theorem Told.step {m m' : Machine α} {e : Event α} {g : Goal} (h : Told m g) (hs : Step m e m')
    (hu : g = .drained → ¬ Unheard m e) : Told m' g := by
  intro hl hr hzero
  have hn : e ≠ .notice := by
    rintro rfl
    cases hs
    exact not_listening_mem_tell _ g hl
  have hnotices : m.notices = 0 := Nat.eq_zero_of_le_zero (hzero ▸ notices_of_step hs hn)
  rcases listening_of_step hs hl with hl | ⟨hunreached, k, rfl⟩
  · by_cases hstop : e = .stop ∨ ∃ i, e = .stopWorker i
    · by_cases hg : g = .drained
      · subst hg
        refine hu rfl ⟨hstop, hnotices, hl, Bool.eq_false_iff.mpr fun hd => ?_,
          m', step?_of_step hs, hr⟩
        exact h hl hd hnotices
      · exact h hl (reached_of_stop hs hstop hg hr) hnotices
    · rw [not_or, not_exists] at hstop
      exact h hl (reached_of_step hs (hzero ▸ Nat.zero_le _) hstop.1 hstop.2 hr) hnotices
  · have := reached_of_step hs (hzero ▸ Nat.zero_le _) (fun h => by cases h)
      (fun i h => by cases h) hr
    rw [hunreached] at this
    cases this

/-- A run without an unheard stop sends word. -/
theorem Told.run {m m' : Machine α} {es : List (Event α)} {g : Goal} (h : Told m g)
    (hr : m.run? es = some m')
    (hu : g = .drained → ∀ fs e n, fs ++ [e] <+: es → m.run? fs = some n → ¬ Unheard n e) :
    Told m' g := by
  induction es generalizing m with
  | nil =>
    cases hr
    exact h
  | cons e es ih =>
    obtain ⟨n, hs, hr⟩ := run?_cons_eq_some hr
    refine ih (h.step hs fun hg => hu hg [] e m (List.prefix_append [e] es) rfl) hr
      fun hg fs f o hfs ho => ?_
    refine hu hg (e :: fs) f o (List.prefix_cons_iff.mpr (.inr ⟨_, rfl, hfs⟩)) ?_
    rw [run?_cons, step?_of_step hs]
    exact ho

/-! ## A lost caller -/

/-- A caller waits for a drained queue and sleeps; the queue is drained, and no word is on its
way. -/
structure Lost (m : Machine α) : Prop where
  drained : m.isDrained = true
  silent : m.notices = 0
  sleeps : ⟨.drained, .listening⟩ ∈ m.waiters

/-- What the queue can still do of its own making when all workers are free. -/
def chores (m : Machine α) : Nat := m.passes + m.waiters.countP (·.waiting = .told)

/-- Who looks is told no longer. -/
theorem countP_told_set_lt {ws : List Waiter} {k : Nat} {w : Waiter} (hw : ws[k]? = some w)
    (ht : w.waiting = .told) {s : Waiting} (hs : s ≠ .told) :
    (ws.set k ⟨w.goal, s⟩).countP (·.waiting = .told) < ws.countP (·.waiting = .told) := by
  obtain ⟨hk, rfl⟩ := List.getElem?_eq_some_iff.mp hw
  have hpos : 0 < ws.countP (·.waiting = .told) :=
    List.countP_pos_iff.mpr ⟨_, List.getElem_mem hk, by simpa using ht⟩
  rw [List.countP_set hk]
  simp only [ht, hs, decide_true, decide_false, if_true, Bool.false_eq_true, if_false]
  omega

/-- A dispatch pass that has nothing to hand out, or nobody to hand it to. -/
theorem assign_eq_self {ws : List (Worker α)} {ts : List (Task α)}
    (h : ws.any Worker.available = true → ts = []) : assign ws ts = (ws, ts) := by
  induction ws with
  | nil => rfl
  | cons w ws ih =>
    cases ts with
    | nil => rfl
    | cons t ts =>
      have ha : w.available ≠ true := fun ha => by simp [ha] at h
      rw [assign, if_neg ha, ih fun hany => h (by simp [hany])]

theorem pass_of_isDrained {m : Machine α} (h : m.isDrained = true) :
    m.pass = { m with passDue := false, passes := m.passes - 1 } := by
  cases hs : m.stopped with
  | true => simp [pass, hs]
  | false =>
    have hp (ha : m.workers.any Worker.available = true) : m.pending = [] :=
      (isDrained_eq_true_iff.mp h).2 (by simp [serves, hs, ha])
    simp [pass, hs, assign_eq_self hp]

/-- **Nothing of the queue's own making helps a lost caller**, and there is ever less of it. -/
theorem Lost.step {m m' : Machine α} {e : Event α} (h : Lost m) (he : e.IsOwn)
    (hs : Step m e m') : Lost m' ∧ m'.chores < m.chores := by
  have hidle := (isDrained_eq_true_iff.mp h.drained).1
  cases hs with
  | pass hp =>
    rw [pass_of_isDrained h.drained]
    refine ⟨⟨h.drained, h.silent, h.sleeps⟩, ?_⟩
    exact Nat.add_lt_add_right (Nat.sub_lt (Nat.pos_of_ne_zero hp) Nat.one_pos) _
  | begin hw hst | finish hw hst | leave hw hst | goOn hw hst | rest hw hst =>
    exact absurd hidle (not_isIdle_of_busy hw (by rw [Worker.isBusy, hst]; rfl))
  | notice hn => exact absurd h.silent hn
  | @look k w hw ht =>
    refine ⟨⟨h.drained, h.silent, ?_⟩, ?_⟩
    · obtain ⟨j, hj⟩ := List.mem_iff_getElem?.mp h.sleeps
      have hkj : k ≠ j := by
        rintro rfl
        rw [Option.some.inj (hw.symm.trans hj)] at ht
        cases ht
      exact List.mem_of_getElem? ((List.getElem?_set_ne hkj).trans hj)
    · have hnot : (if m.reached w.goal then Waiting.done else .listening) ≠ .told := by
        split <;> exact Waiting.noConfusion
      exact Nat.add_lt_add_left (countP_told_set_lt hw ht hnot) _
  | _ => exact he.elim

theorem Lost.run {m m' : Machine α} {es : List (Event α)} (h : Lost m) (he : ∀ e ∈ es, e.IsOwn)
    (hr : m.run? es = some m') : Lost m' := by
  induction es generalizing m with
  | nil =>
    cases hr
    exact h
  | cons e es ih =>
    obtain ⟨n, hs, hr⟩ := run?_cons_eq_some hr
    have hn := (h.step (he e List.mem_cons_self) hs).1
    exact ih hn (fun f hf => he f (List.mem_cons_of_mem e hf)) hr

/-- A queue with a lost caller comes to rest. -/
theorem Lost.exists_quiet {m : Machine α} (h : Lost m) :
    ∃ es n, (∀ e ∈ es, e.IsOwn) ∧ m.run? es = some n ∧ n.Quiet := by
  by_cases hq : m.Quiet
  · exact ⟨[], m, fun e he => absurd he List.not_mem_nil, rfl, hq⟩
  · simp only [Quiet, not_forall] at hq
    obtain ⟨e, he, hne⟩ := hq
    obtain ⟨m', hm'⟩ := Option.ne_none_iff_exists'.mp hne
    obtain ⟨hlost, hlt⟩ := h.step he (step_of_step? hm')
    obtain ⟨es, n, hes, hn, hquiet⟩ := hlost.exists_quiet
    refine ⟨e :: es, n, List.forall_mem_cons.mpr ⟨he, hes⟩, ?_, hquiet⟩
    rw [run?_cons, hm']
    exact hn
termination_by m.chores

theorem Unheard.lost {m m' : Machine α} {e : Event α} (h : Unheard m e)
    (hs : m.step? e = some m') : Lost m' := by
  obtain ⟨he, hn, hl, -, n, hm, hd⟩ := h
  obtain rfl : m' = n := Option.some.inj (hs.symm.trans hm)
  refine ⟨hd, ?_, ?_⟩
  all_goals rcases he with rfl | ⟨i, rfl⟩ <;> cases step_of_step? hs
  · exact hn
  · exact hn
  · exact hn
  · exact List.mem_append_left _ hl
  · exact List.mem_append_left _ hl
  · exact hl

/-! ## Who hangs -/

/-- **Who hangs, and why.**  When a queue has come to rest, whoever hangs waits for a drained queue
and an unheard stop came before; and an unheard stop leaves such a caller: nothing of the queue's
own making tells it, and the queue comes to rest with it. -/
theorem hung_by_unheard_stop {concurrency limit : Nat} {es : List (Event α)} {m : Machine α}
    (h : (new concurrency limit).run? es = some m) :
    (m.Quiet → ∀ w, m.Hung w → w.goal = .drained ∧ ∃ fs e n, fs ++ [e] <+: es ∧
      (new concurrency limit).run? fs = some n ∧ n.Unheard e) ∧
    ∀ e m', m.Unheard e → m.step? e = some m' →
      (∀ fs n, (∀ f ∈ fs, f.IsOwn) → m'.run? fs = some n → n.Hung ⟨.drained, .listening⟩) ∧
      ∃ fs n, (∀ f ∈ fs, f.IsOwn) ∧ m'.run? fs = some n ∧ n.Quiet := by
  have hnew (g : Goal) : (new concurrency limit : Machine α).Told g :=
    fun hl => absurd hl List.not_mem_nil
  refine ⟨fun hq w ⟨hw, hl, hr⟩ => ?_, fun e m' hu hs => ⟨fun fs n hfs hn => ?_, ?_⟩⟩
  · obtain ⟨g, waiting⟩ := w
    obtain rfl : waiting = .listening := hl
    have hsilent : m.notices = 0 := by
      by_contra hne
      exact Option.some_ne_none _ ((step?_of_step (.notice hne)).symm.trans (hq .notice trivial))
    by_contra hnone
    refine (hnew g).run h (fun hg fs e n hfs hn hu => ?_) hw hr hsilent
    exact hnone ⟨hg, fs, e, n, hfs, hn, hu⟩
  · have hlost := (hu.lost hs).run hfs hn
    exact ⟨hlost.sleeps, rfl, hlost.drained⟩
  · exact (hu.lost hs).exists_quiet

/-- A queue whose only task is not handed out yet, and a caller that waits for it to drain. -/
theorem hung_by_unheard_stop_before_pass :
    let m : Machine String := {
      limit := 10, pending := [⟨1, 0, "a"⟩], workers := [{}], nextId := 2, passDue := true,
      passes := 1, waiters := [⟨.drained, .listening⟩] }
    (new 1 10).run? [.push "a" 0 false, .drain, .look 0] = some m ∧ m.Unheard .stop ∧
      (m.halt.await .idle).Hung ⟨.drained, .listening⟩ := by
  intro m
  have hu : m.Unheard .stop := ⟨.inl rfl, rfl, List.mem_cons_self, rfl, _, rfl, rfl⟩
  have hrun : (new 1 10).run? [.push "a" 0 false, .drain, .look 0] = some m := rfl
  have hhung := ((hung_by_unheard_stop hrun).2 .stop _ hu rfl).1 []
  exact ⟨hrun, hu, hhung _ (fun f hf => absurd hf List.not_mem_nil) rfl⟩

/-- **A queue can come to rest with a caller that hangs.** -/
theorem exists_hung_at_rest : ¬ ∀ (es : List (Event String)) (m : Machine String),
    (new 1 10).run? es = some m → m.Quiet → ∀ w, ¬ m.Hung w := by
  intro h
  refine h [.push "a" 0 false, .drain, .look 0, .stop, .pass, .look 1] _ rfl (fun e he => ?_)
    ⟨.drained, .listening⟩ ⟨List.mem_cons_self, rfl, rfl⟩
  cases e with
  | pass | notice => rfl
  | begin i | finish i | turn i => cases i <;> rfl
  | look k =>
    match k with
    | 0 | 1 | k + 2 => rfl
  | _ => exact he.elim

end Machine

end DeviceStats.Queue
