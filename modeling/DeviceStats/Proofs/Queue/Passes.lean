import DeviceStats.Proofs.Queue.Waiting

/-!
# Proofs/Queue/Passes — no worker idles beside waiting work

A dispatch pass leaves no available worker beside a waiting task (`assign_exhausts`).  Afterwards a
push may bring a task and a start may bring a worker, and both ask for a pass; whatever else happens
takes workers and tasks away together.  So where a task waits beside an available worker, a pass is
outstanding, and never more than one is (`Prompt`, kept by every step).
-/

namespace DeviceStats.Queue.Machine

variable {α : Type} {m m' : Machine α}

/-- Work that waits and will be served has a pass due, and the mark counts the passes. -/
structure Prompt (m : Machine α) : Prop where
  passes : m.passes = m.passDue.toNat
  due : m.serves = true → m.pending ≠ [] → m.passDue = true

/-! ## Who serves -/

theorem serves_eq_true_iff :
    m.serves = true ↔ m.stopped = false ∧ ∃ w ∈ m.workers, w.available = true := by
  rw [serves, Bool.and_eq_true, Bool.not_eq_true', List.any_eq_true]

/-- A worker that is no more available than before makes no queue serve. -/
theorem serves_setWorker {i : Nat} {w w' : Worker α} (hw : m.workers[i]? = some w)
    (ha : w'.available = true → w.available = true) (h : (m.setWorker i w').serves = true) :
    m.serves = true := by
  obtain ⟨hgo, v, hv, hav⟩ := serves_eq_true_iff.mp h
  refine serves_eq_true_iff.mpr ⟨hgo, ?_⟩
  rcases List.mem_or_eq_of_mem_set hv with hv | rfl
  · exact ⟨v, hv, hav⟩
  · exact ⟨w, List.mem_of_getElem? hw, ha hav⟩

/-- A worker with a task is not available. -/
theorem available_eq_false_of_busy {w : Worker α} (hb : w.isBusy = true) : w.available = false := by
  rw [Worker.available, hb]
  rfl

/-- **A dispatch pass uses up the tasks or the workers.** -/
theorem assign_exhausts (ws : List (Worker α)) (ts : List (Task α)) :
    (assign ws ts).2 = [] ∨ (assign ws ts).1.any Worker.available = false := by
  induction ws generalizing ts with
  | nil => exact .inr rfl
  | cons w ws ih =>
    cases ts with
    | nil => exact .inl rfl
    | cons t ts =>
      by_cases ha : w.available = true
      · rw [assign, if_pos ha]
        refine (ih ts).imp id fun hws => ?_
        rw [List.any_cons, hws]
        rfl
      · rw [assign, if_neg ha]
        refine (ih (t :: ts)).imp id fun hws => ?_
        rw [List.any_cons, hws, Bool.eq_false_iff.mpr ha]
        rfl

/-! ## Asking for a pass -/

/-- Who asks for a pass has one due, and asking twice gives one. -/
theorem Prompt.schedule (h : m.passes = m.passDue.toNat) : Prompt m.schedule := by
  unfold Machine.schedule
  cases hd : m.passDue with
  | true => exact ⟨h, fun _ _ => hd⟩
  | false =>
    refine ⟨?_, fun _ _ => rfl⟩
    change m.passes + 1 = 1
    rw [h, hd]
    rfl

/-- Nothing more waits, and nothing more is served. -/
theorem Prompt.congr (h : Prompt m) (hdue : m'.passDue = m.passDue) (hpasses : m'.passes = m.passes)
    (hp : m.pending = [] → m'.pending = []) (hs : m'.serves = true → m.serves = true) :
    Prompt m' where
  passes := by rw [hpasses, hdue, h.passes]
  due hs' hp' := hdue.trans (h.due (hs hs') (mt hp hp'))

theorem Prompt.new (concurrency limit : Nat) : Prompt (new concurrency limit : Machine α) :=
  ⟨rfl, fun _ hp => absurd rfl hp⟩

/-- A dispatch pass is the only one, and leaves nothing to serve or nothing that waits. -/
theorem Prompt.pass (h : Prompt m) : Prompt m.pass := by
  have hone : m.passes - 1 = 0 := by
    rw [h.passes]
    exact Nat.sub_eq_zero_of_le (Bool.toNat_le _)
  unfold Machine.pass
  cases hs : m.stopped with
  | true =>
    refine ⟨hone, fun hserves => ?_⟩
    exact absurd (serves_eq_true_iff.mp hserves).1 Bool.noConfusion
  | false =>
    refine ⟨hone, fun hserves hpending => ?_⟩
    rcases assign_exhausts m.workers m.pending with hts | hws
    · exact absurd hts hpending
    · have ha := (List.any_eq_true (p := Worker.available)).mpr (serves_eq_true_iff.mp hserves).2
      exact absurd (hws.symm.trans ha) Bool.noConfusion

/-! ## Steps and runs -/

/-- **Every step keeps a pass due for work that waits and will be served.** -/
theorem Prompt.step {e : Event α} (h : Prompt m) (hs : Step m e m') : Prompt m' := by
  -- A worker that is busy now makes no queue serve that did not before.
  have hbusy {i : Nat} {w w' : Worker α} (hw : m.workers[i]? = some w) (hb : w'.isBusy = true) :
      (m.setWorker i w').serves = true → m.serves = true :=
    serves_setWorker hw fun ha =>
      absurd ((available_eq_false_of_busy hb).symm.trans ha) Bool.noConfusion
  cases hs with
  | refuse | stopNobody | startNobody => exact h
  | accept | startWorker => exact .schedule h.passes
  | pass => exact h.pass
  | begin hw | finish hw => exact h.congr rfl rfl id (hbusy hw rfl)
  | leave hw =>
    exact h.congr rfl rfl id (serves_setWorker hw (by simp [Worker.available]))
  | goOn hw _ _ _ hp =>
    refine h.congr rfl rfl (fun hnil => ?_) (hbusy hw rfl)
    rw [hp] at hnil
    cases hnil
  | rest _ _ _ hp =>
    -- A worker rests where nothing waits, or where the queue has stopped.
    refine ⟨h.passes, fun hserves hpending => ?_⟩
    rcases hp with hstop | hnil
    · exact absurd (hstop.symm.trans (serves_eq_true_iff.mp hserves).1) Bool.noConfusion
    · exact absurd hnil hpending
  | stop => exact ⟨h.passes, fun hserves => by cases (serves_eq_true_iff.mp hserves).1⟩
  | stopWorker hw =>
    refine h.congr rfl rfl id (serves_setWorker hw fun ha => ?_)
    split at ha <;> simp [Worker.available] at ha
  | startIdly _ hp => exact ⟨h.passes, fun _ hpending => absurd hp hpending⟩
  | operate | notice | drain | look => exact h.congr rfl rfl id id

theorem Prompt.run {concurrency limit : Nat} {es : List (Event α)}
    (h : (Machine.new concurrency limit).run? es = some m) : Prompt m :=
  run?_keeps (fun _ _ _ hm hs => hm.step hs) h (.new concurrency limit)

/-- Where no pass is due, nothing waits that will be served. -/
theorem Prompt.not_serves (h : Prompt m) (hpasses : m.passes = 0) (hpending : m.pending ≠ []) :
    m.serves = false := by
  refine Bool.eq_false_iff.mpr fun hserves => ?_
  rw [h.passes, h.due hserves hpending] at hpasses
  cases hpasses

/-- **No worker idles beside waiting work.**  Whatever happens to a queue, in whatever order: if it
goes on, a task waits, and some worker in rotation is free, then a dispatch pass is marked as due
and exactly one is outstanding; more than one never is.  So when nothing can happen any more of the
queue's own making, no task waits, or the queue has stopped, or every worker in rotation is busy. -/
theorem pass_outstanding {concurrency limit : Nat} {es : List (Event α)}
    (h : (new concurrency limit).run? es = some m) :
    (m.stopped = false → m.pending ≠ [] →
      (∃ w ∈ m.workers, w.isBusy = false ∧ w.stopping = false ∧ w.stopped = false) →
      m.passDue = true ∧ m.passes = 1) ∧
    m.passes ≤ 1 ∧
    (m.Quiet → m.pending = [] ∨ m.stopped = true ∨
      ∀ w ∈ m.workers, w.stopping = false → w.stopped = false → w.isBusy = true) := by
  have hprompt : Prompt m := .run h
  have hfree (w : Worker α) (hw : w ∈ m.workers) (hgo : m.stopped = false)
      (hb : w.isBusy = false) (hstopping : w.stopping = false) (hstopped : w.stopped = false) :
      m.serves = true :=
    serves_eq_true_iff.mpr ⟨hgo, w, hw, by simp [Worker.available, hb, hstopping, hstopped]⟩
  refine ⟨fun hgo hpending hsome => ?_, ?_, fun hq => ?_⟩
  · obtain ⟨w, hw, hb, hstopping, hstopped⟩ := hsome
    have hdue := hprompt.due (hfree w hw hgo hb hstopping hstopped) hpending
    exact ⟨hdue, by rw [hprompt.passes, hdue]; rfl⟩
  · rw [hprompt.passes]
    exact Bool.toNat_le _
  · have hpasses : m.passes = 0 := by
      by_contra hne
      have hnone : m.step? .pass = none := hq .pass trivial
      simp [step?, hne] at hnone
    by_cases hpending : m.pending = []
    · exact .inl hpending
    · refine .inr (or_iff_not_imp_left.mpr fun hgo w hw hstopping hstopped => ?_)
      by_contra hb
      have hserves := hfree w hw (Bool.eq_false_iff.mpr hgo) (Bool.eq_false_iff.mpr hb) hstopping
        hstopped
      exact absurd ((hprompt.not_serves hpasses hpending).symm.trans hserves) Bool.noConfusion

/-- The only worker is out of rotation when a pass comes, and is then put back in beside the task
that waits. -/
theorem pass_outstanding_after_start :
    let es : List (Event String) := [.stopWorker 0, .push "a" 0 false, .pass, .startWorker 0]
    ∃ m, (new 1 10).run? es = some m ∧ m.stopped = false ∧ m.pending ≠ [] ∧
      m.passDue = true ∧ m.passes = 1 := by
  intro es
  have hrun : (new 1 10).run? es = some _ := rfl
  have hone := (pass_outstanding hrun).1 rfl (List.cons_ne_nil _ _)
    ⟨{}, List.mem_cons_self, rfl, rfl, rfl⟩
  exact ⟨_, hrun, rfl, List.cons_ne_nil _ _, hone⟩

end DeviceStats.Queue.Machine
