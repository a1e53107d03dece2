import DeviceStats.Proofs.Cycle.Progress

/-!
# Proofs/Cycle/Outcomes — the outcomes of a cycle are those of its calls

The handlers that were called are those of the properties on their way and of the outcomes, each
once (`Settled.calls`), and no worker lets go of a task before its outcome is there
(`Settled.seen`); so when the queue is idle at the end, the outcomes are those of the calls
(`Reached.ran_iff_exists_outcome`).  Each is what the one answer to its request makes of its
property (`Reached.exists_answer`).
-/

namespace DeviceStats

open Json (Value Object)

theorem Named.has_eq_isSome_get? {α : Type} (o : Named α) (key : String) :
    Named.has o key = (Named.get? o key).isSome := by
  rw [Named.has, Named.get?, Option.isSome_map]
  induction o with
  | nil => rfl
  | cons kv o ih =>
    by_cases h : (kv.1 == key) = true
    · simp [h]
    · simp [h, ih]

/-- A task whose signal was given has one. -/
theorem Queue.Machine.exists_signal_of_isGiven {α : Type} {m : Queue.Machine α}
    {id : Queue.TaskId} (h : m.isGiven id = true) :
    ∃ s ∈ m.signals, s.1 = id ∧ s.2.opened = false := by
  rw [isGiven, Option.any_eq_true] at h
  obtain ⟨s, hs, hopened⟩ := h
  obtain ⟨⟨k, s'⟩, hfind, rfl⟩ := Option.map_eq_some_iff.mp hs
  exact ⟨(k, s'), List.mem_of_find?_eq_some hfind, by simpa using List.find?_some hfind,
    by simpa using hopened⟩

namespace Cycle

/-! ## Answers -/

/-- The responses of a cycle are the answers that were given, and never change. -/
structure Answered (c : Cycle) (es : List Event) : Prop where
  kept : ∀ key a, .answer key a ∈ es →
    Named.get? c.cells key = some (.answered (a.map withItems))
  given : ∀ key a, Named.get? c.cells key = some (.answered a) →
    ∃ a', .answer key a' ∈ es ∧ a = a'.map withItems

theorem Answered.congr {c c' : Cycle} {es : List Event} {e : Event} (h : Answered c es)
    (hc : c'.cells = c.cells) (he : ∀ key a, e ≠ .answer key a) : Answered c' (es ++ [e]) where
  kept key a ha := by
    rw [hc]
    rcases List.mem_append.mp ha with ha | ha
    · exact h.kept key a ha
    · exact absurd (List.mem_singleton.mp ha).symm (he key a)
  given key a ha := by
    rw [hc] at ha
    obtain ⟨a', ha', rfl⟩ := h.given key a ha
    exact ⟨a', List.mem_append_left _ ha', rfl⟩

/-- A request that is sent has had no response yet. -/
theorem Answered.send {c c' : Cycle} {es : List Event} {r : Request} {task task' : Queue.TaskId}
    (h : Answered c es) (hk : Named.has c.cells r.key = false)
    (hc : c'.cells = Named.insert c.cells r.key (.loading r task)) :
    Answered c' (es ++ [.ask task']) := by
  have hnone : Named.get? c.cells r.key = none := by
    rwa [Named.has_eq_isSome_get?, Option.isSome_eq_false_iff, Option.isNone_iff_eq_none] at hk
  refine ⟨fun key a ha => ?_, fun key a ha => ?_⟩
  · have ha := h.kept key a (by simpa using ha)
    rw [hc, Named.get?_insert, if_neg fun hkey => by rw [hkey, ha] at hnone; cases hnone]
    exact ha
  · rw [hc, Named.get?_insert] at ha
    split at ha
    · cases ha
    · obtain ⟨a', ha', rfl⟩ := h.given key a ha
      exact ⟨a', List.mem_append_left _ ha', rfl⟩

/-- A request that is answered is on its way, and keeps that response. -/
theorem Answered.answer {c c' : Cycle} {es : List Event} {key : String} {r : Request}
    {task : Queue.TaskId} {a : Answer} (h : Answered c es)
    (hk : Named.get? c.cells key = some (.loading r task))
    (hc : c'.cells = Named.insert c.cells key (.answered (a.map withItems))) :
    Answered c' (es ++ [.answer key a]) := by
  refine ⟨fun other b hb => ?_, fun other b hb => ?_⟩
  · rw [hc, Named.get?_insert]
    rcases List.mem_append.mp hb with hb | hb
    · have hb := h.kept other b hb
      rw [if_neg fun hkey => by rw [hkey, hb] at hk; cases hk]
      exact hb
    · cases List.mem_singleton.mp hb
      rw [if_pos rfl]
  · rw [hc, Named.get?_insert] at hb
    split at hb
    · rename_i hkey
      cases hb
      exact ⟨a, hkey ▸ List.mem_append_right _ List.mem_cons_self, rfl⟩
    · obtain ⟨b', hb', rfl⟩ := h.given other b hb
      exact ⟨b', List.mem_append_left _ hb', rfl⟩

/-- **Every step keeps the responses.** -/
theorem Answered.step {c c' : Cycle} {es : List Event} {e : Event} (h : Answered c es)
    (hs : Step c e c') : Answered c' (es ++ [e]) := by
  cases hs with
  | send _ _ _ hk => exact h.send hk rfl
  | answer hk => exact h.answer hk rfl
  | @inQueue e qe q he => exact h.congr rfl fun key a heq => by rw [heq] at he; cases he
  | _ => exact h.congr rfl fun key a => Event.noConfusion

/-! ## Outcomes -/


/-- The ids of the tasks with an outcome. -/
def settledIds (c : Cycle) : List Queue.TaskId := c.outcomes.map (·.1 + 1)

/-- What the outcomes of a cycle are. -/
structure Settled (c : Cycle) (es : List Event) : Prop where
  calls : (c.queue.calls.map (·.task.id)).Perm (c.pursuits.map (·.task) ++ c.settledIds)
  places : ∀ p ∈ c.pursuits, p.task = p.place + 1
  signals : ∀ s ∈ c.queue.signals, s.2.opened = false → s.1 ∈ c.settledIds
  /-- A task whose worker saw its signal has an outcome. -/
  seen : ∀ w ∈ c.queue.workers, ∀ t, w.stage = .ended t → t.id ∈ c.settledIds
  ended : ∀ id ∈ c.queue.ended, id ∈ c.settledIds
  outcomes : ∀ o ∈ c.outcomes, ∃ p a, c.selected[o.1]? = some p ∧
    .answer (Request.ofProperty p).key a ∈ es ∧ o.2 = outcomeOf p (a.map withItems)

theorem Settled.new (selected : List Property) (workers limit : Nat) (stopRequested : Bool) :
    Settled (.new selected workers limit stopRequested) [] where
  calls := .refl _
  places p hp := absurd hp List.not_mem_nil
  signals s hs := absurd hs List.not_mem_nil
  seen w hw t ht := by
    rw [List.eq_of_mem_replicate hw] at ht
    cases ht
  ended id hid := absurd hid List.not_mem_nil
  outcomes o ho := absurd ho List.not_mem_nil

/-- An answer that was given stays given. -/
theorem Settled.outcomes_concat {c : Cycle} {es : List Event} (h : Settled c es) (e : Event) :
    ∀ o ∈ c.outcomes, ∃ p a, c.selected[o.1]? = some p ∧
      .answer (Request.ofProperty p).key a ∈ es ++ [e] ∧ o.2 = outcomeOf p (a.map withItems) := by
  intro o ho
  obtain ⟨p, a, hp, ha, heq⟩ := h.outcomes o ho
  exact ⟨p, a, hp, List.mem_append_left _ ha, heq⟩

theorem Settled.congr {c c' : Cycle} {es : List Event} (h : Settled c es) (e : Event)
    (hs : c'.selected = c.selected) (ho : c'.outcomes = c.outcomes)
    (hp : c'.pursuits.map (fun p => (p.task, p.place)) =
      c.pursuits.map fun p => (p.task, p.place))
    (hc : c'.queue.calls = c.queue.calls) (hsig : c'.queue.signals = c.queue.signals)
    (hseen : ∀ w ∈ c'.queue.workers, ∀ t, w.stage = .ended t → t.id ∈ c.settledIds)
    (hended : ∀ id ∈ c'.queue.ended, id ∈ c.settledIds) : Settled c' (es ++ [e]) := by
  have hids : c'.settledIds = c.settledIds := by rw [settledIds, ho, settledIds]
  refine ⟨?_, fun p hmem => ?_, ?_, ?_, ?_, ?_⟩
  · have htasks : c'.pursuits.map (·.task) = c.pursuits.map (·.task) := by
      have := congrArg (List.map Prod.fst) hp
      rwa [List.map_map, List.map_map] at this
    rw [hc, htasks, hids]
    exact h.calls
  · have : (p.task, p.place) ∈ c.pursuits.map fun p => (p.task, p.place) :=
      hp ▸ List.mem_map_of_mem hmem
    obtain ⟨q, hq, heq⟩ := List.mem_map.mp this
    obtain ⟨htask, hplace⟩ := Prod.mk.inj heq
    rw [← htask, ← hplace]
    exact h.places q hq
  · rw [hsig, hids]
    exact h.signals
  · rw [hids]
    exact hseen
  · rw [hids]
    exact hended
  · rw [hs, ho]
    exact h.outcomes_concat e

section Workers

variable {c : Cycle} {es : List Event} (h : Settled c es)

include h

/-- One worker moves on. -/
theorem Settled.seen_set {i : Nat} {w : Queue.Worker Nat}
    (hw : ∀ t, w.stage = .ended t → t.id ∈ c.settledIds) :
    ∀ v ∈ c.queue.workers.set i w, ∀ t, v.stage = .ended t → t.id ∈ c.settledIds := by
  intro v hv t ht
  rcases List.mem_or_eq_of_mem_set hv with hv | rfl
  · exact h.seen v hv t ht
  · exact hw t ht

/-- Workers claim tasks. -/
theorem Settled.seen_assign :
    ∀ v ∈ (Queue.Machine.assign c.queue.workers c.queue.pending).1, ∀ t, v.stage = .ended t →
      t.id ∈ c.settledIds := by
  intro v hv t ht
  obtain ⟨i, hi⟩ := List.mem_iff_getElem?.mp hv
  obtain ⟨w, hw, rfl | ⟨-, u, -, rfl⟩⟩ := Queue.Machine.assign_getElem? hi
  · exact h.seen v (List.mem_of_getElem? hw) t ht
  · cases ht

/-- A worker lets go of a task that it saw end. -/
theorem Settled.ended_concat {i : Nat} {w : Queue.Worker Nat} {t : Queue.Task Nat}
    (hw : c.queue.workers[i]? = some w) (hst : w.stage = .ended t) :
    ∀ id ∈ c.queue.ended ++ [t.id], id ∈ c.settledIds := by
  intro id hid
  rcases List.mem_append.mp hid with hid | hid
  · exact h.ended id hid
  · rw [List.mem_singleton.mp hid]
    exact h.seen w (List.mem_of_getElem? hw) t hst

/-- An event of the queue that calls no handler and touches no signal. -/
theorem Settled.inQueue {e : Event} {qe : Queue.Machine.Event Nat} {q : Queue.Machine Nat}
    (he : e.inQueue? = some qe) (hq : Queue.Machine.Step c.queue qe q) :
    Settled { c with queue := q } (es ++ [e]) := by
  cases hq with
  | pass =>
    obtain ⟨ws, ts, hm, hws⟩ := c.queue.exists_pass_eq
    rw [hm]
    refine h.congr e rfl rfl rfl rfl rfl ?_ h.ended
    rcases hws with ⟨rfl, -⟩ | hassign
    · exact h.seen
    · obtain rfl : ws = (Queue.Machine.assign c.queue.workers c.queue.pending).1 :=
        congrArg Prod.fst hassign
      exact h.seen_assign
  | @finish i w t hw hst hg =>
    refine h.congr e rfl rfl rfl rfl rfl (h.seen_set fun u hu => ?_) h.ended
    obtain rfl : t = u := Queue.Stage.ended.inj hu
    obtain ⟨s, hs, hid, hopened⟩ := Queue.Machine.exists_signal_of_isGiven hg
    exact hid ▸ h.signals s hs hopened
  | leave hw hst | rest hw hst | goOn hw hst =>
    refine h.congr e rfl rfl rfl rfl rfl (h.seen_set fun u hu => ?_) (h.ended_concat hw hst)
    cases hu
  | notice => exact h.congr e rfl rfl rfl rfl rfl h.seen h.ended
  | _ => cases e <;> cases he

end Workers

/-- A handler is called. -/
theorem Settled.begin {c : Cycle} {es : List Event} {n i : Nat} {w : Queue.Worker Nat}
    {t : Queue.Task Nat} (h : Settled c es) (hp : Placed c n)
    (hw : c.queue.workers[i]? = some w) (hst : w.stage = .claimed t) :
    Settled { c with
      queue := { c.queue.setWorker i { w with stage := .running t } with
        signals := c.queue.signals ++ [(t.id, {})], calls := c.queue.calls ++ [⟨t, i⟩] }
      pursuits := c.pursuits ++ [⟨t.id, t.payload, false⟩] } (es ++ [.begin i]) := by
  refine ⟨?_, fun p hmem => ?_, fun s hs hopened => ?_, h.seen_set fun u hu => ?_, h.ended,
    h.outcomes_concat _⟩
  · rw [List.map_append, List.map_append]
    refine (h.calls.append_right _).trans ?_
    rw [List.append_assoc, List.append_assoc]
    exact List.perm_append_comm.append_left _
  · rcases List.mem_append.mp hmem with hmem | hmem
    · exact h.places p hmem
    · obtain ⟨k, -, rfl⟩ := mem_tasks_iff.mp (hp.ledger.has_sub i t ⟨w, hw, by simp [hst]⟩)
      rw [List.mem_singleton.mp hmem]
  · rcases List.mem_append.mp hs with hs | hs
    · exact h.signals s hs hopened
    · rw [List.mem_singleton.mp hs] at hopened
      cases hopened
  · cases hu

/-- The pursuit of a task. -/
theorem Settled.task_eq {c : Cycle} {es : List Event} {task : Queue.TaskId} {p : Pursuit}
    (h : Settled c es) (hp : c.pursuit? task = some p) : p.task = task ∧ task = p.place + 1 := by
  have htask : p.task = task := by simpa using List.find?_some hp
  exact ⟨htask, htask ▸ h.places p (List.mem_of_find?_eq_some hp)⟩

/-- No other pursuit has its task. -/
theorem Settled.perm_pursuits {c : Cycle} {es : List Event} {n : Nat} {task : Queue.TaskId}
    {p : Pursuit} (h : Settled c es) (hplaced : Placed c n) (hp : c.pursuit? task = some p) :
    (c.pursuits.map (·.task)).Perm
      (task :: (c.pursuits.filter fun q => q.task != task).map (·.task)) := by
  have hnodup : (c.pursuits.map (·.task)).Nodup :=
    (List.nodup_append.mp (h.calls.nodup_iff.mp hplaced.ledger.nodup_calls)).1
  have hmem : task ∈ c.pursuits.map (·.task) :=
    List.mem_map.mpr ⟨p, List.mem_of_find?_eq_some hp, (h.task_eq hp).1⟩
  have hsplit := List.perm_cons_erase hmem
  rw [hnodup.erase_eq_filter, List.filter_map] at hsplit
  exact hsplit

/-- A property comes to its end. -/
theorem Settled.take {c : Cycle} {es : List Event} {n : Nat} {task : Queue.TaskId}
    {p : Pursuit} {property : Property} {a : Answer} (h : Settled c es) (ha : Answered c es)
    (hp : Placed c n) (hpursuit : c.pursuit? task = some p)
    (hs : c.selected[p.place]? = some property)
    (hk : Named.get? c.cells (Request.ofProperty property).key = some (.answered a)) :
    Settled { c with
      pursuits := c.pursuits.filter fun q => q.task != task
      outcomes := c.outcomes ++ [(p.place, outcomeOf property a)]
      queue := c.queue.operate task .give } (es ++ [.take task]) := by
  have hplace := (h.task_eq hpursuit).2
  have hids (id : Queue.TaskId) (hid : id ∈ c.settledIds) :
      id ∈ (c.outcomes ++ [(p.place, outcomeOf property a)]).map (·.1 + 1) := by
    rw [List.map_append]
    exact List.mem_append_left _ hid
  refine ⟨?_, fun q hq => h.places q (List.mem_of_mem_filter hq), fun s hsig hopened => ?_,
    fun w hw t ht => hids _ (h.seen w hw t ht), fun id hid => hids _ (h.ended id hid),
    fun o ho => ?_⟩
  · have hsplit := h.perm_pursuits hp hpursuit
    rw [settledIds, List.map_append, ← List.append_assoc]
    refine (h.calls.trans (hsplit.append_right _)).trans ?_
    rw [List.map_singleton, ← hplace]
    exact (List.perm_append_singleton task _).symm
  · obtain ⟨s', hs', rfl⟩ := List.mem_map.mp hsig
    by_cases hid : s'.1 = task
    · rw [if_pos hid] at hopened ⊢
      rw [settledIds, List.map_append, List.map_singleton, ← hplace]
      exact List.mem_append_right _ (List.mem_singleton.mpr hid)
    · rw [if_neg hid] at hopened ⊢
      exact hids _ (h.signals s' hs' hopened)
  · rcases List.mem_append.mp ho with ho | ho
    · exact h.outcomes_concat _ o ho
    · obtain ⟨a', ha', rfl⟩ := ha.given _ _ hk
      rw [List.mem_singleton.mp ho]
      exact ⟨property, a', hs, List.mem_append_left _ ha', rfl⟩

/-- **Every step keeps what the outcomes are.** -/
theorem Settled.step {c c' : Cycle} {es : List Event} {e : Event} {n : Nat} (h : Settled c es)
    (ha : Answered c es) (hp : Placed c n) (hs : Step c e c') : Settled c' (es ++ [e]) := by
  have hask (task : Queue.TaskId) : (c.pursuits.map (·.ask task)).map
      (fun p => (p.task, p.place)) = c.pursuits.map fun p => (p.task, p.place) := by
    rw [List.map_map]
    refine List.map_congr_left fun p _ => ?_
    simp only [Function.comp_apply, Pursuit.ask]
    split <;> rfl
  cases hs with
  | @push k hphase hn hstop hr =>
    obtain ⟨due, passes, hm⟩ := c.queue.exists_accept_eq k 0
    rw [hm]
    exact h.congr .push rfl rfl rfl rfl rfl h.seen h.ended
  | inQueue he hq => exact h.inQueue he hq
  | begin hw hst => exact h.begin hp hw hst
  | @join task | @send task => exact h.congr _ rfl rfl (hask task) rfl rfl h.seen h.ended
  | take hpursuit _ hs hk => exact h.take ha hp hpursuit hs hk
  | pushedAll | pushStopped | pushRefused | arrive | sleep | heed | requestStop | answer =>
    exact h.congr _ rfl rfl rfl rfl rfl h.seen h.ended

/-- A cycle that events have led to. -/
structure Reached (c₀ c : Cycle) (es : List Event) (n : Nat) : Prop where
  placed : Placed c n
  answered : Answered c es
  settled : Settled c es
  pushed : c₀.pushed es = List.range n
  selected : c.selected = c₀.selected

theorem selected_of_step {c c' : Cycle} {e : Event} (hs : Step c e c') :
    c'.selected = c.selected := by
  cases hs <;> rfl

/-- **Every run.** -/
theorem exists_reached {selected : List Property} {workers limit : Nat} {stopRequested : Bool}
    {c : Cycle} {es : List Event}
    (h : (Cycle.new selected workers limit stopRequested).run? es = some c) :
    ∃ n, Reached (.new selected workers limit stopRequested) c es n := by
  refine run?_induction (P := fun c es => ∃ n,
    Reached (.new selected workers limit stopRequested) c es n) h
    ⟨0, .new selected workers limit stopRequested,
      ⟨fun _ _ ha => absurd ha List.not_mem_nil, fun _ _ ha => by cases ha⟩,
      .new selected workers limit stopRequested, rfl, rfl⟩ ?_
  rintro m es e c hm hs ⟨n, hn⟩
  obtain ⟨n', hn', hrange⟩ := hn.placed.step hs
  exact ⟨n', hn', hn.answered.step hs, hn.settled.step hn.answered hn.placed hs,
    by rw [pushed_concat hm, hn.pushed, hrange], (selected_of_step hs).trans hn.selected⟩

/-! ## The end of a cycle -/

/-- Whether the handler was called for the property at a place. -/
def Ran (c : Cycle) (place : Nat) : Prop := ∃ call ∈ c.queue.calls, call.task.payload = place

section End

variable {c₀ c : Cycle} {es : List Event} {n : Nat}

theorem Reached.nodup_settledIds (h : Reached c₀ c es n) : c.settledIds.Nodup :=
  (List.nodup_append.mp
    (h.settled.calls.nodup_iff.mp h.placed.ledger.nodup_calls)).2.1

/-- An outcome is read back. -/
theorem Reached.outcome?_eq_some_iff (h : Reached c₀ c es n) {i : Nat} {o : Outcome} :
    c.outcome? i = some o ↔ (i, o) ∈ c.outcomes := by
  rw [outcome?, Option.map_eq_some_iff]
  constructor
  · rintro ⟨⟨j, o⟩, hfind, rfl⟩
    obtain rfl : j = i := by simpa using List.find?_some hfind
    exact List.mem_of_find?_eq_some hfind
  · intro hmem
    cases hfind : c.outcomes.find? (·.1 == i) with
    | none => exact absurd (by simp) (List.find?_eq_none.mp hfind _ hmem)
    | some io =>
      have hi : io.1 = i := by simpa using List.find?_some hfind
      have := List.inj_on_of_nodup_map h.nodup_settledIds (List.mem_of_find?_eq_some hfind) hmem
        (by rw [hi])
      exact ⟨_, rfl, by rw [this]⟩

/-- The call for a place is that of its task. -/
theorem Reached.ran_iff (h : Reached c₀ c es n) {i : Nat} :
    c.Ran i ↔ i + 1 ∈ c.queue.calls.map (·.task.id) := by
  rw [Ran, List.mem_map]
  constructor
  · rintro ⟨call, hcall, rfl⟩
    obtain ⟨k, -, hk⟩ := mem_tasks_iff.mp (h.placed.ledger.calls_sub call hcall)
    exact ⟨call, hcall, by rw [hk]⟩
  · rintro ⟨call, hcall, hid⟩
    obtain ⟨k, -, hk⟩ := mem_tasks_iff.mp (h.placed.ledger.calls_sub call hcall)
    refine ⟨call, hcall, ?_⟩
    rw [hk] at hid ⊢
    exact Nat.succ.inj hid

/-- What has an outcome is settled. -/
theorem Reached.exists_outcome_iff (h : Reached c₀ c es n) {i : Nat} :
    (∃ o, c.outcome? i = some o) ↔ i + 1 ∈ c.settledIds := by
  simp only [h.outcome?_eq_some_iff, settledIds, List.mem_map]
  constructor
  · rintro ⟨o, ho⟩
    exact ⟨(i, o), ho, rfl⟩
  · rintro ⟨⟨j, o⟩, ho, hj⟩
    obtain rfl : j = i := Nat.succ.inj hj
    exact ⟨o, ho⟩

/-- **At the end the outcomes are those of the calls.** -/
theorem Reached.ran_iff_exists_outcome (h : Reached c₀ c es n) (hd : c.phase = .done) {i : Nat} :
    c.Ran i ↔ ∃ o, c.outcome? i = some o := by
  obtain ⟨-, -, hidle⟩ := h.placed.of_done hd
  rw [h.ran_iff, h.exists_outcome_iff]
  constructor
  · intro hcall
    rcases List.mem_append.mp (h.placed.ledger.calls.mem_iff.mp hcall) with hb | he
    · obtain ⟨t, ht, -⟩ := List.mem_map.mp hb
      obtain ⟨w, hw, hbegun⟩ := List.mem_filterMap.mp ht
      have hbusy := List.all_eq_true.mp hidle w hw
      rw [Queue.Worker.isBusy, Queue.Stage.task?_of_begun? hbegun] at hbusy
      cases hbusy
    · exact h.settled.ended _ he
  · exact fun hid => h.settled.calls.mem_iff.mpr (List.mem_append_right _ hid)

/-- What the one answer to its request makes of a property. -/
theorem Reached.exists_answer (h : Reached c₀ c es n) {i : Nat} {o : Outcome}
    (ho : c.outcome? i = some o) : ∃ p a, c.selected[i]? = some p ∧
      .answer (Request.ofProperty p).key a ∈ es ∧ o = outcomeOf p (a.map withItems) :=
  h.settled.outcomes _ (h.outcome?_eq_some_iff.mp ho)

/-- Two answers to one request are as good as one. -/
theorem Reached.answer_eq (h : Reached c₀ c es n) {key : String} {a b : Answer}
    (ha : .answer key a ∈ es) (hb : .answer key b ∈ es) : a.map withItems = b.map withItems := by
  have := (h.answered.kept key a ha).symm.trans (h.answered.kept key b hb)
  exact Cell.answered.inj (Option.some.inj this)

end End

end Cycle

end DeviceStats
