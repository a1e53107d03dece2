import DeviceStats.Proofs.Cycle.Measure
import DeviceStats.Proofs.Cycle.Sharing

/-!
# Proofs/Cycle/Liveness — a cycle cannot get stuck

A task's signal is given as soon as its property has an outcome (`Signalled`), and the cycle itself
looks again until what it waits for has come (`Watched`).  So where a cycle can do nothing of its
own and no request is out, no property is on its way, no worker has a task, and the cycle is done
(`AtRest.phase_eq`).  As every event but a request to stop lowers the cost of what is left, a cycle
whose requests are answered or given up is done after so many events at the latest
(`countP_goesOn_le`).
-/

namespace DeviceStats

open Json (Value)

/-! ## What the queue's own events leave alone -/

namespace Queue.Machine

variable {α : Type} {m m' : Machine α} {e : Event α}

/-- Only a call of a handler brings a signal. -/
theorem signals_of_step (he : e.IsInner) (hb : ∀ i, e ≠ .begin i) (h : Step m e m') :
    m'.signals = m.signals := by
  cases h with
  | pass => exact m.sameView_pass.signals
  | begin => exact absurd rfl (hb _)
  | finish | leave | goOn | rest | notice => rfl
  | _ => exact he.elim

/-- Those who wait are left alone, or all told. -/
theorem waiters_of_step (he : e.IsInner) (h : Step m e m') :
    m'.waiters = m.waiters ∨ m'.waiters = m.tell.waiters := by
  cases h with
  | pass => exact .inl m.sameView_pass.waiters
  | finish | notice => exact .inr rfl
  | begin | leave | goOn | rest => exact .inl rfl
  | _ => exact he.elim

/-- A task whose signals are all given, of which it has one, has its signal given. -/
theorem isGiven_of_mem {id : TaskId} (hid : id ∈ m.signals.map (·.1))
    (h : ∀ s ∈ m.signals, s.1 = id → s.2.opened = false) : m.isGiven id = true := by
  obtain ⟨s, hs, rfl⟩ := List.mem_map.mp hid
  obtain ⟨s', hs'⟩ := Option.isSome_iff_exists.mp
    ((List.find?_isSome (p := fun t => t.1 == s.1)).mpr ⟨s, hs, beq_self_eq_true _⟩)
  have hopened := h s' (List.mem_of_find?_eq_some hs') (by simpa using List.find?_some hs')
  rw [isGiven, signal?, hs']
  simp [hopened]

end Queue.Machine

namespace Cycle

variable {c₀ c c' : Cycle} {e : Event} {es : List Event} {n : Nat}

/-! ## Signals -/

/-- Every task whose handler was called has a signal that can be given, and it is given when the
property has come to its end. -/
structure Signalled (c : Cycle) : Prop where
  ids : c.queue.signals.map (·.1) = c.calledIds
  held : ∀ s ∈ c.queue.signals, s.2.holders ≠ 0
  given : ∀ s ∈ c.queue.signals, s.1 ∈ c.settledIds → s.2.opened = false

theorem Signalled.new (selected : List Property) (workers limit : Nat) (stopRequested : Bool) :
    Signalled (.new selected workers limit stopRequested) where
  ids := rfl
  held _ hs := absurd hs List.not_mem_nil
  given _ hs := absurd hs List.not_mem_nil

theorem Signalled.congr (h : Signalled c) (hs : c'.queue.signals = c.queue.signals)
    (hc : c'.queue.calls = c.queue.calls) (ho : c'.outcomes = c.outcomes) : Signalled c' where
  ids := by rw [hs, calledIds, hc, h.ids, calledIds]
  held := hs ▸ h.held
  given := by
    rw [hs, settledIds, ho]
    exact h.given

/-- A handler is called, and its task gets a signal. -/
theorem Signalled.begin (h : Signalled c) (hset : Settled c es) {i : Nat} {w : Queue.Worker Nat}
    {t : Queue.Task Nat} (hfresh : (c.calledIds ++ [t.id]).Nodup) : Signalled { c with
      queue := { c.queue.setWorker i { w with stage := .running t } with
        signals := c.queue.signals ++ [(t.id, {})], calls := c.queue.calls ++ [⟨t, i⟩] }
      pursuits := c.pursuits ++ [⟨t.id, t.payload, false⟩] } where
  ids := by
    rw [calledIds, List.map_append, List.map_append, h.ids]
    rfl
  held s hs := by
    rcases List.mem_append.mp hs with hs | hs
    · exact h.held s hs
    · rw [List.mem_singleton.mp hs]
      exact Nat.one_ne_zero
  given s hs hid := by
    rcases List.mem_append.mp hs with hs | hs
    · exact h.given s hs hid
    · -- The task that is called now has no outcome yet.
      obtain rfl := List.mem_singleton.mp hs
      have hcalled : t.id ∈ c.calledIds := hset.calls.mem_iff.mpr (List.mem_append_right _ hid)
      exact absurd rfl
        ((List.nodup_append.mp hfresh).2.2 t.id hcalled t.id List.mem_cons_self)

/-- A property comes to its end and gives the signal of its task. -/
theorem Signalled.take (h : Signalled c) (hset : Settled c es) {task : Queue.TaskId} {p : Pursuit}
    (hp : c.pursuit? task = some p) (o : Outcome) : Signalled { c with
      pursuits := c.pursuits.filter fun q => q.task != task
      outcomes := c.outcomes ++ [(p.place, o)]
      queue := c.queue.operate task .give } where
  ids := by
    rw [Queue.Machine.operate, List.map_map]
    refine (List.map_congr_left fun s _ => ?_).trans h.ids
    simp only [Function.comp_apply]
    split <;> rfl
  held s hs := by
    obtain ⟨s', hs', rfl⟩ := List.mem_map.mp hs
    have hheld := h.held s' hs'
    split
    · rwa [Queue.Signal.after, if_neg hheld]
    · exact hheld
  given s hs hid := by
    obtain ⟨s', hs', rfl⟩ := List.mem_map.mp hs
    by_cases htask : s'.1 = task
    · rw [if_pos htask, Queue.Signal.after, if_neg (h.held s' hs')]
    · rw [if_neg htask] at hid ⊢
      refine h.given s' hs' ?_
      rw [settledIds, List.map_append] at hid
      refine (List.mem_append.mp hid).resolve_right fun hlast => htask ?_
      rw [List.mem_singleton.mp hlast, (hset.task_eq hp).2]

/-- **Every step keeps signals in line with outcomes.** -/
theorem Signalled.step (h : Signalled c) (hset : Settled c es) (hp : Placed c n)
    (hs : Step c e c') : Signalled c' := by
  have hledger := hp.step hs
  cases hs with
  | @push k =>
    obtain ⟨due, passes, hm⟩ := c.queue.exists_accept_eq k 0
    rw [hm]
    exact h.congr rfl rfl rfl
  | @inQueue e qe q he hq =>
    obtain ⟨hinner, hbegin⟩ := Event.isInner_of_inQueue? he
    refine h.congr (Queue.Machine.signals_of_step hinner hbegin hq) ?_ rfl
    rcases Queue.Machine.calls_of_step hq with hcalls | ⟨i, w, t, rfl, -⟩
    · exact hcalls
    · exact absurd rfl (hbegin i)
  | begin hw hst =>
    obtain ⟨n', hn', -⟩ := hledger
    have hnodup := hn'.ledger.nodup_calls
    rw [List.map_append] at hnodup
    exact h.begin hset hnodup
  | take hpursuit => exact h.take hset hpursuit _
  | pushedAll | pushStopped | pushRefused | arrive | sleep | heed | requestStop | join | send
  | answer => exact h.congr rfl rfl rfl

/-! ## Who waits for the queue -/

/-- The cycle waits for its queue, and looks until what it waits for has come. -/
structure Watched (c : Cycle) : Prop where
  length_le : c.queue.waiters.length ≤ 2
  waits : ∀ k w, c.phase.waiter? = some k → c.queue.waiters[k]? = some w → w.waiting ≠ .done

theorem Watched.new (selected : List Property) (workers limit : Nat) (stopRequested : Bool) :
    Watched (.new selected workers limit stopRequested) where
  length_le := Nat.zero_le _
  waits _ _ hk := by cases hk

theorem Watched.congr (h : Watched c) (hp : c'.phase = c.phase)
    (hw : c'.queue.waiters = c.queue.waiters) : Watched c' where
  length_le := hw ▸ h.length_le
  waits k w hk hwaiter := h.waits k w (hp ▸ hk) (hw ▸ hwaiter)

/-- Who is told is not done. -/
theorem Watched.tell (h : Watched c) (hp : c'.phase = c.phase)
    (hw : c'.queue.waiters = c.queue.tell.waiters) : Watched c' where
  length_le := by
    rw [hw, Queue.Machine.tell, List.length_map]
    exact h.length_le
  waits k w hk hwaiter := by
    rw [hw, Queue.Machine.tell, List.getElem?_map, Option.map_eq_some_iff] at hwaiter
    obtain ⟨v, hv, rfl⟩ := hwaiter
    split
    · simp
    · exact h.waits k v (hp ▸ hk) hv

/-- The cycle comes to wait for its queue. -/
theorem Watched.wait (hq : c.queue.waiters = []) : Watched c.wait where
  length_le := by
    rw [Cycle.wait, Queue.Machine.await, hq]
    exact Nat.le_succ 1
  waits k w hk hwaiter := by
    obtain rfl : 0 = k := Option.some.inj hk
    rw [Cycle.wait, Queue.Machine.await, hq] at hwaiter
    rw [← Option.some.inj hwaiter]
    simp

/-- The cycle looks in vain. -/
theorem Watched.sleep (h : Watched c) {k : Nat} {w : Queue.Waiter}
    (hk : c.phase.waiter? = some k) (hw : c.queue.waiters[k]? = some w) : Watched { c with
      queue := { c.queue with waiters := c.queue.waiters.set k ⟨w.goal, .listening⟩ } } where
  length_le := by
    rw [List.length_set]
    exact h.length_le
  waits j v hj hv := by
    obtain rfl : k = j := Option.some.inj (hk.symm.trans hj)
    obtain ⟨hlt, -⟩ := List.getElem?_eq_some_iff.mp hw
    rw [List.getElem?_set_self hlt] at hv
    rw [← Option.some.inj hv]
    simp

/-- The cycle stops its queue and waits anew. -/
theorem Watched.heed (hq : c.queue.waiters.length = 1) :
    Watched { c with phase := .leaving, queue := c.queue.halt.await .idle } where
  length_le := by
    rw [Queue.Machine.await, List.length_append]
    exact Nat.le_of_eq (congrArg (· + 1) hq)
  waits k w hk hwaiter := by
    obtain rfl : 1 = k := Option.some.inj hk
    have hlast : (c.queue.waiters ++ [⟨.idle, .told⟩])[1]? = some w := hwaiter
    rw [← hq, List.getElem?_concat_length] at hlast
    rw [← Option.some.inj hlast]
    simp

/-- **Every step keeps the cycle looking.** -/
theorem Watched.step (h : Watched c) (hp : Placed c n) (hs : Step c e c') : Watched c' := by
  have hnone {k : Nat} (hk : c.phase = .pushing k) : c.queue.waiters = [] :=
    List.map_eq_nil_iff.mp (hp.atPhase.of_pushing hk).2.2.2.2
  cases hs with
  | @push k =>
    obtain ⟨due, passes, hm⟩ := c.queue.exists_accept_eq k 0
    rw [hm]
    exact ⟨h.length_le, fun _ _ hk => by cases hk⟩
  | pushedAll hk | pushStopped hk | pushRefused hk => exact .wait (hnone hk)
  | arrive =>
    refine ⟨?_, fun _ _ hk => by cases hk⟩
    rw [List.length_set]
    exact h.length_le
  | sleep hk hw => exact h.sleep hk hw
  | heed hk =>
    have hgoals := congrArg List.length (hp.atPhase.of_waiting hk).2.2
    rw [List.length_map] at hgoals
    exact .heed hgoals
  | @inQueue e qe q he hq =>
    obtain ⟨hinner, -⟩ := Event.isInner_of_inQueue? he
    rcases Queue.Machine.waiters_of_step hinner hq with hw | hw
    · exact h.congr rfl hw
    · exact h.tell rfl hw
  | requestStop | begin | join | send | answer | take => exact h.congr rfl rfl

/-! ## Where a cycle rests -/

/-- What a cycle does of its own: all but the answers to its requests, requests to stop, and that it
heeds them. -/
def Event.IsOwn : Event → Prop
  | .answer .. | .requestStop | .heed => False
  | _ => True

/-- A cycle that can do nothing of its own, and waits for no answer. -/
structure AtRest (c : Cycle) : Prop where
  quiet : ∀ e : Event, e.IsOwn → c.step? e = none
  answered : c.inFlight = 0

/-- A cycle with all that is known of it. -/
structure Live (c₀ c : Cycle) (es : List Event) (n : Nat) : Prop extends Reached c₀ c es n where
  shared : Shared c
  signalled : Signalled c
  watched : Watched c
  prompt : c.queue.Prompt
  told : ∀ g, (g = .drained → c.queue.stopped = false) → c.queue.Told g

/-- **Every run.** -/
theorem exists_live {selected : List Property} {workers limit : Nat} {stopRequested : Bool}
    (h : (Cycle.new selected workers limit stopRequested).run? es = some c) :
    ∃ n, Live (.new selected workers limit stopRequested) c es n := by
  have hkept : Signalled c ∧ Watched c := by
    refine run?_induction (P := fun c _ => Signalled c ∧ Watched c) h
      ⟨.new selected workers limit stopRequested, .new selected workers limit stopRequested⟩ ?_
    rintro m fs e c hm hs ⟨hsignalled, hwatched⟩
    obtain ⟨n, hn⟩ := exists_reached hm
    exact ⟨hsignalled.step hn.settled hn.placed hs, hwatched.step hn.placed hs⟩
  obtain ⟨n, hn⟩ := exists_reached h
  exact ⟨n, hn, .run h, hkept.1, hkept.2, prompt_of_run h, fun _ hg => told_of_run h hg⟩

theorem Placed.le (h : Placed c n) : n ≤ c.selected.length := by
  cases h.atPhase with
  | pushing _ hn => exact hn
  | waiting _ hh | leaving _ hh | done _ hh => exact hh.le

/-- A property on its way is one of those selected. -/
theorem Reached.exists_property (h : Reached c₀ c es n) {p : Pursuit} (hp : p ∈ c.pursuits) :
    ∃ property, c.selected[p.place]? = some property := by
  have hcalled : p.task ∈ c.calledIds :=
    h.settled.calls.mem_iff.mpr (List.mem_append_left _ (List.mem_map_of_mem hp))
  obtain ⟨call, hcall, hid⟩ := List.mem_map.mp hcalled
  obtain ⟨i, hi, htask⟩ := mem_tasks_iff.mp (h.placed.ledger.calls_sub call hcall)
  have hplace : p.place = i := by
    rw [htask, h.settled.places p hp] at hid
    exact (Nat.succ.inj hid).symm
  exact ⟨_, List.getElem?_eq_getElem (hplace ▸ Nat.lt_of_lt_of_le hi h.placed.le)⟩

/-- A key under which a request was sent has a cell. -/
theorem Shared.exists_cell (h : Shared c) {key : String} (hkey : key ∈ c.loads) :
    ∃ cell, Named.get? c.cells key = some cell := by
  refine Option.isSome_iff_exists.mp ?_
  rw [← Named.has_eq_isSome_get?]
  exact h.has_eq_true_iff.mpr hkey

/-- A cycle that pushes can go on. -/
theorem exists_push (hp : c.phase = .pushing n) : ∃ c', Step c .push c' := by
  rcases Nat.lt_or_ge n c.selected.length with hn | hn
  · cases hs : c.stopRequested with
    | true => exact ⟨_, .pushStopped hp hn hs⟩
    | false =>
      cases hr : c.queue.refusal? false with
      | none => exact ⟨_, .push hp hn hs hr⟩
      | some e => exact ⟨_, .pushRefused hp hn hs hr⟩
  · exact ⟨_, .pushedAll hp hn⟩

section AtRest

variable (h : AtRest c)

include h

/-- Nothing can happen of its own. -/
theorem AtRest.not_step (hs : Step c e c') (he : e.IsOwn) : False :=
  Option.some_ne_none c' ((step?_of_step hs).symm.trans (h.quiet e he))

/-- Every request that was sent was answered or given up. -/
theorem AtRest.exists_answer {key : String} {cell : Cell}
    (hcell : Named.get? c.cells key = some cell) : ∃ a, cell = .answered a := by
  cases cell with
  | answered a => exact ⟨a, rfl⟩
  | loading r task =>
    have hnone := List.countP_eq_zero.mp h.answered (key, .loading r task)
      (Named.mem_of_get?_eq_some hcell)
    exact absurd rfl hnone

variable (hl : Live c₀ c es n)

include hl

/-- No property is on its way. -/
theorem AtRest.pursuits_eq_nil : c.pursuits = [] := by
  by_contra hne
  obtain ⟨p, hp⟩ := List.exists_mem_of_ne_nil _ hne
  obtain ⟨q, hq⟩ : ∃ q, c.pursuit? p.task = some q := by
    refine Option.isSome_iff_exists.mp (List.find?_isSome.mpr ⟨p, hp, ?_⟩)
    exact beq_self_eq_true _
  have hmem := List.mem_of_find?_eq_some hq
  obtain ⟨property, hproperty⟩ := hl.exists_property hmem
  have hrequest : c.request? q.place = some (.ofProperty property) := by rw [request?, hproperty]; rfl
  cases ha : q.asked with
  | false =>
    cases hk : Named.has c.cells (Request.ofProperty property).key with
    | true => exact h.not_step (.join hq ha hrequest hk) trivial
    | false => exact h.not_step (.send hq ha hrequest hk) trivial
  | true =>
    obtain ⟨key, hkey, hat⟩ := hl.shared.asked q hmem ha
    obtain rfl : (Request.ofProperty property).key = key :=
      Option.some.inj ((keyAt?_of_request? hrequest).symm.trans hat)
    obtain ⟨cell, hcell⟩ := hl.shared.exists_cell hkey
    obtain ⟨a, rfl⟩ := h.exists_answer hcell
    exact h.not_step (.take hq ha hproperty hcell) trivial

/-- No worker has a task. -/
theorem AtRest.isIdle : c.queue.isIdle = true := by
  refine Queue.Machine.isIdle_eq_true_iff.mpr fun i w hw => ?_
  cases hs : w.stage with
  | free => rw [Queue.Worker.isBusy, hs]; rfl
  | claimed t => exact (h.not_step (.begin hw hs) trivial).elim
  | ended t =>
    have hturn := Queue.Machine.step_of_next hw hs
    exact (h.not_step (.inQueue (e := .turn i) rfl hturn) trivial).elim
  | running t =>
    -- The task has no property on its way, so it has an outcome, and its signal was given.
    have hcalled : t.id ∈ c.calledIds := List.mem_map.mpr
      ⟨_, hl.placed.ledger.callers i w t hw (by rw [hs]; rfl), rfl⟩
    have hsettled : t.id ∈ c.settledIds := by
      have := hl.settled.calls.mem_iff.mp hcalled
      rwa [h.pursuits_eq_nil hl] at this
    have hgiven : c.queue.isGiven t.id = true := by
      refine Queue.Machine.isGiven_of_mem (hl.signalled.ids ▸ hcalled) fun s hsig hid => ?_
      exact hl.signalled.given s hsig (hid ▸ hsettled)
    exact (h.not_step (.inQueue (e := .finish i) rfl (.finish hw hs hgiven)) trivial).elim

/-- Nothing waits that will be served. -/
theorem AtRest.isDrained : c.queue.isDrained = true := by
  refine Queue.Machine.isDrained_eq_true_iff.mpr ⟨h.isIdle hl, fun hserves => ?_⟩
  by_contra hpending
  have hpasses : c.queue.passes = 0 := by
    by_contra hpasses
    exact h.not_step (.inQueue (e := .pass) rfl (.pass hpasses)) trivial
  rw [hl.prompt.not_serves hpasses hpending] at hserves
  cases hserves

/-- What the cycle waits for has not come. -/
theorem AtRest.not_reached {k : Nat} {w : Queue.Waiter} (hk : c.phase.waiter? = some k)
    (hw : c.queue.waiters[k]? = some w) (htold : c.queue.Told w.goal) :
    c.queue.reached w.goal = false := by
  refine Bool.eq_false_iff.mpr fun hr => ?_
  cases hs : w.waiting with
  | told => exact h.not_step (.arrive hk hw hs hr) trivial
  | done => exact hl.watched.waits k w hk hw hs
  | listening =>
    have hmem : ⟨w.goal, .listening⟩ ∈ c.queue.waiters := hs ▸ List.mem_of_getElem? hw
    exact h.not_step (.inQueue (e := .notice) rfl (.notice (htold hmem hr))) trivial

/-- **A cycle at rest is done.** -/
theorem AtRest.phase_eq : c.phase = .done := by
  have hgoal {k : Nat} {goals : List Queue.Goal} {g : Queue.Goal}
      (hgoals : c.queue.waiters.map (·.goal) = goals) (hg : goals[k]? = some g) :
      ∃ w, c.queue.waiters[k]? = some w ∧ w.goal = g := by
    rw [← hgoals, List.getElem?_map] at hg
    exact Option.map_eq_some_iff.mp hg
  cases hl.placed.atPhase with
  | done hp => exact hp
  | pushing hp =>
    obtain ⟨c', hs⟩ := exists_push hp
    exact (h.not_step hs trivial).elim
  | waiting hp _ hs hw =>
    obtain ⟨w, hw, hg⟩ := hgoal hw (k := 0) rfl
    have hr := h.not_reached hl (by rw [hp]; rfl) hw (hl.told _ fun _ => hs)
    rw [hg] at hr
    exact absurd (hr.symm.trans (h.isDrained hl)) Bool.noConfusion
  | leaving hp _ _ hw =>
    obtain ⟨w, hw, hg⟩ := hgoal hw (k := 1) rfl
    have hr := h.not_reached hl (by rw [hp]; rfl) hw (hl.told _ fun hd => by rw [hg] at hd; cases hd)
    rw [hg] at hr
    exact absurd (hr.symm.trans (h.isIdle hl)) Bool.noConfusion

end AtRest

/-- A cycle that is not done goes on of its own, or a request is out. -/
theorem Live.exists_step (hl : Live c₀ c es n) (hd : c.phase ≠ .done) :
    (∃ e c', e.IsOwn ∧ Step c e c') ∨
      ∃ key r task, Named.get? c.cells key = some (.loading r task) := by
  by_contra hnone
  obtain ⟨hown, hout⟩ := not_or.mp hnone
  refine hd (AtRest.phase_eq ⟨fun e he => ?_, ?_⟩ hl)
  · rw [Option.eq_none_iff_forall_ne_some]
    exact fun c' hs => hown ⟨e, c', he, step_of_step? hs⟩
  · refine List.countP_eq_zero.mpr fun kc hmem => ?_
    obtain ⟨key, cell⟩ := kc
    cases cell with
    | answered a => exact Bool.noConfusion
    | loading r task =>
      have hget := (Named.get?_eq_some_iff hl.shared.nodup_keys).mpr hmem
      exact absurd ⟨key, r, task, hget⟩ hout

/-! ## How long a cycle goes on -/

/-- Whether an event is more than a request to stop. -/
def Event.goesOn : Event → Bool
  | .requestStop => false
  | _ => true

/-- **A run has no more events than the cost of its start**, requests to stop aside. -/
theorem countP_goesOn_le {selected : List Property} {workers limit : Nat} {stopRequested : Bool}
    (h : (Cycle.new selected workers limit stopRequested).run? es = some c) :
    es.countP Event.goesOn + c.cost ≤ 13 * selected.length + 5 := by
  refine run?_induction
    (P := fun c es => es.countP Event.goesOn + c.cost ≤ 13 * selected.length + 5) h ?_ ?_
  · simp [cost, Cycle.new, Phase.cost, inFlight]
  · intro m fs e c hm hs ih
    obtain ⟨n, hl⟩ := exists_live hm
    rw [List.countP_append, List.countP_singleton]
    cases he : e.goesOn with
    | true =>
      have hlt := hs.cost_lt (fun heq => by rw [heq] at he; cases he) hl.watched.length_le
      simp only [if_true]
      omega
    | false =>
      obtain rfl : e = .requestStop := by cases e <;> first | rfl | cases he
      cases hs with
      | requestStop => exact ih
      | inQueue he => cases he

end Cycle

namespace Collector

/-- **A cycle cannot get stuck.**  However many workers there are and however few properties may
wait, whatever the events so far, and whenever a stop is requested: where a cycle can do nothing of
its own and every request that was sent was answered or given up, it is done.  It need not even heed
a stop.  And it goes on for so many events at most, requests to stop aside, so it comes to its end
as soon as its requests do. -/
theorem never_stuck (k : Collector) (d : Declaration) (facts : Facts) {es : List Cycle.Event}
    {c : Cycle} (h : (k.cycle d facts).run? es = some c) :
    (c.AtRest → c.phase = .done) ∧
      es.countP Cycle.Event.goesOn ≤ 13 * (k.select d facts).1.length + 5 := by
  obtain ⟨n, hl⟩ := Cycle.exists_live h
  exact ⟨fun hrest => hrest.phase_eq hl,
    Nat.le_trans (Nat.le_add_right _ _) (Cycle.countP_goesOn_le h)⟩

/-- With no worker asked for and room for one property, a stop is requested while a request is out,
and the request is given up. -/
theorem never_stuck_two_stats :
    let d : Declaration := { stats := [
      ("a", .obj [("key", .str "a")]), ("b", .obj [("key", .str "b")])] }
    let k : Collector := { tuning := { workers := 0, maxQueue := 1 } }
    ∃ (es : List Cycle.Event) (c : Cycle), (k.cycle d ⟨[]⟩).run? es = some c ∧
      c.phase = .waiting ∧ c.inFlight = 0 ∧ ¬ c.AtRest := by
  intro d k
  let es : List Cycle.Event := [.push, .push, .look, .pass, .begin 0, .ask 1, .requestStop,
    .answer "a" (.error (.timeout "a"))]
  have hrun : ((k.cycle d ⟨[]⟩).run? es).map (fun c => (c.phase, c.inFlight)) =
      some (.waiting, 0) := by
    decide +kernel
  obtain ⟨c, hc, hout⟩ := Option.map_eq_some_iff.mp hrun
  obtain ⟨hphase, hout⟩ := Prod.mk.inj hout
  obtain ⟨hdone, -⟩ := never_stuck k d ⟨[]⟩ hc
  refine ⟨es, c, hc, hphase, hout, fun hrest => ?_⟩
  cases hphase.symm.trans (hdone hrest)

end Collector

end DeviceStats
