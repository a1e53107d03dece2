import DeviceStats.Proofs.Queue.Stopping
import DeviceStats.Queue.Script

/-!
# Proofs/Queue/Completion — a signal takes effect once

The signal of a task may be given by any of its holders, by the failure of the handler, and by the
last holder letting go, in any order and long after the worker has moved on.  Only the first of
these completes the task (`completesAt_iff`); the answer to a holder says whether its call was the
one (`completion_once`).  A signal given again changes nothing at all in the queue.
-/

namespace DeviceStats.Queue

variable {α : Type}

/-! ## One signal -/

namespace Signal

/-- What closes a signal if it is open: a holder gives it, the task fails, or the last holder lets
go. -/
inductive Closes (s : Signal) : SignalOp → Prop
  | give (h : s.holders ≠ 0) : Closes s .give
  | fail (h : s.holders ≠ 0) : Closes s .fail
  | release (h : s.holders = 1) : Closes s .release

/-- **A signal is closed by what closes it, and by nothing else.** -/
theorem opened_after_eq_false_iff {s : Signal} (h : s.opened = true) (op : SignalOp) :
    (s.after op).opened = false ↔ s.Closes op := by
  by_cases hs : s.holders = 0
  · have hnot : ¬ s.Closes op := by
      rintro (h' | h' | h')
      · exact h' hs
      · exact h' hs
      · exact absurd (h'.symm.trans hs) Nat.one_ne_zero
    simp [after, hs, h, hnot]
  · cases op with
    | share => exact iff_of_false (by simp [after, hs, h]) nofun
    | give => exact iff_of_true (by simp [after, hs]) (.give hs)
    | fail => exact iff_of_true (by simp [after, hs]) (.fail hs)
    | release =>
      have hcloses : s.Closes .release ↔ s.holders = 1 := ⟨fun | .release h => h, .release⟩
      simp [after, hs, h, hcloses]

/-- Giving a signal again changes nothing. -/
theorem after_give_of_closed {s : Signal} (h : s.opened = false) : s.after .give = s := by
  obtain ⟨opened, holders⟩ := s
  cases h
  simp [after]

/-- The answer to a holder says whether its call closes the signal. -/
theorem counts_eq_true_iff {s : Signal} :
    s.counts = true ↔ s.opened = true ∧ s.Closes .give := by
  have hcloses : s.Closes .give ↔ s.holders ≠ 0 := ⟨fun | .give h => h, .give⟩
  simp [counts, hcloses]

/-- What nobody holds any more is given. -/
def Settled (s : Signal) : Prop := s.holders = 0 → s.opened = false

theorem Settled.after {s : Signal} (h : s.Settled) (op : SignalOp) : (s.after op).Settled := by
  intro hafter
  by_cases hs : s.holders = 0
  · simpa [Signal.after, hs] using h hs
  · cases op with
    | share | give | fail => simp_all [Signal.after]
    | release =>
      have hone : s.holders = 1 := by
        simp only [Signal.after, hs, if_false] at hafter
        omega
      simp [Signal.after, hone]

end Signal

namespace Machine

variable {m m' n q : Machine α} {e : Event α} {es : List (Event α)} {id : TaskId} {k : Nat}

/-! ## The signals of a queue -/

/-- Every call has one signal, and every signal is settled. -/
structure Signalled (m : Machine α) : Prop where
  ids : m.signals.map (·.1) = m.calls.map (·.task.id)
  settled : ∀ p ∈ m.signals, p.2.Settled

theorem Signalled.new (concurrency limit : Nat) :
    Signalled (new concurrency limit : Machine α) where
  ids := rfl
  settled _ h := nomatch h

theorem Signalled.step (h : Signalled m) (hs : Step m e m') : Signalled m' := by
  obtain ⟨hsignals, hcalls⟩ | ⟨t, i, hsignals, hcalls⟩ | ⟨id, op, -, rfl⟩ :=
    signals_cases_of_step hs
  · exact ⟨by rw [hsignals, hcalls, h.ids], hsignals ▸ h.settled⟩
  · refine ⟨by rw [hsignals, hcalls, List.map_append, List.map_append, h.ids]; rfl, ?_⟩
    rw [hsignals]
    refine List.forall_mem_append.mpr ⟨h.settled, List.forall_mem_singleton.mpr ?_⟩
    exact fun hnone => absurd hnone Nat.one_ne_zero
  · refine ⟨?_, ?_⟩
    · rw [operate, List.map_map, ← h.ids]
      refine List.map_congr_left fun p _ => ?_
      simp only [Function.comp_apply]
      split <;> rfl
    · refine List.forall_mem_map.mpr fun p hp => ?_
      split
      · exact (h.settled p hp).after op
      · exact h.settled p hp

theorem exists_mem_of_signal? {s : Signal} (h : m.signal? id = some s) : (id, s) ∈ m.signals := by
  obtain ⟨p, hfind, rfl⟩ := Option.map_eq_some_iff.mp h
  obtain rfl : p.1 = id := by simpa using List.find?_some hfind
  exact List.mem_of_find?_eq_some hfind

theorem isGiven_eq_true_iff :
    m.isGiven id = true ↔ ∃ s, m.signal? id = some s ∧ s.opened = false := by
  rw [isGiven, Option.any_eq_true]
  simp only [Bool.not_eq_true']

/-- **To give a signal again changes nothing in the queue.** -/
theorem operate_give_of_isGiven (hn : (m.signals.map (·.1)).Nodup) (hg : m.isGiven id = true) :
    m.operate id .give = m := by
  obtain ⟨s, hs, hclosed⟩ := isGiven_eq_true_iff.mp hg
  have hsignals : (m.signals.map fun p => if p.1 = id then (p.1, p.2.after .give) else p) =
      m.signals := by
    refine (List.map_congr_left fun p hp => ?_).trans (List.map_id _)
    split
    · rename_i hid
      obtain rfl : p = (id, s) := List.inj_on_of_nodup_map hn hp (exists_mem_of_signal? hs) hid
      rw [Signal.after_give_of_closed hclosed]
      rfl
    · rfl
  rw [operate, hsignals]

/-- The signal of a task that begins is open. -/
theorem isGiven_of_begin {t : TaskId} (hsignals : m'.signals = m.signals ++ [(t, ({} : Signal))])
    (hg : m'.isGiven id = true) : m.isGiven id = true := by
  obtain ⟨s, hs, hclosed⟩ := isGiven_eq_true_iff.mp hg
  rw [signal?, hsignals, List.find?_append] at hs
  cases hfind : m.signals.find? (·.1 == id) with
  | some p =>
    rw [hfind] at hs
    exact isGiven_eq_true_iff.mpr ⟨s, by rw [signal?, hfind]; exact hs, hclosed⟩
  | none =>
    obtain ⟨p, hp, rfl⟩ := Option.map_eq_some_iff.mp hs
    rw [hfind, Option.none_or] at hp
    obtain rfl := List.mem_singleton.mp (List.mem_of_find?_eq_some hp)
    cases hclosed

/-- An operation gives the open signal that it closes, and no other. -/
theorem isGiven_operate_iff (hg : ¬ m.isGiven id = true) (id' : TaskId) (op : SignalOp) :
    (m.operate id' op).isGiven id = true ↔
      id' = id ∧ ∃ s, m.signal? id = some s ∧ s.opened = true ∧ s.Closes op := by
  constructor
  · intro hg'
    obtain ⟨s', hs', hclosed⟩ := isGiven_eq_true_iff.mp hg'
    rw [signal?_operate] at hs'
    obtain ⟨s, hs, rfl⟩ := Option.map_eq_some_iff.mp hs'
    have hopen : s.opened = true :=
      Bool.of_not_eq_false fun h => hg (isGiven_eq_true_iff.mpr ⟨s, hs, h⟩)
    by_cases hid : id = id'
    · rw [if_pos hid] at hclosed
      exact ⟨hid.symm, s, hs, hopen, (Signal.opened_after_eq_false_iff hopen op).mp hclosed⟩
    · rw [if_neg hid] at hclosed
      exact absurd (hclosed.symm.trans hopen) Bool.false_ne_true
  · rintro ⟨rfl, s, hs, hopen, hcloses⟩
    refine isGiven_eq_true_iff.mpr
      ⟨s.after op, ?_, (Signal.opened_after_eq_false_iff hopen op).mpr hcloses⟩
    rw [signal?_operate, hs, Option.map_some, if_pos rfl]

/-- **A task is completed by a holder, by a failure, or by the last holder letting go.** -/
theorem isGiven_step_iff (h : Step m e m') (hg : ¬ m.isGiven id = true) :
    m'.isGiven id = true ↔ ∃ op s, e = .operate id op ∧ m.signal? id = some s ∧
      s.opened = true ∧ s.Closes op := by
  constructor
  · intro hg'
    obtain ⟨hsignals, -⟩ | ⟨t, i, hsignals, -⟩ | ⟨id', op, rfl, rfl⟩ := signals_cases_of_step h
    · rw [isGiven, signal?, hsignals] at hg'
      exact absurd hg' hg
    · exact absurd (isGiven_of_begin hsignals hg') hg
    · obtain ⟨rfl, s, hs⟩ := (isGiven_operate_iff hg id' op).mp hg'
      exact ⟨op, s, rfl, hs⟩
  · rintro ⟨op, s, rfl, hs⟩
    cases h
    exact (isGiven_operate_iff hg id op).mpr ⟨rfl, s, hs⟩

/-- A call counts if it completes the task. -/
theorem any_counts_iff : (m.signal? id).any Signal.counts = true ↔
    ¬ m.isGiven id = true ∧ (m.operate id .give).isGiven id = true := by
  rw [Option.any_eq_true]
  constructor
  · rintro ⟨s, hs, hcounts⟩
    obtain ⟨hopen, hcloses⟩ := Signal.counts_eq_true_iff.mp hcounts
    have hg : ¬ m.isGiven id = true := by simp [isGiven, hs, hopen]
    exact ⟨hg, (isGiven_operate_iff hg id .give).mpr ⟨rfl, s, hs, hopen, hcloses⟩⟩
  · rintro ⟨hg, hg'⟩
    obtain ⟨-, s, hs, hcloses⟩ := (isGiven_operate_iff hg id .give).mp hg'
    exact ⟨s, hs, Signal.counts_eq_true_iff.mpr hcloses⟩

/-! ## Places of a run -/

/-- The signal of a task is given after some events of a run. -/
def GivenAfter (q : Machine α) (es : List (Event α)) (id : TaskId) (k : Nat) : Prop :=
  ∃ n, q.run? (es.take k) = some n ∧ n.isGiven id = true

/-- The event at a place of a run completes a task: its signal is given after it, and not before. -/
structure CompletesAt (q : Machine α) (es : List (Event α)) (id : TaskId) (k : Nat) : Prop where
  before : ¬ GivenAfter q es id k
  after : GivenAfter q es id (k + 1)

/-- A run passes a machine at each of its places. -/
theorem exists_run?_take (h : q.run? es = some m) (k : Nat) :
    ∃ n, q.run? (es.take k) = some n ∧ n.run? (es.drop k) = some m := by
  rw [← List.take_append_drop k es] at h
  exact run?_append_eq_some h

theorem isGiven_of_run (h : q.run? es = some m) (hg : q.isGiven id = true) : m.isGiven id = true :=
  run?_keeps (P := (·.isGiven id = true)) (fun _ _ _ hm hs => isGiven_of_step hs hm) h hg

/-- What is given stays given. -/
theorem GivenAfter.mono (h : q.run? es = some m) {j k : Nat} (hjk : j ≤ k)
    (hj : GivenAfter q es id j) : GivenAfter q es id k := by
  obtain ⟨n, hn, hg⟩ := hj
  obtain ⟨n', hn', -⟩ := exists_run?_take h k
  obtain ⟨o, ho, hrun⟩ := exists_run?_take hn' j
  rw [List.take_take, min_eq_left hjk] at ho
  obtain rfl : n = o := Option.some.inj (hn.symm.trans ho)
  exact ⟨n', hn', isGiven_of_run hrun hg⟩

/-- **A task is completed at one place.** -/
theorem CompletesAt.unique (h : q.run? es = some m) {j k : Nat} (hj : CompletesAt q es id j)
    (hk : CompletesAt q es id k) : j = k := by
  obtain hlt | rfl | hlt := Nat.lt_trichotomy j k
  · exact absurd (hj.after.mono h hlt) hk.before
  · rfl
  · exact absurd (hk.after.mono h hlt) hj.before

/-- What is given after a number of events is completed by one of them. -/
theorem GivenAfter.exists_completesAt (h0 : ¬ GivenAfter q es id 0) {k : Nat}
    (hk : GivenAfter q es id k) : ∃ j < k, CompletesAt q es id j := by
  induction k with
  | zero => exact absurd hk h0
  | succ k ih =>
    by_cases hg : GivenAfter q es id k
    · obtain ⟨j, hj, hcompletes⟩ := ih hg
      exact ⟨j, hj.trans (Nat.lt_succ_self k), hcompletes⟩
    · exact ⟨k, Nat.lt_succ_self k, hg, hk⟩

theorem givenAfter_iff (h : q.run? (es.take k) = some n) :
    GivenAfter q es id k ↔ n.isGiven id = true := by
  refine ⟨fun ⟨o, ho, hg⟩ => ?_, fun hg => ⟨n, h, hg⟩⟩
  obtain rfl : n = o := Option.some.inj (h.symm.trans ho)
  exact hg

theorem givenAfter_length (h : q.run? es = some m) :
    GivenAfter q es id es.length ↔ m.isGiven id = true :=
  givenAfter_iff (by rw [List.take_length, h])

/-- **The event at a place completes a task if its step does.** -/
theorem completesAt_iff_of_step (hn : q.run? (es.take k) = some n) (he : es[k]? = some e)
    (hs : Step n e m') :
    CompletesAt q es id k ↔ ¬ n.isGiven id = true ∧ m'.isGiven id = true := by
  obtain ⟨hk, rfl⟩ := List.getElem?_eq_some_iff.mp he
  have hm' : q.run? (es.take (k + 1)) = some m' := by
    rw [List.take_succ_eq_append_getElem hk, run?_append, hn, Option.bind_some, run?_cons,
      step?_of_step hs]
    rfl
  rw [← givenAfter_iff hn, ← givenAfter_iff hm']
  exact ⟨fun ⟨hb, ha⟩ => ⟨hb, ha⟩, fun ⟨hb, ha⟩ => ⟨hb, ha⟩⟩

/-- A run makes a step at each of its places. -/
theorem exists_step_of_getElem? (h : q.run? es = some m) (he : es[k]? = some e) :
    ∃ n n', q.run? (es.take k) = some n ∧ Step n e n' := by
  obtain ⟨hk, rfl⟩ := List.getElem?_eq_some_iff.mp he
  obtain ⟨n, hn, hrun⟩ := exists_run?_take h k
  rw [List.drop_eq_getElem_cons hk] at hrun
  obtain ⟨n', hs, -⟩ := run?_cons_eq_some hrun
  exact ⟨n, n', hn, hs⟩

theorem CompletesAt.lt_length (h : CompletesAt q es id k) : k < es.length := by
  by_contra hlen
  rw [Nat.not_lt] at hlen
  obtain ⟨n, hn, hg⟩ := h.after
  rw [List.take_of_length_le (hlen.trans k.le_succ)] at hn
  exact h.before ⟨n, by rwa [List.take_of_length_le hlen], hg⟩

/-- **The event that completes a task does something with its signal that closes it.** -/
theorem completesAt_iff (h : q.run? es = some m) :
    CompletesAt q es id k ↔ ∃ n op s, es[k]? = some (.operate id op) ∧
      q.run? (es.take k) = some n ∧ n.signal? id = some s ∧ s.opened = true ∧ s.Closes op := by
  constructor
  · intro hk
    have he := List.getElem?_eq_getElem hk.lt_length
    obtain ⟨n, n', hn, hs⟩ := exists_step_of_getElem? h he
    obtain ⟨hb, ha⟩ := (completesAt_iff_of_step hn he hs).mp hk
    obtain ⟨op, s, heq, hsignal⟩ := (isGiven_step_iff hs hb).mp ha
    exact ⟨n, op, s, heq ▸ he, hn, hsignal⟩
  · rintro ⟨n, op, s, he, hn, hs, hopen, hcloses⟩
    have hb : ¬ n.isGiven id = true := by simp [isGiven, hs, hopen]
    have hstep : Step n (.operate id op) _ := .operate
    rw [completesAt_iff_of_step hn he hstep]
    exact ⟨hb, (isGiven_step_iff hstep hb).mpr ⟨op, s, rfl, hs, hopen, hcloses⟩⟩

/-! ## Completion -/

/-- **Completion signals take effect once.**  Whatever happens to a queue, in whatever order: a task
is completed by a holder that gives its signal, by the failure of its handler, or by the last holder
letting go, while the signal is open, and at one place of the run at most.  The answer to a holder
is whether its call was that one.  What nobody holds any more is completed, and so is what has
ended, which no task does twice; who runs a task ends it exactly when it is completed.  When a task
is completed, a call for it counts no more and changes nothing in the queue, whatever its worker has
gone on to. -/
theorem completion_once {concurrency limit : Nat}
    (h : (new concurrency limit).run? es = some m) (id : TaskId) :
    let q : Machine α := new concurrency limit
    (∀ k, CompletesAt q es id k ↔ ∃ n op s, es[k]? = some (.operate id op) ∧
      q.run? (es.take k) = some n ∧ n.signal? id = some s ∧ s.opened = true ∧ s.Closes op) ∧
    (∀ j k, CompletesAt q es id j → CompletesAt q es id k → j = k) ∧
    (m.isGiven id = true ↔ ∃ k, CompletesAt q es id k) ∧
    (∀ k n, es[k]? = some (.operate id .give) → q.run? (es.take k) = some n →
      ((n.signal? id).any Signal.counts = true ↔ CompletesAt q es id k)) ∧
    (∀ s, m.signal? id = some s → s.holders = 0 → m.isGiven id = true) ∧
    (m.ended.Nodup ∧ (id ∈ m.ended → m.isGiven id = true) ∧ ∀ i w t, m.workers[i]? = some w →
      w.stage = .running t → ((m.finish? i).isSome = true ↔ m.isGiven t.id = true)) ∧
    (m.isGiven id = true → (m.signal? id).any Signal.counts = false ∧
      m.step? (.operate id .give) = some m) := by
  intro q
  have hledger : Ledger m (q.admitted es) := (Ledger.new concurrency limit).run h
  have hsignalled : Signalled m :=
    run?_keeps (fun _ _ _ hm hs => hm.step hs) h (.new concurrency limit)
  have hcompleted : Completed m :=
    run?_keeps (fun _ _ _ hm hs => hm.step hs) h (.new concurrency limit)
  have hnew : ¬ GivenAfter q es id 0 := fun ⟨n, hn, hg⟩ => by
    cases hn
    exact nomatch hg
  refine ⟨fun k => completesAt_iff h, fun j k hj hk => hj.unique h hk, ?_,
    fun k n he hn => any_counts_iff.trans (completesAt_iff_of_step hn he .operate).symm,
    fun s hs hnone => ?_,
    ⟨?_, hcompleted.ended id, fun i w t hw ht => ?_⟩, fun hg => ⟨?_, ?_⟩⟩
  · rw [← givenAfter_length h]
    refine ⟨fun hg => ?_, fun ⟨k, hk⟩ => ?_⟩
    · obtain ⟨k, -, hk⟩ := hg.exists_completesAt hnew
      exact ⟨k, hk⟩
    · obtain ⟨n, op, s, he, -⟩ := (completesAt_iff h).mp hk
      exact hk.after.mono h (List.getElem?_eq_some_iff.mp he).1
  · exact isGiven_eq_true_iff.mpr ⟨s, hs, hsignalled.settled _ (exists_mem_of_signal? hs) hnone⟩
  · exact (List.nodup_append.mp hledger.nodup_held_append_ended).2.1
  · simp [finish?, hw, ht]
  · obtain ⟨s, hs, hclosed⟩ := isGiven_eq_true_iff.mp hg
    simp [hs, Signal.counts, hclosed]
  · have hn : (m.signals.map (·.1)).Nodup := hsignalled.ids ▸ hledger.nodup_calls
    rw [step?, operate_give_of_isGiven hn hg]

/-- The only worker has gone on to a second task when a holder of the signal of the first, which has
failed, gives it: that does not count and changes nothing. -/
theorem completion_once_stale :
    let es : List (Event String) := [.push "a" 0 false, .push "b" 0 false, .pass, .begin 0,
      .operate 1 .share, .operate 1 .fail, .finish 0, .turn 0, .begin 0]
    ∃ m, (new 1 10).run? es = some m ∧ m.isGiven 1 = true ∧ m.isGiven 2 = false ∧
      (∃ k, CompletesAt (new 1 10) es 1 k) ∧ (m.signal? 1).any Signal.counts = false ∧
      m.step? (.operate 1 .give) = some m := by
  intro es
  have h : (new 1 10).run? es = some _ := rfl
  obtain ⟨-, -, hgiven, -, -, -, hstale⟩ := completion_once h 1
  exact ⟨_, h, rfl, rfl, hgiven.mp rfl, hstale rfl⟩

end Machine

/-! ## The answer to a holder -/

theorem Thread.machine_operate {σ : Type} (r : Thread σ α) (id : TaskId) (op : SignalOp) :
    (r.operate id op).machine = r.machine.operate id op := by
  rw [Thread.operate]
  split <;> rfl

/-- A holder is told whether its call was the one that completed the task. -/
theorem Trial.fst_give?_iff {r : Trial} {id : TaskId} {b : Bool} (h : (r.give? id).1 = some b) :
    b = true ↔ r.machine.isGiven id = false ∧ (r.give? id).2.machine.isGiven id = true := by
  unfold Trial.give? at h ⊢
  split at h
  · rename_i hheld
    obtain rfl := Option.some.inj h
    rw [if_pos hheld, Thread.machine_operate]
    rw [Machine.any_counts_iff, Bool.not_eq_true]
  · exact nomatch h

end DeviceStats.Queue
