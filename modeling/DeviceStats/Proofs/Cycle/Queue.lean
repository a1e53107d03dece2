import DeviceStats.Proofs.Cycle.Step
import DeviceStats.Proofs.Queue.Ledger
import DeviceStats.Proofs.Queue.Passes

/-!
# Proofs/Cycle/Queue — the queue below a cycle

What happens to a cycle is at most one event of its queue (`Step.queue`), so events of a queue lead
to the queue of a cycle (`exists_queue_run`), and what holds along every run of a queue holds of it.
A cycle stops its queue at its end only, and never one worker of it, so whoever waits for the queue
is told (`told_of_run`).
-/

namespace DeviceStats

namespace Cycle

variable {c c' : Cycle} {e : Event} {es : List Event} {selected : List Property}
  {workers limit : Nat} {stopRequested : Bool}

/-- An event that the queue of a cycle knows of, and that stops no worker. -/
def QueueStep (q q' : Queue.Machine Nat) : Prop :=
  ∃ qe, Queue.Machine.Step q qe q' ∧ ∀ i, qe ≠ .stopWorker i

/-- **What happens to a cycle is at most one event of its queue.** -/
theorem Step.queue (h : Step c e c') : c'.queue = c.queue ∨ QueueStep c.queue c'.queue := by
  cases h with
  | @push n hp hn hs hr =>
    refine .inr ⟨.push n 0 false, .accept hr, fun _ h => by cases h⟩
  | pushedAll | pushStopped | pushRefused =>
    exact .inr ⟨.drain, .drain, fun _ h => by cases h⟩
  | @arrive k _ _ hw ht hr | @sleep k _ _ hw ht hr =>
    have hlook := Queue.Machine.Step.look hw ht
    rw [hr] at hlook
    exact .inr ⟨.look k, hlook, fun _ h => by cases h⟩
  | heed => exact .inr ⟨.stop, .stop, fun _ h => by cases h⟩
  | @inQueue e qe q he hq =>
    refine .inr ⟨qe, hq, fun i heq => ?_⟩
    rw [heq] at he
    cases e <;> cases he
  | begin hw hs => exact .inr ⟨_, .begin hw hs, fun _ h => by cases h⟩
  | take => exact .inr ⟨_, .operate, fun _ h => by cases h⟩
  | requestStop | join | send | answer => exact .inl rfl

/-- **Events of a queue lead to the queue of a cycle**: none stops a worker, and one that has not
stopped was never told to. -/
theorem exists_queue_run (h : (new selected workers limit stopRequested).run? es = some c) :
    ∃ qes, (Queue.Machine.new workers limit).run? qes = some c.queue ∧
      (∀ i, .stopWorker i ∉ qes) ∧ (c.queue.stopped = false → .stop ∉ qes) := by
  refine run?_induction (P := fun c _ => ∃ qes,
    (Queue.Machine.new workers limit).run? qes = some c.queue ∧
      (∀ i, .stopWorker i ∉ qes) ∧ (c.queue.stopped = false → .stop ∉ qes)) h
    ⟨[], rfl, fun i => List.not_mem_nil, fun _ => List.not_mem_nil⟩ ?_
  rintro n fs e n' - hs ⟨qes, hqes, hworker, hstop⟩
  rcases hs.queue with heq | ⟨qe, hq, hqe⟩
  · rw [heq]
    exact ⟨qes, hqes, hworker, hstop⟩
  · refine ⟨qes ++ [qe], ?_, fun i hmem => ?_, fun hgo hmem => ?_⟩
    · rw [Queue.Machine.run?_append, hqes, Option.bind_some, Queue.Machine.run?_cons,
        Queue.Machine.step?_of_step hq]
      rfl
    · rcases List.mem_append.mp hmem with hmem | hmem
      · exact hworker i hmem
      · exact hqe i (List.mem_singleton.mp hmem).symm
    · obtain ⟨hgo, hne⟩ := Queue.Machine.not_stopped_of_step hq hgo
      rcases List.mem_append.mp hmem with hmem | hmem
      · exact hstop hgo hmem
      · exact hne (List.mem_singleton.mp hmem).symm

/-- No work waits beside an available worker without a pass. -/
theorem prompt_of_run (h : (new selected workers limit stopRequested).run? es = some c) :
    c.queue.Prompt := by
  obtain ⟨qes, hqes, -⟩ := exists_queue_run h
  exact .run hqes

/-- No more tasks are with workers than there are workers. -/
theorem length_held_queue_le (h : (new selected workers limit stopRequested).run? es = some c) :
    c.queue.held.length ≤ max 1 workers := by
  obtain ⟨qes, hqes, -⟩ := exists_queue_run h
  exact Queue.Machine.length_held_le hqes

/-- **Whoever waits for the queue of a cycle is told**, except that one who waits for a drained
queue may miss its stop. -/
theorem told_of_run (h : (new selected workers limit stopRequested).run? es = some c)
    {g : Queue.Goal} (hg : g = .drained → c.queue.stopped = false) : c.queue.Told g := by
  obtain ⟨qes, hqes, hworker, hstop⟩ := exists_queue_run h
  have hnew : (Queue.Machine.new workers limit : Queue.Machine Nat).Told g :=
    fun hl => absurd hl List.not_mem_nil
  refine hnew.run hqes fun hdrained fs qe n hfs _ hunheard => ?_
  have hmem : qe ∈ qes := hfs.subset (List.mem_append_right fs List.mem_cons_self)
  rcases hunheard.1 with rfl | ⟨i, rfl⟩
  · exact hstop (hg hdrained) hmem
  · exact hworker i hmem

end Cycle

end DeviceStats
