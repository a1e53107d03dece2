import DeviceStats.Proofs.Cycle.Outcomes
import DeviceStats.Proofs.Match.Paths
import DeviceStats.Proofs.Queue.Waiting
import Mathlib.Algebra.Order.BigOperators.Group.List
import Mathlib.Algebra.Order.Group.Nat
import Mathlib.Algebra.GroupWithZero.Nat

/-!
# Proofs/Cycle/Measure — every cycle comes to an end

What is left to do in a cycle has a cost: a property that was not pushed costs more than one that
waits, that one more than one whose handler runs, and so on, and who is told to look costs one
more.  Every event but a request to stop lowers the cost (`Step.cost_lt`), so a run has no more of
them than the cost of its start.
-/

namespace DeviceStats

open Json (Value)

/-! ## The cost of what a queue has left to do -/

namespace Queue

variable {α : Type}

/-- What is left to do for a worker.  A call of a handler brings a property that has up to three left
to do, and the end of a task may wake two who wait; each costs more than it brings. -/
def Stage.cost : Stage α → Nat
  | .free => 0
  | .claimed _ => 11
  | .running _ => 7
  | .ended _ => 4

@[simp] theorem Stage.cost_free : (.free : Stage α).cost = 0 := rfl

@[simp] theorem Stage.cost_claimed (t : Task α) : (Stage.claimed t).cost = 11 := rfl

@[simp] theorem Stage.cost_running (t : Task α) : (Stage.running t).cost = 7 := rfl

@[simp] theorem Stage.cost_ended (t : Task α) : (Stage.ended t).cost = 4 := rfl

/-- Changing one element changes the sum by what that element does. -/
theorem sum_map_set {β : Type} {l : List β} {i : Nat} {a : β} (h : l[i]? = some a) (f : β → Nat)
    (b : β) : ((l.set i b).map f).sum + f a = (l.map f).sum + f b := by
  induction l generalizing i with
  | nil => cases h
  | cons c l ih =>
    cases i with
    | zero =>
      obtain rfl : c = a := Option.some.inj h
      simp only [List.set_cons_zero, List.map_cons, List.sum_cons]
      omega
    | succ i =>
      have ih := ih h
      simp only [List.set_cons_succ, List.map_cons, List.sum_cons]
      omega

namespace Machine

/-- What is left to do in a queue.  A worker that will tell of itself may wake two who wait. -/
def cost (m : Machine α) : Nat :=
  11 * m.pending.length + (m.workers.map (·.stage.cost)).sum + m.passes + 3 * m.notices +
    m.waiters.countP (·.waiting == .told)

@[simp] theorem cost_new (concurrency limit : Nat) :
    (new concurrency limit : Machine α).cost = 0 := by
  simp [cost, new]

variable {m m' : Machine α}

theorem cost_setWorker {i : Nat} {w : Worker α} (hw : m.workers[i]? = some w) (w' : Worker α) :
    (m.setWorker i w').cost + w.stage.cost = m.cost + w'.stage.cost := by
  have hsum := sum_map_set hw (·.stage.cost) w'
  simp only [cost, setWorker]
  omega

/-- Whoever is told looks once more. -/
theorem cost_tell_le (m : Machine α) : m.tell.cost ≤ m.cost + m.waiters.length := by
  have htold := List.countP_le_length (p := (·.waiting == .told)) (l := m.tell.waiters)
  have hlength : m.tell.waiters.length = m.waiters.length := List.length_map _
  simp only [cost] at htold ⊢
  simp only [tell] at htold hlength ⊢
  omega

@[simp] theorem cost_await (m : Machine α) (g : Goal) : (m.await g).cost = m.cost + 1 := by
  simp only [cost, await, List.countP_append]
  rfl

theorem cost_halt_le (m : Machine α) : m.halt.cost ≤ m.cost := by
  simp only [cost, halt, List.length_nil]
  omega

/-- Handing out tasks costs nothing. -/
theorem cost_assign (ws : List (Worker α)) (ts : List (Task α)) :
    ((assign ws ts).1.map (·.stage.cost)).sum + 11 * (assign ws ts).2.length =
      (ws.map (·.stage.cost)).sum + 11 * ts.length := by
  induction ws generalizing ts with
  | nil => rfl
  | cons w ws ih =>
    cases ts with
    | nil => rfl
    | cons t ts =>
      by_cases ha : w.available = true
      · have ih := ih ts
        simp only [assign, if_pos ha, List.map_cons, List.sum_cons, List.length_cons,
          Worker.stage_of_available ha, Stage.cost_free, Stage.cost_claimed]
        omega
      · have ih := ih (t :: ts)
        simp only [assign, if_neg ha, List.map_cons, List.sum_cons]
        omega

theorem cost_pass_lt (h : m.passes ≠ 0) : m.pass.cost < m.cost := by
  have hassign := cost_assign m.workers m.pending
  obtain ⟨ws, ts, hm, ⟨rfl, rfl⟩ | heq⟩ := m.exists_pass_eq
  · rw [hm]
    simp only [cost]
    omega
  · rw [← heq] at hassign
    rw [hm]
    simp only [cost] at hassign ⊢
    omega

/-- A task that is taken in waits, and has a pass asked for at most. -/
theorem cost_accept_le (m : Machine α) (payload : α) (priority : Int) :
    (m.accept payload priority).cost ≤ m.cost + 12 := by
  have hlength := (place_perm ⟨m.nextId, priority, payload⟩ m.pending).length_eq
  simp only [List.length_cons] at hlength
  unfold accept schedule
  split
  · simp only [cost, hlength]
    omega
  · simp only [cost, hlength]
    omega

/-- Whoever looks has one look less to take. -/
theorem cost_look_lt {k : Nat} {w : Waiter} (hw : m.waiters[k]? = some w) (ht : w.waiting = .told)
    {s : Waiting} (hs : s ≠ .told) :
    { m with waiters := m.waiters.set k ⟨w.goal, s⟩ }.cost < m.cost :=
  Nat.add_lt_add_left (countP_told_set_lt hw ht hs) _

/-- A worker that calls the handler of its task leaves what the handler has to do. -/
theorem cost_begin {i : Nat} (h : Step m (.begin i) m') : m'.cost + 4 = m.cost := by
  cases h with
  | @begin i w t hi hs =>
    have hset := cost_setWorker hi { w with stage := .running t }
    rw [hs, Stage.cost_claimed, Stage.cost_running] at hset
    simp only [cost, setWorker] at hset ⊢
    omega

/-- An event of a queue that calls no handler and brings nobody lowers its cost, if no more than two
wait for it. -/
theorem cost_lt_of_step {e : Event α} (he : e.IsInner) (hb : ∀ i, e ≠ .begin i)
    (h : Step m e m') (hw : m.waiters.length ≤ 2) : m'.cost < m.cost := by
  cases h with
  | pass hp => exact cost_pass_lt hp
  | begin => exact absurd rfl (hb _)
  | @finish i w t hi hs =>
    have hset := cost_setWorker hi { w with stage := .ended t }
    have htell := cost_tell_le (m.setWorker i { w with stage := .ended t })
    have hlength : (m.setWorker i { w with stage := .ended t }).waiters.length ≤ 2 := hw
    rw [hs, Stage.cost_running, Stage.cost_ended] at hset
    omega
  | @leave i w t hi hs =>
    have hset := cost_setWorker hi { stopping := false, stopped := true }
    rw [hs, Stage.cost_ended, Stage.cost_free] at hset
    simp only [cost, setWorker] at hset ⊢
    omega
  | @goOn i w t u ts hi hs _ _ hp =>
    have hset := cost_setWorker hi { w with stage := .claimed u }
    rw [hs, Stage.cost_ended, Stage.cost_claimed] at hset
    simp only [cost, setWorker, hp, List.length_cons] at hset ⊢
    omega
  | @rest i w t hi hs =>
    have hset := cost_setWorker hi { w with stage := .free }
    rw [hs, Stage.cost_ended, Stage.cost_free] at hset
    simp only [cost, setWorker] at hset ⊢
    omega
  | notice hn =>
    have htell := cost_tell_le { m with notices := m.notices - 1 }
    have hnotice : { m with notices := m.notices - 1 }.cost + 3 = m.cost := by
      simp only [cost]
      omega
    have hlength : { m with notices := m.notices - 1 }.waiters.length ≤ 2 := hw
    omega
  | _ => exact he.elim

end Machine

end Queue

/-! ## The cost of what a cycle has left to do -/

/-- What is left to do for a property on its way: to ask and to take, or to take alone. -/
def Pursuit.cost (p : Pursuit) : Nat := if p.asked then 1 else 3

theorem Pursuit.cost_ask_le (task : Queue.TaskId) (p : Pursuit) : (p.ask task).cost ≤ p.cost := by
  unfold Pursuit.ask
  split
  · simp only [Pursuit.cost, if_true]
    split <;> decide
  · exact le_rfl

/-- What is left to do for the cycle itself, of that many properties. -/
def Phase.cost (places : Nat) : Phase → Nat
  | .pushing next => 13 * (places - next) + 5
  | .waiting => 3
  | .leaving => 1
  | .done => 0

namespace Cycle

/-- What is left to do in a cycle. -/
def cost (c : Cycle) : Nat :=
  c.phase.cost c.selected.length + c.queue.cost + (c.pursuits.map Pursuit.cost).sum + c.inFlight

/-- Who asks has only to take. -/
theorem sum_cost_ask_lt {ps : List Pursuit} {task : Queue.TaskId} {p : Pursuit}
    (hp : ps.find? (·.task == task) = some p) (ha : p.asked = false) :
    ((ps.map (·.ask task)).map Pursuit.cost).sum + 2 ≤ (ps.map Pursuit.cost).sum := by
  induction ps with
  | nil => cases hp
  | cons q ps ih =>
    rw [List.map_cons, List.map_cons, List.map_cons, List.sum_cons, List.sum_cons]
    by_cases hq : q.task = task
    · obtain rfl : q = p := by simpa [hq] using hp
      have hhead : (q.ask task).cost + 2 = q.cost := by
        simp [Pursuit.ask, Pursuit.cost, hq, ha]
      have htail : ((ps.map (·.ask task)).map Pursuit.cost).sum ≤ (ps.map Pursuit.cost).sum := by
        rw [List.map_map]
        exact List.sum_le_sum fun p _ => Pursuit.cost_ask_le task p
      omega
    · have htail := ih (by simpa [hq] using hp)
      have hhead := Pursuit.cost_ask_le task q
      omega

/-- Who has taken is gone. -/
theorem sum_cost_filter_lt {ps : List Pursuit} {task : Queue.TaskId} {p : Pursuit}
    (hp : ps.find? (·.task == task) = some p) :
    ((ps.filter (·.task != task)).map Pursuit.cost).sum < (ps.map Pursuit.cost).sum := by
  induction ps with
  | nil => cases hp
  | cons q ps ih =>
    rw [List.map_cons, List.sum_cons]
    by_cases hq : q.task = task
    · have hhead : 1 ≤ q.cost := by
        unfold Pursuit.cost
        split <;> decide
      have htail : ((ps.filter (·.task != task)).map Pursuit.cost).sum ≤
          (ps.map Pursuit.cost).sum :=
        (List.filter_sublist.map _).sum_le_sum fun _ _ => Nat.zero_le _
      rw [List.filter_cons_of_neg (by simp [hq])]
      omega
    · have htail := ih (by simpa [hq] using hp)
      rw [List.filter_cons_of_pos (by simp [hq]), List.map_cons, List.sum_cons]
      omega

/-- A request that is answered is out no longer. -/
theorem countP_isLoading_insert {cells : Named Cell} {key : String} {r : Request}
    {task : Queue.TaskId} (h : Named.get? cells key = some (.loading r task)) (a : Answer) :
    (Named.insert cells key (.answered a)).countP (·.2.isLoading) <
      cells.countP (·.2.isLoading) := by
  induction cells with
  | nil => cases h
  | cons kc cells ih =>
    obtain ⟨k, cell⟩ := kc
    rw [Named.get?_cons] at h
    rw [Named.insert]
    by_cases hk : k = key
    · rw [if_pos hk] at h ⊢
      rw [Option.some.inj h]
      simp [Cell.isLoading]
    · rw [if_neg hk] at h ⊢
      rw [List.countP_cons, List.countP_cons]
      exact Nat.add_lt_add_right (ih h) _

section Step

variable {c c' : Cycle} {e : Event}

theorem inFlight_send {key : String} {r : Request} {task : Queue.TaskId}
    (h : Named.has c.cells key = false) :
    (Named.insert c.cells key (.loading r task)).countP (·.2.isLoading) = c.inFlight + 1 := by
  have hfresh : key ∉ Named.keys c.cells := fun hmem =>
    Bool.false_ne_true (h.symm.trans (Named.has_eq_true_iff.mpr hmem))
  rw [Named.insert_of_not_mem hfresh, List.countP_append]
  rfl

/-- **Every event but a request to stop lowers the cost**, if no more than two wait for the
queue. -/
theorem Step.cost_lt (h : Step c e c') (he : e ≠ .requestStop)
    (hw : c.queue.waiters.length ≤ 2) : c'.cost < c.cost := by
  cases h with
  | @push n hp hn =>
    have haccept := c.queue.cost_accept_le n 0
    simp only [cost, inFlight, hp, Phase.cost]
    omega
  | pushedAll hp | pushStopped hp | pushRefused hp =>
    simp only [cost, inFlight, wait, hp, Phase.cost, Queue.Machine.cost_await]
    omega
  | arrive hp hk ht =>
    have hlook := Queue.Machine.cost_look_lt hk ht (s := .done) (by decide)
    simp only [cost, inFlight, Phase.cost]
    omega
  | sleep hp hk ht =>
    have hlook := Queue.Machine.cost_look_lt hk ht (s := .listening) (by decide)
    simp only [cost, inFlight]
    omega
  | heed hp =>
    have hhalt := c.queue.cost_halt_le
    simp only [cost, inFlight, hp, Phase.cost, Queue.Machine.cost_await]
    omega
  | requestStop => exact absurd rfl he
  | @inQueue e qe q hqe hq =>
    obtain ⟨hinner, hbegin⟩ := Event.isInner_of_inQueue? hqe
    have hlt := Queue.Machine.cost_lt_of_step hinner hbegin hq hw
    simp only [cost, inFlight]
    omega
  | @begin i w t hi hs =>
    have hbegin := Queue.Machine.cost_begin (.begin hi hs)
    have hpursuits : ((c.pursuits ++ [Pursuit.mk t.id t.payload false]).map Pursuit.cost).sum =
        (c.pursuits.map Pursuit.cost).sum + 3 := by
      rw [List.map_append, List.sum_append]
      rfl
    simp only [cost, inFlight, hpursuits] at hbegin ⊢
    omega
  | join hp ha =>
    have hask := sum_cost_ask_lt hp ha
    simp only [cost, inFlight]
    omega
  | send hp ha _ hk =>
    have hask := sum_cost_ask_lt hp ha
    simp only [cost, inFlight, inFlight_send hk]
    omega
  | answer hk =>
    have hanswer := countP_isLoading_insert hk
    simp only [cost, inFlight]
    exact Nat.add_lt_add_left (hanswer _) _
  | @take task _ _ _ hp =>
    have hfilter := sum_cost_filter_lt hp
    have hqueue : (c.queue.operate task .give).cost = c.queue.cost := rfl
    simp only [cost, inFlight, hqueue]
    omega

end Step

end Cycle

end DeviceStats
