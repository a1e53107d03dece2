import DeviceStats.Proofs.Queue.Step
import Mathlib.Data.List.Nodup
import Mathlib.Data.List.Range

/-!
# Proofs/Queue/Ledger — where the tasks of a queue are

A task that was taken in waits, is held by a worker, has ended, or was thrown away.  The **ledger**
of a run is the list of all tasks that were taken in; its ids are `1, 2, …`, and together the four
places are a rearrangement of them (`Ledger.places`), so no task is lost and none is anywhere twice.
The calls of the handler are a rearrangement of the tasks that were begun or have ended
(`Ledger.calls`), so no handler is called twice for one task.
-/

namespace DeviceStats.Queue

variable {α : Type}

/-- The task of a worker that has called its handler. -/
def Stage.begun? : Stage α → Option (Task α)
  | .running t | .ended t => some t
  | _ => none

@[simp] theorem Stage.task?_free : (free : Stage α).task? = none := rfl

@[simp] theorem Stage.task?_claimed (t : Task α) : (claimed t).task? = some t := rfl

@[simp] theorem Stage.task?_running (t : Task α) : (running t).task? = some t := rfl

@[simp] theorem Stage.task?_ended (t : Task α) : (ended t).task? = some t := rfl

@[simp] theorem Stage.begun?_free : (free : Stage α).begun? = none := rfl

@[simp] theorem Stage.begun?_claimed (t : Task α) : (claimed t).begun? = none := rfl

@[simp] theorem Stage.begun?_running (t : Task α) : (running t).begun? = some t := rfl

@[simp] theorem Stage.begun?_ended (t : Task α) : (ended t).begun? = some t := rfl

theorem Stage.task?_of_begun? {s : Stage α} {t : Task α} (h : s.begun? = some t) :
    s.task? = some t := by
  cases s <;> simp_all

/-- A worker that may be handed a task has none. -/
theorem Worker.stage_of_available {w : Worker α} (h : w.available = true) : w.stage = .free := by
  cases hs : w.stage <;> simp_all [available, isBusy]

/-! ## Lists of workers -/

section Lists

variable {β γ : Type}

/-- What one place of a list contributes can be split off. -/
theorem exists_filterMap_set_perm {ws : List β} {i : Nat} {w : β} (hw : ws[i]? = some w)
    (f : β → Option γ) : ∃ rest, (ws.filterMap f).Perm ((f w).toList ++ rest) ∧
      ∀ w', ((ws.set i w').filterMap f).Perm ((f w').toList ++ rest) := by
  obtain ⟨hi, rfl⟩ := List.getElem?_eq_some_iff.mp hw
  have hcons (v : β) : (v :: ws.eraseIdx i).filterMap f
      = (f v).toList ++ (ws.eraseIdx i).filterMap f := by
    cases hv : f v <;> simp [hv]
  refine ⟨(ws.eraseIdx i).filterMap f, ?_, fun w' => ?_⟩
  · rw [← hcons]
    exact ((List.getElem_cons_eraseIdx_perm hi).symm.filterMap f)
  · rw [← hcons]
    exact (List.set_perm_cons_eraseIdx hi w').filterMap f

/-- A place that contributes the same as before changes nothing. -/
theorem filterMap_set_of_eq {ws : List β} {i : Nat} {w : β} (hw : ws[i]? = some w) (w' : β)
    (f : β → Option γ) (h : f w' = f w) : (ws.set i w').filterMap f = ws.filterMap f := by
  induction ws generalizing i with
  | nil => rfl
  | cons v ws ih =>
    cases i with
    | zero =>
      obtain rfl : v = w := by simpa using hw
      simp [List.filterMap_cons, h]
    | succ i =>
      have := ih (by simpa using hw)
      simp [List.filterMap_cons, this]

/-- Of two ways to pick, the choosier one picks less. -/
theorem filterMap_sublist_filterMap {f g : β → Option γ} (h : ∀ b c, f b = some c → g b = some c)
    (l : List β) : (l.filterMap f).Sublist (l.filterMap g) := by
  induction l with
  | nil => exact .refl _
  | cons b l ih =>
    cases hf : f b with
    | some c => simpa [hf, h b c hf] using ih
    | none => cases hg : g b with
      | some c => simpa [hf, hg] using ih.cons c
      | none => simpa [hf, hg] using ih

end Lists

namespace Machine

/-- The tasks that workers have. -/
def held (m : Machine α) : List (Task α) := m.workers.filterMap (·.stage.task?)

/-- The tasks whose handlers were called and which workers still have. -/
def begun (m : Machine α) : List (Task α) := m.workers.filterMap (·.stage.begun?)

/-- Whether a worker has a task. -/
def Has (m : Machine α) (i : Nat) (t : Task α) : Prop :=
  ∃ w, m.workers[i]? = some w ∧ w.stage.task? = some t

/-- The ids at the four places of a queue. -/
def places (m : Machine α) : List TaskId :=
  m.pending.map (·.id) ++ m.held.map (·.id) ++ m.ended ++ m.discarded

/-- The task that an event takes in. -/
def admitted? (m : Machine α) : Event α → Option (Task α)
  | .push payload priority outside =>
    match m.push payload priority outside with
    | .ok (id, _) => some ⟨id, priority, payload⟩
    | .error _ => none
  | _ => none

/-- The tasks that a run takes in, in order. -/
def admitted (m : Machine α) : List (Event α) → List (Task α)
  | [] => []
  | e :: es =>
    (m.admitted? e).toList ++
      match m.step? e with
      | some n => admitted n es
      | none => []

theorem admitted_append {m n : Machine α} {fs : List (Event α)} (h : m.run? fs = some n)
    (gs : List (Event α)) : m.admitted (fs ++ gs) = m.admitted fs ++ n.admitted gs := by
  induction fs generalizing m with
  | nil =>
    cases h
    rfl
  | cons e fs ih =>
    obtain ⟨o, hs, h⟩ := run?_cons_eq_some h
    rw [List.cons_append, admitted, admitted, step?_of_step hs, List.append_assoc]
    exact congrArg (_ ++ ·) (ih h)

theorem mem_held_iff {m : Machine α} {t : Task α} : t ∈ m.held ↔ ∃ i, m.Has i t := by
  rw [held, List.mem_filterMap]
  constructor
  · rintro ⟨w, hw, ht⟩
    obtain ⟨i, hw⟩ := List.mem_iff_getElem?.mp hw
    exact ⟨i, w, hw, ht⟩
  · rintro ⟨i, w, hw, ht⟩
    exact ⟨w, List.mem_of_getElem? hw, ht⟩

theorem count_places (m : Machine α) (id : TaskId) : m.places.count id =
    (m.pending.map (·.id)).count id + (m.held.map (·.id)).count id + m.ended.count id
      + m.discarded.count id := by
  simp only [places, List.count_append]

/-! ## One worker -/

section Worker

variable {m : Machine α} {i : Nat} {w : Worker α}

theorem has_setWorker (hw : m.workers[i]? = some w) {w' : Worker α} {j : Nat} {t : Task α}
    (h : (m.setWorker i w').Has j t) : i = j ∧ w'.stage.task? = some t ∨ m.Has j t := by
  obtain ⟨v, hv, ht⟩ := h
  rw [setWorker_getElem? hw] at hv
  by_cases hj : i = j
  · obtain rfl : w' = v := by simpa [hj] using hv
    exact .inl ⟨hj, ht⟩
  · exact .inr ⟨v, by simpa [hj] using hv, ht⟩

theorem held_setWorker (hw : m.workers[i]? = some w) : ∃ rest,
    m.held.Perm (w.stage.task?.toList ++ rest) ∧
      ∀ w', (m.setWorker i w').held.Perm (w'.stage.task?.toList ++ rest) :=
  exists_filterMap_set_perm hw _

theorem begun_setWorker (hw : m.workers[i]? = some w) : ∃ rest,
    m.begun.Perm (w.stage.begun?.toList ++ rest) ∧
      ∀ w', (m.setWorker i w').begun.Perm (w'.stage.begun?.toList ++ rest) :=
  exists_filterMap_set_perm hw _

end Worker

/-! ## Handing out -/

theorem place_perm (t : Task α) (ts : List (Task α)) : (place t ts).Perm (t :: ts) := by
  induction ts with
  | nil => exact .refl _
  | cons p ps ih =>
    unfold place
    split
    · exact .refl _
    · exact (ih.cons p).trans (.swap t p ps)

/-- A dispatch pass moves tasks from the line to workers. -/
theorem assign_perm (ws : List (Worker α)) (ts : List (Task α)) :
    ((assign ws ts).2 ++ (assign ws ts).1.filterMap (·.stage.task?)).Perm
      (ts ++ ws.filterMap (·.stage.task?)) := by
  induction ws generalizing ts with
  | nil => simp [assign]
  | cons w ws ih =>
    cases ts with
    | nil => simp [assign]
    | cons t ts =>
      by_cases ha : w.available = true
      · have hw := Worker.stage_of_available ha
        simpa [assign, ha, hw] using List.perm_middle.trans ((ih ts).cons t)
      · have := ih (t :: ts)
        cases hw : w.stage.task? with
        | none => simpa [assign, ha, hw] using this
        | some u =>
          simpa [assign, ha, hw] using
            List.perm_middle.trans ((this.cons u).trans List.perm_middle.symm)

theorem length_assign_pending_le (ws : List (Worker α)) (ts : List (Task α)) :
    (assign ws ts).2.length ≤ ts.length := by
  induction ws generalizing ts with
  | nil => exact le_rfl
  | cons w ws ih =>
    cases ts with
    | nil => exact le_rfl
    | cons t ts =>
      unfold assign
      split
      · exact (ih ts).trans (Nat.le_succ _)
      · exact ih (t :: ts)

/-- A dispatch pass calls no handler. -/
theorem filterMap_begun?_assign (ws : List (Worker α)) (ts : List (Task α)) :
    (assign ws ts).1.filterMap (·.stage.begun?) = ws.filterMap (·.stage.begun?) := by
  induction ws generalizing ts with
  | nil => rfl
  | cons w ws ih =>
    cases ts with
    | nil => rfl
    | cons t ts =>
      by_cases ha : w.available = true
      · have hw := Worker.stage_of_available ha
        simp [assign, ha, List.filterMap_cons, hw, ih ts]
      · simp [assign, ha, List.filterMap_cons, ih (t :: ts)]

end Machine

/-! ## The ledger -/

/-- The machine accounts for the tasks `ts` that it took in. -/
structure Ledger (m : Machine α) (ts : List (Task α)) : Prop where
  ids : ts.map (·.id) = List.range' 1 (m.nextId - 1)
  nextId_pos : 1 ≤ m.nextId
  pending_sub : ∀ t ∈ m.pending, t ∈ ts
  has_sub : ∀ i t, m.Has i t → t ∈ ts
  places : m.places.Perm (ts.map (·.id))
  calls : (m.calls.map (·.task.id)).Perm (m.begun.map (·.id) ++ m.ended)
  /-- Who has begun a task has called its handler. -/
  callers : ∀ i w t, m.workers[i]? = some w → w.stage.begun? = some t → ⟨t, i⟩ ∈ m.calls
  calls_sub : ∀ c ∈ m.calls, c.task ∈ ts
  room : m.pending.length ≤ m.limit

namespace Ledger

variable {m m' : Machine α} {ts : List (Task α)} {i : Nat} {w : Worker α}

/-- The ledger looks neither at signals, nor at passes, nor at those who wait. -/
theorem congr (h : Ledger m ts) (hl : m'.limit = m.limit) (hp : m'.pending = m.pending)
    (hw : m'.workers = m.workers) (hn : m'.nextId = m.nextId) (hc : m'.calls = m.calls)
    (he : m'.ended = m.ended) (hd : m'.discarded = m.discarded) : Ledger m' ts := by
  obtain ⟨limit, pending, workers, nextId, _, _, _, _, _, _, calls, ended, discarded⟩ := m'
  subst hl hp hw hn hc he hd
  exact ⟨h.ids, h.nextId_pos, h.pending_sub, h.has_sub, h.places, h.calls, h.callers,
    h.calls_sub, h.room⟩

section SetWorker

variable (h : Ledger m ts) (hw : m.workers[i]? = some w) (w' : Worker α)

include h hw

/-- One worker has another task. -/
theorem has_sub_setWorker (ht : ∀ t, w'.stage.task? = some t → t ∈ ts) :
    ∀ j t, (m.setWorker i w').Has j t → t ∈ ts := by
  intro j t hj
  rcases Machine.has_setWorker hw hj with ⟨-, hi⟩ | hj
  · exact ht t hi
  · exact h.has_sub j t hj

/-- One worker has begun another task. -/
theorem callers_setWorker {calls : List (Call α)} (hcalls : m.calls ⊆ calls)
    (hb : ∀ t, w'.stage.begun? = some t → ⟨t, i⟩ ∈ calls) : ∀ j v t,
      (m.setWorker i w').workers[j]? = some v → v.stage.begun? = some t → ⟨t, j⟩ ∈ calls := by
  intro j v t hv hs
  rw [Machine.setWorker_getElem? hw] at hv
  by_cases hj : i = j
  · obtain rfl : w' = v := by simpa [hj] using hv
    exact hj ▸ hb t hs
  · exact hcalls (h.callers j v t (by simpa [hj] using hv) hs)

end SetWorker

/-- A worker that keeps its task changes nothing. -/
theorem setWorker (h : Ledger m ts) (hw : m.workers[i]? = some w) (w' : Worker α)
    (ht : w'.stage.task? = w.stage.task?) (hb : w'.stage.begun? = w.stage.begun?) :
    Ledger (m.setWorker i w') ts where
  ids := h.ids
  nextId_pos := h.nextId_pos
  pending_sub := h.pending_sub
  has_sub := h.has_sub_setWorker hw w' fun t hi => h.has_sub i t ⟨w, hw, ht ▸ hi⟩
  places := by
    have : (m.setWorker i w').held = m.held := filterMap_set_of_eq hw w' _ ht
    rw [Machine.places, this]
    exact h.places
  calls := by
    have : (m.setWorker i w').begun = m.begun := filterMap_set_of_eq hw w' _ hb
    rw [this]
    exact h.calls
  callers := h.callers_setWorker hw w' (List.Subset.refl _) fun t hi =>
    h.callers i w t hw (hb ▸ hi)
  calls_sub := h.calls_sub
  room := h.room

/-- A task is taken in. -/
theorem accept (h : Ledger m ts) (payload : α) (priority : Int) (hr : m.pending.length < m.limit) :
    Ledger (m.accept payload priority) (ts ++ [⟨m.nextId, priority, payload⟩]) := by
  obtain ⟨due, passes, hm⟩ := m.exists_accept_eq payload priority
  rw [hm]
  have hp := Machine.place_perm ⟨m.nextId, priority, payload⟩ m.pending
  refine ⟨?_, Nat.le_add_left 1 _, fun t ht => ?_, fun j t ht => ?_, ?_, h.calls, h.callers,
    fun c hc => List.mem_append_left _ (h.calls_sub c hc), ?_⟩
  · have hn : 1 + 1 * (m.nextId - 1) = m.nextId := by
      rw [Nat.one_mul, Nat.add_sub_cancel' h.nextId_pos]
    have : List.range' 1 (m.nextId - 1 + 1) 1 = _ := List.range'_concat
    rw [hn, ← h.ids, Nat.sub_add_cancel h.nextId_pos] at this
    rw [List.map_append]
    exact this.symm
  · rcases List.mem_cons.mp (hp.mem_iff.mp ht) with rfl | ht
    · simp
    · exact List.mem_append_left _ (h.pending_sub t ht)
  · exact List.mem_append_left _ (h.has_sub j t ht)
  · refine ((((hp.map _).append_right _).append_right _).append_right _).trans ?_
    rw [List.map_append]
    exact (h.places.cons m.nextId).trans (List.perm_append_singleton m.nextId _).symm
  · rw [hp.length_eq]
    exact hr

/-- A dispatch pass. -/
theorem pass (h : Ledger m ts) : Ledger m.pass ts := by
  unfold Machine.pass
  cases hs : m.stopped with
  | true => exact h.congr rfl rfl rfl rfl rfl rfl rfl
  | false =>
    simp only [Bool.false_eq_true, if_false]
    have hp := Machine.assign_perm m.workers m.pending
    have hmem {t : Task α} : t ∈ m.pending ++ m.held → t ∈ ts := fun ht => by
      rcases List.mem_append.mp ht with ht | ht
      · exact h.pending_sub t ht
      · obtain ⟨i, ht⟩ := Machine.mem_held_iff.mp ht
        exact h.has_sub i t ht
    refine ⟨h.ids, h.nextId_pos, fun t ht => hmem (hp.mem_iff.mp (List.mem_append_left _ ht)),
      fun i t ⟨w, hw, ht⟩ => hmem (hp.mem_iff.mp (List.mem_append_right _ ?_)), ?_, ?_,
      fun i w t hw hb => ?_, h.calls_sub, (Machine.length_assign_pending_le _ _).trans h.room⟩
    · exact List.mem_filterMap.mpr ⟨w, List.mem_of_getElem? hw, ht⟩
    · have := ((hp.map (·.id)).append_right m.ended).append_right m.discarded
      rw [List.map_append, List.map_append] at this
      exact this.trans h.places
    · simpa only [Machine.begun, Machine.filterMap_begun?_assign] using h.calls
    · obtain ⟨v, hv, rfl | ⟨-, u, -, rfl⟩⟩ := Machine.assign_getElem? hw
      · exact h.callers i w t hv hb
      · simp at hb

/-- A worker calls the handler of its task. -/
theorem begin {t : Task α} {signals : List (TaskId × Signal)} (h : Ledger m ts)
    (hw : m.workers[i]? = some w) (hs : w.stage = .claimed t) :
    Ledger { m.setWorker i { w with stage := .running t } with
      signals := signals, calls := m.calls ++ [⟨t, i⟩] } ts := by
  have ht : m.Has i t := ⟨w, hw, by simp [hs]⟩
  refine ⟨h.ids, h.nextId_pos, h.pending_sub, h.has_sub_setWorker hw _ fun u hu => ?_, ?_, ?_,
    h.callers_setWorker hw _ (List.subset_append_left _ _) fun u hu => ?_, fun c hc => ?_, h.room⟩
  · obtain rfl : t = u := by simpa using hu
    exact h.has_sub i t ht
  · have := filterMap_set_of_eq hw { w with stage := .running t } (·.stage.task?)
      (by simp [hs])
    have hp := h.places
    rw [Machine.places, Machine.held, ← this] at hp
    exact hp
  · obtain ⟨rest, hbegun, hrest⟩ := Machine.begun_setWorker hw
    have hbegun : m.begun.Perm rest := by simpa [hs] using hbegun
    have hrest := (hrest { w with stage := .running t }).map (·.id)
    have := h.calls.trans ((hbegun.map (·.id)).append_right _)
    rw [List.map_append]
    refine (List.perm_append_singleton t.id _).trans ((this.cons t.id).trans ?_)
    exact (hrest.append_right _).symm
  · obtain rfl : t = u := by simpa using hu
    exact List.mem_append_right _ List.mem_cons_self
  · rcases List.mem_append.mp hc with hc | hc
    · exact h.calls_sub c hc
    · obtain rfl := List.mem_singleton.mp hc
      exact h.has_sub i t ht

/-- A worker is done with its task. -/
theorem retire {t : Task α} (h : Ledger m ts) (hw : m.workers[i]? = some w)
    (hs : w.stage = .ended t) (w' : Worker α) (hf : w'.stage = .free) :
    Ledger { m.setWorker i w' with ended := m.ended ++ [t.id] } ts := by
  refine ⟨h.ids, h.nextId_pos, h.pending_sub, h.has_sub_setWorker hw w' fun u hu => ?_, ?_, ?_,
    h.callers_setWorker hw w' (List.Subset.refl _) fun u hu => ?_, h.calls_sub, h.room⟩
  · simp [hf] at hu
  · obtain ⟨rest, hheld, hrest⟩ := Machine.held_setWorker hw
    have hheld : m.held.Perm (t :: rest) := by simpa [hs] using hheld
    have hrest : (m.setWorker i w').held.Perm rest := by simpa [hf] using hrest w'
    refine List.Perm.trans (List.perm_iff_count.mpr fun id => ?_) h.places
    rw [Machine.count_places, Machine.count_places, (hheld.map _).count_eq, List.map_cons,
      List.count_append, List.count_cons, List.count_cons, List.count_nil]
    have : (({ m.setWorker i w' with ended := m.ended ++ [t.id] } : Machine α).held.map
        (·.id)).count id = (rest.map (·.id)).count id := (hrest.map _).count_eq id
    rw [this]
    simp only [Machine.setWorker]
    omega
  · obtain ⟨rest, hbegun, hrest⟩ := Machine.begun_setWorker hw
    have hbegun : m.begun.Perm (t :: rest) := by simpa [hs] using hbegun
    have hrest : (m.setWorker i w').begun.Perm rest := by simpa [hf] using hrest w'
    refine (h.calls.trans ((hbegun.map _).append_right _)).trans ?_
    refine List.Perm.trans ?_ (((hrest.map (·.id)).symm).append_right (m.ended ++ [t.id]))
    rw [← List.append_assoc]
    exact (List.perm_append_singleton t.id _).symm
  · simp [hf] at hu

/-- A worker without a task takes the next one. -/
theorem claim {u : Task α} {us : List (Task α)} (h : Ledger m ts) (hw : m.workers[i]? = some w)
    (hs : w.stage = .free) (w' : Worker α) (hc : w'.stage = .claimed u) (hp : m.pending = u :: us) :
    Ledger { m.setWorker i w' with pending := us } ts := by
  refine ⟨h.ids, h.nextId_pos, fun t ht => h.pending_sub t (hp ▸ List.mem_cons_of_mem u ht),
    h.has_sub_setWorker hw w' fun t ht => ?_, ?_, ?_,
    h.callers_setWorker hw w' (List.Subset.refl _) fun t ht => ?_, h.calls_sub, ?_⟩
  · obtain rfl : u = t := by simpa [hc] using ht
    exact h.pending_sub u (hp ▸ List.mem_cons_self)
  · obtain ⟨rest, hheld, hrest⟩ := Machine.held_setWorker hw
    have hheld : m.held.Perm rest := by simpa [hs] using hheld
    have hrest : (m.setWorker i w').held.Perm (u :: rest) := by simpa [hc] using hrest w'
    refine List.Perm.trans (List.perm_iff_count.mpr fun id => ?_) h.places
    rw [Machine.count_places, Machine.count_places, (hheld.map _).count_eq, hp, List.map_cons,
      List.count_cons]
    have : (({ m.setWorker i w' with pending := us } : Machine α).held.map (·.id)).count id
        = ((u :: rest).map (·.id)).count id := (hrest.map _).count_eq id
    rw [this, List.map_cons, List.count_cons]
    simp only [Machine.setWorker]
    omega
  · have hcalls := h.calls
    have := filterMap_set_of_eq hw w' (·.stage.begun?) (by simp [hs, hc])
    rw [Machine.begun, ← this] at hcalls
    exact hcalls
  · simp [hc] at ht
  · have := h.room
    rw [hp, List.length_cons] at this
    exact (Nat.le_succ _).trans this

/-- What waits is thrown away. -/
theorem halt (h : Ledger m ts) : Ledger m.halt ts := by
  refine ⟨h.ids, h.nextId_pos, fun t ht => absurd ht List.not_mem_nil, h.has_sub, ?_, h.calls,
    h.callers, h.calls_sub, Nat.zero_le _⟩
  refine List.Perm.trans (List.perm_iff_count.mpr fun id => ?_) h.places
  rw [Machine.count_places, Machine.count_places]
  simp only [Machine.halt, Machine.held, List.map_nil, List.count_nil, List.count_append]
  omega

/-! ## Along runs -/

theorem new (concurrency limit : Nat) : Ledger (Machine.new concurrency limit : Machine α) [] := by
  have hfree (w : Worker α) (hw : w ∈ (Machine.new concurrency limit : Machine α).workers) :
      w.stage = .free := by
    rw [List.eq_of_mem_replicate hw]
  refine ⟨rfl, le_rfl, fun t ht => absurd ht List.not_mem_nil, fun i t ⟨w, hw, ht⟩ => ?_, ?_, ?_,
    fun i w t hw ht => ?_, fun c hc => absurd hc List.not_mem_nil, Nat.zero_le _⟩
  · simp [hfree w (List.mem_of_getElem? hw)] at ht
  · simp [Machine.places, Machine.held, Machine.new]
  · simp [Machine.begun, Machine.new]
  · simp [hfree w (List.mem_of_getElem? hw)] at ht

/-- **Every step keeps the ledger**, which gains the task that the step takes in. -/
theorem step {e : Machine.Event α} (h : Ledger m ts) (hs : Machine.Step m e m') :
    Ledger m' (ts ++ (m.admitted? e).toList) := by
  have hkeep {n : Machine α} (hn : Ledger n ts) : Ledger n (ts ++ []) := by
    rwa [List.append_nil]
  cases hs with
  | refuse hr =>
    rw [Machine.admitted?, Machine.push, hr]
    exact hkeep h
  | accept hr =>
    rw [Machine.admitted?, Machine.push, hr]
    exact h.accept _ _ (Machine.refusal?_eq_none_iff.mp hr).2.2
  | pass => exact hkeep h.pass
  | begin hw hs => exact hkeep (h.begin hw hs)
  | finish hw hs => exact hkeep ((h.setWorker hw _ (by simp [hs]) (by simp [hs])).congr
      rfl rfl rfl rfl rfl rfl rfl)
  | leave hw hs =>
    exact hkeep ((h.retire hw hs _ rfl).congr rfl rfl rfl rfl rfl rfl rfl)
  | rest hw hs => exact hkeep ((h.retire hw hs _ rfl).congr rfl rfl rfl rfl rfl rfl rfl)
  | @goOn i w t u us hw hs hl hr hp =>
    have hfree := h.retire hw hs { w with stage := .free } rfl
    have hw' := (Machine.setWorker_getElem? hw { w with stage := .free } i).trans (if_pos rfl)
    have := hfree.claim hw' rfl { w with stage := .claimed u } rfl hp
    exact hkeep (this.congr rfl rfl (List.set_set _).symm rfl rfl rfl rfl)
  | stop => exact hkeep (h.halt.congr rfl rfl rfl rfl rfl rfl rfl)
  | @stopWorker i w hw =>
    have := h.setWorker hw (if w.isBusy then { w with stopping := true }
      else { w with stopped := true }) (by split <;> rfl) (by split <;> rfl)
    exact hkeep (this.congr rfl rfl rfl rfl rfl rfl rfl)
  | @startWorker i w hw hp =>
    have := h.setWorker hw { w with stopping := false, stopped := false } rfl rfl
    obtain ⟨due, passes, hm⟩ := Machine.exists_schedule_eq
      (m.setWorker i { w with stopping := false, stopped := false })
    exact hkeep (hm ▸ this.congr rfl rfl rfl rfl rfl rfl rfl)
  | startIdly hw => exact hkeep (h.setWorker hw _ rfl rfl)
  | operate | notice | drain | look => exact hkeep (h.congr rfl rfl rfl rfl rfl rfl rfl)
  | stopNobody | startNobody => exact hkeep h

/-- **Every run keeps the ledger.** -/
theorem run {es : List (Machine.Event α)} (h : Ledger m ts) (hr : m.run? es = some m') :
    Ledger m' (ts ++ m.admitted es) := by
  induction es generalizing m ts with
  | nil =>
    cases hr
    rwa [Machine.admitted, List.append_nil]
  | cons e es ih =>
    obtain ⟨n, hs, hr⟩ := Machine.run?_cons_eq_some hr
    rw [Machine.admitted, Machine.step?_of_step hs, ← List.append_assoc]
    exact ih (h.step hs) hr

/-- A worker lets go of a task only after it has called its handler. -/
theorem has_step {e : Machine.Event α} {j : Nat} {u : Task α} (h : Ledger m ts)
    (hs : Machine.Step m e m') (hu : m.Has j u) : m'.Has j u ∨ ⟨u, j⟩ ∈ m'.calls := by
  obtain ⟨w, hw, ht⟩ := hu
  obtain ⟨w', hw', hstep⟩ := Machine.workerStep_of_step hs hw
  rcases hstep.task?_eq_or_ended ht with ht' | ⟨hst, -⟩
  · exact .inl ⟨w', hw', ht'⟩
  · have hcalled := h.callers j w u hw (by rw [hst]; rfl)
    refine .inr ?_
    rcases Machine.calls_of_step hs with hcalls | ⟨i, v, t, -, -, -, hcalls⟩ <;> rw [hcalls]
    · exact hcalled
    · exact List.mem_append_left _ hcalled

theorem has_run {es : List (Machine.Event α)} {j : Nat} {u : Task α} (h : Ledger m ts)
    (hr : m.run? es = some m') (hu : m.Has j u) : m'.Has j u ∨ ⟨u, j⟩ ∈ m'.calls := by
  induction es generalizing m ts with
  | nil =>
    cases hr
    exact .inl hu
  | cons e es ih =>
    obtain ⟨n, hs, hr⟩ := Machine.run?_cons_eq_some hr
    rcases h.has_step hs hu with hn | hn
    · exact ih (h.step hs) hr hn
    · exact .inr (Machine.mem_calls_of_run hr hn)

/-! ## What a ledger says -/

theorem nodup_ids (h : Ledger m ts) : (ts.map (·.id)).Nodup := by
  rw [h.ids]
  exact List.nodup_range'

theorem nodup_places (h : Ledger m ts) : m.places.Nodup := h.places.nodup_iff.mpr h.nodup_ids

/-- A task is known by its id. -/
theorem eq_of_id_eq (h : Ledger m ts) {t u : Task α} (ht : t ∈ ts) (hu : u ∈ ts)
    (hid : t.id = u.id) : t = u :=
  List.inj_on_of_nodup_map h.nodup_ids ht hu hid

theorem nodup_held_append_ended (h : Ledger m ts) : (m.held.map (·.id) ++ m.ended).Nodup := by
  have := (List.nodup_append.mp h.nodup_places).1
  rw [List.append_assoc] at this
  exact (List.nodup_append.mp this).2.1

/-- No two workers have one task. -/
theorem has_inj (h : Ledger m ts) {i j : Nat} {t u : Task α} (ht : m.Has i t) (hu : m.Has j u)
    (hid : t.id = u.id) : i = j := by
  obtain ⟨w, hw, ht⟩ := ht
  obtain ⟨v, hv, hu⟩ := hu
  have hne := (List.nodup_append.mp h.nodup_held_append_ended).1
  rw [Machine.held, List.map_filterMap, List.Nodup, List.pairwise_filterMap,
    List.pairwise_iff_getElem] at hne
  obtain ⟨hi, rfl⟩ := List.getElem?_eq_some_iff.mp hw
  obtain ⟨hj, rfl⟩ := List.getElem?_eq_some_iff.mp hv
  rcases Nat.lt_trichotomy i j with hij | hij | hij
  · exact absurd hid (hne i j hi hj hij t.id (by simp [ht]) u.id (by simp [hu]))
  · exact hij
  · exact absurd hid.symm (hne j i hj hi hij u.id (by simp [hu]) t.id (by simp [ht]))

/-- **No handler is called twice for one task.** -/
theorem nodup_calls (h : Ledger m ts) : (m.calls.map (·.task.id)).Nodup := by
  have hsub : m.begun.Sublist m.held :=
    filterMap_sublist_filterMap (fun _ _ => Stage.task?_of_begun?) m.workers
  exact h.calls.nodup_iff.mpr
    (h.nodup_held_append_ended.sublist ((hsub.map (·.id)).append_right m.ended))

/-- Who has a called task called it. -/
theorem caller_eq_of_has (h : Ledger m ts) {c : Call α} {i : Nat} {t : Task α} (hc : c ∈ m.calls)
    (ht : m.Has i t) (hid : t.id = c.task.id) : c.worker = i := by
  have hcall : c.task.id ∈ m.begun.map (·.id) ++ m.ended :=
    h.calls.mem_iff.mp (List.mem_map_of_mem hc)
  rcases List.mem_append.mp hcall with hb | he
  · obtain ⟨u, hu, hid'⟩ := List.mem_map.mp hb
    obtain ⟨w, hw, hb⟩ := List.mem_filterMap.mp hu
    obtain ⟨j, hj⟩ := List.mem_iff_getElem?.mp hw
    have hcu := h.callers j w u hj hb
    obtain rfl := h.has_inj ht ⟨w, hj, Stage.task?_of_begun? hb⟩ (hid.trans hid'.symm)
    exact congrArg Call.worker (List.inj_on_of_nodup_map h.nodup_calls hc hcu hid'.symm)
  · have hheld : c.task.id ∈ m.held.map (·.id) :=
      hid ▸ List.mem_map_of_mem (Machine.mem_held_iff.mpr ⟨i, ht⟩)
    exact absurd rfl ((List.nodup_append.mp h.nodup_held_append_ended).2.2 _ hheld _ he)

/-- Who has a task before its handler is called is who calls it, and for this task. -/
theorem eq_call_of_has {n : Machine α} {ts' : List (Task α)} {es : List (Machine.Event α)}
    {c : Call α} {i : Nat} {t : Task α} (h : Ledger m ts) (hn : Ledger n ts')
    (hr : n.run? es = some m) (hc : c ∈ m.calls) (ht : n.Has i t) (hid : t.id = c.task.id) :
    t = c.task ∧ i = c.worker := by
  rcases hn.has_run hr ht with ht | ht
  · exact ⟨h.eq_of_id_eq (h.has_sub i t ht) (h.calls_sub c hc) hid,
      (h.caller_eq_of_has hc ht hid).symm⟩
  · obtain rfl : ⟨t, i⟩ = c := List.inj_on_of_nodup_map h.nodup_calls ht hc hid
    exact ⟨rfl, rfl⟩

end Ledger

/-! ## Conservation -/

/-- Where a task of a queue can be. -/
inductive Place
  | waiting
  | held (worker : Nat)
  | ended
  | discarded
deriving DecidableEq

/-- Whether a task is at a place. -/
def Machine.At (m : Machine α) (t : Task α) : Place → Prop
  | .waiting => t ∈ m.pending
  | .held worker => m.Has worker t
  | .ended => t.id ∈ m.ended
  | .discarded => t.id ∈ m.discarded

/-- The ids at the places of one kind. -/
def Machine.idsAt (m : Machine α) : Place → List TaskId
  | .waiting => m.pending.map (·.id)
  | .held _ => m.held.map (·.id)
  | .ended => m.ended
  | .discarded => m.discarded

theorem Machine.mem_idsAt_of_at {m : Machine α} {t : Task α} {p : Place} (h : m.At t p) :
    t.id ∈ m.idsAt p := by
  cases p with
  | waiting => exact List.mem_map_of_mem h
  | held worker => exact List.mem_map_of_mem (mem_held_iff.mpr ⟨worker, h⟩)
  | ended => exact h
  | discarded => exact h

namespace Ledger

variable {m : Machine α} {ts : List (Task α)}

/-- A task that was taken in is somewhere. -/
theorem exists_at (h : Ledger m ts) {t : Task α} (ht : t ∈ ts) : ∃ p, m.At t p := by
  have hmem : t.id ∈ m.places := h.places.mem_iff.mpr (List.mem_map_of_mem ht)
  simp only [Machine.places, List.mem_append, List.mem_map] at hmem
  rcases hmem with ((⟨u, hu, hid⟩ | ⟨u, hu, hid⟩) | he) | hd
  · obtain rfl := h.eq_of_id_eq (h.pending_sub u hu) ht hid
    exact ⟨.waiting, hu⟩
  · obtain ⟨i, hu⟩ := Machine.mem_held_iff.mp hu
    obtain rfl := h.eq_of_id_eq (h.has_sub i u hu) ht hid
    exact ⟨.held i, hu⟩
  · exact ⟨.ended, he⟩
  · exact ⟨.discarded, hd⟩

/-- **Every task is in exactly one place.** -/
theorem existsUnique_at (h : Ledger m ts) {t : Task α} (ht : t ∈ ts) : ∃! p, m.At t p := by
  obtain ⟨p, hp⟩ := h.exists_at ht
  refine ⟨p, hp, fun q hq => ?_⟩
  have hone : m.places.count t.id = 1 := by
    rw [h.places.count_eq]
    exact List.count_eq_one_of_mem h.nodup_ids (List.mem_map_of_mem ht)
  rw [Machine.count_places] at hone
  have hp' := List.count_pos_iff.mpr (Machine.mem_idsAt_of_at hp)
  have hq' := List.count_pos_iff.mpr (Machine.mem_idsAt_of_at hq)
  -- Two places of different kinds would count the id twice; two workers cannot have one task.
  cases p <;> cases q <;> simp only [Machine.idsAt] at hp' hq' <;>
    first | rfl | omega | exact congrArg Place.held (h.has_inj hq hp rfl)

end Ledger

namespace Machine

theorem length_workers_of_run {m m' : Machine α} {es : List (Event α)} (h : m.run? es = some m') :
    m'.workers.length = m.workers.length :=
  run?_keeps (fun _ _ _ hm hs => (length_workers_of_step hs).trans hm) h rfl

theorem limit_of_run {m m' : Machine α} {es : List (Event α)} (h : m.run? es = some m') :
    m'.limit = m.limit :=
  run?_keeps (fun _ _ _ hm hs => (limit_of_step hs).trans hm) h rfl

/-- A worker is busy when it has a task. -/
theorem inFlight_eq_length_held (m : Machine α) : m.inFlight = m.held.length := by
  rw [inFlight, held, List.length_filterMap_eq_countP]
  rfl

/-- No more tasks are with workers than there are workers. -/
theorem length_held_le {concurrency limit : Nat} {es : List (Event α)} {m : Machine α}
    (h : (new concurrency limit).run? es = some m) : m.held.length ≤ max 1 concurrency := by
  have hlen := length_workers_of_run h
  rw [new, List.length_replicate, max_comm] at hlen
  exact hlen ▸ List.length_filterMap_le _ _

/-- **Tasks are conserved.**  Whatever happens to a queue, in whatever order: the tasks it takes in
get ever higher ids; each of them is in exactly one place, where nothing else is; a handler is
called at most once for a task, with the task that was taken in and by the one worker that claimed
it; no more tasks are with workers than there are workers, and no more wait than there is room for;
a push that is refused changes nothing. -/
theorem conservation {concurrency limit : Nat} {es : List (Event α)} {m : Machine α}
    (h : (new concurrency limit).run? es = some m) :
    let tasks := (new concurrency limit).admitted es
    tasks.Pairwise (·.id < ·.id) ∧
    (∀ t ∈ tasks, ∃! p, m.At t p) ∧
    (∀ t, (∃ i, m.Has i t) ∨ t ∈ m.pending → t ∈ tasks) ∧
    m.places.Perm (tasks.map (·.id)) ∧
    (m.calls.map (·.task.id)).Nodup ∧
    (∀ c ∈ m.calls, c.task ∈ tasks ∧
      (∃ fs n w, fs ++ [.begin c.worker] <+: es ∧ (new concurrency limit).run? fs = some n ∧
        n.workers[c.worker]? = some w ∧ w.stage = .claimed c.task) ∧
      ∀ fs n i t, fs <+: es → (new concurrency limit).run? fs = some n → n.Has i t →
        t.id = c.task.id → t = c.task ∧ i = c.worker) ∧
    m.inFlight = m.held.length ∧ m.held.length ≤ max 1 concurrency ∧
    m.pending.length ≤ limit ∧
    ∀ payload priority outside e, m.push payload priority outside = .error e →
      m.step? (.push payload priority outside) = some m := by
  have hl : Ledger m ((new concurrency limit).admitted es) := (Ledger.new concurrency limit).run h
  refine ⟨?_, fun t ht => hl.existsUnique_at ht, fun t ht => ?_, hl.places, hl.nodup_calls,
    fun c hc => ⟨hl.calls_sub c hc, ?_, fun fs n i t hfs hn ht hid => ?_⟩,
    m.inFlight_eq_length_held, length_held_le h, ?_, fun payload priority outside e he => ?_⟩
  · rw [← List.pairwise_map (f := Task.id), hl.ids]
    exact List.pairwise_lt_range' 1
  · rcases ht with ⟨i, ht⟩ | ht
    · exact hl.has_sub i t ht
    · exact hl.pending_sub t ht
  · exact (exists_begin_of_mem_calls h hc).resolve_left List.not_mem_nil
  · obtain ⟨gs, rfl⟩ := hfs
    obtain ⟨n', hn', hm⟩ := run?_append_eq_some h
    obtain rfl : n = n' := Option.some.inj (hn.symm.trans hn')
    exact hl.eq_call_of_has ((Ledger.new concurrency limit).run hn) hm hc ht hid
  · have : m.limit = limit := limit_of_run h
    exact this ▸ hl.room
  · simp [step?, he]

/-- Two workers, three tasks, one of them refused, and a stop. -/
theorem conservation_two_workers :
    let es : List (Event String) := [.push "a" 0 false, .push "b" 1 false, .push "c" 0 false,
      .pass, .begin 0, .operate 2 .give, .finish 0, .turn 0, .stop]
    ∃ m, (new 2 2).run? es = some m ∧ ∀ t ∈ (new 2 2).admitted es, ∃! p, m.At t p :=
  ⟨_, rfl, (conservation rfl).2.1⟩

end Machine

end DeviceStats.Queue
