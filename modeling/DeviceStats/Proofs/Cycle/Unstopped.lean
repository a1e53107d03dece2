import DeviceStats.Proofs.Cycle.Outcomes

/-!
# Proofs/Cycle/Unstopped — a cycle that nothing stops runs every property

Where no stop is requested and the queue has room for every property, nothing is refused and nothing
is thrown away (`Unstopped.run`), so at the end every selected property has an outcome
(`Reached.exists_outcome`).  If each has a value, the stats are these values in their places
(`Reached.stats_eq`).
-/

namespace DeviceStats

open Json (Value Object)

namespace Cycle

variable {c₀ c c' : Cycle} {e : Event} {es : List Event} {n : Nat}

/-- No stop was requested, and the queue has taken in what it was given and thrown nothing away. -/
structure Unstopped (c : Cycle) : Prop where
  unrequested : c.stopRequested = false
  unrefused : c.refused? = none
  undiscarded : c.queue.discarded = []
  room : c.selected.length ≤ c.queue.limit

/-- The queue of a cycle holds at most what was pushed. -/
theorem Placed.length_pending_le (h : Placed c n) : c.queue.pending.length ≤ n := by
  have hlen := h.ledger.places.length_eq
  simp only [Queue.Machine.places, tasks, List.length_append, List.length_map,
    List.length_range] at hlen
  omega

/-- The queue has room for the next property. -/
theorem Unstopped.refusal?_eq_none (h : Unstopped c) (hp : Placed c n) {k : Nat}
    (hphase : c.phase = .pushing k) (hk : k < c.selected.length) :
    c.queue.refusal? false = none := by
  obtain ⟨rfl, -, -, hstopped, -⟩ := hp.atPhase.of_pushing hphase
  have hpending := hp.length_pending_le
  exact Queue.Machine.refusal?_eq_none_iff.mpr
    ⟨rfl, hstopped, Nat.lt_of_le_of_lt hpending (Nat.lt_of_lt_of_le hk h.room)⟩

/-- **Every step but a request to stop keeps a cycle unstopped.** -/
theorem Unstopped.step (h : Unstopped c) (hp : Placed c n) (hs : Step c e c')
    (he : e ≠ .requestStop) : Unstopped c' := by
  have hstop (hstop : c.stopRequested = true) : False := by
    rw [h.unrequested] at hstop
    cases hstop
  cases hs with
  | @push k =>
    obtain ⟨due, passes, hm⟩ := c.queue.exists_accept_eq k 0
    rw [hm]
    exact ⟨h.unrequested, h.unrefused, h.undiscarded, h.room⟩
  | pushStopped _ _ hs => exact (hstop hs).elim
  | pushRefused hphase hk _ hr =>
    rw [h.refusal?_eq_none hp hphase hk] at hr
    cases hr
  | heed _ hs => exact (hstop hs).elim
  | requestStop => exact absurd rfl he
  | @inQueue e qe q hqe hq =>
    obtain ⟨hinner, -⟩ := Event.isInner_of_inQueue? hqe
    have hlimit := Queue.Machine.limit_of_step hq
    exact ⟨h.unrequested, h.unrefused,
      (Queue.Machine.discarded_of_step hinner hq).trans h.undiscarded, hlimit ▸ h.room⟩
  | pushedAll | arrive | sleep | begin | join | send | answer | take =>
    exact ⟨h.unrequested, h.unrefused, h.undiscarded, h.room⟩

/-- **A run without a request to stop leaves a cycle unstopped.** -/
theorem Unstopped.run {selected : List Property} {workers limit : Nat}
    (h : (Cycle.new selected workers limit false).run? es = some c)
    (hes : .requestStop ∉ es) (hroom : selected.length ≤ limit) : Unstopped c := by
  refine run?_induction (P := fun c es => .requestStop ∉ es → Unstopped c) h
    (fun _ => ⟨rfl, rfl, rfl, hroom⟩) ?_ hes
  intro m es e c hm hs ih hes
  obtain ⟨n, hn, -⟩ := Placed.run hm
  obtain ⟨hes, he⟩ := not_or.mp (mt List.mem_append.mpr hes)
  exact (ih hes).step hn hs fun heq => he (List.mem_singleton.mpr heq.symm)

/-- **At the end every selected property has an outcome.** -/
theorem Reached.exists_outcome (h : Reached c₀ c es n) (hu : Unstopped c) (hd : c.phase = .done)
    {i : Nat} (hi : i < c.selected.length) : ∃ o, c.outcome? i = some o := by
  obtain ⟨hhalted, hpending, hidle⟩ := h.placed.of_done hd
  have hn : n = c.selected.length := by
    obtain ⟨-, hn⟩ | ⟨reason, hr, -⟩ := hhalted
    · exact hn
    · rw [hu.unrefused] at hr
      cases hr
  have htask : ⟨i + 1, 0, i⟩ ∈ tasks n := mem_tasks_iff.mpr ⟨i, hn ▸ hi, rfl⟩
  obtain ⟨place, hplace⟩ := h.placed.ledger.exists_at htask
  refine h.exists_outcome_iff.mpr ?_
  cases place with
  | waiting =>
    rw [Queue.Machine.At, hpending] at hplace
    cases hplace
  | held i =>
    obtain ⟨w, hw, ht⟩ := hplace
    have hbusy := Queue.Machine.isIdle_eq_true_iff.mp hidle i w hw
    rw [Queue.Worker.isBusy, ht] at hbusy
    cases hbusy
  | ended => exact h.settled.ended _ hplace
  | discarded =>
    rw [Queue.Machine.At, hu.undiscarded] at hplace
    cases hplace

end Cycle

/-! ## The stats of a cycle -/

/-- Adding up properties that all have a value puts the values in their places. -/
theorem Report.stats_foldl_add {value : Property → Value} {ps : List Property}
    {f : Nat → Property → Property × Option Outcome × Unrun}
    (h : ∀ i p, ps[i]? = some p → ∃ u, f i p = (p, some (.ok (value p)), u)) (r : Report) :
    ((ps.mapIdx f).foldl (fun r (p, outcome?, unrun) => r.add p outcome? unrun) r).stats =
      ps.foldl (fun o p => place o p (value p)) r.stats := by
  induction ps generalizing f r with
  | nil => rfl
  | cons p ps ih =>
    obtain ⟨u, hf⟩ := h 0 p rfl
    rw [List.mapIdx_cons, List.foldl_cons, List.foldl_cons, hf]
    exact ih (fun i q hq => h (i + 1) q (by simpa using hq)) _

/-- **The stats of a cycle that nothing stops are the values of its properties.** -/
theorem Cycle.Reached.stats_eq {c₀ c : Cycle} {es : List Cycle.Event} {n : Nat}
    (h : Reached c₀ c es n) (hu : Unstopped c) (hd : c.phase = .done) (value : Property → Value)
    (hvalue : ∀ p ∈ c.selected, ∀ a, .answer (Request.ofProperty p).key a ∈ es →
      outcomeOf p (a.map withItems) = .ok (value p))
    (rejections : List (String × PropertyError)) :
    (Report.assemble rejections c.results).stats =
      c.selected.foldl (fun o p => Report.place o p (value p)) [] := by
  refine Report.stats_foldl_add (fun i p hp => ⟨c.unrun i, ?_⟩) _
  obtain ⟨hi, -⟩ := List.getElem?_eq_some_iff.mp hp
  obtain ⟨o, ho⟩ := h.exists_outcome hu hd hi
  obtain ⟨q, a, hq, ha, rfl⟩ := h.exists_answer ho
  obtain rfl : p = q := Option.some.inj (hp.symm.trans hq)
  rw [ho, hvalue p (List.mem_of_getElem? hp) a ha]

end DeviceStats
