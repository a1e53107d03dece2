import DeviceStats.Proofs.Queue.Ledger
import Mathlib.Data.Int.Order.Basic

/-!
# Proofs/Queue/Order — the order of service

A dispatch pass is a row of offers: each worker in its turn takes the first waiting task if it is
available (`pass_eq_offers`).  So whoever takes a task, in a pass or after a task of its own, takes
it off the head of the line.  A **claim** records the task and what went on waiting at that moment.
The line stands in the order of service (`InOrder`, kept by every step); hence no task is claimed
while one ahead of it waits (`served_in_order`).
-/

namespace DeviceStats.Queue

variable {α : Type}

/-- One task is served before another: for its priority or, at equal priority, for its arrival. -/
def Task.Ahead (a b : Task α) : Prop :=
  b.priority < a.priority ∨ a.priority = b.priority ∧ a.id < b.id

theorem Task.Ahead.asymm {a b : Task α} (h : a.Ahead b) : ¬ b.Ahead a := by
  rintro (hlt' | ⟨heq', hid'⟩)
  · rcases h with hlt | ⟨heq, -⟩
    · exact lt_asymm hlt hlt'
    · exact hlt'.ne heq
  · rcases h with hlt | ⟨-, hid⟩
    · exact hlt.ne heq'
    · exact lt_asymm hid hid'

/-- Of two tasks with different ids, one is ahead. -/
theorem Task.ahead_or_ahead {a b : Task α} (h : a.id ≠ b.id) : a.Ahead b ∨ b.Ahead a := by
  rcases lt_trichotomy a.priority b.priority with hlt | heq | hlt
  · exact .inr (.inl hlt)
  · exact (Nat.lt_or_gt_of_ne h).imp (fun hid => .inr ⟨heq, hid⟩) fun hid => .inr ⟨heq.symm, hid⟩
  · exact .inl (.inl hlt)

theorem Task.Ahead.priority_le {a b : Task α} (h : a.Ahead b) : b.priority ≤ a.priority :=
  h.elim le_of_lt fun h => h.1.ge

/-- A task is taken off the line. -/
structure Claim (α : Type) where
  task : Task α
  /-- What goes on waiting. -/
  left : List (Task α)

namespace Machine

variable {m m' : Machine α} {es : List (Event α)}

/-! ## A pass, worker by worker -/

/-- What a worker takes that is offered a task: the first one, if it is available. -/
def claim? (m : Machine α) (i : Nat) : Option (Claim α) :=
  match m.workers[i]?, m.pending with
  | some w, t :: ts => if w.available then some ⟨t, ts⟩ else none
  | _, _ => none

/-- A worker is offered a task. -/
def offer (m : Machine α) (i : Nat) : Machine α :=
  match m.workers[i]?, m.claim? i with
  | some w, some k => { m.setWorker i { w with stage := .claimed k.task } with pending := k.left }
  | _, _ => m

/-- What workers take that are offered tasks one after the other. -/
def offered (m : Machine α) : List Nat → List (Claim α)
  | [] => []
  | i :: is => (m.claim? i).toList ++ (m.offer i).offered is

/-- Offers to the workers from a place on do what `assign` does with them. -/
theorem foldl_offer (before ws : List (Worker α)) (h : m.workers = before ++ ws) :
    ((List.range' before.length ws.length).foldl offer m).workers =
        before ++ (assign ws m.pending).1 ∧
      ((List.range' before.length ws.length).foldl offer m).pending = (assign ws m.pending).2 := by
  induction ws generalizing before m with
  | nil => exact ⟨h, rfl⟩
  | cons w ws ih =>
    have hw : m.workers[before.length]? = some w := by rw [h]; simp
    -- The worker at this place goes over to those that were offered a task.
    have hnext {n : Machine α} {v : Worker α} (hn : n.workers = before ++ v :: ws) :=
      ih (before ++ [v]) (hn.trans (List.append_cons before v ws))
    simp only [List.length_append, List.length_singleton, List.append_assoc,
      List.singleton_append] at hnext
    rw [List.length_cons, List.range'_succ, List.foldl_cons]
    cases hp : m.pending with
    | nil =>
      have hoffer : m.offer before.length = m := by simp [offer, claim?, hw, hp]
      rw [hoffer, assign_nil]
      simpa only [hp, assign_nil] using hnext h
    | cons t ts =>
      by_cases ha : w.available = true
      · have hoffer : m.offer before.length = { m.setWorker before.length
            { w with stage := .claimed t } with pending := ts } := by
          simp [offer, claim?, hw, hp, ha]
        rw [hoffer, assign, if_pos ha]
        refine hnext ?_
        simp [setWorker, h]
      · have hoffer : m.offer before.length = m := by simp [offer, claim?, hw, hp, ha]
        rw [hoffer, assign, if_neg ha]
        simpa only [hp] using hnext h

/-- **A dispatch pass is a row of offers**, to each worker in turn. -/
theorem pass_eq_offers (hs : m.stopped = false) :
    m.pass.workers = ((List.range m.workers.length).foldl offer m).workers ∧
      m.pass.pending = ((List.range m.workers.length).foldl offer m).pending := by
  have h := foldl_offer [] m.workers rfl
  rw [List.length_nil, ← List.range_eq_range', List.nil_append] at h
  rw [h.1, h.2]
  simp [pass, hs]

/-- Who takes a task takes it off the head of the line. -/
theorem pending_of_claim? {i : Nat} {k : Claim α} (h : m.claim? i = some k) :
    m.pending = k.task :: k.left ∧ (m.offer i).pending = k.left := by
  have hoffer : (m.offer i).pending = k.left := by
    unfold offer
    cases hw : m.workers[i]? with
    | none => simp [claim?, hw] at h
    | some w => simp [h]
  refine ⟨?_, hoffer⟩
  unfold claim? at h
  split at h
  · rename_i w t ts hw hp
    split at h
    · cases h
      exact hp
    · cases h
  · cases h

theorem offer_of_claim?_eq_none {i : Nat} (h : m.claim? i = none) : m.offer i = m := by
  unfold offer
  rw [h]
  split
  · rename_i hk
    cases hk
  · rfl

/-- Offers take a first part of the line. -/
theorem pending_eq_offered_append (is : List Nat) :
    m.pending = (m.offered is).map (·.task) ++ (is.foldl offer m).pending := by
  induction is generalizing m with
  | nil => rfl
  | cons i is ih =>
    rw [offered, List.foldl_cons]
    cases hk : m.claim? i with
    | none =>
      rw [offer_of_claim?_eq_none hk]
      exact ih
    | some k =>
      obtain ⟨hp, hleft⟩ := pending_of_claim? hk
      rw [hp, ← hleft]
      exact congrArg (k.task :: ·) ih

/-- Whoever is offered a task leaves an end of the line behind it. -/
theorem suffix_of_mem_offered {is : List Nat} {k : Claim α} (h : k ∈ m.offered is) :
    k.task :: k.left <:+ m.pending := by
  induction is generalizing m with
  | nil => exact absurd h List.not_mem_nil
  | cons i is ih =>
    rw [offered, List.mem_append] at h
    cases hk : m.claim? i with
    | none =>
      rw [hk, offer_of_claim?_eq_none hk] at h
      exact ih (h.resolve_left List.not_mem_nil)
    | some l =>
      obtain ⟨hp, hleft⟩ := pending_of_claim? hk
      rw [hk] at h
      rcases h with h | h
      · obtain rfl : k = l := by simpa using h
        exact hp ▸ List.suffix_rfl
      · have := ih h
        rw [hleft] at this
        exact hp ▸ this.trans (List.suffix_cons _ _)

/-! ## The claims of a run -/

/-- What a worker takes that goes on after a task of its own. -/
def goOn? (m : Machine α) (i : Nat) : Option (Claim α) :=
  match m.workers[i]?, m.pending with
  | some w, t :: ts =>
    match w.stage with
    | .ended _ => if w.stopping || m.stopped then none else some ⟨t, ts⟩
    | _ => none
  | _, _ => none

/-- The claims of an event, in order. -/
def claimed (m : Machine α) : Event α → List (Claim α)
  | .pass => if m.stopped then [] else m.offered (List.range m.workers.length)
  | .turn i => (m.goOn? i).toList
  | _ => []

/-- The claims of a run, in order. -/
def claims (m : Machine α) : List (Event α) → List (Claim α)
  | [] => []
  | e :: es =>
    m.claimed e ++
      match m.step? e with
      | some n => claims n es
      | none => []

theorem claims_cons {e : Event α} (h : Step m e m') (es : List (Event α)) :
    m.claims (e :: es) = m.claimed e ++ m'.claims es := by
  rw [claims, step?_of_step h]

theorem suffix_of_mem_claimed {e : Event α} {k : Claim α} (h : k ∈ m.claimed e) :
    k.task :: k.left <:+ m.pending := by
  cases e with
  | pass =>
    rw [claimed] at h
    split at h
    · exact absurd h List.not_mem_nil
    · exact suffix_of_mem_offered h
  | turn i =>
    rw [claimed, goOn?] at h
    split at h
    · rename_i w t ts hw hp
      split at h
      · split at h
        · exact absurd h List.not_mem_nil
        · obtain rfl : k = ⟨t, ts⟩ := by simpa using h
          exact hp ▸ List.suffix_rfl
      · exact absurd h List.not_mem_nil
    · exact absurd h List.not_mem_nil
  | _ => exact absurd h List.not_mem_nil

/-- **What a step does to the line**: it puts the admitted task in its place, takes the claimed
ones off the head, or throws all away. -/
theorem line_of_step {e : Event α} (h : Step m e m') :
    (∃ t, m.admitted? e = some t ∧ t.id = m.nextId ∧ m'.nextId = m.nextId + 1 ∧
      m.claimed e = [] ∧ m'.pending = place t m.pending ∧ m'.discarded = m.discarded) ∨
    m.admitted? e = none ∧ m'.nextId = m.nextId ∧
      (m.pending = (m.claimed e).map (·.task) ++ m'.pending ∧ m'.discarded = m.discarded ∨
        m.claimed e = [] ∧ m'.pending = [] ∧
          m'.discarded = m.discarded ++ m.pending.map (·.id)) := by
  have hsame {n : Machine α} (hc : m.claimed e = []) (hp : n.pending = m.pending)
      (hd : n.discarded = m.discarded) :
      m.pending = (m.claimed e).map (·.task) ++ n.pending ∧ n.discarded = m.discarded :=
    ⟨by rw [hc, hp]; rfl, hd⟩
  cases h with
  | refuse hr => exact .inr ⟨by rw [admitted?, push, hr], rfl, .inl (hsame rfl rfl rfl)⟩
  | @accept payload priority outside hr =>
    obtain ⟨due, passes, hm⟩ := m.exists_accept_eq payload priority
    refine .inl ⟨⟨m.nextId, priority, payload⟩, by rw [admitted?, push, hr], rfl, ?_, rfl, ?_, ?_⟩
    all_goals rw [hm]
  | pass =>
    obtain ⟨workers, pending, hm, -⟩ := m.exists_pass_eq
    refine .inr ⟨rfl, by rw [hm], .inl ⟨?_, by rw [hm]⟩⟩
    cases hs : m.stopped with
    | true => simp [claimed, pass, hs]
    | false =>
      rw [claimed, hs, (pass_eq_offers hs).2]
      exact pending_eq_offered_append _
  | @leave i w t hw hs hl =>
    refine .inr ⟨rfl, rfl, .inl (hsame ?_ rfl rfl)⟩
    cases hp : m.pending <;> simp [claimed, goOn?, hw, hs, hl, hp]
  | @goOn i w t u ts hw hs hl hr hp =>
    refine .inr ⟨rfl, rfl, .inl ⟨?_, rfl⟩⟩
    simp [claimed, goOn?, hw, hs, hl, hr, hp]
  | @rest i w t hw hs hl hp =>
    refine .inr ⟨rfl, rfl, .inl (hsame ?_ rfl rfl)⟩
    rcases hp with hp | hp
    · cases hpending : m.pending <;> simp [claimed, goOn?, hw, hs, hp, hpending]
    · simp [claimed, goOn?, hw, hp]
  | stop => exact .inr ⟨rfl, rfl, .inr ⟨rfl, rfl, rfl⟩⟩
  | @startWorker i w =>
    obtain ⟨due, passes, hm⟩ := exists_schedule_eq
      (m.setWorker i { w with stopping := false, stopped := false })
    rw [hm]
    exact .inr ⟨rfl, rfl, .inl (hsame rfl rfl rfl)⟩
  | begin | operate | finish | notice | drain | stopWorker | stopNobody | startIdly | startNobody
  | look => exact .inr ⟨rfl, rfl, .inl (hsame rfl rfl rfl)⟩

theorem nextId_le_of_step {e : Event α} (h : Step m e m') : m.nextId ≤ m'.nextId := by
  rcases line_of_step h with ⟨-, -, -, hnext, -⟩ | ⟨-, hnext, -⟩
  · exact hnext ▸ Nat.le_succ _
  · exact hnext.ge

/-! ## The line is in order -/

/-- The line stands in the order of service, and whoever comes next is the youngest. -/
structure InOrder (m : Machine α) : Prop where
  sorted : m.pending.Pairwise Task.Ahead
  older : ∀ t ∈ m.pending, t.id < m.nextId

/-- The newest task finds its place in the line. -/
theorem pairwise_place {t : Task α} {ts : List (Task α)} (h : ts.Pairwise Task.Ahead)
    (hid : ∀ u ∈ ts, u.id < t.id) : (place t ts).Pairwise Task.Ahead := by
  induction ts with
  | nil => exact List.pairwise_singleton _ t
  | cons p ps ih =>
    obtain ⟨hp, hps⟩ := List.pairwise_cons.mp h
    rw [place]
    split
    · rename_i hlt
      -- It overtakes `p`, and all that `p` is ahead of.
      refine List.pairwise_cons.mpr ⟨fun u hu => ?_, h⟩
      rcases List.mem_cons.mp hu with rfl | hu
      · exact .inl hlt
      · exact .inl ((hp u hu).priority_le.trans_lt hlt)
    · rename_i hle
      refine List.pairwise_cons.mpr ⟨fun u hu => ?_, ih hps fun u hu =>
        hid u (List.mem_cons_of_mem p hu)⟩
      rcases List.mem_cons.mp ((place_perm t ps).mem_iff.mp hu) with rfl | hu
      · exact (not_lt.mp hle).lt_or_eq.imp id fun heq : u.priority = p.priority =>
          ⟨heq.symm, hid p List.mem_cons_self⟩
      · exact hp u hu

theorem InOrder.new (concurrency limit : Nat) : InOrder (new concurrency limit : Machine α) :=
  ⟨.nil, fun _ h => absurd h List.not_mem_nil⟩

/-- **Every step keeps the line in order.** -/
theorem InOrder.step {e : Event α} (h : InOrder m) (hs : Step m e m') : InOrder m' := by
  rcases line_of_step hs with ⟨t, -, hid, hnext, -, hp, -⟩ | ⟨-, hnext, ⟨hp, -⟩ | ⟨-, hp, -⟩⟩
  · refine ⟨?_, fun u hu => ?_⟩
    · rw [hp]
      exact pairwise_place h.sorted fun u hu => hid ▸ h.older u hu
    · rw [hp] at hu
      rw [hnext]
      rcases List.mem_cons.mp ((place_perm t m.pending).mem_iff.mp hu) with rfl | hu
      · exact hid ▸ Nat.lt_succ_self _
      · exact Nat.lt_succ_of_lt (h.older u hu)
  · have hsuffix : m'.pending <:+ m.pending := ⟨_, hp.symm⟩
    exact ⟨h.sorted.sublist hsuffix.sublist, fun t ht => hnext ▸ h.older t (hsuffix.mem ht)⟩
  · exact ⟨hp ▸ .nil, fun t ht => absurd (hp ▸ ht) List.not_mem_nil⟩

/-- Who is claimed is ahead of all that go on waiting. -/
theorem InOrder.ahead_of_mem_left (h : InOrder m) {e : Event α} {k : Claim α}
    (hk : k ∈ m.claimed e) {a : Task α} (ha : a ∈ k.left) : k.task.Ahead a :=
  (List.pairwise_cons.mp (h.sorted.sublist (suffix_of_mem_claimed hk).sublist)).1 a ha

/-- The claims of a step are in order, and ahead of all that wait after it. -/
theorem InOrder.pairwise_claimed (h : InOrder m) {e : Event α} (hs : Step m e m') :
    ((m.claimed e).map (·.task)).Pairwise Task.Ahead ∧
      ∀ k ∈ m.claimed e, ∀ a ∈ m'.pending, k.task.Ahead a := by
  have hnone (hc : m.claimed e = []) : ((m.claimed e).map (·.task)).Pairwise Task.Ahead ∧
      ∀ k ∈ m.claimed e, ∀ a ∈ m'.pending, k.task.Ahead a := by
    rw [hc]
    exact ⟨.nil, fun k hk => absurd hk List.not_mem_nil⟩
  rcases line_of_step hs with ⟨t, -, -, -, hc, -⟩ | ⟨-, -, ⟨hp, -⟩ | ⟨hc, -⟩⟩
  · exact hnone hc
  · obtain ⟨hclaims, -, hahead⟩ := List.pairwise_append.mp (hp ▸ h.sorted)
    exact ⟨hclaims, fun k hk a ha => hahead k.task (List.mem_map_of_mem hk) a ha⟩
  · exact hnone hc

/-! ## Along runs -/

/-- Whatever a run claims, one of its events does. -/
theorem exists_of_mem_claims (hr : m.run? es = some m') {k : Claim α} (hk : k ∈ m.claims es) :
    ∃ fs e gs n, es = fs ++ e :: gs ∧ m.run? fs = some n ∧ k ∈ n.claimed e := by
  induction es generalizing m with
  | nil => exact absurd hk List.not_mem_nil
  | cons e es ih =>
    obtain ⟨n, hs, hr⟩ := run?_cons_eq_some hr
    rw [claims_cons hs, List.mem_append] at hk
    rcases hk with hk | hk
    · exact ⟨[], e, es, m, rfl, rfl, hk⟩
    · obtain ⟨fs, f, gs, o, rfl, ho, hk⟩ := ih hr hk
      refine ⟨e :: fs, f, gs, o, rfl, ?_, hk⟩
      rw [run?_cons, step?_of_step hs]
      exact ho

/-- Whoever waits after a step waits before it, or is taken in by it. -/
theorem mem_pending_or_le_of_step {e : Event α} (hs : Step m e m') {t : Task α}
    (ht : t ∈ m'.pending) : t ∈ m.pending ∨ m.nextId ≤ t.id := by
  rcases line_of_step hs with ⟨u, -, hid, -, -, hp, -⟩ | ⟨-, -, ⟨hp, -⟩ | ⟨-, hp, -⟩⟩
  · rw [hp] at ht
    rcases List.mem_cons.mp ((place_perm u m.pending).mem_iff.mp ht) with rfl | ht
    · exact .inr hid.ge
    · exact .inl ht
  · exact .inl (by rw [hp]; exact List.mem_append_right _ ht)
  · exact absurd (hp ▸ ht) List.not_mem_nil

/-- Whoever waits after a run waits from its start on, or is taken in later. -/
theorem mem_pending_or_le_of_run (hr : m.run? es = some m') {t : Task α} (ht : t ∈ m'.pending) :
    t ∈ m.pending ∨ m.nextId ≤ t.id := by
  induction es generalizing m with
  | nil =>
    cases hr
    exact .inl ht
  | cons e es ih =>
    obtain ⟨n, hs, hr⟩ := run?_cons_eq_some hr
    rcases ih hr with hmem | hle
    · exact mem_pending_or_le_of_step hs hmem
    · exact .inr ((nextId_le_of_step hs).trans hle)

/-- **No claim of a run passes over a task that is ahead of it.** -/
theorem InOrder.ahead_of_mem_claims (h : InOrder m) (hr : m.run? es = some m') {k : Claim α}
    (hk : k ∈ m.claims es) {a : Task α} (ha : a ∈ k.left) : k.task.Ahead a := by
  obtain ⟨fs, e, gs, n, -, hn, hk⟩ := exists_of_mem_claims hr hk
  exact (run?_keeps (fun _ _ _ => InOrder.step) hn h).ahead_of_mem_left hk ha

/-- **Tasks of one priority are claimed in the order of their arrival.** -/
theorem InOrder.pairwise_claims (h : InOrder m) (hr : m.run? es = some m') :
    (m.claims es).Pairwise fun k l => k.task.priority = l.task.priority → k.task.id < l.task.id := by
  have hid {a b : Task α} (hab : a.Ahead b) (heq : a.priority = b.priority) : a.id < b.id :=
    (hab.resolve_left heq.not_gt).2
  induction es generalizing m with
  | nil => exact .nil
  | cons e es ih =>
    obtain ⟨n, hs, hr⟩ := run?_cons_eq_some hr
    obtain ⟨hclaims, hahead⟩ := h.pairwise_claimed hs
    rw [claims_cons hs]
    refine List.pairwise_append.mpr ⟨(List.pairwise_map.mp hclaims).imp hid, ih (h.step hs) hr,
      fun k hk l hl heq => ?_⟩
    -- Whoever is claimed later waits already, or comes in behind.
    obtain ⟨fs, e, gs, o, -, ho, hl⟩ := exists_of_mem_claims hr hl
    have hl := (suffix_of_mem_claimed hl).mem List.mem_cons_self
    rcases mem_pending_or_le_of_run ho hl with hmem | hle
    · exact hid (hahead k hk _ hmem) heq
    · have hmem := (suffix_of_mem_claimed hk).mem List.mem_cons_self
      exact (h.older _ hmem).trans_le ((nextId_le_of_step hs).trans hle)

/-- A claimed task was taken in. -/
theorem mem_admitted_of_mem_claims {ts : List (Task α)} (h : Ledger m ts)
    (hr : m.run? es = some m') {k : Claim α} (hk : k ∈ m.claims es) :
    k.task ∈ ts ++ m.admitted es := by
  obtain ⟨fs, e, gs, n, rfl, hn, hk⟩ := exists_of_mem_claims hr hk
  have hmem := (h.run hn).pending_sub _ ((suffix_of_mem_claimed hk).mem List.mem_cons_self)
  rw [admitted_append hn, ← List.append_assoc]
  exact List.mem_append_left _ hmem

/-- What a step takes in waits, is claimed, or is thrown away. -/
theorem perm_of_step {e : Event α} (hs : Step m e m') :
    (m'.pending.map (·.id) ++ (m.claimed e).map (·.task.id) ++ m'.discarded).Perm
      (m.pending.map (·.id) ++ m.discarded ++ (m.admitted? e).toList.map (·.id)) := by
  rcases line_of_step hs with ⟨t, ht, -, -, hc, hp, hd⟩ | ⟨ht, -, ⟨hp, hd⟩ | ⟨hc, hp, hd⟩⟩
  · rw [ht, hc, hp, hd, List.map_nil, List.append_nil]
    refine (((place_perm t m.pending).map _).append_right _).trans ?_
    exact (List.perm_append_singleton t.id _).symm
  · rw [ht, hp, hd, List.map_append, List.map_map]
    refine (List.perm_append_comm.append_right _).trans (List.Perm.of_eq ?_)
    exact (List.append_nil _).symm
  · rw [ht, hc, hp, hd]
    simpa using List.perm_append_comm

/-- What a run takes in waits, was claimed, or was thrown away. -/
theorem perm_of_run (hr : m.run? es = some m') :
    (m'.pending.map (·.id) ++ (m.claims es).map (·.task.id) ++ m'.discarded).Perm
      (m.pending.map (·.id) ++ m.discarded ++ (m.admitted es).map (·.id)) := by
  induction es generalizing m with
  | nil =>
    cases hr
    simp [claims, admitted]
  | cons e es ih =>
    obtain ⟨n, hs, hr⟩ := run?_cons_eq_some hr
    rw [claims_cons hs, admitted, step?_of_step hs]
    refine List.perm_iff_count.mpr fun id => ?_
    have hstep := (perm_of_step hs).count_eq id
    have hrun := (ih hr).count_eq id
    simp only [List.map_append, List.count_append] at hstep hrun ⊢
    omega

/-! ## Service in order -/

/-- The tasks that were claimed are those that workers have or have ended. -/
theorem perm_claims_of_run {concurrency limit : Nat} (h : (new concurrency limit).run? es = some m) :
    (((new concurrency limit).claims es).map (·.task.id)).Perm (m.held.map (·.id) ++ m.ended) := by
  have hl : Ledger m ((new concurrency limit).admitted es) := (Ledger.new concurrency limit).run h
  refine List.perm_iff_count.mpr fun id => ?_
  have hplaces := hl.places.count_eq id
  have hrun := (perm_of_run h).count_eq id
  rw [count_places] at hplaces
  simp only [new, List.map_nil, List.nil_append, List.count_append] at hplaces hrun ⊢
  omega

/-- **Tasks are served in order.**  Whatever happens to a queue, in whatever order: of two tasks
that it took in one is ahead of the other, and no task is taken off the line while one ahead of it
waits, neither by a dispatch pass nor by a worker that goes on; so the tasks of one priority are
claimed in the order of their arrival.  The claims miss nothing: what workers have or have ended is
what was claimed. -/
theorem served_in_order {concurrency limit : Nat} (h : (new concurrency limit).run? es = some m) :
    let tasks := (new concurrency limit).admitted es
    let claims := (new concurrency limit).claims es
    (∀ a ∈ tasks, ∀ b ∈ tasks, a ≠ b → a.Ahead b ∨ b.Ahead a) ∧
    (∀ k ∈ claims, k.task ∈ tasks ∧ ∀ a ∈ tasks, a.Ahead k.task → a ∉ k.left) ∧
    claims.Pairwise (fun k l => k.task.priority = l.task.priority → k.task.id < l.task.id) ∧
    (claims.map (·.task.id)).Perm (m.held.map (·.id) ++ m.ended) := by
  intro tasks claims
  have hl : Ledger m tasks := (Ledger.new concurrency limit).run h
  have ho : InOrder (new concurrency limit : Machine α) := .new concurrency limit
  refine ⟨fun a ha b hb hne => ?_, fun k hk => ⟨?_, fun a _ hahead hleft => ?_⟩,
    ho.pairwise_claims h, perm_claims_of_run h⟩
  · exact Task.ahead_or_ahead fun hid => hne (hl.eq_of_id_eq ha hb hid)
  · exact mem_admitted_of_mem_claims (Ledger.new concurrency limit) h hk
  · exact (ho.ahead_of_mem_claims h hk hleft).asymm hahead

/-- One worker takes the second task in a pass, and the fourth when it has ended that; a task pushed
in between waits behind the first. -/
theorem served_in_order_two_priorities :
    let es : List (Event String) := [.push "a" 0 false, .push "b" 5 false, .push "c" 0 false,
      .push "d" 5 false, .pass, .begin 0, .push "e" 0 false, .operate 2 .give, .finish 0, .turn 0]
    ∃ m, (new 1 10).run? es = some m ∧
      ((new 1 10).claims es).map (·.task.payload) = ["b", "d"] ∧
      ∀ k ∈ (new 1 10).claims es, ∀ a ∈ (new 1 10).admitted es, a.Ahead k.task → a ∉ k.left := by
  intro es
  have hrun : (new 1 10).run? es = some _ := rfl
  exact ⟨_, hrun, rfl, fun k hk => ((served_in_order hrun).2.1 k hk).2⟩

end Machine

end DeviceStats.Queue
