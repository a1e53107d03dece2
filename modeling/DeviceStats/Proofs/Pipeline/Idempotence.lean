import DeviceStats.Proofs.Pipeline.Reduced
import DeviceStats.Proofs.Step.Fixpoint

/-!
# Proofs/Pipeline/Idempotence — a value that is normalized again

A pipeline that filters, formats and tags runs its steps on the response as it came and then reduces
it.  Normalizing the value again runs the steps on the reduced value, which is the same again if the
steps leave each other's work alone and see through the reduction, and if the reduction leaves
nothing to be reduced (`normalize_normalize`).  Otherwise it need not be (`not_normalize_normalize`).
-/

namespace DeviceStats.Pipeline

open Json (Value Object Descent Distinct)
open Reduction (bare IsPlain)

variable {p : Pipeline} {steps : List Step} {v w : Value}

theorem runSteps_eq (hkey : p.childKey? = none) (hsteps : ∀ s ∈ steps, s.amends = true)
    (v : Value) : runSteps p false steps v = .ok (bare (Step.run p.defaults steps v)) := by
  induction steps generalizing v with
  | nil =>
    rw [runSteps, hkey]
    simp only [Reduction.apply, Reduction.reduce_eq]
    rfl
  | cons s steps ih =>
    obtain ⟨hs, hsteps⟩ := List.forall_mem_cons.mp hsteps
    have hreduces : s.reduces = false := by
      cases s with
      | filterKeys | formatTimestamps | addKeysByTag => rfl
      | renameKeys | runFunctions | convertArrayToMap | includeFirstEntry => cases hs
    rw [runSteps, Step.apply_eq_effect p.defaults hs]
    simp only [bind, Except.bind, hreduces, Bool.false_and, Bool.false_eq_true, if_false]
    exact ih hsteps _

theorem foldlM_apply_eq (hsteps : ∀ s ∈ steps, s.amends = true) (defaults : TagDefaults)
    (v : Value) : steps.foldlM (fun v s => s.apply defaults v) v =
      .ok (Step.run defaults steps v) := by
  induction steps generalizing v with
  | nil => rfl
  | cons s steps ih =>
    obtain ⟨hs, hsteps⟩ := List.forall_mem_cons.mp hsteps
    rw [List.foldlM_cons, Step.apply_eq_effect defaults hs]
    exact ih hsteps _

theorem normalize_eq (hkey : p.childKey? = none) (hstages : p.stages = .steps steps)
    (hsteps : ∀ s ∈ steps, s.amends = true) (v : Value) :
    p.normalize v = .ok (bare (Step.run p.defaults steps v)) := by
  rw [normalize, hstages]
  exact runSteps_eq hkey hsteps v

/-- Nothing is left for the steps to do when `raw`, which they have made `v`, is reduced. -/
structure Undisturbed (defaults : TagDefaults) (steps : List Step) (raw v : Value) : Prop where
  /-- Names are distinct, in the response and in tags. -/
  distinct : raw.Each {} Distinct
  tags : ∀ s ∈ steps, ∀ t ∈ s.tagging?, (Value.obj (t.tagsIn defaults)).Each {} Distinct
  /-- Steps leave their subjects alone and what those before them have done. -/
  apart : ∀ s ∈ steps, s.Apart defaults
  later : steps.Pairwise (Step.Respects defaults)
  /-- Steps find in the reduced value what they have left. -/
  through : ∀ s ∈ steps, s.SeesThrough defaults v
  /-- The reduced value is reduced. -/
  reduced : v.Each {} Reduction.Open

/-- If there is nothing to reduce, it is enough that steps leave each other's work alone. -/
theorem Undisturbed.of_plain {defaults : TagDefaults} {raw : Value}
    (hraw : raw.Each {} Distinct)
    (htags : ∀ s ∈ steps, ∀ t ∈ s.tagging?, (Value.obj (t.tagsIn defaults)).Each {} Distinct)
    (hapart : ∀ s ∈ steps, s.Apart defaults) (hlater : steps.Pairwise (Step.Respects defaults))
    (hv : (Step.run defaults steps raw).Each {} IsPlain) :
    Undisturbed defaults steps raw (Step.run defaults steps raw) where
  distinct := hraw
  tags := htags
  apart := hapart
  later := hlater
  through s _ := Step.seesThrough_of_plain (Step.each_distinct_run hraw htags) hv s
  reduced := Step.each_open_of_plain hv

/-- **Normalizing without options of the structure succeeds**, and to normalize the value again
changes nothing, if nothing in it is left to be done. -/
theorem normalize_normalize (hkey : p.childKey? = none) (hstages : p.stages = .steps steps)
    (hsteps : ∀ s ∈ steps, s.amends = true) (raw : Value) :
    ∃ v w, steps.foldlM (fun v s => s.apply p.defaults v) raw = .ok v ∧ p.normalize raw = .ok w ∧
      (Undisturbed p.defaults steps raw v → p.normalize w = .ok w) := by
  have hnormalize := normalize_eq hkey hstages hsteps
  refine ⟨_, _, foldlM_apply_eq hsteps p.defaults raw, hnormalize raw, fun h => ?_⟩
  set v := Step.run p.defaults steps raw with hv
  have hn : v.Each {} Distinct := Step.each_distinct_run h.distinct h.tags
  have hsettled : ∀ s ∈ steps, s.Settled p.defaults (bare v) := fun s hs =>
    (Step.settled_run h.apart h.later s hs).bare (h.through s hs) hn
  rw [hnormalize, Step.run_eq_self hsettled, Reduction.bare_bare hn h.reduced]

/-- A server whose entry is filtered, formatted and tagged, and whose address is shortened then. -/
theorem normalize_normalize_one_server :
    let steps : List Step := [.filterKeys (.drop ["kind"]), .formatTimestamps ["since"],
      .addKeysByTag (.flag true)]
    let p : Pipeline := ⟨none, .steps steps, { tags := [("site", .str "north")] }⟩
    let raw : Value := .obj [("entries", .obj [("http://host/vs1/stats",
      .obj [("kind", .str "k"), ("since", .int 1)])])]
    p.childKey? = none ∧ p.stages = .steps steps ∧ (∀ s ∈ steps, s.amends = true) ∧
      (∃ v, steps.foldlM (fun v s => s.apply p.defaults v) raw = .ok v ∧
        Undisturbed p.defaults steps raw v) ∧
      ∃ w, p.normalize raw = .ok w ∧ p.normalize w = .ok w := by
  intro steps p raw
  have hsteps : ∀ s ∈ steps, s.amends = true := by decide
  obtain ⟨v, w, hv, hw, hagain⟩ := normalize_normalize (p := p) rfl rfl hsteps raw
  obtain rfl := Except.ok.inj ((foldlM_apply_eq hsteps p.defaults raw).symm.trans hv)
  have hspares (s : Step)
      (h : s.effect p.defaults (.obj [("site", .str "north")]) = .obj [("site", .str "north")]) :
      s.Spares p.defaults (.addKeysByTag (.flag true)) := by
    rintro _ ⟨⟩ k w ⟨tag, htag, subject, rfl, hw⟩
    obtain rfl := List.mem_singleton.mp htag
    obtain rfl := Option.some.inj hw
    exact h
  have hfilter : (Step.filterKeys (.drop ["kind"])).Spares p.defaults (.addKeysByTag (.flag true)) :=
    hspares _ (KeyFilter.without_eq_self (by decide +kernel))
  have hformat : (Step.formatTimestamps ["since"]).Spares p.defaults (.addKeysByTag (.flag true)) :=
    hspares _ (Timestamps.apply_eq_self (Value.each_obj.mpr ⟨by simp [Timestamps.InForm],
      List.forall_mem_singleton.mpr fun _ => Value.each_scalar rfl rfl⟩))
  have hundisturbed : Undisturbed p.defaults steps raw (Step.run p.defaults steps raw) :=
    { distinct := by decide +kernel
      tags := by
        rw [List.forall_mem_cons, List.forall_mem_cons, List.forall_mem_singleton]
        refine ⟨nofun, nofun, ?_⟩
        rintro _ ⟨⟩
        decide +kernel
      apart := by
        rw [List.forall_mem_cons, List.forall_mem_cons, List.forall_mem_singleton]
        refine ⟨nofun, nofun, ?_⟩
        rintro _ ⟨⟩ f ⟨⟩
      later := by
        rw [List.pairwise_cons, List.pairwise_cons, List.pairwise_cons, List.forall_mem_cons,
          List.forall_mem_singleton, List.forall_mem_singleton]
        exact ⟨⟨Step.respects_of_tagging?_eq_none _ rfl rfl, fun _ => hfilter, nofun⟩,
          ⟨fun _ => hformat, nofun⟩, nofun, .nil⟩
      through := by
        rw [List.forall_mem_cons, List.forall_mem_cons, List.forall_mem_singleton]
        refine ⟨?_, ?_, ?_⟩
        · rw [Step.SeesThrough]
          decide +kernel
        · rw [Step.SeesThrough]
          decide +kernel
        · rintro _ ⟨⟩
          exact .inr ⟨List.forall_mem_singleton.mpr fun _ => rfl, by decide +kernel, by decide +kernel⟩
      reduced := by decide +kernel }
  exact ⟨rfl, rfl, hsteps, ⟨_, hv, hundisturbed⟩, w, hw, hagain hundisturbed⟩

/-- A moment in a wrapper is only written when the wrapper is gone. -/
example :
    let once := bare (Step.run {} [.formatTimestamps ["since"]]
      (.obj [("entries", .obj [("since", .obj [("value", .str "1")])])]))
    let twice := bare (Step.run {} [.formatTimestamps ["since"]] once)
    (once.get? "since").bind Value.str? = some "1" ∧
      (twice.get? "since").bind Value.str? = some "1970-01-01T00:00:01.000Z" := by
  decide +kernel

/-- The object of a collection's entries can look like a wrapped value, which is taken out the second
time only. -/
theorem not_normalize_normalize :
    ¬ ∀ (p : Pipeline) (steps : List Step) (raw w : Value), p.childKey? = none →
      p.stages = .steps steps → (∀ s ∈ steps, s.amends = true) → raw.Each {} Distinct →
      p.normalize raw = .ok w → p.normalize w = .ok w := by
  intro h
  let steps : List Step := [.filterKeys (.drop ["kind"])]
  let raw : Value := .obj [("kind", .str "k"), ("entries", .obj [("value",
    .obj [("value", .int 5)])])]
  let w := bare (Step.run {} steps raw)
  have hsteps : ∀ s ∈ steps, s.amends = true := by decide
  have hagain := h ⟨none, .steps steps, {}⟩ steps raw w rfl rfl hsteps (by decide +kernel)
    (normalize_eq rfl rfl hsteps raw)
  rw [normalize_eq rfl rfl hsteps] at hagain
  have hscalar : (bare (Step.run {} steps w)).obj?.isSome = false := by decide +kernel
  have hobject : w.obj?.isSome = true := by decide +kernel
  rw [Except.ok.inj hagain, hobject] at hscalar
  cases hscalar

end DeviceStats.Pipeline
