import DeviceStats.Proofs.Match.Paths

/-!
# Proofs/Match/Visits — where a walk comes by

A walk comes by every node that it reaches through keys of the locations, on every level
(`Visits`).  Which nodes these are depends on the names in the tree alone, not on what else its
nodes hold (`Visits.alike`).
-/

namespace DeviceStats.Match

open Json (Value)

variable {α : Type} [Tree α]

/-! ## Trees with the same names -/

/-- Two trees with the same names in the same places. -/
def Alike (t t' : α) : Prop := ∀ p, (Tree.at? t p).map Tree.keys = (Tree.at? t' p).map Tree.keys

namespace Alike

variable {t t' t'' : α}

theorem refl (t : α) : Alike t t := fun _ => rfl

theorem symm (h : Alike t t') : Alike t' t := fun p => (h p).symm

theorem trans (h : Alike t t') (h' : Alike t' t'') : Alike t t'' := fun p => (h p).trans (h' p)

theorem keys_eq (h : Alike t t') : Tree.keys t = Tree.keys t' := Option.some.inj (h [])

/-- A node of one tree has its like in the other. -/
theorem exists_at? (h : Alike t t') {p : List String} {x : α} (hx : Tree.at? t p = some x) :
    ∃ x', Tree.at? t' p = some x' ∧ Alike x x' := by
  have hp := h p
  rw [hx] at hp
  obtain ⟨x', hx', -⟩ := Option.map_eq_some_iff.mp hp.symm
  refine ⟨x', hx', fun q => ?_⟩
  have hq := h (p ++ q)
  rwa [Tree.at?_append, Tree.at?_append, hx, hx'] at hq

/-- Alike trees have alike children. -/
theorem exists_child? (h : Alike t t') {k : String} {c : α} (hc : Tree.child? t k = some c) :
    ∃ c', Tree.child? t' k = some c' ∧ Alike c c' := by
  rw [← Tree.at?_singleton] at hc
  obtain ⟨c', hc', halike⟩ := h.exists_at? hc
  exact ⟨c', Tree.at?_singleton t' k ▸ hc', halike⟩

end Alike

/-! ## Visits -/

/-- A walk through a tree comes by the node at the end of a path. -/
inductive Visits : α → List (String × Value) → List String → Prop
  | here {t : α} {fields : List (String × Value)} {e : String × Value} {k : String}
    (he : e ∈ fields) (hk : k ∈ matchingKeys t e.1) : Visits t fields [k]
  | deeper {t : α} {fields : List (String × Value)} {e : String × Value} {k : String}
    {sub : List (String × Value)} {c : α} {p : List String} (he : e ∈ fields)
    (hk : k ∈ matchingKeys t e.1) (hsub : e.2 = .obj sub) (hc : Tree.child? t k = some c)
    (hp : Visits c sub p) : Visits t fields (k :: p)

namespace Visits

variable {t t' c : α} {fields sub : List (String × Value)} {e : String × Value} {k : String}
  {p : List String}

/-- A walk visits the same places in every tree with the same names. -/
theorem alike (h : Visits t fields p) (halike : Alike t t') : Visits t' fields p := by
  induction h generalizing t' with
  | here he hk => exact .here he (matchingKeys_congr halike.keys_eq _ ▸ hk)
  | deeper he hk hsub hc _ ih =>
    obtain ⟨c', hc', hchild⟩ := halike.exists_child? hc
    exact .deeper he (matchingKeys_congr halike.keys_eq _ ▸ hk) hsub hc' (ih hchild)

/-- A walk comes by nodes only. -/
theorem isSome_at? (h : Visits t fields p) : (Tree.at? t p).isSome = true := by
  induction h with
  | here _ hk =>
    obtain ⟨c, hc⟩ := exists_child?_of_mem_matchingKeys hk
    rw [Tree.at?_singleton, hc]
    rfl
  | deeper _ _ _ hc _ ih =>
    rw [Tree.at?_cons, hc]
    exact ih

/-- A walk comes by nothing below a node without names. -/
theorem not_of_keys_eq_nil (h : Tree.keys t = []) : ¬ Visits t fields p := by
  intro hvisits
  obtain ⟨-, hk⟩ | ⟨-, hk, -, -, -⟩ := hvisits <;>
    exact absurd hk (matchingKeys_eq_nil h _ ▸ List.not_mem_nil)

/-- The visits of one field of locations, then those of the others. -/
theorem cons_iff {key : String} {v : Value} : Visits t ((key, v) :: fields) p ↔
    (∃ k ∈ matchingKeys t key, p = [k] ∨ ∃ sub c q, v = .obj sub ∧ Tree.child? t k = some c ∧
      Visits c sub q ∧ p = k :: q) ∨ Visits t fields p := by
  constructor
  · intro h
    cases h with
    | here he hk =>
      obtain rfl | he := List.mem_cons.mp he
      · exact .inl ⟨_, hk, .inl rfl⟩
      · exact .inr (.here he hk)
    | deeper he hk hsub hc hp =>
      obtain rfl | he := List.mem_cons.mp he
      · exact .inl ⟨_, hk, .inr ⟨_, _, _, hsub, hc, hp, rfl⟩⟩
      · exact .inr (.deeper he hk hsub hc hp)
  · rintro (⟨k, hk, rfl | ⟨sub, c, q, hsub, hc, hq, rfl⟩⟩ | h)
    · exact .here List.mem_cons_self hk
    · exact .deeper List.mem_cons_self hk hsub hc hq
    · cases h with
      | here he hk => exact .here (List.mem_cons_of_mem _ he) hk
      | deeper he hk hsub hc hp => exact .deeper (List.mem_cons_of_mem _ he) hk hsub hc hp

end Visits

end DeviceStats.Match
