import DeviceStats.Proofs.Property.Finite
import DeviceStats.Request

/-!
# Proofs/Property/Requests — which requests have one key

Properties whose requests have one key share one response.  The key of a request is its endpoint, or
its endpoint and the text of its arguments behind a question mark.  That text tells the arguments
apart, and an endpoint cannot end within it, so requests that both have arguments, or both have
none, have one key only if they are the same.  But an endpoint may be written like another request
with its arguments (`Request.PosesAs`), and nothing else goes wrong (`Request.key_eq_key_iff`).
Arguments are finite values, as are all that a declaration's text can hold.
-/

namespace DeviceStats

open Json (Value)
open Json.Value (fieldsFinite paired_chars)

namespace Request

/-- Whether a request without arguments names an endpoint that is written like another request with
its arguments. -/
def PosesAs (r s : Request) : Prop :=
  r.args? = none ∧ ∃ args, s.args? = some args ∧ r.endpoint = s.endpoint ++ "?" ++ args.text

theorem PosesAs.key_eq {r s : Request} (h : r.PosesAs s) : r.key = s.key := by
  obtain ⟨hnone, args, hargs, hendpoint⟩ := h
  rw [key, key, hnone, hargs, hendpoint]

/-- Arguments do not go on with others. -/
theorem eq_nil_of_append_eq {more : List Char} {v w : Value} (hv : v.isFinite = true)
    (hw : w.isFinite = true) (h : '?' :: v.chars = more ++ '?' :: w.chars) : more = [] := by
  cases more with
  | nil => rfl
  | cons c more =>
    have hpaired := paired_chars v hv
    rw [(List.cons.inj h).2] at hpaired
    exact absurd hpaired (Json.not_paired_of_question (paired_chars w hw) more)

/-- **Endpoint and arguments are read off what is written of them.** -/
theorem eq_of_append_eq {e e' : List Char} {v w : Value} (hv : v.isFinite = true)
    (hw : w.isFinite = true) (h : e ++ '?' :: v.chars = e' ++ '?' :: w.chars) :
    e = e' ∧ v.chars = w.chars := by
  have hend : e = e' := by
    rcases List.append_eq_append_iff.mp h with ⟨more, he, hmore⟩ | ⟨more, he, hmore⟩
    · rw [he, eq_nil_of_append_eq hv hw hmore, List.append_nil]
    · rw [he, eq_nil_of_append_eq hw hv hmore, List.append_nil]
  subst hend
  exact ⟨rfl, (List.cons.inj (List.append_cancel_left h)).2⟩

/-- **Requests have one key only if they are the same**, or if one names an endpoint that is written
like the other. -/
theorem key_eq_key_iff {r s : Request} (hr : ∀ args ∈ r.args?, args.isFinite = true)
    (hs : ∀ args ∈ s.args?, args.isFinite = true) :
    r.key = s.key ↔ r = s ∨ r.PosesAs s ∨ s.PosesAs r := by
  obtain ⟨e, args?⟩ := r
  obtain ⟨e', args'?⟩ := s
  constructor
  · intro h
    cases args? with
    | none => cases args'? with
      | none => exact .inl (congrArg (Request.mk · none) h)
      | some w => exact .inr (.inl ⟨rfl, w, rfl, h⟩)
    | some v => cases args'? with
      | none => exact .inr (.inr ⟨rfl, v, rfl, h.symm⟩)
      | some w =>
        have hv := hr v rfl
        have hw := hs w rfl
        have hlist : e.toList ++ '?' :: v.chars = e'.toList ++ '?' :: w.chars := by
          simpa [key, Value.text] using congrArg String.toList h
        obtain ⟨hend, hargs⟩ := eq_of_append_eq hv hw hlist
        have hvw : v = w := Value.text_inj hv hw (congrArg String.ofList hargs)
        exact .inl (by rw [String.toList_inj.mp hend, hvw])
  · rintro (h | h | h)
    · exact congrArg key h
    · exact h.key_eq
    · exact h.key_eq.symm

end Request

namespace Declaration

/-- **Responses are shared between the same requests**, and between one without arguments and one
that its endpoint is written like: exactly then two compiled properties have requests with one key,
whatever their endpoints and arguments are. -/
theorem shared_requests {d : Declaration} {facts : Facts} (hd : fieldsFinite d.stats = true)
    {p q : Property} (hp : p ∈ d.properties facts) (hq : q ∈ d.properties facts) :
    (Request.ofProperty p).key = (Request.ofProperty q).key ↔
      (p.endpoint = q.endpoint ∧ p.descriptor.keyArgs? = q.descriptor.keyArgs?) ∨
        (Request.ofProperty p).PosesAs (Request.ofProperty q) ∨
          (Request.ofProperty q).PosesAs (Request.ofProperty p) := by
  have hkey := Request.key_eq_key_iff (r := Request.ofProperty p) (s := Request.ofProperty q)
    (argsFinite_of_mem hd hp) (argsFinite_of_mem hd hq)
  rwa [Request.ofProperty, Request.ofProperty, Request.mk.injEq] at hkey

/-- Two properties with one endpoint, which read different parts of one answer. -/
theorem shared_requests_two_parts :
    let request (key : String) : Value := .obj [("key", .str key), ("keyArgs", .obj [("a", .int 1)])]
    let d : Declaration := { stats := [("m", request "x::m"), ("n", request "x::n")] }
    ∃ p q, d.properties ⟨[]⟩ = [p, q] ∧ (Request.ofProperty p).key = (Request.ofProperty q).key ∧
      p.endpoint = q.endpoint ∧ p.descriptor.keyArgs? = q.descriptor.keyArgs? := by
  intro request d
  obtain ⟨p, q, hpq⟩ : ∃ p q, d.properties ⟨[]⟩ = [p, q] :=
    List.length_eq_two.mp (by decide +kernel)
  have hparts : (d.properties ⟨[]⟩).map (fun p => ((Request.ofProperty p).key,
      (Request.ofProperty p).args?.isSome)) =
        [("x?\x7b\"a\":1\x7d", true), ("x?\x7b\"a\":1\x7d", true)] := by
    decide +kernel
  simp only [hpq, List.map_cons, List.map_nil, List.cons.injEq, Prod.mk.injEq] at hparts
  obtain ⟨⟨hpkey, hpargs⟩, ⟨hqkey, hqargs⟩, -⟩ := hparts
  have hkey := hpkey.trans hqkey.symm
  have hp : p ∈ d.properties ⟨[]⟩ := by simp [hpq]
  have hq : q ∈ d.properties ⟨[]⟩ := by simp [hpq]
  refine ⟨p, q, hpq, hkey, ?_⟩
  rcases (shared_requests (by decide) hp hq).mp hkey with h | h | h
  · exact h
  · simp [h.1] at hpargs
  · simp [h.1] at hqargs

/-- **An endpoint may be written like another with its arguments**: `x?1` is asked for itself, and
`x` with the argument `1`. -/
theorem not_shared_only_between_same : ¬ ∀ (d : Declaration) (facts : Facts) (p q : Property),
    fieldsFinite d.stats = true → p ∈ d.properties facts → q ∈ d.properties facts →
    (Request.ofProperty p).key = (Request.ofProperty q).key →
    p.endpoint = q.endpoint ∧ p.descriptor.keyArgs? = q.descriptor.keyArgs? := by
  let d : Declaration := { stats := [("b", .obj [("key", .str "x"), ("keyArgs", .int 1)]),
    ("a", .obj [("key", .str "x?1")])] }
  obtain ⟨p, q, hpq⟩ : ∃ p q, d.properties ⟨[]⟩ = [p, q] :=
    List.length_eq_two.mp (by decide +kernel)
  have hparts : (d.properties ⟨[]⟩).map (fun p => ((Request.ofProperty p).key, p.endpoint)) =
      [("x?1", "x"), ("x?1", "x?1")] := by
    decide +kernel
  simp only [hpq, List.map_cons, List.map_nil, List.cons.injEq, Prod.mk.injEq] at hparts
  obtain ⟨⟨hpkey, hpend⟩, ⟨hqkey, hqend⟩, -⟩ := hparts
  intro hall
  have hends := (hall d ⟨[]⟩ p q (by decide) (by simp [hpq]) (by simp [hpq])
    (hpkey.trans hqkey.symm)).1
  rw [hpend, hqend] at hends
  exact absurd hends (by decide)

end Declaration

end DeviceStats
