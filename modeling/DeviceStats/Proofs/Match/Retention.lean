import DeviceStats.Action
import DeviceStats.Proofs.Match.Addressed
import DeviceStats.Proofs.Match.Pointwise

/-!
# Proofs/Match/Retention — what an inclusion leaves

An inclusion is meant to leave what its locations address, with what lies above and below.  It
leaves nothing else, in the order it was in and leaves as they were.  It leaves all of that where no
branch is shared (`retention`): the keys that go through a branch prune it one after the other, so
that a second key takes out what the first one has retained (`not_retention`).
-/

namespace DeviceStats.Match

open Json (Value Object)

variable {α : Type} [Tree α]

/-! ## What locations lead to -/

/-- Locations lead to the end of a path through a tree. -/
inductive Leads : α → List (String × Value) → List String → Prop
  | ends {t : α} {fields : List (String × Value)} {e : String × Value} {k : String}
    (he : e ∈ fields) (hk : k ∈ matchingKeys t e.1) (hend : ∀ sub, e.2 ≠ .obj sub) :
    Leads t fields [k]
  | deeper {t : α} {fields : List (String × Value)} {e : String × Value} {k : String}
    {sub : List (String × Value)} {c : α} {q : List String} (he : e ∈ fields)
    (hk : k ∈ matchingKeys t e.1) (hsub : e.2 = .obj sub) (hc : Tree.child? t k = some c)
    (hq : Leads c sub q) : Leads t fields (k :: q)

section Leads

variable {t c : α} {fields : List (String × Value)} {e : String × Value} {k : String}
  {p q : List String}

theorem Leads.not_of_keys_eq_nil (h : Tree.keys t = []) : ¬ Leads t fields q := by
  intro hleads
  obtain ⟨-, hk, -⟩ | ⟨-, hk, -, -, -⟩ := hleads <;>
    exact absurd hk (matchingKeys_eq_nil h _ ▸ List.not_mem_nil)

theorem Leads.exists_cons (h : Leads t fields q) :
    ∃ k q' c, q = k :: q' ∧ Tree.child? t k = some c := by
  cases h with
  | ends _ hk =>
    obtain ⟨c, hc⟩ := exists_child?_of_mem_matchingKeys hk
    exact ⟨_, [], c, rfl, hc⟩
  | deeper _ _ _ hc _ => exact ⟨_, _, _, rfl, hc⟩

/-- Where the first field of locations leads to, then the others. -/
theorem leads_cons_iff {key : String} {v : Value} : Leads t ((key, v) :: fields) q ↔
    (∃ k ∈ matchingKeys t key, (∀ sub, v ≠ .obj sub) ∧ q = [k] ∨ ∃ sub c q', v = .obj sub ∧
      Tree.child? t k = some c ∧ Leads c sub q' ∧ q = k :: q') ∨ Leads t fields q := by
  constructor
  · intro h
    cases h with
    | ends he hk hend =>
      obtain rfl | he := List.mem_cons.mp he
      · exact .inl ⟨_, hk, .inl ⟨hend, rfl⟩⟩
      · exact .inr (.ends he hk hend)
    | deeper he hk hsub hc hq =>
      obtain rfl | he := List.mem_cons.mp he
      · exact .inl ⟨_, hk, .inr ⟨_, _, _, hsub, hc, hq, rfl⟩⟩
      · exact .inr (.deeper he hk hsub hc hq)
  · rintro (⟨k, hk, ⟨hend, rfl⟩ | ⟨sub, c, q', hsub, hc, hq, rfl⟩⟩ | h)
    · exact .ends List.mem_cons_self hk hend
    · exact .deeper List.mem_cons_self hk hsub hc hq
    · cases h with
      | ends he hk hend => exact .ends (List.mem_cons_of_mem _ he) hk hend
      | deeper he hk hsub hc hq => exact .deeper (List.mem_cons_of_mem _ he) hk hsub hc hq

theorem Found.full_eq_append_singleton_iff {f : Found} {path : List String} :
    f.full = path ++ [k] ↔ f = ⟨path, k⟩ := by
  obtain ⟨p, j⟩ := f
  simp [Found.full]

/-- What the first field of locations addresses, then what the others do. -/
theorem mem_addressedFields_cons_iff {f : Found} {path : List String} {key : String} {v : Value} :
    f ∈ addressedFields path ((key, v) :: fields) t ↔
      (∃ k ∈ matchingKeys t key, (∀ sub, v ≠ .obj sub) ∧ f = ⟨path, k⟩ ∨ ∃ sub c, v = .obj sub ∧
        Tree.child? t k = some c ∧ f ∈ addressedFields (path ++ [k]) sub c) ∨
      f ∈ addressedFields path fields t := by
  rw [addressedFields_cons, List.mem_append, List.mem_flatMap]
  refine or_congr_left (exists_congr fun k => and_congr_right fun hk => ?_)
  obtain ⟨c, hc⟩ := exists_child?_of_mem_matchingKeys hk
  cases v with
  | obj sub => simp [hc, ite_isBranch_addressedFields]
  | _ => simp

/-- **Locations address the ends of the paths that they lead to.** -/
theorem mem_addressedFields_iff {f : Found} : ∀ (fields : List (String × Value))
    {path : List String} {t : α},
    f ∈ addressedFields path fields t ↔ ∃ q, Leads t fields q ∧ f.full = path ++ q
  | [], path, t => by
    rw [addressedFields]
    refine iff_of_false List.not_mem_nil ?_
    rintro ⟨q, hq, -⟩
    cases hq with
    | ends he => exact absurd he List.not_mem_nil
    | deeper he => exact absurd he List.not_mem_nil
  | (key, v) :: rest, path, t => by
    rw [mem_addressedFields_cons_iff, mem_addressedFields_iff rest]
    simp only [leads_cons_iff, or_and_right, exists_or]
    refine or_congr_left ⟨?_, ?_⟩
    · rintro ⟨k, hk, ⟨hend, hf⟩ | ⟨sub, c, hsub, hc, hf⟩⟩
      · exact ⟨[k], ⟨k, hk, .inl ⟨hend, rfl⟩⟩, Found.full_eq_append_singleton_iff.mpr hf⟩
      · cases hsub
        obtain ⟨q, hq, hfull⟩ := (mem_addressedFields_iff sub).mp hf
        rw [List.append_assoc] at hfull
        exact ⟨k :: q, ⟨k, hk, .inr ⟨sub, c, q, rfl, hc, hq, rfl⟩⟩, hfull⟩
    · rintro ⟨q, ⟨k, hk, ⟨hend, rfl⟩ | ⟨sub, c, q, hsub, hc, hq, rfl⟩⟩, hfull⟩
      · exact ⟨k, hk, .inl ⟨hend, Found.full_eq_append_singleton_iff.mp hfull⟩⟩
      · cases hsub
        refine ⟨k, hk, .inr ⟨sub, c, rfl, hc, (mem_addressedFields_iff sub).mpr ⟨q, hq, ?_⟩⟩⟩
        rw [hfull, List.append_assoc]
        rfl

/-- **What is found in a tree is what the locations lead to.** -/
theorem mem_deep_iff {f : Found} : f ∈ deep t (.obj fields) ↔ Leads t fields f.full := by
  rw [deep, List.mem_eraseDups, addressed, mem_addressedFields_iff]
  simp

end Leads

/-- Whether a path is that of what locations address, or one above or below it. -/
def Touches (t : α) (fields : List (String × Value)) (p : List String) : Prop :=
  ∃ f ∈ deep t (.obj fields), p <+: f.full ∨ f.full <+: p

instance (t : α) (fields : List (String × Value)) (p : List String) :
    Decidable (Touches t fields p) :=
  inferInstanceAs (Decidable (∃ f ∈ deep t (.obj fields), p <+: f.full ∨ f.full <+: p))

section Touches

variable {t c : α} {fields : List (String × Value)} {k : String} {p : List String}

theorem touches_iff : Touches t fields p ↔ ∃ q, Leads t fields q ∧ (p <+: q ∨ q <+: p) := by
  constructor
  · rintro ⟨f, hf, hp⟩
    exact ⟨f.full, mem_deep_iff.mp hf, hp⟩
  · rintro ⟨q, hq, hp⟩
    obtain ⟨k, q', -, rfl, -⟩ := hq.exists_cons
    have hfull : Found.full ⟨(k :: q').dropLast, (k :: q').getLast (List.cons_ne_nil k q')⟩ =
        k :: q' := List.dropLast_append_getLast _
    refine ⟨_, mem_deep_iff.mpr (hfull.symm ▸ hq), ?_⟩
    rwa [hfull]

theorem Touches.exists_leads (h : Touches t fields p) : ∃ q, Leads t fields q := by
  obtain ⟨q, hq, -⟩ := touches_iff.mp h
  exact ⟨q, hq⟩

/-- **What touches a child touches it through a field that stands for it.** -/
theorem touches_cons_iff : Touches t fields (k :: p) ↔ ∃ e ∈ fields, k ∈ matchingKeys t e.1 ∧
    ∀ sub, e.2 = .obj sub → ∃ c, Tree.child? t k = some c ∧ Touches c sub p := by
  rw [touches_iff]
  constructor
  · rintro ⟨q, hq, hp⟩
    cases hq with
    | @ends _ _ e j he hj hend =>
      obtain rfl : k = j := by
        obtain hp | hp := hp
        · exact (List.cons_prefix_cons.mp hp).1
        · exact (List.cons_prefix_cons.mp hp).1.symm
      exact ⟨e, he, hj, fun sub hsub => absurd hsub (hend sub)⟩
    | @deeper _ _ e j sub c q he hj hsub hc hq =>
      rw [List.cons_prefix_cons, List.cons_prefix_cons] at hp
      obtain rfl : k = j := hp.elim And.left fun h => h.1.symm
      refine ⟨e, he, hj, fun sub' hsub' => ⟨c, hc, touches_iff.mpr ⟨q, ?_, ?_⟩⟩⟩
      · cases hsub.symm.trans hsub'
        exact hq
      · exact hp.imp And.right And.right
  · rintro ⟨e, he, hk, hsub⟩
    cases hv : e.2 with
    | obj sub =>
      obtain ⟨c, hc, htouches⟩ := hsub sub hv
      obtain ⟨q, hq, hp⟩ := touches_iff.mp htouches
      refine ⟨k :: q, .deeper he hk hv hc hq, ?_⟩
      rw [List.cons_prefix_cons, List.cons_prefix_cons]
      exact hp.imp (⟨rfl, ·⟩) (⟨rfl, ·⟩)
    | _ => exact ⟨[k], .ends he hk (by simp [hv]), .inr (by simp)⟩

end Touches

/-! ## What is left of a tree -/

/-- Whether names are distinct in every node of a tree. -/
def Distinct (t : α) : Prop := ∀ p x, Tree.at? t p = some x → (Tree.keys x).Nodup

/-- Some nodes of a tree, in their order: branches with fewer names, and leaves as they were. -/
def Cut (t t' : α) : Prop := ∀ p x', Tree.at? t' p = some x' → ∃ x, Tree.at? t p = some x ∧
  (Tree.keys x').Sublist (Tree.keys x) ∧ Tree.isBranch x' = Tree.isBranch x ∧
    (Tree.isBranch x = false → x' = x)

section Cut

variable {t t' t'' c : α} {k : String}

theorem Distinct.nodup (h : Distinct t) : (Tree.keys t).Nodup := h [] t rfl

theorem Distinct.child (h : Distinct t) (hc : Tree.child? t k = some c) : Distinct c := by
  intro p x hx
  refine h (k :: p) x ?_
  rw [Tree.at?_cons, hc]
  exact hx

theorem distinct_of_keys_eq_nil (h : Tree.keys t = []) : Distinct t := by
  intro p x hx
  cases p with
  | nil =>
    obtain rfl := Option.some.inj hx
    exact h ▸ List.nodup_nil
  | cons k p =>
    obtain ⟨c, hc, -⟩ := Option.bind_eq_some_iff.mp hx
    exact absurd (Tree.mem_keys_of_child? hc) (h ▸ List.not_mem_nil)

theorem Cut.refl (t : α) : Cut t t := fun _ x hx => ⟨x, hx, .refl _, rfl, fun _ => rfl⟩

theorem Cut.trans (h : Cut t t') (h' : Cut t' t'') : Cut t t'' := by
  intro p x'' hx''
  obtain ⟨x', hx', hsub', hbranch', hleaf'⟩ := h' p x'' hx''
  obtain ⟨x, hx, hsub, hbranch, hleaf⟩ := h p x' hx'
  refine ⟨x, hx, hsub'.trans hsub, hbranch'.trans hbranch, fun hb => ?_⟩
  rw [hleaf' (hbranch.trans hb), hleaf hb]

theorem Cut.distinct (h : Cut t t') (hd : Distinct t) : Distinct t' := by
  intro p x' hx'
  obtain ⟨x, hx, hsub, -, -⟩ := h p x' hx'
  exact (hd p x hx).sublist hsub

theorem Cut.isSome_at? (h : Cut t t') {p : List String} (hp : (Tree.at? t' p).isSome = true) :
    (Tree.at? t p).isSome = true := by
  obtain ⟨x', hx'⟩ := Option.isSome_iff_exists.mp hp
  obtain ⟨x, hx, -⟩ := h p x' hx'
  exact Option.isSome_iff_exists.mpr ⟨x, hx⟩

/-- **A sifted tree is cut if its children are.** -/
theorem Cut.sift [LawfulTree α] {f : String → α → Option α} (hn : (Tree.keys t).Nodup)
    (h : ∀ k c c', Tree.child? t k = some c → f k c = some c' → Cut c c') :
    Cut t (Tree.sift f t) := by
  intro p x' hx'
  cases p with
  | nil =>
    obtain rfl := Option.some.inj hx'
    refine ⟨t, rfl, ?_, Tree.isBranch_sift f t, fun hb => ?_⟩
    · rw [Tree.keys, Tree.children_sift]
      exact Named.keys_sift_sublist f _
    · refine (Tree.sift_congr fun kv hkv => ?_).trans (Tree.sift_some t)
      rw [Tree.children_of_not_isBranch hb] at hkv
      exact absurd hkv List.not_mem_nil
  | cons k p =>
    obtain ⟨c', hc', hx'⟩ := Option.bind_eq_some_iff.mp hx'
    rw [Tree.child?_sift hn] at hc'
    obtain ⟨c, hc, hc'⟩ := Option.bind_eq_some_iff.mp hc'
    obtain ⟨x, hx, hrel⟩ := h k c c' hc hc' p x' hx'
    refine ⟨x, ?_, hrel⟩
    rw [Tree.at?_cons, hc]
    exact hx

end Cut

/-! ## Retention cuts -/

section Retain

variable [LawfulTree α] {consent : Consent α Id} {t c c' : α} {k : String}
  {fields sub : List (String × Value)} {names : List String}

omit [Tree α] [LawfulTree α] in
theorem settleAt_eq_some {s : Bool × α} (h : settleAt consent k s = some c) : c = s.2 := by
  unfold settleAt at h
  split at h
  · exact (Option.some.inj h).symm
  · split at h
    · exact nomatch h
    · exact (Option.some.inj h).symm

/-- What retention leaves of a child with its own names. -/
theorem snd_retainOne_of_distinct (strict : Bool) (hd : Distinct c) :
    (retainOne strict consent (.obj sub) c).2 =
      Tree.sift (preserveAt (Tree.keys c) strict consent sub) c :=
  snd_retainOne_obj strict hd.nodup fun e _ => reads_keys hd.nodup e.1

theorem cut_retainAt (strict : Bool) : ∀ (fields : List (String × Value)) {names : List String}
    {k : String} {s : Bool × α}, Distinct s.2 →
      Cut s.2 (retainAt names strict consent fields k s).2
  | [], _, _, s, _ => .refl s.2
  | (key, v) :: rest, names, k, s, hd => by
    rw [retainAt_cons]
    by_cases hk : stands names key k = true
    · rw [if_pos hk]
      have hone : Cut s.2 (retainOne strict consent v s.2).2 := by
        cases v with
        | obj sub =>
          rw [snd_retainOne_of_distinct strict hd]
          refine .sift hd.nodup fun j d d' hj hd' => ?_
          rw [settleAt_eq_some hd']
          exact cut_retainAt strict sub (hd.child hj)
        | _ => exact .refl s.2
      exact hone.trans (cut_retainAt strict rest (hone.distinct hd))
    · rw [if_neg hk]
      exact cut_retainAt strict rest hd

theorem cut_preserveAt {strict : Bool} (hd : Distinct c)
    (h : preserveAt names strict consent fields k c = some c') : Cut c c' := by
  rw [settleAt_eq_some h]
  exact cut_retainAt strict fields hd

theorem cut_retainOne {strict : Bool} (hd : Distinct c) :
    Cut c (retainOne strict consent (.obj sub) c).2 := by
  rw [snd_retainOne_of_distinct strict hd]
  exact .sift hd.nodup fun _ _ _ hj hd' => cut_preserveAt (hd.child hj) hd'

/-! ## What is retained -/

/-- A branch is retained if a child of it is. -/
theorem fst_retainOne_iff (hd : Distinct c) : (retainOne true consent (.obj sub) c).1 = true ↔
    ∃ j d, Tree.child? c j = some d ∧
      (retainAt (Tree.keys c) true consent sub j (false, d)).1 = true := by
  have hmem (j : String) := mem_retained true consent hd.nodup
    (fun e (_ : e ∈ sub) => reads_keys hd.nodup e.1) (k := j)
  by_cases hb : Tree.isBranch c = true
  · simp only [retainOne, if_pos hb, Bool.not_true, Bool.or_false, ← hmem]
    change (!(retainFields true consent sub ([], c)).run.1.isEmpty) = true ↔ _
    rw [Bool.not_eq_true', List.isEmpty_eq_false_iff_exists_mem]
  · simp only [retainOne, if_neg hb]
    refine iff_of_false Bool.false_ne_true ?_
    rintro ⟨j, d, hj, -⟩
    exact hb (Tree.isBranch_of_child? hj)

variable (hall : ∀ k c, (consent k c).run = true)

section All

include hall

omit [LawfulTree α] in
theorem preserveAt_eq_some_iff : preserveAt names true consent fields k c = some c' ↔
    retainAt names true consent fields k (false, c) = (true, c') := by
  unfold preserveAt settleAt
  obtain ⟨b, d⟩ := retainAt names true consent fields k (false, c)
  cases b <;> simp [hall]

/-- A branch is retained if something is left in it. -/
theorem fst_retainOne_of_child (hd : Distinct c) {d' : α}
    (h : Tree.child? (retainOne true consent (.obj sub) c).2 k = some d') :
    (retainOne true consent (.obj sub) c).1 = true := by
  rw [snd_retainOne_of_distinct true hd, Tree.child?_sift hd.nodup] at h
  obtain ⟨d, hk, hd'⟩ := Option.bind_eq_some_iff.mp h
  rw [preserveAt_eq_some_iff hall] at hd'
  exact (fst_retainOne_iff hd).mpr ⟨k, d, hk, congrArg Prod.fst hd'⟩

end All

/-- Where nothing is left of a child, keys that lead deeper do not retain it. -/
theorem fst_retainAt_of_keys_eq_nil (hdeeper : ∀ e ∈ fields, stands names e.1 k = true →
    ∃ sub, e.2 = .obj sub) (hc : Tree.keys c = []) :
    (retainAt names true consent fields k (false, c)).1 = false := by
  induction fields generalizing c with
  | nil => rfl
  | cons e fields ih =>
    obtain ⟨he, hdeeper⟩ := List.forall_mem_cons.mp hdeeper
    rw [retainAt_cons]
    by_cases hk : stands names e.1 k = true
    · obtain ⟨sub, hsub⟩ := he hk
      have hflag : (retainOne true consent e.2 c).1 = false := by
        refine Bool.eq_false_iff.mpr fun hflag => ?_
        rw [hsub, fst_retainOne_iff (distinct_of_keys_eq_nil hc)] at hflag
        obtain ⟨j, d, hj, -⟩ := hflag
        exact absurd (Tree.mem_keys_of_child? hj) (hc ▸ List.not_mem_nil)
      rw [if_pos hk, hflag]
      refine ih hdeeper (List.sublist_nil.mp ?_)
      rw [← hc]
      exact keys_retainOne_sublist true e.2 c
    · rw [if_neg hk]
      exact ih hdeeper hc

omit [LawfulTree α] in
/-- What touches a child touches the tree. -/
theorem touches_of_child {p : List String} (hk : Tree.child? t k = some c)
    (h : ∃ e ∈ fields, stands (Tree.keys t) e.1 k = true ∧
      ∀ sub, e.2 = .obj sub → Touches c sub p) : Touches t fields (k :: p) := by
  obtain ⟨e, he, hstands, hsub⟩ := h
  have hmem := mem_matchingKeys_iff.mpr ⟨Tree.mem_keys_of_child? hk, hstands⟩
  exact touches_cons_iff.mpr ⟨e, he, hmem, fun sub heq => ⟨c, hk, hsub sub heq⟩⟩

include hall in
/-- A child that fields lead through, and that is retained after all, the first of them retains. -/
theorem fst_retainOne_of_fst_retainAt (hd : Distinct c)
    (hdeeper : ∀ e ∈ fields, stands names e.1 k = true → ∃ sub, e.2 = .obj sub)
    (h : (retainAt names true consent fields k (retainOne true consent (.obj sub) c)).1 = true) :
    (retainOne true consent (.obj sub) c).1 = true := by
  by_contra hflag
  have hkeys : Tree.keys (retainOne true consent (.obj sub) c).2 = [] := by
    refine List.eq_nil_iff_forall_not_mem.mpr fun j hj => ?_
    obtain ⟨d', hd'⟩ := Tree.mem_keys_iff.mp hj
    exact hflag (fst_retainOne_of_child hall hd hd')
  have hnone : retainOne true consent (.obj sub) c =
      (false, (retainOne true consent (.obj sub) c).2) :=
    Prod.ext (Bool.eq_false_iff.mpr hflag) rfl
  rw [hnone, fst_retainAt_of_keys_eq_nil hdeeper hkeys] at h
  cases h

include hall in
/-- What is left of a child after all fields, the first of which leads deeper, that field touches,
if none ends there and it touches what it retains itself. -/
theorem touches_of_first {p : List String} (hd : Distinct c)
    (hinner : ∀ j d d' q, Tree.child? c j = some d →
      retainAt (Tree.keys c) true consent sub j (false, d) = (true, d') →
        (Tree.at? d' q).isSome = true → Touches c sub (j :: q))
    (hdeeper : ∀ e ∈ fields, stands names e.1 k = true → ∃ sub, e.2 = .obj sub)
    (h : retainAt names true consent fields k (retainOne true consent (.obj sub) c) = (true, c'))
    (hp : (Tree.at? c' p).isSome = true) : Touches c sub p := by
  have hcut : Cut (retainOne true consent (.obj sub) c).2 c' := by
    have hc' := congrArg Prod.snd h
    simp only at hc'
    rw [← hc']
    exact cut_retainAt true fields ((cut_retainOne hd).distinct hd)
  cases p with
  | cons j q =>
    have hleft := hcut.isSome_at? hp
    rw [snd_retainOne_of_distinct true hd, Tree.isSome_at?_sift_cons hd.nodup] at hleft
    obtain ⟨d, d', hj, hd', hq⟩ := hleft
    exact hinner j d d' q hj ((preserveAt_eq_some_iff hall).mp hd') hq
  | nil =>
    have hkept := fst_retainOne_of_fst_retainAt hall hd hdeeper (congrArg Prod.fst h)
    obtain ⟨j, d, hj, hflag⟩ := (fst_retainOne_iff hd).mp hkept
    obtain ⟨q, hq⟩ := (hinner j d _ [] hj (Prod.ext hflag rfl) rfl).exists_leads
    exact touches_iff.mpr ⟨q, hq, .inl List.nil_prefix⟩

include hall in
/-- **What is left of a retained child, its fields touch.** -/
theorem touches_of_retainAt : ∀ (fields : List (String × Value)) {names : List String}
    {k : String} {c c' : α}, Distinct c →
      retainAt names true consent fields k (false, c) = (true, c') →
        ∀ p, (Tree.at? c' p).isSome = true → ∃ e ∈ fields, stands names e.1 k = true ∧
          ∀ sub, e.2 = .obj sub → Touches c sub p
  | [], _, _, _, _, _, h, _, _ => by
    cases h
  | (key, v) :: rest, names, k, c, c', hd, h, p, hp => by
    rw [retainAt_cons] at h
    by_cases hk : stands names key k = true
    · rw [if_pos hk, Bool.false_or] at h
      cases v with
      | obj sub =>
        by_cases hend : ∃ e ∈ rest, stands names e.1 k = true ∧ ∀ sub, e.2 ≠ .obj sub
        · obtain ⟨e, he, hstands, hend⟩ := hend
          exact ⟨e, List.mem_cons_of_mem _ he, hstands, fun sub hsub => absurd hsub (hend sub)⟩
        · refine ⟨(key, .obj sub), List.mem_cons_self, hk, fun sub' hsub' => ?_⟩
          cases hsub'
          refine touches_of_first hall hd (fun j d d' q hj hd' hq => ?_)
            (fun e he hstands => ?_) h hp
          · exact touches_of_child hj (touches_of_retainAt sub (hd.child hj) hd' q hq)
          · simpa using fun hnot => hend ⟨e, he, hstands, hnot⟩
      | _ => exact ⟨_, List.mem_cons_self, hk, fun _ hsub => nomatch hsub⟩
    · rw [if_neg hk] at h
      obtain ⟨e, he, hfield⟩ := touches_of_retainAt rest hd h p hp
      exact ⟨e, List.mem_cons_of_mem _ he, hfield⟩

include hall in
/-- **Retention leaves nothing that its locations do not touch.** -/
theorem touches_of_left {p : List String} (hd : Distinct t) (hne : p ≠ [])
    (hp : (Tree.at? (Tree.sift (preserveAt (Tree.keys t) true consent fields) t) p).isSome = true) :
    Touches t fields p := by
  obtain ⟨k, q, rfl⟩ := List.exists_cons_of_ne_nil hne
  obtain ⟨c, c', hk, hc', hq⟩ := (Tree.isSome_at?_sift_cons hd.nodup).mp hp
  exact touches_of_child hk (touches_of_retainAt hall fields (hd.child hk)
    ((preserveAt_eq_some_iff hall).mp hc') q hq)

/-! ## Branches that are not shared -/

/-- Whether a branch through which one field of the locations goes is stood for by that one only,
on every level. -/
inductive Unshared : α → List (String × Value) → Prop
  | intro {t : α} {fields : List (String × Value)}
    (alone : ∀ k c, Tree.child? t k = some c → Tree.isBranch c = true → ∀ e ∈ fields, ∀ sub,
      e.2 = .obj sub → stands (Tree.keys t) e.1 k = true →
        fields.countP (fun e' => stands (Tree.keys t) e'.1 k) = 1)
    (deeper : ∀ k c, Tree.child? t k = some c → Tree.isBranch c = true → ∀ e ∈ fields, ∀ sub,
      e.2 = .obj sub → stands (Tree.keys t) e.1 k = true → Unshared c sub) : Unshared t fields

omit [LawfulTree α] in
/-- Only the fields that stand for a child have a say in what becomes of it. -/
theorem retainAt_eq_foldl_filter (s : Bool × α) : retainAt names true consent fields k s =
    (fields.filter fun e => stands names e.1 k).foldl (fun s e =>
      (s.1 || (retainOne true consent e.2 s.2).1, (retainOne true consent e.2 s.2).2)) s := by
  rw [List.foldl_filter]
  rfl

omit [LawfulTree α] in
/-- Fields that end at a child, or lead deeper into a leaf, leave it as it is. -/
theorem retainAt_of_forall (hleaf : ∀ e ∈ fields, stands names e.1 k = true →
    ∀ sub, e.2 = .obj sub → Tree.isBranch c = false) (b : Bool) :
    ∃ b', retainAt names true consent fields k (b, c) = (b', c) ∧ (b = true → b' = true) ∧
      ∀ e ∈ fields, stands names e.1 k = true → (∀ sub, e.2 ≠ .obj sub) → b' = true := by
  induction fields generalizing b with
  | nil => exact ⟨b, rfl, id, fun _ he => nomatch he⟩
  | cons e fields ih =>
    obtain ⟨he, hleaf⟩ := List.forall_mem_cons.mp hleaf
    rw [retainAt_cons]
    by_cases hk : stands names e.1 k = true
    · obtain ⟨r, hr, hend⟩ : ∃ r, retainOne true consent e.2 c = (r, c) ∧
          ((∀ sub, e.2 ≠ .obj sub) → r = true) := by
        cases hv : e.2 with
        | obj sub =>
          refine ⟨false, ?_, fun hend => absurd rfl (hend sub)⟩
          simp [retainOne, he hk sub hv]
        | _ => exact ⟨true, rfl, fun _ => rfl⟩
      obtain ⟨b', hb', hb, hfields⟩ := ih hleaf (b || r)
      rw [if_pos hk, hr]
      refine ⟨b', hb', fun h => hb (by rw [h, Bool.true_or]), List.forall_mem_cons.mpr
        ⟨fun _ h => hb (by rw [hend h, Bool.or_true]), hfields⟩⟩
    · obtain ⟨b', hb', hb, hfields⟩ := ih hleaf b
      rw [if_neg hk]
      exact ⟨b', hb', hb, List.forall_mem_cons.mpr ⟨fun h => absurd h hk, hfields⟩⟩

include hall in
/-- A child that a single field leads through is retained if something touched is left in it. -/
theorem retainAt_of_alone {p : List String} {e : String × Value} (hd : Distinct c)
    (halone : fields.filter (fun e => stands names e.1 k) = [e]) (hsub : e.2 = .obj sub)
    (hp : (Tree.at? c p).isSome = true) (htouches : Touches c sub p)
    (hleft : ∀ p, p ≠ [] → (Tree.at? c p).isSome = true → Touches c sub p → (Tree.at?
      (Tree.sift (preserveAt (Tree.keys c) true consent sub) c) p).isSome = true) :
    ∃ c', retainAt names true consent fields k (false, c) = (true, c') ∧
      (Tree.at? c' p).isSome = true := by
  rw [← snd_retainOne_of_distinct true hd] at hleft
  obtain ⟨j, q, hq, hjq⟩ :
      ∃ j q, (Tree.at? c (j :: q)).isSome = true ∧ Touches c sub (j :: q) := by
    cases p with
    | cons j q => exact ⟨j, q, hp, htouches⟩
    | nil =>
      obtain ⟨q, hq⟩ := htouches.exists_leads
      obtain ⟨j, q', d, rfl, hj⟩ := hq.exists_cons
      exact ⟨j, [], Tree.isSome_at?_cons.mpr ⟨d, hj, rfl⟩, touches_iff.mpr ⟨_, hq, .inl (by simp)⟩⟩
  obtain ⟨d, hj, -⟩ := Tree.isSome_at?_cons.mp (hleft _ (List.cons_ne_nil j q) hq hjq)
  refine ⟨(retainOne true consent (.obj sub) c).2, ?_, ?_⟩
  · rw [retainAt_eq_foldl_filter, halone, List.foldl_cons, List.foldl_nil, hsub,
      fst_retainOne_of_child hall hd hj]
    rfl
  · by_cases hne : p = []
    · rw [hne]
      rfl
    · exact hleft p hne hp htouches

omit [LawfulTree α] in
/-- A child that is touched, and that no field leads deeper into, is retained as it is. -/
theorem retainAt_of_touched {e : String × Value} {p : List String} (he : e ∈ fields)
    (hstands : stands names e.1 k = true) (htouches : ∀ sub, e.2 = .obj sub → Touches c sub p)
    (hleaf : ∀ e ∈ fields, stands names e.1 k = true → ∀ sub, e.2 = .obj sub →
      Tree.isBranch c = false) :
    retainAt names true consent fields k (false, c) = (true, c) := by
  have hend : ∀ sub, e.2 ≠ .obj sub := by
    intro sub hv
    obtain ⟨q, hq⟩ := (htouches sub hv).exists_leads
    exact Leads.not_of_keys_eq_nil (Tree.keys_of_not_isBranch (hleaf e he hstands sub hv)) hq
  obtain ⟨b, hb, -, hends⟩ := retainAt_of_forall hleaf false
  exact hends e he hstands hend ▸ hb

/-- The only field that counts is the one that is found to count. -/
theorem filter_eq_singleton_of_countP {p : String × Value → Bool} {e : String × Value}
    (hone : fields.countP p = 1) (he : e ∈ fields) (hp : p e = true) : fields.filter p = [e] := by
  rw [List.countP_eq_length_filter, List.length_eq_one_iff] at hone
  obtain ⟨x, hx⟩ := hone
  have hmem : e ∈ [x] := hx ▸ List.mem_filter.mpr ⟨he, hp⟩
  rw [hx, List.mem_singleton.mp hmem]

include hall in
/-- **Retention leaves all that its locations touch** where no branch is shared. -/
theorem left_of_touches (h : Unshared t fields) (hd : Distinct t) :
    ∀ p, p ≠ [] → (Tree.at? t p).isSome = true → Touches t fields p →
      (Tree.at? (Tree.sift (preserveAt (Tree.keys t) true consent fields) t) p).isSome = true := by
  induction h with
  | @intro t fields alone deeper ih =>
  intro p hne hp htouches
  obtain ⟨k, q, rfl⟩ := List.exists_cons_of_ne_nil hne
  obtain ⟨c, hk, hq⟩ := Tree.isSome_at?_cons.mp hp
  obtain ⟨e, he, hmem, hsub⟩ := touches_cons_iff.mp htouches
  have hstands := (mem_matchingKeys_iff.mp hmem).2
  have htouched : ∀ sub, e.2 = .obj sub → Touches c sub q := fun sub hv => by
    obtain ⟨d, hd', htouches'⟩ := hsub sub hv
    exact Option.some.inj (hk.symm.trans hd') ▸ htouches'
  rw [Tree.isSome_at?_sift_cons hd.nodup]
  suffices ∃ c', retainAt (Tree.keys t) true consent fields k (false, c) = (true, c') ∧
      (Tree.at? c' q).isSome = true by
    obtain ⟨c', hc', hq'⟩ := this
    exact ⟨c, c', hk, (preserveAt_eq_some_iff hall).mpr hc', hq'⟩
  by_cases hdeep : Tree.isBranch c = true ∧ ∃ e' ∈ fields, ∃ sub, e'.2 = .obj sub ∧
      stands (Tree.keys t) e'.1 k = true
  · -- The field that leads deeper is the only one that stands for the child: the one that touches.
    obtain ⟨hb, e', he', sub, hv, hstands'⟩ := hdeep
    have halone := filter_eq_singleton_of_countP (alone k c hk hb e' he' sub hv hstands') he' hstands'
    obtain rfl : e = e' := List.mem_singleton.mp (halone ▸ List.mem_filter.mpr ⟨he, hstands⟩)
    exact retainAt_of_alone hall (hd.child hk) halone hv hq (htouched sub hv)
      (ih k c hk hb e he sub hv hstands (hd.child hk))
  · refine ⟨c, retainAt_of_touched he hstands htouched fun e he hstands sub hv => ?_, hq⟩
    exact Bool.eq_false_iff.mpr fun hb => hdeep ⟨hb, e, he, sub, hv, hstands⟩

end Retain

/-! ## Inclusions -/

/-- **What an inclusion leaves.**  It cuts the data: names stay in their order, and leaves stay as
they were.  Every path that is left is that of what its locations address, or one above or below it.
Where no branch is shared, all those paths are left. -/
theorem retention (fields : List (String × Value)) (data : Object)
    (hd : Distinct (Value.obj data)) :
    let left : Value := (preserve true Action.consent (.obj fields) (Value.obj data)).run
    Cut (Value.obj data) left ∧
    (∀ p, p ≠ [] → (Tree.at? left p).isSome = true → Touches (Value.obj data) fields p) ∧
    (Unshared (Value.obj data) fields → ∀ p, p ≠ [] →
      ((Tree.at? left p).isSome = true ↔
        (Tree.at? (Value.obj data) p).isSome = true ∧ Touches (Value.obj data) fields p)) := by
  intro left
  have hall : ∀ k c, (Action.consent k c).run = true := fun _ _ => rfl
  have hleft : left = Tree.sift (preserveAt (Tree.keys (Value.obj data)) true Action.consent fields)
      (Value.obj data) := preserve_eq_sift hd.nodup fun e _ => reads_keys hd.nodup e.1
  have hcut : Cut (Value.obj data) left := by
    rw [hleft]
    exact .sift hd.nodup fun _ _ _ hk hc' => cut_preserveAt (hd.child hk) hc'
  have htouches (p : List String) (hne : p ≠ []) (hp : (Tree.at? left p).isSome = true) :
      Touches (Value.obj data) fields p := by
    rw [hleft] at hp
    exact touches_of_left hall hd hne hp
  refine ⟨hcut, htouches, fun hunshared p hne => ⟨fun hp => ?_, fun ⟨hp, ht⟩ => ?_⟩⟩
  · exact ⟨hcut.isSome_at? hp, htouches p hne hp⟩
  · rw [hleft]
    exact left_of_touches hall hunshared hd p hne hp ht

theorem distinct_obj {data : Object} (hn : (Named.keys data).Nodup)
    (h : ∀ kv ∈ data, Distinct kv.2) : Distinct (Value.obj data) := by
  intro p x hx
  cases p with
  | nil => exact Option.some.inj hx ▸ hn
  | cons k p =>
    obtain ⟨c, hc, hx⟩ := Option.bind_eq_some_iff.mp hx
    exact h (k, c) (Named.mem_of_get?_eq_some hc) p x hx

/-- Locations that lead nowhere deeper share no branch. -/
theorem unshared_of_forall {t : α} {fields : List (String × Value)}
    (h : ∀ e ∈ fields, ∀ sub, e.2 ≠ .obj sub) : Unshared t fields :=
  .intro (fun _ _ _ _ e he sub hsub => absurd hsub (h e he sub))
    fun _ _ _ _ e he sub hsub => absurd hsub (h e he sub)

/-- A part of one server is included. -/
theorem retention_one_server :
    let data : Object := [("vs1", .obj [("x", .int 1), ("y", .int 2)]), ("host", .str "h")]
    let fields : Object := [("vs", .obj [("y", .bool true)])]
    let left : Value := (preserve true Action.consent (.obj fields) (Value.obj data)).run
    Distinct (Value.obj data) ∧ Unshared (Value.obj data) fields ∧
      Touches (Value.obj data) fields ["vs1", "y"] ∧
      (Tree.at? left ["vs1", "y"]).isSome = true ∧ ¬ Touches (Value.obj data) fields ["host"] ∧
      (Tree.at? left ["host"]).isSome = false := by
  intro data fields left
  have hd : Distinct (Value.obj data) := by
    refine distinct_obj (by decide) fun kv hkv => ?_
    simp only [data, List.mem_cons, List.not_mem_nil, or_false] at hkv
    obtain rfl | rfl := hkv
    · refine distinct_obj (by decide) fun kv hkv => ?_
      simp only [List.mem_cons, List.not_mem_nil, or_false] at hkv
      obtain rfl | rfl := hkv <;> exact distinct_of_keys_eq_nil rfl
    · exact distinct_of_keys_eq_nil rfl
  have hu : Unshared (Value.obj data) fields := by
    refine .intro (fun k c _ _ e he sub _ hstands => ?_) fun k c _ _ e he sub hsub _ => ?_
    · obtain rfl := List.mem_singleton.mp he
      simp [fields, hstands]
    · obtain rfl := List.mem_singleton.mp he
      cases hsub
      exact unshared_of_forall (by simp)
  have htouched : Touches (Value.obj data) fields ["vs1", "y"] := by decide +kernel
  have hnot : ¬ Touches (Value.obj data) fields ["host"] := by decide +kernel
  obtain ⟨-, htouches, hleft⟩ := retention fields data hd
  refine ⟨hd, hu, htouched, (hleft hu _ (by simp)).mpr ⟨rfl, htouched⟩, hnot, ?_⟩
  exact Bool.eq_false_iff.mpr fun hp => hnot (htouches _ (by simp) hp)

/-- **Of a shared branch too little may be left**: the second key takes out what the first one has
retained, and nothing is left of what either addresses. -/
theorem not_retention : ¬ ∀ (fields : List (String × Value)) (data : Object),
    Distinct (Value.obj data) → ∀ p, p ≠ [] →
      ((Tree.at? (preserve true Action.consent (.obj fields) (Value.obj data)).run p).isSome = true ↔
        (Tree.at? (Value.obj data) p).isSome = true ∧ Touches (Value.obj data) fields p) := by
  let data : Object := [("vs1", .obj [("x", .int 1), ("y", .int 2)])]
  let fields : Object := [("vs1", .obj [("x", .bool true)]), ("vs", .obj [("y", .bool true)])]
  have hd : Distinct (Value.obj data) := by
    refine distinct_obj (by decide) fun kv hkv => ?_
    obtain rfl := List.mem_singleton.mp hkv
    refine distinct_obj (by decide) fun kv hkv => ?_
    simp only [List.mem_cons, List.not_mem_nil, or_false] at hkv
    obtain rfl | rfl := hkv <;> exact distinct_of_keys_eq_nil rfl
  intro h
  have htouched : Touches (Value.obj data) fields ["vs1", "x"] := by decide +kernel
  have hleft := (h fields data hd ["vs1", "x"] (by simp)).mpr ⟨rfl, htouched⟩
  have hgone : (Tree.at? (preserve true Action.consent (.obj fields) (Value.obj data)).run
      ["vs1", "x"]).isSome = false := by decide +kernel
  rw [hgone] at hleft
  exact nomatch hleft

end DeviceStats.Match
