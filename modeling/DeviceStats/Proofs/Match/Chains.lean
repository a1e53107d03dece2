import DeviceStats.Proofs.Match.Retention

/-!
# Proofs/Match/Chains — what locations find in a tree

A path is found exactly if a chain of keys leads from the root of the locations to a value that ends
them and the names of the path are, one after the other, names that these keys stand for.  It is
found once, however many chains lead to it, and nothing counts but the names in the branches that
the locations enter (`deep_finds`).
-/

namespace DeviceStats.Match

open Json (Value Object)

variable {α : Type} [Tree α]

/-! ## Chains of keys -/

/-- Keys that lead from the root of locations, through objects, to a value that is none. -/
inductive Chain : Value → List String → Prop
  | ends {v : Value} (hend : ∀ fields, v ≠ .obj fields) : Chain v []
  | deeper {fields : List (String × Value)} {key : String} {v : Value} {keys : List String}
    (he : (key, v) ∈ fields) (h : Chain v keys) : Chain (.obj fields) (key :: keys)

/-- Names of nodes on the way down a tree, each of which a key stands for in the branch it is in. -/
structure Follows (t : α) (keys names : List String) : Prop where
  length : keys.length = names.length
  step : ∀ i key k, keys[i]? = some key → names[i]? = some k →
    ∃ b, Tree.at? t (names.take i) = some b ∧ Tree.isBranch b = true ∧ k ∈ matchingKeys b key

/-- Locations enter the node at the end of a path: an object of theirs is matched with it. -/
inductive Enters : α → Value → List String → Prop
  | root {t : α} {fields : List (String × Value)} : Enters t (.obj fields) []
  | deeper {t c : α} {fields : List (String × Value)} {key k : String} {v : Value}
    {p : List String} (he : (key, v) ∈ fields) (hk : k ∈ matchingKeys t key)
    (hc : Tree.child? t k = some c) (h : Enters c v p) : Enters t (.obj fields) (k :: p)

section Chain

variable {t c : α} {v : Value} {fields : List (String × Value)} {key k : String}
  {keys names p : List String}

theorem follows_nil (t : α) : Follows t [] [] := ⟨rfl, fun _ _ _ h => nomatch h⟩

theorem follows_cons_iff : Follows t (key :: keys) (k :: names) ↔
    k ∈ matchingKeys t key ∧ ∃ c, Tree.child? t k = some c ∧ Follows c keys names := by
  constructor
  · intro h
    obtain ⟨b, hb, -, hk⟩ := h.step 0 key k rfl rfl
    obtain rfl := Option.some.inj hb
    obtain ⟨c, hc⟩ := exists_child?_of_mem_matchingKeys hk
    refine ⟨hk, c, hc, Nat.succ.inj h.length, fun i key' k' hkey' hk' => ?_⟩
    obtain ⟨b, hb, hrest⟩ := h.step (i + 1) key' k' hkey' hk'
    rw [List.take_succ_cons, Tree.at?_cons, hc] at hb
    exact ⟨b, hb, hrest⟩
  · rintro ⟨hk, c, hc, h⟩
    refine ⟨congrArg Nat.succ h.length, fun i key' k' hkey' hk' => ?_⟩
    cases i with
    | zero =>
      cases hkey'
      cases hk'
      exact ⟨t, rfl, Tree.isBranch_of_child? hc, hk⟩
    | succ i =>
      obtain ⟨b, hb, hrest⟩ := h.step i key' k' hkey' hk'
      refine ⟨b, ?_, hrest⟩
      rw [List.take_succ_cons, Tree.at?_cons, hc]
      exact hb

/-- What locations lead to follows one of their chains. -/
theorem Leads.exists_chain (h : Leads t fields names) :
    ∃ keys, Chain (.obj fields) keys ∧ Follows t keys names := by
  induction h with
  | ends he hk hend =>
    obtain ⟨c, hc⟩ := exists_child?_of_mem_matchingKeys hk
    exact ⟨_, .deeper he (.ends hend), follows_cons_iff.mpr ⟨hk, c, hc, follows_nil c⟩⟩
  | deeper he hk hsub hc _ ih =>
    obtain ⟨keys, hchain, hfollows⟩ := ih
    rw [← hsub] at hchain
    exact ⟨_, .deeper he hchain, follows_cons_iff.mpr ⟨hk, _, hc, hfollows⟩⟩

/-- What follows a chain is led to, unless the chain is that of no keys at all. -/
theorem Chain.leads (h : Chain v keys) (hfollows : Follows t keys names) :
    ((∀ fields, v ≠ .obj fields) ∧ names = []) ∨
      ∃ fields, v = .obj fields ∧ Leads t fields names := by
  induction h generalizing t names with
  | ends hend => exact .inl ⟨hend, List.length_eq_zero_iff.mp hfollows.length.symm⟩
  | deeper he _ ih =>
    obtain _ | ⟨k, names⟩ := names
    · exact nomatch hfollows.length
    · obtain ⟨hk, c, hc, hfollows⟩ := follows_cons_iff.mp hfollows
      obtain ⟨hend, rfl⟩ | ⟨sub, rfl, hleads⟩ := ih hfollows
      · exact .inr ⟨_, rfl, .ends he hk hend⟩
      · exact .inr ⟨_, rfl, .deeper he hk rfl hc hleads⟩

/-- **Locations lead to what follows one of their chains.** -/
theorem leads_iff_exists_chain :
    Leads t fields names ↔ ∃ keys, Chain (.obj fields) keys ∧ Follows t keys names := by
  refine ⟨Leads.exists_chain, fun ⟨keys, hchain, hfollows⟩ => ?_⟩
  obtain ⟨hend, -⟩ | ⟨_, heq, hleads⟩ := hchain.leads hfollows
  · exact absurd rfl (hend fields)
  · cases heq
    exact hleads

theorem Leads.isSome_at? (h : Leads t fields p) : (Tree.at? t p).isSome = true := by
  induction h with
  | ends _ hk =>
    obtain ⟨c, hc⟩ := exists_child?_of_mem_matchingKeys hk
    rw [Tree.at?_singleton, hc]
    rfl
  | deeper _ _ _ hc _ ih =>
    rw [Tree.at?_cons, hc]
    exact ih

/-! ## What is found -/

theorem deep_eq_nil (t : α) (hend : ∀ fields, v ≠ .obj fields) : deep t v = [] := by
  cases v with
  | obj fields => exact absurd rfl (hend fields)
  | _ => rw [deep, addressed, List.eraseDups_nil]; simp

/-- **What is found follows a chain**, and all of that is found. -/
theorem mem_deep_iff_exists_chain {f : Found} :
    f ∈ deep t v ↔ ∃ keys, Chain v keys ∧ Follows t keys f.full := by
  by_cases hv : ∃ fields, v = .obj fields
  · obtain ⟨fields, rfl⟩ := hv
    rw [mem_deep_iff, leads_iff_exists_chain]
  · have hend : ∀ fields, v ≠ .obj fields := not_exists.mp hv
    rw [deep_eq_nil t hend]
    refine iff_of_false List.not_mem_nil fun ⟨keys, hchain, hfollows⟩ => ?_
    obtain ⟨-, hnil⟩ | ⟨fields, hv, -⟩ := hchain.leads hfollows
    · exact List.concat_ne_nil f.key f.path hnil
    · exact hend fields hv

theorem isSome_at?_of_mem_deep {f : Found} (h : f ∈ deep t v) :
    (Tree.at? t f.full).isSome = true := by
  cases v with
  | obj fields => exact (mem_deep_iff.mp h).isSome_at?
  | _ =>
    rw [deep_eq_nil t (by simp)] at h
    exact nomatch h

theorem nodup_eraseDups {β : Type} [BEq β] [LawfulBEq β] : ∀ l : List β, l.eraseDups.Nodup
  | [] => List.nodup_nil
  | b :: l => by
    have : (l.filter fun c => !c == b).length < l.length + 1 :=
      Nat.lt_succ_of_le (List.length_filter_le _ _)
    rw [List.eraseDups_cons, List.nodup_cons, List.mem_eraseDups, List.mem_filter]
    exact ⟨by simp, nodup_eraseDups _⟩
termination_by l => l.length

theorem Enters.cons (e : String × Value) (h : Enters t (.obj fields) p) :
    Enters t (.obj (e :: fields)) p := by
  cases h with
  | root => exact .root
  | deeper he hk hc h => exact .deeper (List.mem_cons_of_mem e he) hk hc h

/-- **What is addressed depends on the names in the branches that are entered.** -/
theorem addressedFields_congr : ∀ (fields : List (String × Value)) {path : List String} {t t' : α},
    (∀ p, Enters t (.obj fields) p →
      (Tree.at? t' p).map Tree.keys = (Tree.at? t p).map Tree.keys) →
      addressedFields path fields t' = addressedFields path fields t
  | [], path, t, t', _ => by rw [addressedFields, addressedFields]
  | (key, v) :: rest, path, t, t', h => by
    have hkeys : Tree.keys t' = Tree.keys t := Option.some.inj (h [] .root)
    rw [addressedFields_cons, addressedFields_cons, matchingKeys_congr hkeys,
      addressedFields_congr rest fun p hp => h p (hp.cons (key, v))]
    refine congrArg (· ++ _) (List.flatMap_congr fun k hk => ?_)
    cases v with
    | obj sub =>
      obtain ⟨c, hc⟩ := exists_child?_of_mem_matchingKeys hk
      have hk' : k ∈ Tree.keys t' := hkeys ▸ Tree.mem_keys_of_child? hc
      obtain ⟨c', hc'⟩ := Tree.mem_keys_iff.mp hk'
      simp only [hc, hc', ite_isBranch_addressedFields]
      refine addressedFields_congr sub fun p hp => ?_
      have hbelow := h (k :: p) (.deeper List.mem_cons_self hk hc hp)
      rwa [Tree.at?_cons, Tree.at?_cons, hc, hc'] at hbelow
    | _ => rfl

theorem deep_congr {t' : α} (h : ∀ p, Enters t v p →
    (Tree.at? t' p).map Tree.keys = (Tree.at? t p).map Tree.keys) : deep t' v = deep t v := by
  cases v with
  | obj fields => rw [deep, deep, addressed, addressed, addressedFields_congr fields h]
  | _ => rw [deep_eq_nil t (by simp), deep_eq_nil t' (by simp)]

end Chain

/-- **Locations find the names that follow one of their chains.**  Each is found once and is there,
and whatever is changed outside the branches that the locations enter, the same is found. -/
theorem deep_finds (locations : Value) (t : α) :
    (∀ f, f ∈ deep t locations ↔ ∃ keys, Chain locations keys ∧ Follows t keys f.full) ∧
    (deep t locations).Nodup ∧
    (∀ f ∈ deep t locations, (Tree.at? t f.full).isSome = true) ∧
    ∀ t' : α, (∀ p, Enters t locations p →
        (Tree.at? t' p).map Tree.keys = (Tree.at? t p).map Tree.keys) →
      deep t' locations = deep t locations :=
  ⟨fun _ => mem_deep_iff_exists_chain, nodup_eraseDups _, fun _ => isSome_at?_of_mem_deep,
    fun _ => deep_congr⟩

/-- One server by its name and by a pattern: the path that both lead to is found once, and what is
below it or beside it does not matter. -/
theorem deep_finds_server :
    let locations : Value :=
      .obj [("vs1", .obj [("x", .bool true)]), ("vs", .obj [("x", .bool true)])]
    let t : Value := .obj [("vs1", .obj [("x", .int 1)]), ("host", .str "h")]
    let t' : Value := .obj [("vs1", .obj [("x", .obj [("y", .int 2)])]), ("host", .obj [])]
    deep t locations = [⟨["vs1"], "x"⟩] ∧ deep t' locations = [⟨["vs1"], "x"⟩] ∧
      (∃ keys, Chain locations keys ∧ Follows t keys ["vs1", "x"]) ∧
      (Tree.at? t ["vs1", "x"]).isSome = true := by
  intro locations t t'
  obtain ⟨hchain, -, hpresent, hcongr⟩ := deep_finds locations t
  have hfound : deep t locations = [⟨["vs1"], "x"⟩] := by decide +kernel
  have hmem : ⟨["vs1"], "x"⟩ ∈ deep t locations := hfound ▸ List.mem_singleton_self _
  have hvs1 : matchingKeys t "vs1" = ["vs1"] ∧ matchingKeys t "vs" = ["vs1"] := by decide +kernel
  have hx {e : String × Value} (he : e ∈ [("vs1", Value.obj [("x", .bool true)]),
      ("vs", .obj [("x", .bool true)])]) :
      matchingKeys t e.1 = ["vs1"] ∧ e.2 = .obj [("x", .bool true)] := by
    obtain rfl | he := List.mem_cons.mp he
    · exact ⟨hvs1.1, rfl⟩
    · obtain rfl := List.mem_singleton.mp he
      exact ⟨hvs1.2, rfl⟩
  refine ⟨hfound, (hcongr t' fun p hp => ?_).trans hfound, (hchain _).mp hmem, hpresent _ hmem⟩
  change Enters t (.obj _) p at hp
  obtain _ | ⟨he, hk, hc, hp⟩ := hp
  · rfl
  · obtain ⟨hkeys, rfl⟩ := hx he
    obtain rfl := List.mem_singleton.mp (hkeys ▸ hk)
    obtain rfl := Option.some.inj hc
    obtain _ | ⟨he, -, -, hp⟩ := hp
    · rfl
    · cases List.mem_singleton.mp he
      exact nomatch hp

end DeviceStats.Match
