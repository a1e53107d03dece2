import DeviceStats.Proofs.Json.Decoders
import DeviceStats.Proofs.Text.Split
import DeviceStats.Routine.HardwareAddress
import Mathlib.Data.List.Forall2
import Mathlib.Tactic.IntervalCases

/-!
# Proofs/Routine/HardwareAddress — one form for every address

A text denotes six octets if it is six groups with colons between them, each of one or two
hexadecimal digits.  Such a text is brought to the form in which its octets are `written`, and no
other text is accepted (`canonical_cases`).  In an object that is done to the texts under the given
keys, as far as they are reached by names alone, and to nothing else (`becomes_at?`); one of them
that is not accepted spoils it all (`exists_of_canonicalFields_eq_error`).
-/

namespace DeviceStats.HardwareAddress

open Json (Value Object Distinct)
open Json.Decoder (map_eq_ok_iff map_eq_error_iff mem_of_mapM_eq_error)
open Match (Tree)
open Text (join splitOnChar)

/-! ## Octets -/

/-- A hexadecimal digit of a number, or its capital. -/
def IsDigit (c : Char) (n : Nat) : Prop :=
  n < 16 ∧ (c = Nat.digitChar n ∨ c = (Nat.digitChar n).toUpper)

instance (c : Char) (n : Nat) : Decidable (IsDigit c n) := inferInstanceAs (Decidable (_ ∧ _))

/-- A group of one or two digits that denotes an octet. -/
inductive Octet : List Char → Nat → Prop
  | one {c : Char} {n : Nat} (h : IsDigit c n) : Octet [c] n
  | two {c d : Char} {m n : Nat} (hc : IsDigit c m) (hd : IsDigit d n) : Octet [c, d] (16 * m + n)

/-- An octet in two digits without capitals. -/
def pair (n : Nat) : List Char := [Nat.digitChar (n / 16), Nat.digitChar (n % 16)]

variable {c : Char} {n n' : Nat} {group group' : List Char} {groups groups' : List (List Char)}

/-- A digit of a number is, in lower case, the digit that is written for it. -/
theorem IsDigit.toLower_eq (h : IsDigit c n) : c.toLower = Nat.digitChar n := by
  have hlower : ∀ n < 16, (Nat.digitChar n).toLower = Nat.digitChar n ∧
      (Nat.digitChar n).toUpper.toLower = Nat.digitChar n := by decide
  obtain ⟨hn, rfl | rfl⟩ := h
  · exact (hlower n hn).1
  · exact (hlower n hn).2

/-- A character is a digit of one number at most. -/
theorem IsDigit.unique (h : IsDigit c n) (h' : IsDigit c n') : n = n' := by
  have hinj : ∀ m < 16, ∀ n < 16, Nat.digitChar m = Nat.digitChar n → m = n := by decide
  exact hinj n h.1 n' h'.1 (h.toLower_eq.symm.trans h'.toLower_eq)

theorem IsDigit.isHex (h : IsDigit c n) : isHex c = true := by
  have hhex : ∀ n < 16, HardwareAddress.isHex (Nat.digitChar n) = true ∧
      HardwareAddress.isHex (Nat.digitChar n).toUpper = true := by decide
  obtain ⟨hn, rfl | rfl⟩ := h
  · exact (hhex n hn).1
  · exact (hhex n hn).2

/-- The characters that are accepted are digits: each of the sixteen is looked at in turn. -/
theorem exists_isDigit_of_isHex (h : isHex c = true) : ∃ n, IsDigit c n := by
  simp only [isHex, Char.isDigit, Bool.or_eq_true, Bool.and_eq_true, decide_eq_true_eq,
    Char.le_def, UInt32.le_iff_toNat_le] at h
  change ((48 ≤ c.toNat ∧ c.toNat ≤ 57) ∨ 97 ≤ c.toNat ∧ c.toNat ≤ 102) ∨
    65 ≤ c.toNat ∧ c.toNat ≤ 70 at h
  have hc : Char.ofNat c.toNat = c := Char.ofNat_toNat c
  generalize c.toNat = k at h hc
  subst hc
  obtain (⟨hlo, hhi⟩ | ⟨hlo, hhi⟩) | ⟨hlo, hhi⟩ := h
  · refine ⟨k - 48, ?_⟩
    interval_cases k <;> decide
  · refine ⟨k - 87, ?_⟩
    interval_cases k <;> decide
  · refine ⟨k - 55, ?_⟩
    interval_cases k <;> decide

theorem IsDigit.ne_colon (h : IsDigit c n) : ':' ≠ c := by
  rintro rfl
  exact absurd h.isHex (by decide)

/-- A group denotes one octet at most. -/
theorem Octet.unique (h : Octet group n) (h' : Octet group n') : n = n' := by
  cases h with
  | one h =>
    cases h' with
    | one h' => exact h.unique h'
  | two hc hd =>
    cases h' with
    | two hc' hd' => rw [hc.unique hc', hd.unique hd']

/-- An octet is a number below 256. -/
theorem Octet.lt (h : Octet group n) : n < 256 := by
  cases h with
  | one h => exact h.1.trans (by decide)
  | two hc hd =>
    have := hc.1
    have := hd.1
    omega

theorem Octet.colon_not_mem (h : Octet group n) : ':' ∉ group := by
  cases h with
  | one h => simpa using h.ne_colon
  | two hc hd => simpa using ⟨hc.ne_colon, hd.ne_colon⟩

/-- An octet in two digits is that octet. -/
theorem octet_pair (h : n < 256) : Octet (pair n) n := by
  have hdigit {k : Nat} (hk : k < 16) : IsDigit (Nat.digitChar k) k := ⟨hk, .inl rfl⟩
  have htwo := Octet.two (hdigit (by omega : n / 16 < 16)) (hdigit (Nat.mod_lt n (by decide)))
  rwa [Nat.div_add_mod] at htwo

/-- A group that denotes an octet is brought to the octet's two digits. -/
theorem Octet.group?_eq (h : Octet group n) : group? group = some (pair n) := by
  cases h with
  | one h =>
    have hlt := h.1
    rw [group?, if_pos h.isHex, h.toLower_eq, pair, Nat.div_eq_of_lt hlt, Nat.mod_eq_of_lt hlt]
    rfl
  | @two _ _ m n hc hd =>
    have hlt := hd.1
    have hhigh : (16 * m + n) / 16 = m := by omega
    have hlow : (16 * m + n) % 16 = n := by omega
    rw [group?, hc.isHex, hd.isHex, hc.toLower_eq, hd.toLower_eq, pair, hhigh, hlow]
    rfl

/-- A group that is accepted denotes an octet. -/
theorem exists_octet_of_group? (h : group? group = some group') : ∃ n, Octet group n := by
  match group with
  | [a] =>
    rw [group?] at h
    split at h
    · rename_i ha
      obtain ⟨n, hn⟩ := exists_isDigit_of_isHex ha
      exact ⟨n, .one hn⟩
    · cases h
  | [a, b] =>
    rw [group?] at h
    split at h
    · rename_i hab
      obtain ⟨ha, hb⟩ := Bool.and_eq_true_iff.mp hab
      obtain ⟨m, hm⟩ := exists_isDigit_of_isHex ha
      obtain ⟨n, hn⟩ := exists_isDigit_of_isHex hb
      exact ⟨_, .two hm hn⟩
    · cases h
  | [] | _ :: _ :: _ :: _ => cases h

/-- **A group that denotes an octet is brought to two digits**, and no other group is accepted. -/
theorem group?_eq_some_iff :
    group? group = some group' ↔ ∃ n, Octet group n ∧ group' = pair n := by
  constructor
  · intro h
    obtain ⟨n, hn⟩ := exists_octet_of_group? h
    exact ⟨n, hn, Option.some.inj (h.symm.trans hn.group?_eq)⟩
  · rintro ⟨n, hn, rfl⟩
    exact hn.group?_eq

/-- Groups are accepted together if each denotes an octet. -/
theorem mapM_group?_eq_some_iff : groups.mapM group? = some groups' ↔
    ∃ octets, List.Forall₂ Octet groups octets ∧ groups' = octets.map pair := by
  induction groups generalizing groups' with
  | nil => simp [eq_comm]
  | cons group groups ih =>
    simp only [List.mapM_cons, Option.bind_eq_bind, Option.bind_eq_some_iff, ih,
      group?_eq_some_iff, Option.pure_def, Option.some.injEq, List.forall₂_cons_left_iff]
    constructor
    · rintro ⟨_, ⟨n, hn, rfl⟩, _, ⟨octets, hoctets, rfl⟩, rfl⟩
      exact ⟨n :: octets, ⟨n, octets, hn, hoctets, rfl⟩, rfl⟩
    · rintro ⟨_, ⟨n, octets, hn, hoctets, rfl⟩, rfl⟩
      exact ⟨_, ⟨n, hn, rfl⟩, _, ⟨octets, hoctets, rfl⟩, rfl⟩

/-! ## Addresses -/

/-- **A text denotes an address**: six groups with colons between them, one for each octet. -/
structure Denotes (s : String) (octets : List Nat) : Prop where
  length : octets.length = 6
  groups : ∃ groups, s.toList = join [':'] groups ∧ List.Forall₂ Octet groups octets

/-- The octets of an address, each in two digits without capitals. -/
def written (octets : List Nat) : String := String.ofList (join [':'] (octets.map pair))

variable {s s' : String} {octets octets' : List Nat}

/-- The groups of an address are what stands between its colons. -/
theorem denotes_iff : Denotes s octets ↔
    octets.length = 6 ∧ List.Forall₂ Octet (splitOnChar ':' s.toList) octets := by
  constructor
  · rintro ⟨hlength, groups, hs, hgroups⟩
    have hcolon : ∀ group ∈ groups, ':' ∉ group :=
      ((List.forall₂_and_left _ _).mp (hgroups.imp fun _ _ h => ⟨h.colon_not_mem, h⟩)).1
    have hne : groups ≠ [] := by
      rintro rfl
      cases hgroups
      cases hlength
    rw [hs, Text.splitOnChar_join hne hcolon]
    exact ⟨hlength, hgroups⟩
  · rintro ⟨hlength, hgroups⟩
    exact ⟨hlength, _, (Text.join_splitOnChar ':' s.toList).symm, hgroups⟩

/-- A text denotes one address at most. -/
theorem Denotes.unique (h : Denotes s octets) (h' : Denotes s octets') : octets = octets' :=
  List.right_unique_forall₂' (fun _ _ _ h h' => h.unique h') (denotes_iff.mp h).2
    (denotes_iff.mp h').2

/-- **What is written denotes the octets again.** -/
theorem denotes_written (h : Denotes s octets) : Denotes (written octets) octets := by
  obtain ⟨groups, -, hgroups⟩ := h.groups
  have hlt : ∀ n ∈ octets, n < 256 :=
    ((List.forall₂_and_left _ _).mp (hgroups.flip.imp fun _ _ h => ⟨h.lt, h⟩)).1
  refine ⟨h.length, _, String.toList_ofList, ?_⟩
  rw [List.forall₂_map_left_iff, List.forall₂_same]
  exact fun n hn => octet_pair (hlt n hn)

/-- A text is accepted just if it denotes six octets, which then are what is written. -/
theorem canonicalChars?_eq_some_iff {cs : List Char} : canonicalChars? s.toList = some cs ↔
    ∃ octets, Denotes s octets ∧ cs = join [':'] (octets.map pair) := by
  simp only [canonicalChars?, denotes_iff, Option.bind_eq_bind, Option.bind_eq_some_iff,
    mapM_group?_eq_some_iff]
  constructor
  · rintro ⟨_, ⟨octets, hoctets, rfl⟩, h⟩
    split at h
    · rename_i hlength
      rw [List.length_map] at hlength
      exact ⟨octets, ⟨hlength, hoctets⟩, (Option.some.inj h).symm⟩
    · cases h
  · rintro ⟨octets, ⟨hlength, hoctets⟩, rfl⟩
    exact ⟨_, ⟨octets, hoctets, rfl⟩, if_pos (by rw [List.length_map, hlength])⟩

/-- **A text that denotes octets is brought to the form in which they are written**, and no other
text is accepted. -/
theorem canonical_cases (s : String) :
    (∃ octets, Denotes s octets ∧ canonical s = .ok (written octets)) ∨
      (∀ octets, ¬ Denotes s octets) ∧ canonical s = .error (.notAddress s) := by
  cases h : canonicalChars? s.toList with
  | some cs =>
    obtain ⟨octets, hs, rfl⟩ := canonicalChars?_eq_some_iff.mp h
    exact .inl ⟨octets, hs, by rw [canonical, h, written]⟩
  | none =>
    refine .inr ⟨fun octets hs => ?_, by rw [canonical, h]⟩
    have hsome := canonicalChars?_eq_some_iff.mpr ⟨octets, hs, rfl⟩
    rw [h] at hsome
    cases hsome

/-- A text that denotes octets is brought to the form in which these are written. -/
theorem Denotes.canonical_eq (h : Denotes s octets) : canonical s = .ok (written octets) := by
  obtain ⟨octets', h', heq⟩ | ⟨hnot, -⟩ := canonical_cases s
  · rw [heq, h.unique h']
  · exact absurd h (hnot octets)

theorem denotes_of_canonical_eq_ok {t : String} (h : canonical s = .ok t) :
    ∃ octets, Denotes s octets ∧ t = written octets := by
  obtain ⟨octets, hs, heq⟩ | ⟨-, heq⟩ := canonical_cases s
  · exact ⟨octets, hs, Except.ok.inj (h.symm.trans heq)⟩
  · rw [heq] at h
    cases h

/-- Texts have one canonical form exactly if they denote the same octets. -/
theorem canonical_eq_canonical_iff (h : Denotes s octets) (h' : Denotes s' octets') :
    canonical s = canonical s' ↔ octets = octets' := by
  rw [h.canonical_eq, h'.canonical_eq, Except.ok.injEq]
  refine ⟨fun heq => ?_, congrArg written⟩
  exact (denotes_written h).unique (heq ▸ denotes_written h')

/-! ## What is put under a key -/

variable {keys names : List String} {key : String} {v w : Value} {o o' : Object} {e : RoutineFault}

/-- What is put under a key for a value. -/
def canonicalUnder (keys : List String) (key : String) : Value → Except RoutineFault Value
  | .str s => if keys.contains key then (canonical s).map .str else .ok (.str s)
  | v => canonicalValue keys v

/-- Each field is looked at by itself, and the first that is not accepted ends it. -/
theorem canonicalFields_eq_mapM (o : Object) : canonicalFields keys o =
    o.mapM fun kv => (canonicalUnder keys kv.1 kv.2).map (kv.1, ·) := by
  induction o with
  | nil => rfl
  | cons kv rest ih =>
    obtain ⟨k, v⟩ := kv
    rw [List.mapM_cons, ← ih]
    cases v with
    | str s =>
      rw [canonicalFields, canonicalUnder]
      split
      · cases canonical s <;> rfl
      · rfl
    | obj fields =>
      rw [canonicalFields, canonicalUnder]
      · cases canonicalValue keys (.obj fields) <;> rfl
      · nofun
      · nofun
    | null | bool | num | arr => rfl

theorem canonicalValue_obj (o : Object) :
    canonicalValue keys (.obj o) = (canonicalFields keys o).map .obj := by
  rw [canonicalValue]
  cases canonicalFields keys o <;> rfl

/-- **What is put under a key**: the canonical form of a text, an object with what is put under its
keys, and all else as it was. -/
inductive Put (keys : List String) (key : String) : Value → Value → Prop
  | address {s : String} {octets : List Nat} (h : key ∈ keys) (hs : Denotes s octets) :
      Put keys key (.str s) (.str (written octets))
  | obj {o o' : Object} (h : canonicalFields keys o = .ok o') : Put keys key (.obj o) (.obj o')
  | same {v : Value} (ho : v.obj? = none) (hs : key ∈ keys → v.str? = none) : Put keys key v v

/-- If a value is accepted under a key, it is put there in one of three ways. -/
theorem put_of_canonicalUnder (h : canonicalUnder keys key v = .ok w) : Put keys key v w := by
  cases v with
  | str s =>
    rw [canonicalUnder] at h
    split at h
    · rename_i hkey
      obtain ⟨t, ht, rfl⟩ := map_eq_ok_iff.mp h
      obtain ⟨octets, hs, rfl⟩ := denotes_of_canonical_eq_ok ht
      exact .address (List.contains_iff_mem.mp hkey) hs
    · rename_i hkey
      cases h
      exact .same rfl fun hmem => absurd (List.contains_iff_mem.mpr hmem) hkey
  | obj o =>
    obtain ⟨o', ho, rfl⟩ := map_eq_ok_iff.mp ((canonicalValue_obj o).symm.trans h)
    exact .obj ho
  | null | bool | num | arr =>
    cases h
    exact .same rfl fun _ => rfl

/-- **What is refused under a key** is a text under one of the keys, or is refused in an object. -/
theorem refused_of_canonicalUnder (h : canonicalUnder keys key v = .error e) :
    (∃ s, v = .str s ∧ key ∈ keys ∧ canonical s = .error e) ∨
      ∃ o, v = .obj o ∧ canonicalFields keys o = .error e := by
  cases v with
  | str s =>
    rw [canonicalUnder] at h
    split at h
    · rename_i hkey
      exact .inl ⟨s, rfl, List.contains_iff_mem.mp hkey, map_eq_error_iff.mp h⟩
    · cases h
  | obj o =>
    exact .inr ⟨o, rfl, map_eq_error_iff.mp ((canonicalValue_obj o).symm.trans h)⟩
  | null | bool | num | arr => cases h

/-- Fields are accepted in order, each under its own key. -/
theorem exists_of_canonicalFields_cons {k : String} {rest : Object}
    (h : canonicalFields keys ((k, v) :: rest) = .ok o') :
    ∃ w rest', Put keys k v w ∧ canonicalFields keys rest = .ok rest' ∧ o' = (k, w) :: rest' := by
  rw [canonicalFields_eq_mapM, List.mapM_cons, ← canonicalFields_eq_mapM] at h
  obtain ⟨kw, hkw, h⟩ := exists_ok_of_bind h
  obtain ⟨rest', hrest, h⟩ := exists_ok_of_bind h
  obtain ⟨w, hw, rfl⟩ := map_eq_ok_iff.mp hkw
  cases h
  exact ⟨w, rest', put_of_canonicalUnder hw, hrest, rfl⟩

theorem keys_of_canonicalFields (h : canonicalFields keys o = .ok o') :
    Named.keys o' = Named.keys o := by
  induction o generalizing o' with
  | nil =>
    cases h
    rfl
  | cons kv rest ih =>
    obtain ⟨w, rest', -, hrest, rfl⟩ := exists_of_canonicalFields_cons h
    exact congrArg (kv.1 :: ·) (ih hrest)

/-- What stands under a key was put there for what stood there before. -/
theorem get?_of_canonicalFields (h : canonicalFields keys o = .ok o') (key : String) :
    Option.Rel (Put keys key) (Named.get? o key) (Named.get? o' key) := by
  induction o generalizing o' with
  | nil =>
    cases h
    exact .none
  | cons kv rest ih =>
    obtain ⟨w, rest', hw, hrest, rfl⟩ := exists_of_canonicalFields_cons h
    rw [Named.get?_cons, Named.get?_cons]
    split
    · rename_i hk
      exact .some (hk ▸ hw)
    · exact ih hrest

/-! ## Paths of names -/

/-- Whether a path of names ends in one of the keys. -/
def Listed (keys names : List String) : Prop := ∃ key ∈ names.getLast?, key ∈ keys

/-- **What becomes of a node**: a text under one of the keys is written in its canonical form, an
object has its names in their order, and all else is as it was. -/
inductive Becomes (listed : Prop) : Value → Value → Prop
  | address {s : String} {octets : List Nat} (h : listed) (hs : Denotes s octets) :
      Becomes listed (.str s) (.str (written octets))
  | obj {o o' : Object} (h : Named.keys o' = Named.keys o) : Becomes listed (.obj o) (.obj o')
  | same {v : Value} (ho : v.obj? = none) (hs : listed → v.str? = none) : Becomes listed v v

theorem listed_singleton : Listed keys [key] ↔ key ∈ keys := by simp [Listed]

/-- Only the last name on a path says whether a text is brought to its form. -/
theorem listed_cons (hne : names ≠ []) : Listed keys (key :: names) ↔ Listed keys names := by
  obtain ⟨name, names, rfl⟩ := List.exists_cons_of_ne_nil hne
  rw [Listed, List.getLast?_cons_cons, Listed]

theorem Listed.ne_nil (h : Listed keys names) : names ≠ [] := by
  rintro rfl
  obtain ⟨key, hkey, -⟩ := h
  cases hkey

theorem at?_obj_cons (o : Object) (key : String) (names : List String) :
    Tree.at? (Value.obj o) (key :: names) = (Named.get? o key).bind (Tree.at? · names) := rfl

/-- Below what is no object there is nothing. -/
theorem at?_cons_of_obj? (h : v.obj? = none) (key : String) (names : List String) :
    Tree.at? v (key :: names) = none := by
  have hchild : Tree.child? v key = none := by
    change Named.get? (v.obj?.getD []) key = none
    rw [h]
    rfl
  rw [Tree.at?_cons, hchild, Option.bind_none]

/-- What becomes of the nodes under a key, if it is known of objects. -/
theorem becomes_of_put (h : Put keys key v w)
    (hobj : ∀ o o', canonicalFields keys o = .ok o' → Option.Rel (Becomes (Listed keys names))
      (Tree.at? (Value.obj o) names) (Tree.at? (Value.obj o') names)) :
    Option.Rel (Becomes (Listed keys (key :: names))) (Tree.at? v names) (Tree.at? w names) := by
  cases names with
  | nil =>
    rw [listed_singleton]
    cases h with
    | address h hs => exact .some (.address h hs)
    | obj h => exact .some (.obj (keys_of_canonicalFields h))
    | same ho hs => exact .some (.same ho hs)
  | cons name names =>
    rw [listed_cons (List.cons_ne_nil name names)]
    cases h with
    | address h hs =>
      rw [at?_cons_of_obj? rfl, at?_cons_of_obj? rfl]
      exact .none
    | obj h => exact hobj _ _ h
    | same ho hs =>
      rw [at?_cons_of_obj? ho]
      exact .none

/-- **What becomes of each node**, found by its path of names. -/
theorem becomes_at? (h : canonicalFields keys o = .ok o') (names : List String) :
    Option.Rel (Becomes (Listed keys names)) (Tree.at? (Value.obj o) names)
      (Tree.at? (Value.obj o') names) := by
  induction names generalizing o o' with
  | nil => exact .some (.obj (keys_of_canonicalFields h))
  | cons key names ih =>
    have hput := get?_of_canonicalFields h key
    rw [at?_obj_cons, at?_obj_cons]
    generalize Named.get? o key = x, Named.get? o' key = y at hput
    cases hput with
    | none => exact .none
    | some hput => exact becomes_of_put hput fun _ _ h => ih h

/-- **What is refused is a text under one of the keys**, found by its path of names. -/
theorem exists_of_canonicalFields_eq_error (hn : (Value.obj o).Each { arrays := false } Distinct)
    (h : canonicalFields keys o = .error e) : ∃ names s, Listed keys names ∧
      Tree.at? (Value.obj o) names = some (.str s) ∧ canonical s = .error e := by
  generalize hv : Value.obj o = v at hn
  induction v using Value.partsInduction generalizing o with
  | arr items => cases hv
  | scalar v ha ho =>
    subst hv
    cases ho
  | obj fields ih =>
    cases hv
    obtain ⟨hfields, hvalues⟩ := Value.each_obj.mp hn
    rw [canonicalFields_eq_mapM] at h
    obtain ⟨⟨key, x⟩, hmem, hx⟩ := mem_of_mapM_eq_error h
    have hget : Named.get? fields key = some x := (Named.get?_eq_some_iff hfields).mpr hmem
    have hat (names : List String) :
        Tree.at? (Value.obj fields) (key :: names) = Tree.at? x names := by
      rw [at?_obj_cons, hget, Option.bind_some]
    obtain ⟨s, rfl, hkey, hs⟩ | ⟨o', rfl, ho'⟩ := refused_of_canonicalUnder (map_eq_error_iff.mp hx)
    · exact ⟨[key], s, listed_singleton.mpr hkey, hat [], hs⟩
    · obtain ⟨names, s, hlisted, hs, he⟩ := ih _ hmem ho' rfl (hvalues _ hmem rfl)
      exact ⟨key :: names, s, (listed_cons hlisted.ne_nil).mpr hlisted, (hat names).trans hs, he⟩

/-! ## Canonical forms -/

variable {args : Object}

/-- Of an object the routine makes an object, or nothing. -/
theorem run_obj (args o : Object) :
    run args (.obj o) = (canonicalFields (keysOf args) o).map .obj := canonicalValue_obj o

/-- Any keys can be given as arguments. -/
theorem keysOf_keys (keys : List String) : keysOf [("keys", .arr (keys.map .str))] = keys := by
  change (keys.map Value.str).filterMap Value.str? = keys
  rw [List.filterMap_map]
  exact List.filterMap_some

theorem becomes_of_run (h : run args (.obj o) = .ok w) (names : List String) :
    Option.Rel (Becomes (Listed (keysOf args) names)) (Tree.at? (Value.obj o) names)
      (Tree.at? w names) := by
  obtain ⟨o', ho', rfl⟩ := map_eq_ok_iff.mp ((run_obj args o).symm.trans h)
  exact becomes_at? ho' names

/-- An object that is not refused has addresses under its keys. -/
theorem exists_denotes_of_run (h : run args (.obj o) = .ok w) (hlisted : Listed (keysOf args) names)
    (hs : Tree.at? (Value.obj o) names = some (.str s)) : ∃ octets, Denotes s octets := by
  have hbecomes := becomes_of_run h names
  rw [hs] at hbecomes
  generalize Tree.at? w names = y at hbecomes
  cases hbecomes with
  | some hbecomes =>
    cases hbecomes with
    | address _ hs => exact ⟨_, hs⟩
    | same _ hstr => cases hstr hlisted

theorem exists_not_denotes_of_run (hn : (Value.obj o).Each { arrays := false } Distinct)
    (h : run args (.obj o) = .error e) : ∃ names s, Listed (keysOf args) names ∧
      Tree.at? (Value.obj o) names = some (.str s) ∧ (∀ octets, ¬ Denotes s octets) ∧
      e = .notAddress s := by
  have hfields := map_eq_error_iff.mp ((run_obj args o).symm.trans h)
  obtain ⟨names, s, hlisted, hs, he⟩ := exists_of_canonicalFields_eq_error hn hfields
  obtain ⟨octets, -, hok⟩ | ⟨hnot, herror⟩ := canonical_cases s
  · rw [hok] at he
    cases he
  · exact ⟨names, s, hlisted, hs, hnot, Except.error.inj (he.symm.trans herror)⟩

/-- **Addresses have one canonical form**: the texts that denote six octets are brought to the form
in which the octets are written, which denotes them and is left as it is, and no other texts are
accepted.  In an object the texts under the given keys that are reached by names alone are brought
to that form and nothing else is changed; it is refused exactly if one of them is. -/
theorem canonical_form :
    (∀ s, (∃ t, canonical s = .ok t) ↔ ∃ octets, Denotes s octets) ∧
      (∀ s octets, Denotes s octets → canonical s = .ok (written octets) ∧
        Denotes (written octets) octets ∧ canonical (written octets) = .ok (written octets) ∧
        ∀ s' octets', Denotes s' octets' → (canonical s = canonical s' ↔ octets = octets')) ∧
      (∀ keys, keysOf [("keys", .arr (keys.map .str))] = keys) ∧
      ∀ args (o : Object), (Value.obj o).Each { arrays := false } Distinct →
        ((∃ w, run args (.obj o) = .ok w) ↔ ∀ names s, Listed (keysOf args) names →
          Tree.at? (Value.obj o) names = some (.str s) → ∃ octets, Denotes s octets) ∧
        (∀ e, run args (.obj o) = .error e → ∃ names s, Listed (keysOf args) names ∧
          Tree.at? (Value.obj o) names = some (.str s) ∧ (∀ octets, ¬ Denotes s octets) ∧
          e = .notAddress s) ∧
        ∀ w, run args (.obj o) = .ok w → ∀ names, Option.Rel
          (Becomes (Listed (keysOf args) names)) (Tree.at? (Value.obj o) names)
          (Tree.at? w names) := by
  refine ⟨fun s => ⟨fun ⟨t, ht⟩ => ?_, fun ⟨octets, hs⟩ => ⟨_, hs.canonical_eq⟩⟩,
    fun s octets hs => ⟨hs.canonical_eq, denotes_written hs, (denotes_written hs).canonical_eq,
      fun s' octets' hs' => canonical_eq_canonical_iff hs hs'⟩,
    keysOf_keys, fun args o hn => ⟨⟨fun ⟨w, hw⟩ names s hlisted hs => ?_, fun h => ?_⟩,
      fun e he => exists_not_denotes_of_run hn he, fun w hw => becomes_of_run hw⟩⟩
  · obtain ⟨octets, hs, -⟩ := denotes_of_canonical_eq_ok ht
    exact ⟨octets, hs⟩
  · exact exists_denotes_of_run hw hlisted hs
  · cases hrun : run args (.obj o) with
    | ok w => exact ⟨w, rfl⟩
    | error e =>
      obtain ⟨names, s, hlisted, hs, hnot, -⟩ := exists_not_denotes_of_run hn hrun
      obtain ⟨octets, hdenotes⟩ := h names s hlisted hs
      exact absurd hdenotes (hnot octets)

/-- An address with short groups and capitals, below an object that has its key; an array, which is
not looked into; a text that is refused behind one that is not. -/
theorem canonical_form_two_interfaces :
    let s := "0:1:A:fF:2:3"
    let octets := [0, 1, 10, 255, 2, 3]
    let all : Value := .arr [.obj [("macAddress", .str "none")]]
    let o : Object :=
      [("macAddress", .obj [("name", .str "a:b"), ("macAddress", .str s)]), ("all", all)]
    let w : Value := .obj [("macAddress", .obj [("name", .str "a:b"),
      ("macAddress", .str "00:01:0a:ff:02:03")]), ("all", all)]
    let refused : Object := o ++ [("last", .obj [("macAddress", .str "zz:00")])]
    Denotes s octets ∧ canonical s = .ok "00:01:0a:ff:02:03" ∧
      (Value.obj o).Each { arrays := false } Distinct ∧ run [] (.obj o) = .ok w ∧
      (∀ names, Option.Rel (Becomes (Listed defaultKeys names)) (Tree.at? (Value.obj o) names)
        (Tree.at? w names)) ∧
      (Value.obj refused).Each { arrays := false } Distinct ∧
      ∃ names s, Listed defaultKeys names ∧
        Tree.at? (Value.obj refused) names = some (.str s) ∧ ∀ octets, ¬ Denotes s octets := by
  intro s octets all o w refused
  obtain ⟨-, htexts, -, hobjects⟩ := canonical_form
  have hs : Denotes s octets := by
    refine ⟨rfl, [['0'], ['1'], ['A'], ['f', 'F'], ['2'], ['3']], by decide, ?_⟩
    refine .cons (.one (by decide)) (.cons (.one (by decide)) (.cons (.one (by decide)) ?_))
    refine .cons ?_ (.cons (.one (by decide)) (.cons (.one (by decide)) .nil))
    exact .two (m := 15) (n := 15) (by decide) (by decide)
  have hwritten : written octets = "00:01:0a:ff:02:03" := by decide +kernel
  have hok : canonical s = .ok "00:01:0a:ff:02:03" := hwritten ▸ (htexts s octets hs).1
  have herror : canonical "zz:00" = .error (.notAddress "zz:00") := rfl
  have hlisted : (keysOf []).contains "macAddress" = true := rfl
  have hrun : run [] (.obj o) = .ok w := by
    simp only [run, o, all, canonicalValue, canonicalFields, hlisted, if_true, hok]
    rfl
  have hrefused : run [] (.obj refused) = .error (.notAddress "zz:00") := by
    simp only [run, refused, o, all, List.cons_append, List.nil_append, canonicalValue,
      canonicalFields, hlisted, if_true, hok, herror]
    rfl
  have hn : (Value.obj o).Each { arrays := false } Distinct := by decide
  have hn' : (Value.obj refused).Each { arrays := false } Distinct := by decide
  obtain ⟨names, s', hnames, hs', hnot, -⟩ := (hobjects [] refused hn').2.1 _ hrefused
  exact ⟨hs, hok, hn, hrun, (hobjects [] o hn).2.2 w hrun, hn', names, s', hnames, hs', hnot⟩

end DeviceStats.HardwareAddress
