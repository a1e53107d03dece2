import DeviceStats.Proofs.Json.Decoders
import Mathlib.Data.List.Pairwise

/-!
# Proofs/Json/Records — records written and read

What every field of a record keeps is known of the record that is read (`record_keeps`).

A record is written field by field, in the order of its fields, and a field that says nothing may be
left out.  `Writes` relates fields, what is written of them and the record read so far; what is
written so is read (`record_of_writes`).

An object may also give the fields in another order.  If they set different parts of the record, it
is read as if each field were looked up in its turn (`record_obj_lookUp`).
-/

namespace DeviceStats.Json

variable {α β ε σ : Type} {P : σ → Prop} {Q : α → Prop}

/-! ## What fields keep -/

/-- Whether all parts of an input are as asked for. -/
def Layer.Forall (Q : α → Prop) : Layer α → Prop
  | .arr items _ => ∀ a ∈ items, Q a
  | .obj fields _ => ∀ e ∈ fields, Q e.2
  | _ => True

theorem Layer.forall_true (l : Layer α) : l.Forall fun _ => True := by
  cases l <;> simp [Forall]

namespace Decoder

/-- Whether a field keeps what is known of a record, if something is known of its value. -/
def Keeps (P : σ → Prop) (Q : α → Prop) (f : Field α ε σ) : Prop :=
  ∀ a s s', Q a → P s → f.read a s = .ok s' → P s'

theorem readNamed_keeps [Input α] {fields : List (Field α ε σ)}
    (hfields : ∀ f ∈ fields, Keeps P Q f) :
    ∀ (entries : List (String × α)) (seen : List String) (s : σ) (r : List String × σ),
      (∀ e ∈ entries, Q e.2) → P s → readNamed fields entries seen s = .ok r → P r.2
  | [], _, _, _, _, hs, h => by
    cases h
    exact hs
  | (name, a) :: rest, seen, s, r, hq, hs, h => by
    obtain ⟨ha, hrest⟩ := List.forall_mem_cons.mp hq
    rw [readNamed] at h
    cases hfind : fields.find? (·.name == name) with
    | none =>
      rw [hfind] at h
      simp only at h
      split at h
      · cases h
      · exact readNamed_keeps hfields rest seen s r hrest hs h
    | some f =>
      rw [hfind] at h
      simp only at h
      split at h
      · cases h
      · obtain ⟨s', hread, h⟩ := exists_ok_of_bind h
        exact readNamed_keeps hfields rest _ s' r hrest
          (hfields f (List.mem_of_find?_eq_some hfind) a s s' ha hs hread) h

theorem readPlaced_keeps {name : String} {count : Nat} {fault? : Option Fault} :
    ∀ (i : Nat) (fields : List (Field α ε σ)) (items : List α) (s : σ)
      (r : List α × σ), (∀ f ∈ fields, Keeps P Q f) → (∀ a ∈ items, Q a) → P s →
      readPlaced name count fault? i fields items s = .ok r → P r.2
  | _, [], _, _, _, _, _, hs, h => by
    cases h
    exact hs
  | i, f :: fs, [], s, r, hf, hq, hs, h => by
    cases fault? with
    | some fault => cases h
    | none =>
      simp only [readPlaced] at h
      split at h
      · cases h
      · exact readPlaced_keeps (i + 1) fs [] s r (List.forall_mem_cons.mp hf).2 hq hs h
  | i, f :: fs, a :: items, s, r, hf, hq, hs, h => by
    obtain ⟨ha, hitems⟩ := List.forall_mem_cons.mp hq
    obtain ⟨hf, hfs⟩ := List.forall_mem_cons.mp hf
    rw [readPlaced] at h
    obtain ⟨s', hread, h⟩ := exists_ok_of_bind h
    exact readPlaced_keeps (i + 1) fs items s' r hfs hitems (hf a s s' ha hs hread) h

/-- **What every field keeps is known of the record.** -/
theorem record_keeps [Input α] {name : String} {fields : List (Field α ε σ)} {start s : σ} {a : α}
    (hfields : ∀ f ∈ fields, Keeps P Q f) (hparts : ∀ l, Input.layer a = .ok l → l.Forall Q)
    (h : record name fields start a = .ok s) (hstart : P start) : P s := by
  obtain ⟨l, hl, hlayer⟩ := exists_ok_of_bind h
  have hq := hparts l (ok_of_mapError hl)
  cases l with
  | obj entries fault? =>
    obtain ⟨r, hread, hclose⟩ := exists_ok_of_bind hlayer
    obtain ⟨⟨seen, s'⟩, heq, hend⟩ := exists_ok_of_bind hclose
    obtain rfl : r = (seen, s') := eq_of_close heq
    have hP : P s' := readNamed_keeps hfields entries [] start _ hq hstart hread
    simp only at hend
    split at hend <;> cases hend
    exact hP
  | arr items fault? =>
    obtain ⟨⟨left, s'⟩, hread, hend⟩ := exists_ok_of_bind hlayer
    have hP : P s' := readPlaced_keeps 0 fields items start _ hfields hq hstart hread
    simp only at hend
    split at hend
    · exact eq_of_close hend ▸ hP
    · cases hend
  | _ => cases hlayer

/-- A field keeps what is known if its set does, given what is known of what it reads. -/
theorem keeps_given_of {R : β → Prop} {name : String} {decoder : Decoder α ε β} {set : σ → β → σ}
    (hdecoder : ∀ a b, Q a → decoder a = .ok b → R b) (hset : ∀ s b, R b → P s → P (set s b)) :
    Keeps P Q (.given name decoder set) := by
  intro a s s' ha hs h
  obtain ⟨b, hb, h⟩ := exists_ok_of_bind h
  cases h
  exact hset s b (hdecoder a b ha hb) hs

/-- A field that sets what is not asked about keeps what is known. -/
theorem keeps_given {name : String} {decoder : Decoder α ε β} {set : σ → β → σ}
    (hset : ∀ s b, P s → P (set s b)) : Keeps P Q (.given name decoder set) :=
  keeps_given_of (R := fun _ => True) (fun _ _ _ _ => trivial) fun s b _ => hset s b

/-- An optional field keeps what is known if its set does, given what is known of values that are
read. -/
theorem keeps_optional {Q : Value → Prop} {R : β → Prop} {name : String}
    {decoder : Decoder Value ε β} {set : σ → Option β → σ}
    (hdecoder : ∀ v b, v ≠ .null → Q v → decoder v = .ok b → R b)
    (hset : ∀ s b?, (∀ b ∈ b?, R b) → P s → P (set s b?)) :
    Keeps P Q (.given name (optional decoder) set) := by
  refine keeps_given_of (R := fun b? => ∀ b ∈ b?, R b) ?_ hset
  rintro v _ hv h b rfl
  obtain ⟨hne, hread⟩ := optional_eq_some_iff.mp h
  exact hdecoder v b hne hv hread

theorem keeps_needed {name : String} {decoder : Decoder α ε β} {set : σ → β → σ}
    (hset : ∀ s b, P s → P (set s b)) : Keeps P Q (.needed name decoder set) := by
  intro a s s' _ hs h
  obtain ⟨b, -, h⟩ := exists_ok_of_bind h
  cases h
  exact hset s b hs

/-! ## Fields in their order -/

theorem read_needed (name : String) (decoder : Decoder α ε β) (set : σ → β → σ) (a : α) (s : σ) :
    (Field.needed name decoder set).read a s = (decoder a).map (set s) := by
  change (decoder a >>= fun b => .ok (set s b)) = _
  cases decoder a <;> rfl

theorem read_given (name : String) (decoder : Decoder α ε β) (set : σ → β → σ) (a : α) (s : σ) :
    (Field.given name decoder set).read a s = (decoder a).map (set s) :=
  read_needed name decoder set a s

/-- A record is read from an object field by field, and no field that must be given may lack. -/
theorem record_obj_iff {name : String} {fields : List (Field Value ε σ)} {start s : σ}
    {o : List (String × Value)} :
    record name fields start (.obj o) = .ok s ↔
      ∃ seen, readNamed fields o [] start = .ok (seen, s) ∧
        ∀ f ∈ fields, f.required = true → f.name ∈ seen := by
  have hnone (seen : List String) :
      (fields.find? fun f => f.required && !seen.contains f.name) = none ↔
        ∀ f ∈ fields, f.required = true → f.name ∈ seen := by
    simp
  change (readNamed fields o [] start >>= fun read => close none read >>= _) = _ ↔ _
  rcases readNamed fields o [] start with e | ⟨seen, t⟩
  · exact ⟨nofun, nofun⟩
  · have hclose : close none (seen, t) = (.ok (seen, t) : Except (DecodeError ε) _) := rfl
    simp only [bind, Except.bind, hclose, Except.ok.injEq, Prod.mk.injEq]
    cases hfind : fields.find? fun f => f.required && !seen.contains f.name with
    | some f =>
      refine ⟨nofun, ?_⟩
      rintro ⟨_, ⟨rfl, _⟩, h⟩
      rw [(hnone seen).mpr h] at hfind
      cases hfind
    | none =>
      exact ⟨fun h => ⟨seen, ⟨rfl, Except.ok.inj h⟩, (hnone seen).mp hfind⟩,
        fun ⟨_, ⟨_, h⟩, _⟩ => congrArg Except.ok h⟩

theorem find?_name {fields : List (Field α ε σ)} (hn : (fields.map (·.name)).Nodup)
    {f : Field α ε σ} (hf : f ∈ fields) : fields.find? (·.name == f.name) = some f := by
  induction fields with
  | nil => exact absurd hf List.not_mem_nil
  | cons g fields ih =>
    obtain ⟨hout, hn⟩ := List.nodup_cons.mp hn
    rcases List.mem_cons.mp hf with rfl | hf
    · rw [List.find?_cons, beq_self_eq_true]
    · have hne : (g.name == f.name) = false := beq_eq_false_iff_ne.mpr fun heq =>
        hout (List.mem_map.mpr ⟨f, hf, heq.symm⟩)
      rw [List.find?_cons, hne, ih hn hf]

/-- What is written of fields, in their order, and what it makes of a record.  A field that need not
be given may be left out. -/
inductive Writes : List (Field α ε σ) → List (String × α) → σ → σ → Prop
  | nil (s : σ) : Writes [] [] s s
  | skip {f : Field α ε σ} {fields : List (Field α ε σ)} {es : List (String × α)} {s t : σ}
      (hf : f.required = false) (h : Writes fields es s t) : Writes (f :: fields) es s t
  | cons {f : Field α ε σ} {fields : List (Field α ε σ)} {es : List (String × α)} {a : α}
      {s s' t : σ} (hread : f.read a s = .ok s') (h : Writes fields es s' t) :
      Writes (f :: fields) ((f.name, a) :: es) s t

namespace Writes

variable {fields : List (Field Value ε σ)} {es : List (String × Value)} {s t : σ} {name : String}
  {decoder : Decoder Value ε β}

theorem needed {set : σ → β → σ} {v : Value} {b : β} (hv : decoder v = .ok b)
    (h : Writes fields es (set s b) t) :
    Writes (.needed name decoder set :: fields) ((name, v) :: es) s t :=
  .cons (by rw [read_needed, hv]; rfl) h

theorem given {set : σ → β → σ} {v : Value} {b : β} (hv : decoder v = .ok b)
    (h : Writes fields es (set s b) t) :
    Writes (.given name decoder set :: fields) ((name, v) :: es) s t :=
  .cons (by rw [read_given, hv]; rfl) h

/-- A field that has nothing to say is left out. -/
theorem given_unless {set : σ → β → σ} {v : Value} {b : β} {p : Prop} [Decidable p]
    (hp : p → set s b = s) (hv : decoder v = .ok b) (h : Writes fields es (set s b) t) :
    Writes (.given name decoder set :: fields) ((if p then [] else [(name, v)]) ++ es) s t := by
  split
  · rename_i hpos
    exact .skip rfl (hp hpos ▸ h)
  · exact .given hv h

variable {write : β → Value} {set : σ → Option β → σ} {b? : Option β}

/-- An optional field is written if it has a value, which is never written as null. -/
theorem optional (hset : set s none = s)
    (hb : ∀ b ∈ b?, write b ≠ .null ∧ decoder (write b) = .ok b)
    (h : Writes fields es (set s b?) t) :
    Writes (.given name (Decoder.optional decoder) set :: fields)
      ((b?.map fun b => (name, write b)).toList ++ es) s t := by
  cases b? with
  | none => exact .skip rfl (hset ▸ h)
  | some b =>
    obtain ⟨hne, hread⟩ := hb b rfl
    exact .given (optional_some hread hne) h

theorem optional_last (hset : set s none = s)
    (hb : ∀ b ∈ b?, write b ≠ .null ∧ decoder (write b) = .ok b) :
    Writes [.given name (Decoder.optional decoder) set]
      (b?.map fun b => (name, write b)).toList s (set s b?) := by
  rw [← List.append_nil (b?.map fun b => (name, write b)).toList]
  exact optional hset hb (.nil _)

end Writes

/-- A record is read on from what is written of its later fields. -/
theorem readNamed_of_writes {all fields : List (Field Value ε σ)} {es : List (String × Value)}
    {s t : σ} (h : Writes fields es s t) (hn : (fields.map (·.name)).Nodup)
    (hall : ∀ f ∈ fields, all.find? (·.name == f.name) = some f) (seen : List String)
    (hseen : ∀ f ∈ fields, f.name ∉ seen) :
    ∃ seen', readNamed all es seen s = .ok (seen', t) ∧ (∀ name ∈ seen, name ∈ seen') ∧
      ∀ f ∈ fields, f.required = true → f.name ∈ seen' := by
  induction h generalizing seen with
  | nil s => exact ⟨seen, rfl, fun _ h => h, by simp⟩
  | skip hf _ ih =>
    obtain ⟨-, hn⟩ := List.nodup_cons.mp hn
    obtain ⟨seen', hread, hkept, hreq⟩ := ih hn (List.forall_mem_cons.mp hall).2 seen
      (List.forall_mem_cons.mp hseen).2
    refine ⟨seen', hread, hkept, List.forall_mem_cons.mpr ⟨fun h => ?_, hreq⟩⟩
    rw [hf] at h
    cases h
  | @cons f fields es a s s' t hf _ ih =>
    obtain ⟨hout, hn⟩ := List.nodup_cons.mp hn
    obtain ⟨hfind, hall⟩ := List.forall_mem_cons.mp hall
    obtain ⟨hnew, hseen⟩ := List.forall_mem_cons.mp hseen
    obtain ⟨seen', hread, hkept, hreq⟩ := ih hn hall (f.name :: seen) fun g hg hmem => by
      rcases List.mem_cons.mp hmem with heq | hmem
      · exact hout (List.mem_map.mpr ⟨g, hg, heq⟩)
      · exact hseen g hg hmem
    have hin : f.name ∈ seen' := hkept _ List.mem_cons_self
    refine ⟨seen', ?_, fun n h => hkept n (List.mem_cons_of_mem _ h),
      List.forall_mem_cons.mpr ⟨fun _ => hin, hreq⟩⟩
    have hnot : seen.contains f.name = false := by simpa using hnew
    simp only [readNamed, hfind, hnot, hf]
    exact hread

/-- **What is written of the fields of a record is read.** -/
theorem record_of_writes {name : String} {fields : List (Field Value ε σ)}
    {es : List (String × Value)} {start s : σ} (hn : (fields.map (·.name)).Nodup)
    (h : Writes fields es start s) : record name fields start (Value.obj es) = .ok s := by
  obtain ⟨seen, hread, -, hreq⟩ := readNamed_of_writes h hn (fun _ => find?_name hn) []
    fun _ _ => List.not_mem_nil
  exact record_obj_iff.mpr ⟨seen, hread, hreq⟩

/-! ## Fields in any order -/

/-- What a record becomes when a field of it is read, if it can be. -/
def reading (s? : Option σ) (fa : Field α ε σ × α) : Option σ :=
  s?.bind fun s => (fa.1.read fa.2 s).toOption

/-- The fields that named inputs give, in the order of the names. -/
def asked (fields : List (Field α ε σ)) (o : List (String × α)) : List (Field α ε σ × α) :=
  o.filterMap fun kv => (fields.find? (·.name == kv.1)).map fun f => (f, kv.2)

/-- The record in which each field that is given has been read, in the order of the fields. -/
def lookUp (o : Named α) (fields : List (Field α ε σ)) (s? : Option σ) : Option σ :=
  (fields.filterMap fun f => (o.get? f.name).map fun a => (f, a)).foldl reading s?

theorem name_of_find? {fields : List (Field α ε σ)} {name : String} {f : Field α ε σ}
    (h : fields.find? (·.name == name) = some f) : f.name = name := by
  simpa using List.find?_some h

theorem foldl_reading_none (asked : List (Field α ε σ × α)) : asked.foldl reading none = none := by
  induction asked with
  | nil => rfl
  | cons fa asked ih => exact ih

theorem asked_cons_of_none {fields : List (Field α ε σ)} {name : String}
    (h : fields.find? (·.name == name) = none) (a : α) (o : List (String × α)) :
    asked fields ((name, a) :: o) = asked fields o := by
  rw [asked, List.filterMap_cons, h]
  rfl

theorem asked_cons_of_some {fields : List (Field α ε σ)} {name : String} {f : Field α ε σ}
    (h : fields.find? (·.name == name) = some f) (a : α) (o : List (String × α)) :
    asked fields ((name, a) :: o) = (f, a) :: asked fields o := by
  rw [asked, List.filterMap_cons, h]
  rfl

theorem readNamed_iff {fields : List (Field Value ε σ)} {o : Object} {seen seen' : List String}
    {s t : σ} (hn : Distinct o) (hseen : ∀ name ∈ seen, name ∉ Named.keys o) :
    readNamed fields o seen s = .ok (seen', t) ↔
      (asked fields o).foldl reading (some s) = some t ∧
        seen' = ((asked fields o).map (·.1.name)).reverse ++ seen := by
  induction o generalizing seen s with
  | nil => simp [readNamed, asked, eq_comm, and_comm]
  | cons kv rest ih =>
    obtain ⟨name, a⟩ := kv
    obtain ⟨hout, hn⟩ := List.nodup_cons.mp hn
    cases hfind : fields.find? (·.name == name) with
    | none =>
      rw [readNamed, hfind, asked_cons_of_none hfind]
      exact ih hn fun n hn hmem => hseen n hn (List.mem_cons_of_mem _ hmem)
    | some f =>
      have hname : f.name = name := name_of_find? hfind
      have hnot : seen.contains name = false := by
        rw [← Bool.not_eq_true, List.contains_iff_mem]
        exact fun hmem => hseen name hmem List.mem_cons_self
      simp only [readNamed, hfind, hnot, asked_cons_of_some hfind, List.foldl_cons, reading,
        Option.bind_some]
      cases hread : f.read a s with
      | error e => simp [Except.toOption, foldl_reading_none, bind, Except.bind]
      | ok s' =>
        have hseen' : ∀ n ∈ name :: seen, n ∉ Named.keys rest := by
          intro n hmem hrest
          rcases List.mem_cons.mp hmem with rfl | hmem
          · exact hout hrest
          · exact hseen n hmem (List.mem_cons_of_mem _ hrest)
        refine (ih hn hseen').trans ?_
        simp [Except.toOption, hname]

theorem mem_asked {fields : List (Field Value ε σ)} {o : Object}
    (hfields : (fields.map (·.name)).Nodup) {f : Field Value ε σ} {a : Value} :
    (f, a) ∈ asked fields o ↔ f ∈ fields ∧ (f.name, a) ∈ o := by
  simp only [asked, List.mem_filterMap, Option.map_eq_some_iff, Prod.mk.injEq]
  constructor
  · rintro ⟨⟨name, v⟩, hmem, g, hfind, rfl, rfl⟩
    exact ⟨List.mem_of_find?_eq_some hfind, name_of_find? hfind ▸ hmem⟩
  · rintro ⟨hf, hmem⟩
    exact ⟨(f.name, a), hmem, f, find?_name hfields hf, rfl, rfl⟩

/-- Whether it does not matter which of two fields is read first. -/
def Commute (f g : Field α ε σ) : Prop :=
  ∀ a b s, reading (reading (some s) (f, a)) (g, b) = reading (reading (some s) (g, b)) (f, a)

instance : Std.Symm (Commute : Field α ε σ → Field α ε σ → Prop) :=
  ⟨fun _ _ h a b s => (h b a s).symm⟩

/-- Fields that set different parts of a record may be read in any order. -/
theorem commute_given {γ : Type} {name name' : String} {decoder : Decoder α ε β}
    {decoder' : Decoder α ε γ} {set : σ → β → σ} {set' : σ → γ → σ}
    (h : ∀ s b c, set' (set s b) c = set (set' s c) b) :
    Commute (.given name decoder set) (.given name' decoder' set') := by
  intro a b s
  simp only [reading, read_given, Option.bind_some]
  cases decoder a <;> cases decoder' b <;> simp [Except.map, Except.toOption, h]

/-- What is asked of an object is what its fields look up, in another order. -/
theorem asked_perm {fields : List (Field Value ε σ)} {o : Object} (hn : Distinct o)
    (hfields : (fields.map (·.name)).Nodup) :
    (asked fields o).Perm
      (fields.filterMap fun f => (o.get? f.name).map fun a => (f, a)) := by
  refine (List.perm_ext_iff_of_nodup ?_ ?_).mpr fun ⟨f, a⟩ => ?_
  · refine (List.Nodup.of_map Prod.fst hn).filterMap ?_
    rintro ⟨k, v⟩ ⟨k', v'⟩ ⟨f, a⟩ h h'
    obtain ⟨g, hfind, heq⟩ := Option.map_eq_some_iff.mp h
    obtain ⟨g', hfind', heq'⟩ := Option.map_eq_some_iff.mp h'
    cases heq
    cases heq'
    exact Prod.ext ((name_of_find? hfind).symm.trans (name_of_find? hfind')) rfl
  · refine (List.Nodup.of_map _ hfields).filterMap ?_
    rintro f g ⟨h, a⟩ hf hg
    obtain ⟨v, -, heq⟩ := Option.map_eq_some_iff.mp hf
    obtain ⟨w, -, heq'⟩ := Option.map_eq_some_iff.mp hg
    cases heq
    cases heq'
    rfl
  · rw [mem_asked hfields, ← Named.get?_eq_some_iff hn]
    simp [List.mem_filterMap]

/-- **An object is read as if its fields were looked up one after the other**, if they set
different parts of a record. -/
theorem record_obj_lookUp {name : String} {fields : List (Field Value ε σ)} {start s : σ}
    {o : Object} (hn : Distinct o) (hfields : (fields.map (·.name)).Nodup)
    (hcomm : fields.Pairwise Commute) (hreq : ∀ f ∈ fields, f.required = false) :
    record name fields start (.obj o) = .ok s ↔ lookUp o fields (some start) = some s := by
  have hperm := asked_perm hn hfields
  have hfold : (asked fields o).foldl reading (some start) = lookUp o fields (some start) := by
    refine hperm.foldl_eq' (fun x hx y hy z => ?_) _
    obtain ⟨hxf, hxo⟩ := (mem_asked hfields).mp hx
    obtain ⟨hyf, hyo⟩ := (mem_asked hfields).mp hy
    cases z with
    | none => rfl
    | some s =>
      by_cases hxy : x.1 = y.1
      · rw [hxy, ← Named.get?_eq_some_iff hn, (Named.get?_eq_some_iff hn).mpr hyo] at hxo
        rw [Prod.ext hxy (Option.some.inj hxo).symm]
      · exact hcomm.forall hxf hyf hxy x.2 y.2 s
  rw [record_obj_iff, ← hfold]
  simp only [readNamed_iff hn fun _ h => absurd h List.not_mem_nil]
  constructor
  · rintro ⟨seen, ⟨h, -⟩, -⟩
    exact h
  · exact fun h => ⟨_, ⟨h, rfl⟩, fun f hf hr => absurd hr (by rw [hreq f hf]; nofun)⟩

/-- What a field that need not be given comes to: what it starts with, or what is read. -/
def Given (decoder : Decoder α ε β) (a? : Option α) (start b : β) : Prop :=
  match a? with
  | none => b = start
  | some a => decoder a = .ok b

theorem lookUp_given {o : Object} {name : String} {decoder : Decoder Value ε β} {set : σ → β → σ}
    {fields : List (Field Value ε σ)} {s t : σ} (start : β) (hstart : set s start = s) :
    lookUp o (.given name decoder set :: fields) (some s) = some t ↔
      ∃ b, Given decoder (o.get? name) start b ∧ lookUp o fields (some (set s b)) = some t := by
  have hname : (Field.given name decoder set).name = name := rfl
  rw [lookUp, List.filterMap_cons, hname]
  cases hget : o.get? name with
  | none =>
    simp only [Option.map_none, Given, ↓existsAndEq, hstart, true_and]
    rfl
  | some a =>
    simp only [Option.map_some, List.foldl_cons, reading, Option.bind_some, read_given, Given]
    cases hread : decoder a with
    | error e => simp [Except.map, Except.toOption, foldl_reading_none]
    | ok b =>
      simp only [Except.map, Except.toOption, Except.ok.injEq, ↓existsAndEq, true_and]
      rfl

/-- Null and a missing value leave an optional field empty, and any other value is read. -/
theorem given_optional {decoder : Decoder Value ε β} {v? : Option Value} {b? : Option β} :
    Given (optional decoder) v? none b? ↔
      Option.Rel (fun v b => decoder v = .ok b) (v?.filter (!·.isNull)) b? := by
  cases v? with
  | none => cases b? <;> simp [Given]
  | some v =>
    by_cases hv : v = .null
    · have hnone : optional decoder v = .ok none := hv ▸ rfl
      have hfilter : (some v).filter (!·.isNull) = none := hv ▸ rfl
      rw [hfilter, Given, hnone]
      cases b? <;> simp
    · have hfilter : (some v).filter (!·.isNull) = some v := by
        cases v <;> first | exact absurd rfl hv | rfl
      rw [hfilter, Given, optional_of_ne_null hv]
      cases b? <;> cases h : decoder v <;> simp [Except.map, h]

end Decoder

end DeviceStats.Json
