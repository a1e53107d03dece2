import DeviceStats.Conditional
import DeviceStats.Json.Decode
import DeviceStats.Proofs.Json.Names
import DeviceStats.Proofs.Json.Objects

/-!
# Proofs/Json/Decoders — what values are read to

What is known of lists, of named values, of what may be null and of what is one of several things
when they have been read, and how each is read back from what is written of its parts.
-/

namespace DeviceStats.Json

variable {α β ε : Type}

/-- A container that ends without a fault gives what was read in it. -/
theorem Source.eq_of_close {fault? : Option Fault} {b c : β} (h : close fault? b = .ok c) :
    b = c := by
  cases fault? with
  | none => exact Except.ok.inj h
  | some f => cases h

namespace Decoder

/-- Renaming the errors of a computation leaves its results alone. -/
theorem ok_of_mapError {ε' : Type} {f : ε → ε'} {x : Except ε β} {b : β}
    (h : x.mapError f = .ok b) : x = .ok b := by
  cases x with
  | error e => cases h
  | ok c => exact congrArg Except.ok (Except.ok.inj h)

theorem map_eq_ok_iff {f : α → β} {x : Except ε α} {b : β} :
    x.map f = .ok b ↔ ∃ a, x = .ok a ∧ f a = b := by
  cases x <;> simp [Except.map]

theorem map_eq_error_iff {f : α → β} {x : Except ε α} {e : ε} :
    x.map f = .error e ↔ x = .error e := by
  cases x <;> simp [Except.map]

theorem eq_of_close {fault? : Option Fault} {b c : β}
    (h : close fault? b = (.ok c : Except (DecodeError ε) β)) : b = c :=
  Source.eq_of_close (ok_of_mapError h)

/-! ## What is read -/

theorem bind_eq_ok {γ : Type} {x : Except ε β} {f : β → Except ε γ} {b : β} {c : γ}
    (hx : x = .ok b) (hf : f b = .ok c) : x >>= f = .ok c := by
  rw [hx]
  exact hf

/-- Each result for a list is the result for one of its elements. -/
theorem mem_of_mapM_eq_ok {f : α → Except ε β} {as : List α} {bs : List β}
    (h : as.mapM f = .ok bs) {b : β} (hb : b ∈ bs) : ∃ a ∈ as, f a = .ok b := by
  induction as generalizing bs with
  | nil =>
    cases h
    cases hb
  | cons a as ih =>
    rw [List.mapM_cons] at h
    obtain ⟨c, hc, h⟩ := exists_ok_of_bind h
    obtain ⟨cs, hcs, h⟩ := exists_ok_of_bind h
    cases h
    rcases List.mem_cons.mp hb with rfl | hb
    · exact ⟨a, List.mem_cons_self, hc⟩
    · obtain ⟨a', ha', hb⟩ := ih hcs hb
      exact ⟨a', List.mem_cons_of_mem a ha', hb⟩

/-- If a whole list can be read, so can each of its elements. -/
theorem exists_ok_of_mapM_eq_ok {f : α → Except ε β} {as : List α} {bs : List β}
    (h : as.mapM f = .ok bs) {a : α} (ha : a ∈ as) : ∃ b, f a = .ok b := by
  induction as generalizing bs with
  | nil => cases ha
  | cons a' as ih =>
    rw [List.mapM_cons] at h
    obtain ⟨b, hb, h⟩ := exists_ok_of_bind h
    obtain ⟨cs, hcs, -⟩ := exists_ok_of_bind h
    rcases List.mem_cons.mp ha with rfl | ha
    · exact ⟨b, hb⟩
    · exact ih hcs ha

/-- The error for a list is the error for one of its elements, so a list of elements that can be
read is read. -/
theorem mem_of_mapM_eq_error {f : α → Except ε β} {as : List α} {e : ε}
    (h : as.mapM f = .error e) : ∃ a ∈ as, f a = .error e := by
  induction as with
  | nil => cases h
  | cons a as ih =>
    rw [List.mapM_cons] at h
    cases ha : f a with
    | error e' =>
      rw [ha] at h
      cases h
      exact ⟨a, List.mem_cons_self, ha⟩
    | ok b =>
      cases has : as.mapM f with
      | error e' =>
        rw [ha, has] at h
        cases h
        obtain ⟨c, hc, hce⟩ := ih has
        exact ⟨c, List.mem_cons_of_mem a hc, hce⟩
      | ok bs =>
        rw [ha, has] at h
        cases h

/-- Each element of a list that was read has been read by the decoder of the elements. -/
theorem mem_of_list [Input α] {decoder : Decoder α ε β} {a : α} {bs : List β}
    (h : list decoder a = .ok bs) {b : β} (hb : b ∈ bs) : ∃ c, decoder c = .ok b := by
  obtain ⟨l, -, h⟩ := exists_ok_of_bind h
  cases l with
  | arr items fault? =>
    obtain ⟨cs, hcs, h⟩ := exists_ok_of_bind h
    obtain ⟨c, -, hc⟩ := mem_of_mapM_eq_ok hcs (eq_of_close h ▸ hb)
    exact ⟨c, hc⟩
  | _ => cases h

/-- No name stands twice among named values that are read. -/
theorem nodup_keys_of_named [Input α] {decoder : Decoder α ε β} {a : α} {o : Named β}
    (h : named decoder a = .ok o) : (Named.keys o).Nodup := by
  obtain ⟨l, -, h⟩ := exists_ok_of_bind h
  cases l with
  | obj fields fault? =>
    obtain ⟨pairs, -, h⟩ := exists_ok_of_bind h
    exact eq_of_close h ▸ Named.nodup_keys_ofPairs pairs
  | _ => cases h

/-- Only null stands for nothing: any other value is for the decoder to read. -/
theorem optional_of_ne_null {decoder : Decoder Value ε β} {v : Value} (h : v ≠ .null) :
    optional decoder v = (decoder v).map some := by
  cases v with
  | null => exact absurd rfl h
  | bool | num | str | arr | obj => rfl

/-- What is read where null stands for nothing is read from another value than null. -/
theorem optional_eq_some_iff {decoder : Decoder Value ε β} {v : Value} {b : β} :
    optional decoder v = .ok (some b) ↔ v ≠ .null ∧ decoder v = .ok b := by
  by_cases hv : v = .null
  · rw [hv]
    exact ⟨nofun, fun h => absurd rfl h.1⟩
  · rw [optional_of_ne_null hv, map_eq_ok_iff]
    simp [hv]

/-- What is chosen is read by one of the decoders. -/
theorem exists_of_choice {name : String} {decoders : List (Decoder α ε β)} {a : α} {b : β}
    (h : choice name decoders a = .ok b) : ∃ decoder ∈ decoders, decoder a = .ok b := by
  unfold choice at h
  split at h
  · rename_i c hc
    cases h
    obtain ⟨decoder, hmem, hread⟩ := List.exists_of_findSome?_eq_some hc
    refine ⟨decoder, hmem, ?_⟩
    cases hd : decoder a with
    | error e =>
      rw [hd] at hread
      cases hread
    | ok c =>
      rw [hd] at hread
      exact congrArg Except.ok (Option.some.inj hread)
  · cases h

/-! ## What is read back -/

/-- What is there is read back as something that is there, unless it would be written as null. -/
theorem optional_some {decoder : Decoder Value ε β} {v : Value} {b : β} (h : decoder v = .ok b)
    (hv : v ≠ .null) : optional decoder v = .ok (some b) :=
  optional_eq_some_iff.mpr ⟨hv, h⟩

/-- An object of one field with a known name is a variant of that name. -/
theorem variant_obj {known : List String} {name : String} (h : known.contains name = true)
    (content : Value) :
    (variant known (.obj [(name, content)]) : Except (DecodeError ε) _) = .ok (name, content) :=
  if_pos h

/-- A choice takes the first reading that succeeds, … -/
theorem choice_cons_of_ok {name : String} {decoder : Decoder α ε β} {others : List (Decoder α ε β)}
    {a : α} {b : β} (h : decoder a = .ok b) : choice name (decoder :: others) a = .ok b := by
  simp [choice, h, Except.toOption]

/-- … and a reading that fails leaves it to the others. -/
theorem choice_cons_of_error {name : String} {decoder : Decoder α ε β}
    {others : List (Decoder α ε β)} {a : α} {e : DecodeError ε} (h : decoder a = .error e) :
    choice name (decoder :: others) a = choice name others a := by
  simp [choice, h, Except.toOption]

theorem size_ofNat (n : Nat) : (size (Value.ofNat n) : Except (DecodeError ε) Nat) = .ok n := by
  have h : (0 : Int) ≤ n := Int.natCast_nonneg n
  change (if (0 : Int) ≤ n then Except.ok (n : Int).toNat
    else mismatch (.wrongValue (.num (.int n)) .size)) = _
  rw [if_pos h, Int.toNat_natCast]

/-- Where every element can be read, so can the list, in its order. -/
theorem mapM_eq_ok_map {f : α → Except ε β} {g : α → β} {as : List α}
    (h : ∀ a ∈ as, f a = .ok (g a)) : as.mapM f = .ok (as.map g) := by
  induction as with
  | nil => rfl
  | cons a as ih =>
    obtain ⟨ha, has⟩ := List.forall_mem_cons.mp h
    rw [List.mapM_cons, ha, ih has]
    rfl

/-- Where each written element is read back, so is the list of them. -/
theorem mapM_map_eq {f : α → Except ε β} {g : β → α} {bs : List β}
    (h : ∀ b ∈ bs, f (g b) = .ok b) : (bs.map g).mapM f = .ok bs := by
  rw [List.mapM_map]
  exact (mapM_eq_ok_map h).trans (congrArg Except.ok (List.map_id' bs))

theorem list_arr (decoder : Decoder Value ε β) (items : List Value) :
    list decoder (Value.arr items) = items.mapM decoder := by
  change (items.mapM decoder >>= fun bs => close none bs) = _
  cases items.mapM decoder <;> rfl

/-- **A list is read back** if its elements are. -/
theorem list_arr_map {decoder : Decoder Value ε β} {write : β → Value} {bs : List β}
    (h : ∀ b ∈ bs, decoder (write b) = .ok b) : list decoder (Value.arr (bs.map write)) = .ok bs :=
  (list_arr decoder _).trans (mapM_map_eq h)

/-- A list of texts is read back from the texts. -/
theorem list_string (texts : List String) :
    list (string : Decoder Value ε String) (.arr (texts.map Value.str)) = .ok texts :=
  list_arr_map fun _ _ => rfl

/-- An object is read field by field, and a name that stands twice keeps its first place and its
last value. -/
theorem named_obj (decoder : Decoder Value ε β) (fields : List (String × Value)) :
    named decoder (.obj fields) =
      (fields.mapM fun kv : String × Value => do return (kv.1, ← decoder kv.2)).map
        Named.ofPairs := by
  change (fields.mapM _ >>= fun pairs => close none (Named.ofPairs pairs)) = _
  cases fields.mapM fun kv : String × Value => do return (kv.1, ← decoder kv.2) <;> rfl

/-- **Named values are read back** if each is, and no name stands twice. -/
theorem named_obj_mapValues {decoder : Decoder Value ε β} {write : β → Value} {o : Named β}
    (hn : (Named.keys o).Nodup) (h : ∀ kv ∈ o, decoder (write kv.2) = .ok kv.2) :
    named decoder (Value.obj (Named.mapValues write o)) = .ok o := by
  have hpairs : (Named.mapValues write o).mapM (fun kv => do return (kv.1, ← decoder kv.2)) =
      .ok o := mapM_map_eq fun kv hkv => by
    simp only [h kv hkv]
    rfl
  rw [named_obj, hpairs]
  exact congrArg Except.ok (Named.ofPairs_of_nodup hn)

/-- Only a truth value is read as one: neither a number nor a text is. -/
theorem boolean_iff {v : Value} {b : Bool} :
    (boolean : Decoder Value ε Bool) v = .ok b ↔ v = .bool b := by
  cases v with
  | bool c =>
    change Except.ok c = _ ↔ _
    rw [Except.ok.injEq, Value.bool.injEq]
  | _ => exact ⟨nofun, nofun⟩

theorem value_iff {v w : Value} : (value : Decoder Value ε Value) v = .ok w ↔ v = w := by
  change Except.ok v = _ ↔ _
  rw [Except.ok.injEq]

/-- A list of any values is read from an array only, and as it stands. -/
theorem list_value_iff {v : Value} {vs : List Value} :
    list (value : Decoder Value ε Value) v = .ok vs ↔ v = .arr vs := by
  cases v with
  | arr items =>
    rw [list_arr, show items.mapM (value : Decoder Value ε Value) = .ok items from
      List.mapM_pure.trans (congrArg _ (List.map_id' items)), Except.ok.injEq, Value.arr.injEq]
  | _ => exact ⟨nofun, nofun⟩

theorem named_value_iff {v : Value} {o : Object} :
    named (value : Decoder Value ε Value) v = .ok o ↔
      ∃ fields, v = .obj fields ∧ Named.ofPairs fields = o := by
  cases v with
  | obj fields =>
    have hpairs : fields.mapM (fun kv => do return (kv.1, ← value kv.2)) =
        (.ok fields : Except (DecodeError ε) _) :=
      List.mapM_pure.trans (congrArg _ (List.map_id' fields))
    rw [named_obj, hpairs]
    simp [Except.map]
  | _ => exact ⟨nofun, nofun⟩

/-- An object that repeats no name is read as it stands. -/
theorem named_value {o : Object} (hn : Distinct o) :
    named (value : Decoder Value ε Value) (.obj o) = .ok o :=
  named_value_iff.mpr ⟨o, rfl, Named.ofPairs_of_nodup hn⟩

end Decoder

end DeviceStats.Json
