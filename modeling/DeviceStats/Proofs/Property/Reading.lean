import DeviceStats.Proofs.Decimal.Nearest
import DeviceStats.Proofs.Property.Finite

/-!
# Proofs/Property/Reading — what is read from a text is finite

A number is scaled by powers of ten, and one that grows beyond the binary numbers is refused
(`Numeral.isFinite_of_number?`), so every value that is read from a text is finite, and with it what
a declaration holds (`Declaration.fieldsFinite_of_ofText`).
-/

namespace DeviceStats

open Decimal (Binary)
open Json (Value Object)
open Json.Value (areFinite fieldsFinite fieldsFinite_iff)
open Json.Decoder (keeps_given ok_of_mapError record_keeps)

namespace Json

/-! ## Numbers -/

namespace Numeral

theorem append_le {n : Nat} (ds : List Nat) (h : n ≤ maxSignificand) :
    (append n ds).1 ≤ maxSignificand := by
  induction ds generalizing n with
  | nil => exact h
  | cons d ds ih =>
    rw [append]
    split
    · rename_i hle
      exact ih hle
    · exact h

/-- A power of ten as numbers are scaled by it. -/
def power (k : Nat) : Nat × Nat :=
  match Binary.decode? (Binary.nearest false (Nat.pow 10 k) 1) with
  | some p => p.magnitude
  | none => (Nat.pow 10 k, 1)

/-- Scaling by a power of ten at least halves a number. -/
theorem two_le_power {k : Nat} (hk : 0 < k) : 0 < (power k).1 ∧ 0 < (power k).2 ∧
    (2 : ℚ) ≤ (power k).1 / (power k).2 := by
  have hten : (10 : ℚ) ≤ Nat.pow 10 k := by
    exact_mod_cast Nat.le_self_pow hk.ne' 10
  have hratio : 0 < (power k).2 ∧ (2 : ℚ) ≤ (power k).1 / (power k).2 := by
    unfold power
    cases hp : Binary.decode? (Binary.nearest false (Nat.pow 10 k) 1) with
    | none => exact ⟨Nat.one_pos, by simp only [Nat.cast_one, div_one]; linarith⟩
    | some p =>
      obtain ⟨hden, hvalue⟩ := Binary.magnitude_ratio p
      have hhalf := Binary.half_lt_value_of_nearest hp Nat.one_pos
        (by rw [Nat.cast_one, div_one]; linarith)
      rw [Nat.cast_one, div_one] at hhalf
      exact ⟨hden, by simp only [hvalue]; linarith⟩
  refine ⟨Nat.pos_of_ne_zero fun hz => ?_, hratio⟩
  have h := hratio.2
  rw [hz, Nat.cast_zero, zero_div] at h
  exact absurd h (by norm_num)

/-- A finite number over a power of ten is finite. -/
theorem isSome_quotient (negative : Bool) {bits : UInt64} {b : Binary}
    (hb : Binary.decode? bits = some b) {k : Nat} (hk : 0 < k) :
    (Binary.decode? (Binary.nearest negative (b.magnitude.1 * (power k).2)
      (b.magnitude.2 * (power k).1))).isSome = true := by
  obtain ⟨hp, hr, htwo⟩ := two_le_power hk
  obtain ⟨hden, hvalue⟩ := Binary.magnitude_ratio b
  refine Binary.isSome_decode?_nearest negative (Nat.mul_pos hden hp) ?_
  have hp' : (0 : ℚ) < (power k).1 := by exact_mod_cast hp
  have hr' : (0 : ℚ) < (power k).2 := by exact_mod_cast hr
  rw [Nat.cast_mul, Nat.cast_mul]
  calc ((b.magnitude.1 : ℚ) * (power k).2) / (b.magnitude.2 * (power k).1)
    _ = b.value / ((power k).1 / (power k).2) := by
      rw [← hvalue]
      field_simp
    _ < 2 ^ (1024 : Int) / 2 :=
      div_lt_div₀ (Binary.value_lt_of_decode? hb) htwo (by positivity) (by norm_num)
    _ = 2 ^ (1023 : Int) := by
      rw [div_eq_mul_inv, ← zpow_sub_one₀ (by norm_num)]
      rfl

/-- Scaling a finite number, by one power of ten or by the largest one first. -/
theorem scaled_of_decode? {fuel : Nat} {negative : Bool} {bits : UInt64} {b : Binary} {e : Int}
    (hb : Binary.decode? bits = some b) : scaled (fuel + 1) negative bits e =
      if e.natAbs ≤ 308 then
        if 0 ≤ e then
          let product := Binary.nearest negative (b.magnitude.1 * (power e.natAbs).1)
            (b.magnitude.2 * (power e.natAbs).2)
          (Binary.decode? product).map fun _ => product
        else some (Binary.nearest negative (b.magnitude.1 * (power e.natAbs).2)
          (b.magnitude.2 * (power e.natAbs).1))
      else if b.magnitude.1 = 0 then some bits
      else if 0 ≤ e then none
      else scaled fuel negative (Binary.nearest negative (b.magnitude.1 * (power 308).2)
        (b.magnitude.2 * (power 308).1)) (e + 308) := by
  rw [scaled, hb]
  dsimp -zeta only
  extract_lets power'
  have hpower : power' = power := rfl
  clear_value power'
  subst hpower
  rfl

/-- **Scaling gives finite numbers.** -/
theorem isSome_of_scaled {fuel : Nat} {negative : Bool} {bits r : UInt64} {e : Int}
    (h : scaled fuel negative bits e = some r) : (Binary.decode? r).isSome = true := by
  induction fuel generalizing bits e with
  | zero => cases h
  | succ fuel ih =>
    cases hb : Binary.decode? bits with
    | none =>
      rw [scaled, hb] at h
      cases h
    | some b =>
      rw [scaled_of_decode? hb] at h
      split_ifs at h with hsmall hup hzero hup'
      · obtain ⟨p, hp, rfl⟩ := Option.map_eq_some_iff.mp h
        rw [hp]
        rfl
      · obtain rfl := Option.some.inj h
        exact isSome_quotient negative hb (by omega)
      · obtain rfl := Option.some.inj h
        rw [hb]
        rfl
      · exact ih h

theorem isSome_significand (negative : Bool) {n : Nat} (h : n ≤ maxSignificand) :
    (Binary.decode? (Binary.nearest negative n 1)).isSome = true := by
  refine Binary.isSome_decode?_nearest negative Nat.one_pos ?_
  have hn : (n : ℚ) < 2 ^ (64 : Int) := by
    have hlt : n < 2 ^ 64 := Nat.lt_of_le_of_lt h (by decide)
    exact_mod_cast hlt
  rw [Nat.cast_one, div_one]
  exact hn.trans (zpow_lt_zpow_right₀ (by norm_num) (by norm_num))

/-- **The number that a numeral stands for is finite.** -/
theorem isFinite_of_number? {n : Numeral} {x : Number} (h : n.number? = some x) :
    x.isFinite = true := by
  have hscaled {bits : UInt64} {e : Int}
      (h : (scaled 8 n.negative bits e).map Number.float = some x) : x.isFinite = true := by
    obtain ⟨r, hr, rfl⟩ := Option.map_eq_some_iff.mp h
    exact isSome_of_scaled hr
  have hwhole := append_le n.whole (Nat.zero_le maxSignificand)
  simp only [number?] at h
  split at h
  · split_ifs at h
    · obtain rfl := Option.some.inj h
      rfl
    · obtain rfl := Option.some.inj h
      rfl
    · obtain rfl := Option.some.inj h
      exact isSome_significand n.negative hwhole
    · exact hscaled h
  · split at h
    · exact hscaled h
    · split_ifs at h
      · exact hscaled h
      · exact hscaled h
      · obtain rfl := Option.some.inj h
        rfl
      · obtain rfl := Option.some.inj h
        rfl

end Numeral

/-! ## Values -/

namespace Value

theorem fieldsFinite_ofPairs {pairs : List (String × Value)} (h : fieldsFinite pairs = true) :
    fieldsFinite (Named.ofPairs pairs) = true :=
  Conditional.fieldsFinite_extend rfl h

end Value

namespace Source

mutual

/-- **The value of a source is finite.** -/
theorem isFinite_of_valueWithin : (depth : Nat) → (s : Source) → ∀ {v : Value},
    valueWithin depth s = .ok v → v.isFinite = true
  | _, .null, v, h | _, .bool _, v, h => by
    rw [valueWithin] at h
    cases h
    rfl
  | _, .num n, v, h => by
    rw [valueWithin] at h
    cases hn : n.number? with
    | none => simp [hn] at h
    | some x =>
      rw [hn] at h
      cases h
      exact Numeral.isFinite_of_number? hn
  | _, .str ps fault?, v, h => by
    rw [valueWithin] at h
    cases hps : Piece.text ps fault? with
    | error f => simp [hps, Except.map] at h
    | ok s =>
      rw [hps] at h
      cases h
      rfl
  | 0, .arr _ _, v, h | 0, .obj _ _, v, h | _, .broken _, v, h => by
    rw [valueWithin] at h
    cases h
  | depth + 1, .arr items fault?, v, h => by
    rw [valueWithin] at h
    obtain ⟨vs, hvs, h⟩ := exists_ok_of_bind h
    exact eq_of_close h ▸ areFinite_of_itemsWithin depth items hvs
  | depth + 1, .obj fields fault?, v, h => by
    rw [valueWithin] at h
    obtain ⟨fs, hfs, h⟩ := exists_ok_of_bind h
    exact eq_of_close h ▸ Value.fieldsFinite_ofPairs (fieldsFinite_of_fieldsWithin depth fields hfs)

theorem areFinite_of_itemsWithin (depth : Nat) : (ss : List Source) → ∀ {vs : List Value},
    itemsWithin depth ss = .ok vs → areFinite vs = true
  | [], vs, h => by
    rw [itemsWithin] at h
    cases h
    rfl
  | s :: ss, vs, h => by
    rw [itemsWithin] at h
    obtain ⟨v, hv, h⟩ := exists_ok_of_bind h
    obtain ⟨vs', hvs, h⟩ := exists_ok_of_bind h
    cases h
    exact Bool.and_eq_true_iff.mpr
      ⟨isFinite_of_valueWithin depth s hv, areFinite_of_itemsWithin depth ss hvs⟩

theorem fieldsFinite_of_fieldsWithin (depth : Nat) : (fields : List (List Piece × Source)) →
    ∀ {fs : List (String × Value)}, fieldsWithin depth fields = .ok fs → fieldsFinite fs = true
  | [], fs, h => by
    rw [fieldsWithin] at h
    cases h
    rfl
  | (k, s) :: rest, fs, h => by
    rw [fieldsWithin] at h
    obtain ⟨key, -, h⟩ := exists_ok_of_bind h
    obtain ⟨v, hv, h⟩ := exists_ok_of_bind h
    obtain ⟨fs', hfs, h⟩ := exists_ok_of_bind h
    cases h
    exact Bool.and_eq_true_iff.mpr
      ⟨isFinite_of_valueWithin depth s hv, fieldsFinite_of_fieldsWithin depth rest hfs⟩

end

end Source

/-! ## Declarations -/

namespace Decoder

variable {α ε : Type} [Input α]

/-- What is known of every result holds of them all. -/
theorem forall_of_mapM {β γ δ : Type} {f : β → Except δ γ} {P : γ → Prop}
    (hf : ∀ b c, f b = .ok c → P c) {bs : List β} {cs : List γ} (h : bs.mapM f = .ok cs) :
    ∀ c ∈ cs, P c := by
  induction bs generalizing cs with
  | nil =>
    cases h
    nofun
  | cons b bs ih =>
    rw [List.mapM_cons] at h
    obtain ⟨c, hc, h⟩ := exists_ok_of_bind h
    obtain ⟨cs', hcs, h⟩ := exists_ok_of_bind h
    cases h
    exact List.forall_mem_cons.mpr ⟨hf b c hc, ih hcs⟩

/-- Named values are finite where all values are. -/
theorem fieldsFinite_of_named (hvalue : ∀ (a : α) (v : Value), Input.value a = .ok v →
    v.isFinite = true) {a : α} {o : Object} (h : named (ε := ε) value a = .ok o) :
    fieldsFinite o = true := by
  obtain ⟨l, -, h⟩ := exists_ok_of_bind h
  cases l with
  | obj fields fault? =>
    obtain ⟨pairs, hpairs, h⟩ := exists_ok_of_bind h
    rw [← eq_of_close h]
    refine Value.fieldsFinite_ofPairs (fieldsFinite_iff.mpr (forall_of_mapM ?_ hpairs))
    intro kv kv' hkv
    obtain ⟨v, hv, hkv⟩ := exists_ok_of_bind hkv
    cases hkv
    exact hvalue kv.2 v (ok_of_mapError hv)
  | _ => cases h

end Decoder

end Json

namespace Declaration

/-- What is declared is finite where all values of the input are. -/
theorem fieldsFinite_of_decode {α : Type} [Json.Input α] (hvalue : ∀ (a : α) (v : Value),
    Json.Input.value a = .ok v → v.isFinite = true) {a : α} {d : Declaration}
    (h : decode a = .ok d) : fieldsFinite d.stats = true := by
  refine record_keeps (P := fun d : Declaration => fieldsFinite d.stats = true)
    (Q := fun _ => True) ?_ (fun l _ => ?_) h rfl
  · simp only [List.forall_mem_cons, List.not_mem_nil, false_imp_iff, implies_true, and_true]
    refine ⟨?_, keeps_given fun _ _ => id, keeps_given fun _ _ => id, keeps_given fun _ _ => id,
      keeps_given fun _ _ => id⟩
    intro a d d' _ _ h
    obtain ⟨stats, hstats, h⟩ := exists_ok_of_bind h
    cases h
    exact Json.Decoder.fieldsFinite_of_named hvalue hstats
  · cases l <;> simp [Json.Layer.Forall]

/-- **What is declared in a text is finite.** -/
theorem fieldsFinite_of_ofText {text : String} {d : Declaration} (h : ofText text = .ok d) :
    fieldsFinite d.stats = true := by
  have h := ok_of_mapError h
  unfold Json.Decoder.ofText at h
  obtain ⟨d', hd, h⟩ := exists_ok_of_bind h
  have hd' : fieldsFinite d'.stats = true := fieldsFinite_of_decode
    (fun p v hv => Json.Source.isFinite_of_valueWithin p.depth p.source hv) hd
  split at h
  · cases h
  · cases h
    exact hd'

end Declaration

end DeviceStats
