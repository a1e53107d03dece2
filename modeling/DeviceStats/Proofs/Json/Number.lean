import DeviceStats.Decimal.Reader
import DeviceStats.Json.Number
import DeviceStats.Proofs.Decimal.Shortest
import Mathlib.Tactic.NormNum

/-!
# Proofs/Json/Number — the text of a number tells it apart

The text of a decimal writes its value, whichever of its four forms it has
(`writtenDecimal_textOfDecimal`), and what is written is read (`WrittenDecimal.read`).  With what is
known of shortest decimals, no two finite binary numbers have one text (`textOfBits_inj`), and none
has the text of a whole number, since there is a point or an exponent in it (`text_inj`).
-/

namespace DeviceStats.Json

open Decimal (Scientific Binary readExponent?)

namespace Number

/-! ## Decimal texts -/

/-- The value of a decimal text without a sign. -/
def decimalValue? (cs : List Char) : Option ℚ :=
  let whole := cs.takeWhile Char.isDigit
  let (fraction, rest) :=
    match cs.dropWhile Char.isDigit with
    | '.' :: rest => (rest.takeWhile Char.isDigit, rest.dropWhile Char.isDigit)
    | rest => ([], rest)
  if whole.isEmpty then none
  else
    (readExponent? rest).map fun (e : Int) =>
      (Nat.ofDigitChars 10 (whole ++ fraction) 0 : Nat) * (10 : ℚ) ^ (e - fraction.length)

/-- An exponent as it is written, or nothing. -/
inductive WrittenExponent : List Char → Int → Prop
  | absent : WrittenExponent [] 0
  | up (n : Nat) : WrittenExponent ('e' :: '+' :: Nat.toDigits 10 n) n
  | down (n : Nat) : WrittenExponent ('e' :: '-' :: Nat.toDigits 10 n) (-n)

theorem isDigit_of_mem_toDigits {n : Nat} : ∀ c ∈ Nat.toDigits 10 n, c.isDigit = true :=
  fun _ hc => Nat.isDigit_of_mem_toDigits (by decide) (by decide) hc

theorem digitsValue_toDigits (n : Nat) : Decimal.digitsValue (Nat.toDigits 10 n) = n := by
  refine Eq.trans ?_ (Nat.ofDigitChars_ten_toDigits (n := n))
  rw [Nat.ofDigitChars_eq_foldl, Decimal.digitsValue]
  simp only [Nat.mul_comm]

theorem WrittenExponent.read {cs : List Char} {n : Int} (h : WrittenExponent cs n) :
    readExponent? cs = some n := by
  have hempty (k : Nat) : (Nat.toDigits 10 k).isEmpty = false := by simp [Nat.toDigits_ne_nil]
  have hall (k : Nat) : (Nat.toDigits 10 k).all Char.isDigit = true :=
    List.all_eq_true.mpr isDigit_of_mem_toDigits
  cases h with
  | absent => rfl
  | up k | down k => simp [readExponent?, Decimal.readSign, hempty, hall, digitsValue_toDigits]

theorem WrittenExponent.head? {cs : List Char} {n : Int} (h : WrittenExponent cs n) :
    ∀ c ∈ cs.head?, c.isDigit = false ∧ c ≠ '.' := by
  cases h <;> simp

/-- A positive number as it is written: digits with a point, an exponent or both. -/
inductive WrittenDecimal (cs : List Char) (x : ℚ) : Prop
  | point {ws fs es : List Char} {n : Int} (hws : ∀ c ∈ ws, c.isDigit = true) (hne : ws ≠ [])
      (hfs : ∀ c ∈ fs, c.isDigit = true) (hes : WrittenExponent es n)
      (hcs : cs = ws ++ '.' :: (fs ++ es))
      (hx : (Nat.ofDigitChars 10 (ws ++ fs) 0 : Nat) * (10 : ℚ) ^ (n - fs.length) = x)
  | whole {ws es : List Char} {n : Int} (hws : ∀ c ∈ ws, c.isDigit = true) (hne : ws ≠ [])
      (hes : WrittenExponent es n) (hexponent : es ≠ []) (hcs : cs = ws ++ es)
      (hx : (Nat.ofDigitChars 10 ws 0 : Nat) * (10 : ℚ) ^ n = x)

theorem takeWhile_digits {ws es : List Char} (hws : ∀ c ∈ ws, c.isDigit = true)
    (hes : ∀ c ∈ es.head?, c.isDigit = false) :
    (ws ++ es).takeWhile Char.isDigit = ws ∧ (ws ++ es).dropWhile Char.isDigit = es := by
  rw [List.takeWhile_append_of_pos hws, List.dropWhile_append_of_pos hws]
  cases es with
  | nil => simp
  | cons c es =>
    have hc : c.isDigit = false := hes c rfl
    simp [hc]

/-- What is written is read. -/
theorem WrittenDecimal.read {cs : List Char} {x : ℚ} (h : WrittenDecimal cs x) :
    decimalValue? cs = some x := by
  cases h with
  | @point ws fs es n hws hne hfs hes hcs hx =>
    subst hcs hx
    have hpoint : ∀ c ∈ ('.' :: (fs ++ es)).head?, c.isDigit = false := by simp
    obtain ⟨htake, hdrop⟩ := takeWhile_digits hws hpoint
    obtain ⟨htake', hdrop'⟩ := takeWhile_digits hfs fun c hc => (hes.head? c hc).1
    simp [decimalValue?, htake, hdrop, htake', hdrop', hne, hes.read]
  | @whole ws es n hws hne hes hexponent hcs hx =>
    subst hcs hx
    obtain ⟨htake, hdrop⟩ := takeWhile_digits hws fun c hc => (hes.head? c hc).1
    unfold decimalValue?
    rw [htake, hdrop]
    cases hes with
    | absent => exact absurd rfl hexponent
    | up k => simp [hne, (WrittenExponent.up k).read]
    | down k => simp [hne, (WrittenExponent.down k).read]

/-- The characters that a number is written with. -/
def isNumberChar (c : Char) : Bool := c.isDigit || c == '-' || c == '+' || c == '.' || c == 'e'

theorem isNumberChar_of_isDigit {c : Char} (h : c.isDigit = true) : isNumberChar c = true := by
  simp [isNumberChar, h]

theorem WrittenExponent.isNumberChar {cs : List Char} {n : Int} (h : WrittenExponent cs n) :
    ∀ c ∈ cs, isNumberChar c = true := by
  have hdigits (k : Nat) : ∀ c ∈ Nat.toDigits 10 k, Number.isNumberChar c = true := fun c hc =>
    isNumberChar_of_isDigit (isDigit_of_mem_toDigits c hc)
  cases h with
  | absent => nofun
  | up k | down k => exact List.forall_mem_cons.mpr ⟨rfl, List.forall_mem_cons.mpr ⟨rfl, hdigits k⟩⟩

theorem WrittenDecimal.isNumberChar {cs : List Char} {x : ℚ} (h : WrittenDecimal cs x) :
    ∀ c ∈ cs, isNumberChar c = true := by
  cases h with
  | point hws _ hfs hes hcs =>
    subst hcs
    refine List.forall_mem_append.mpr ⟨fun c hc => isNumberChar_of_isDigit (hws c hc),
      List.forall_mem_cons.mpr ⟨rfl, List.forall_mem_append.mpr
        ⟨fun c hc => isNumberChar_of_isDigit (hfs c hc), hes.isNumberChar⟩⟩⟩
  | whole hws _ hes _ hcs =>
    subst hcs
    exact List.forall_mem_append.mpr
      ⟨fun c hc => isNumberChar_of_isDigit (hws c hc), hes.isNumberChar⟩

/-- There is a point or an exponent. -/
theorem WrittenDecimal.exists_mark {cs : List Char} {x : ℚ} (h : WrittenDecimal cs x) :
    ∃ c ∈ cs, c = '.' ∨ c = 'e' := by
  cases h with
  | point _ _ _ _ hcs => exact ⟨'.', by simp [hcs], .inl rfl⟩
  | whole _ _ hes hexponent hcs =>
    refine ⟨'e', ?_, .inr rfl⟩
    cases hes with
    | absent => exact absurd rfl hexponent
    | up | down => simp [hcs]

/-! ## Texts of decimals -/

theorem toList_zeros (n : Nat) : (zeros n).toList = List.replicate n '0' := String.toList_ofList

theorem isDigit_of_mem_replicate (n : Nat) : ∀ c ∈ List.replicate n '0', c.isDigit = true :=
  fun _ hc => List.eq_of_mem_replicate hc ▸ rfl

/-- Digits with zeros after them and a power of ten have the value of a decimal. -/
theorem mul_zpow_eq_value {d : Scientific} {n : Nat} {e : Int} (k : Nat) (hn : n = d.digits * 10 ^ k)
    (he : e + k = d.exponent) : (n : ℚ) * 10 ^ e = d.value := by
  rw [Scientific.value, hn, ← he, zpow_add₀ (by norm_num), zpow_natCast]
  push_cast
  ring

/-- Digits with zeros around them and a point somewhere write a decimal. -/
theorem writtenDecimal_of_point (d : Scientific) (ws fs : List Char) (i k : Nat) (hne : ws ≠ [])
    (h : ws ++ fs = List.replicate i '0' ++ Nat.toDigits 10 d.digits ++ List.replicate k '0')
    (hk : -(fs.length : Int) + k = d.exponent) : WrittenDecimal (ws ++ '.' :: fs) d.value := by
  have hdigits : ∀ c ∈ ws ++ fs, c.isDigit = true := by
    rw [h]
    exact List.forall_mem_append.mpr ⟨List.forall_mem_append.mpr
      ⟨isDigit_of_mem_replicate i, isDigit_of_mem_toDigits⟩, isDigit_of_mem_replicate k⟩
  obtain ⟨hws, hfs⟩ := List.forall_mem_append.mp hdigits
  have hn : Nat.ofDigitChars 10 (ws ++ fs) 0 = d.digits * 10 ^ k := by
    rw [h]
    simp [Nat.ofDigitChars_append, Nat.ofDigitChars_replicate_zero, Nat.ofDigitChars_ten_toDigits,
      mul_comm]
  exact .point hws hne hfs .absent (by rw [List.append_nil])
    (mul_zpow_eq_value k hn (by rw [zero_sub, hk]))

/-- Digits with a point behind the first, if there are more, and an exponent write a decimal. -/
theorem writtenDecimal_of_exponent {d : Scientific} {c : Char} {rest es : List Char} {n : Int}
    (h : Nat.toDigits 10 d.digits = c :: rest) (hes : WrittenExponent es n) (hne : es ≠ [])
    (hn : n - rest.length = d.exponent) :
    WrittenDecimal (c :: ((if rest.isEmpty then [] else '.' :: rest) ++ es)) d.value := by
  obtain ⟨hc, hrest⟩ := List.forall_mem_cons.mp fun x hx => isDigit_of_mem_toDigits x (h ▸ hx)
  have hvalue : Nat.ofDigitChars 10 (c :: rest) 0 = d.digits * 10 ^ 0 := by
    rw [← h, Nat.ofDigitChars_ten_toDigits, pow_zero, mul_one]
  cases rest with
  | nil =>
    exact .whole (List.forall_mem_singleton.mpr hc) (List.cons_ne_nil c []) hes hne rfl
      (mul_zpow_eq_value 0 hvalue (by simpa using hn))
  | cons c' rest =>
    exact .point (List.forall_mem_singleton.mpr hc) (List.cons_ne_nil c []) hrest hes rfl
      (mul_zpow_eq_value 0 hvalue (by simpa using hn))

/-- The exponent as it is written. -/
theorem writtenExponent_sign (n : Int) :
    WrittenExponent ('e' :: ((if n < 0 then "-" else "+").toList ++ Nat.toDigits 10 n.natAbs)) n := by
  split
  · have h := WrittenExponent.down n.natAbs
    rwa [show -(n.natAbs : Int) = n by omega] at h
  · have h := WrittenExponent.up n.natAbs
    rwa [show (n.natAbs : Int) = n by omega] at h

/-- **The text of a decimal writes its value.** -/
theorem writtenDecimal_textOfDecimal (d : Scientific) :
    WrittenDecimal (textOfDecimal d).toList d.value := by
  set ds := Nat.toDigits 10 d.digits with hds
  have hlength : (toString d.digits).length = ds.length := by
    rw [Nat.toString_eq_ofList_toDigits, String.length_ofList]
  have hne : ds ≠ [] := Nat.toDigits_ne_nil
  have hpos : 0 < ds.length := List.length_pos_iff.mpr hne
  set first : Int := d.exponent + ds.length - 1 with hfirst
  simp only [textOfDecimal, hlength, ← hfirst]
  split
  · obtain ⟨c, rest, hcons⟩ := List.exists_cons_of_ne_nil hne
    have hlen : ds.length = rest.length + 1 := by rw [hcons, List.length_cons]
    have htext : (toString d.digits).toList = c :: rest := by simp [← hds, hcons]
    have hwritten := writtenDecimal_of_exponent hcons (writtenExponent_sign first)
      (List.cons_ne_nil _ _) (by omega)
    rw [htext]
    cases rest <;> simpa using hwritten
  · split
    · -- Zeros stand before the digits.
      set k := (-first - 1).toNat with hk
      have hwritten := writtenDecimal_of_point d ['0'] (List.replicate k '0' ++ ds) (k + 1) 0
        (List.cons_ne_nil '0' []) (by simp [List.replicate_succ, ← hds]) (by simp; omega)
      simpa [toList_zeros, ← hds] using hwritten
    · split
      · -- Zeros stand after the digits.
        set k := d.exponent.toNat with hk
        have hwritten := writtenDecimal_of_point d (ds ++ List.replicate k '0') ['0'] 0 (k + 1)
          (by simp [hne]) (by simp [List.replicate_succ', ← hds]) (by simp; omega)
        simpa [toList_zeros, ← hds] using hwritten
      · -- The point stands among the digits.
        set k := (first + 1).toNat with hk
        have hwritten := writtenDecimal_of_point d (ds.take k) (ds.drop k) 0 0
          (by simp [hne]; omega) (by simp [← hds]) (by simp; omega)
        simpa [← hds] using hwritten

/-! ## Binary numbers -/

/-- What the text of a finite binary number tells of it. -/
theorem exists_textOfBits_eq {bits : UInt64} {b : Binary} (h : Binary.decode? bits = some b) :
    ∃ (t : String) (x : ℚ), textOfBits bits = (if b.negative then "-" ++ t else t) ∧
      WrittenDecimal t.toList x ∧ (b.mantissa = 0 ∧ x = 0 ∨ 0 < b.mantissa ∧ b.Reads x) := by
  have hcanonical := (Binary.canonical_of_decode? h).1
  refine ⟨if b.mantissa = 0 then "0.0" else textOfDecimal (Decimal.shortest b), ?_⟩
  rcases Nat.eq_zero_or_pos b.mantissa with hz | hpos
  · refine ⟨0, by rw [textOfBits, h], ?_, .inl ⟨hz, rfl⟩⟩
    rw [if_pos hz]
    have hzero : ∀ c ∈ ['0'], c.isDigit = true := List.forall_mem_singleton.mpr rfl
    exact .point hzero (List.cons_ne_nil '0' []) hzero .absent rfl (by simp [Nat.ofDigitChars_cons])
  · refine ⟨_, by rw [textOfBits, h], ?_, .inr ⟨hpos, Binary.reads_shortest hcanonical hpos⟩⟩
    rw [if_neg hpos.ne']
    exact writtenDecimal_textOfDecimal _

/-- A number without a sign does not start with one. -/
theorem WrittenDecimal.ne_minus_append {s : String} {x : ℚ} (h : WrittenDecimal s.toList x)
    (t : String) : "-" ++ t ≠ s := by
  rintro rfl
  have hnone : decimalValue? ("-" ++ t).toList = none := by simp [decimalValue?]
  exact Option.some_ne_none x (h.read.symm.trans hnone)

/-- A sign before a number is told from the number. -/
theorem WrittenDecimal.signed_inj {n n' : Bool} {t t' : String} {x x' : ℚ}
    (hx : WrittenDecimal t.toList x) (hx' : WrittenDecimal t'.toList x')
    (h : (if n then "-" ++ t else t) = if n' then "-" ++ t' else t') : n = n' ∧ t = t' := by
  cases n <;> cases n' <;> simp only [if_true, if_false, Bool.false_eq_true] at h
  · exact ⟨rfl, h⟩
  · exact absurd h.symm (hx.ne_minus_append t')
  · exact absurd h (hx'.ne_minus_append t)
  · exact ⟨rfl, String.toList_inj.mp (by simpa using congrArg String.toList h)⟩

/-- **The text of a finite binary number tells it apart.** -/
theorem textOfBits_inj {a a' : UInt64} (ha : (Binary.decode? a).isSome = true)
    (ha' : (Binary.decode? a').isSome = true) (h : textOfBits a = textOfBits a') : a = a' := by
  obtain ⟨b, hb⟩ := Option.isSome_iff_exists.mp ha
  obtain ⟨b', hb'⟩ := Option.isSome_iff_exists.mp ha'
  obtain ⟨t, x, ht, hx, hread⟩ := exists_textOfBits_eq hb
  obtain ⟨t', x', ht', hx', hread'⟩ := exists_textOfBits_eq hb'
  have hc := (Binary.canonical_of_decode? hb).1
  have hc' := (Binary.canonical_of_decode? hb').1
  rw [ht, ht'] at h
  obtain ⟨hnegative, rfl⟩ := hx.signed_inj hx' h
  obtain rfl : x = x' := Option.some.inj (hx.read.symm.trans hx'.read)
  have hparts : b.mantissa = b'.mantissa ∧ b.exponent = b'.exponent := by
    rcases hread with ⟨hz, rfl⟩ | ⟨hpos, hread⟩ <;> rcases hread' with ⟨hz', h0⟩ | ⟨hpos', hread'⟩
    · have hfull := hc.full
      have hfull' := hc'.full
      omega
    · exact absurd (hread'.pos hpos') (lt_irrefl _)
    · exact absurd (h0 ▸ hread.pos hpos) (lt_irrefl _)
    · exact Binary.eq_of_reads hc hc' hread hread'
  have hbb : b = b' := by
    cases b
    cases b'
    simp_all
  exact Binary.decode?_inj hb (hbb ▸ hb')

/-! ## All numbers -/

/-- Whether a number is finite; the bits of infinities, and of what is no number, are not. -/
def isFinite : Number → Bool
  | .int _ => true
  | .float bits => (Binary.decode? bits).isSome

theorem toList_text_int (n : Int) : (text (.int n)).toList =
    if 0 ≤ n then Nat.toDigits 10 n.toNat else '-' :: Nat.toDigits 10 (-n).toNat := by
  have htext : text (.int n) = n.repr := Int.toString_eq_repr
  rw [htext, Int.repr_eq_if]
  split <;> simp

theorem toDigits_inj {m n : Nat} (h : Nat.toDigits 10 m = Nat.toDigits 10 n) : m = n := by
  have hread := congrArg (Nat.ofDigitChars 10 · 0) h
  simpa only [Nat.ofDigitChars_ten_toDigits] using hread

theorem text_int_inj {m n : Int} (h : text (.int m) = text (.int n)) : m = n := by
  have hsign {k l : Nat} (h : Nat.toDigits 10 k = '-' :: Nat.toDigits 10 l) : False := by
    have hdigit : '-'.isDigit = true := isDigit_of_mem_toDigits (n := k) _ (by simp [h])
    exact absurd hdigit (by decide)
  have h := congrArg String.toList h
  rw [toList_text_int, toList_text_int] at h
  split at h <;> split at h
  · have := toDigits_inj h
    omega
  · exact (hsign h).elim
  · exact (hsign h.symm).elim
  · have := toDigits_inj (List.cons.inj h).2
    omega

/-- A whole number is written with digits and a sign. -/
theorem isDigit_or_eq_minus_of_mem {n : Int} {c : Char} (hc : c ∈ (text (.int n)).toList) :
    c.isDigit = true ∨ c = '-' := by
  rw [toList_text_int] at hc
  split at hc
  · exact .inl (isDigit_of_mem_toDigits c hc)
  · exact (List.mem_cons.mp hc).symm.imp (isDigit_of_mem_toDigits c) id

/-- The text of a finite binary number has a sign or none. -/
theorem toList_text_float {bits : UInt64} (h : (Binary.decode? bits).isSome = true) :
    ∃ cs x, WrittenDecimal cs x ∧ ((text (.float bits)).toList = cs ∨
      (text (.float bits)).toList = '-' :: cs) := by
  obtain ⟨b, hb⟩ := Option.isSome_iff_exists.mp h
  obtain ⟨t, x, ht, hx, -⟩ := exists_textOfBits_eq hb
  refine ⟨t.toList, x, hx, ?_⟩
  rw [text, ht]
  cases b.negative with
  | false => exact .inl rfl
  | true => exact .inr (by simp)

theorem isNumberChar_of_mem_text {n : Number} (h : n.isFinite = true) :
    ∀ c ∈ n.text.toList, isNumberChar c = true := by
  cases n with
  | int n =>
    intro c hc
    rcases isDigit_or_eq_minus_of_mem hc with hdigit | rfl
    · exact isNumberChar_of_isDigit hdigit
    · rfl
  | float bits =>
    obtain ⟨cs, x, hx, hcs⟩ := toList_text_float h
    rcases hcs with hcs | hcs <;> rw [hcs]
    · exact hx.isNumberChar
    · exact List.forall_mem_cons.mpr ⟨rfl, hx.isNumberChar⟩

theorem toList_text_ne_nil {n : Number} (h : n.isFinite = true) : n.text.toList ≠ [] := by
  cases n with
  | int n =>
    rw [toList_text_int]
    split
    · exact Nat.toDigits_ne_nil
    · exact List.cons_ne_nil _ _
  | float bits =>
    obtain ⟨cs, x, hx, hcs⟩ := toList_text_float h
    obtain ⟨c, hc, -⟩ := hx.exists_mark
    rcases hcs with hcs | hcs <;> rw [hcs]
    · exact List.ne_nil_of_mem hc
    · exact List.cons_ne_nil _ _

/-- A binary number has a point or an exponent, which a whole number has not. -/
theorem text_int_ne_text_float {n : Int} {bits : UInt64}
    (h : (Binary.decode? bits).isSome = true) : text (.int n) ≠ text (.float bits) := by
  intro heq
  obtain ⟨cs, x, hx, hcs⟩ := toList_text_float h
  obtain ⟨c, hc, hmark⟩ := hx.exists_mark
  have hmem : c ∈ (text (.int n)).toList := by
    rw [heq]
    rcases hcs with hcs | hcs <;> simp [hcs, hc]
  rcases hmark with rfl | rfl <;> exact absurd (isDigit_or_eq_minus_of_mem hmem) (by decide)

/-- **The text of a finite number tells it apart.** -/
theorem text_inj {a b : Number} (ha : a.isFinite = true) (hb : b.isFinite = true)
    (h : a.text = b.text) : a = b := by
  cases a with
  | int a => cases b with
    | int b => exact congrArg int (text_int_inj h)
    | float b => exact absurd h (text_int_ne_text_float hb)
  | float a => cases b with
    | int b => exact absurd h.symm (text_int_ne_text_float ha)
    | float b => exact congrArg float (textOfBits_inj ha hb h)

end Number

end DeviceStats.Json
