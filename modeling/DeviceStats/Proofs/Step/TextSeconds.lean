import DeviceStats.Proofs.Step.Epoch
import DeviceStats.Proofs.Time.Numerals

/-!
# Proofs/Step/TextSeconds — seconds as numbers and in texts

A text of digits tells the moment that its number tells, with blanks around it or not, and none if
it has more than ten.  A minus is no digit, though, and no layout begins with one that has digits
alone behind it, so seconds before 1970 tell a moment as numbers only (`iso?_numeral`).
-/

namespace DeviceStats.Timestamps

open Json (Value Number)
open Text (isBlank trimChars)
open Time (Moment Numeral)

theorem numeral_text (n : Int) : Numeral (Number.text (.int n)).toList := by
  rw [Number.toList_text_int]
  split
  · exact .digits Number.isDigit_of_mem_toDigits
  · exact .minus Number.isDigit_of_mem_toDigits

theorem toList_text_int_ne_nil (n : Int) : (Number.text (.int n)).toList ≠ [] := by
  rw [Number.toList_text_int]
  split
  · exact Nat.toDigits_ne_nil
  · exact List.cons_ne_nil _ _

/-- A text is read without the blanks around it. -/
theorem ofText?_append {front cs back : List Char} (hfront : ∀ c ∈ front, isBlank c = true)
    (hback : ∀ c ∈ back, isBlank c = true) (h : Numeral cs) (hne : cs ≠ []) :
    ofText? (String.ofList (front ++ cs ++ back)) =
      if cs.length ≤ 10 && cs.all Char.isDigit then
        Moment.ofSeconds? (digitsValue cs) else none := by
  have htrim : trimChars (String.ofList (front ++ cs ++ back)).toList = cs := by
    rw [String.toList_ofList]
    exact Text.trimChars_append hfront hback hne
      (fun c hc => h.isBlank_eq_false c (List.mem_of_mem_head? hc))
      (fun c hc => h.isBlank_eq_false c (List.mem_of_getLast? hc))
  have hempty : cs.isEmpty = false := List.isEmpty_eq_false_iff.mpr hne
  simp only [ofText?, htrim, hempty, h.ofChars?_eq_none, Bool.false_eq_true, if_false]

/-- Digits tell the moment that their number tells. -/
theorem ofSeconds?_toDigits (n : Nat) :
    (if (Nat.toDigits 10 n).length ≤ 10 && (Nat.toDigits 10 n).all Char.isDigit then
      Moment.ofSeconds? (digitsValue (Nat.toDigits 10 n)) else none) = Moment.ofSeconds? n := by
  have hall : (Nat.toDigits 10 n).all Char.isDigit = true :=
    List.all_eq_true.mpr Number.isDigit_of_mem_toDigits
  have hvalue : digitsValue (Nat.toDigits 10 n) = n := Number.digitsValue_toDigits n
  have hlength : (Nat.toDigits 10 n).length ≤ 10 ↔ n < 10 ^ 10 :=
    Nat.length_toDigits_le_iff (by decide) (by decide)
  rw [hall, hvalue, Bool.and_true]
  split
  · rfl
  · rename_i h
    rw [decide_eq_true_eq, hlength] at h
    exact (if_neg (by omega)).symm

/-- **Seconds in a text**, with blanks around them or not, are read if they have no minus. -/
theorem iso?_text {front back : List Char} (hfront : ∀ c ∈ front, isBlank c = true)
    (hback : ∀ c ∈ back, isBlank c = true) (n : Int) :
    iso? (.str (String.ofList (front ++ (Number.text (.int n)).toList ++ back))) =
      if 0 ≤ n then iso? (.int n) else none := by
  change (ofText? _).map Moment.iso = if 0 ≤ n then (Moment.ofSeconds? n).map Moment.iso else none
  rw [ofText?_append hfront hback (numeral_text n) (toList_text_int_ne_nil n),
    Number.toList_text_int]
  split
  · rename_i h
    rw [ofSeconds?_toDigits, Int.toNat_of_nonneg h]
  · have hminus : '-'.isDigit = false := by decide
    rw [List.all_cons, hminus, Bool.false_and, Bool.and_false, if_neg Bool.false_ne_true,
      Option.map_none]

/-- **Numbers and their texts tell the same moment**, with blanks around the text or not, unless the
number is negative and tells one: with its minus the text is no text of digits and follows no
layout. -/
theorem iso?_numeral {front back : List Char} (hfront : ∀ c ∈ front, isBlank c = true)
    (hback : ∀ c ∈ back, isBlank c = true) (n : Int) :
    let s := String.ofList (front ++ (Number.text (.int n)).toList ++ back)
    iso? (.str s) = (if 0 ≤ n then iso? (.int n) else none) ∧
      (iso? (.str s) = iso? (.int n) ↔ ¬ (-9999999999 ≤ n ∧ n < 0)) := by
  intro s
  have htext : iso? (.str s) = if 0 ≤ n then iso? (.int n) else none := iso?_text hfront hback n
  refine ⟨htext, ?_⟩
  rw [htext]
  split
  · rename_i h
    exact iff_of_true rfl (by omega)
  · rename_i h
    have hnone : iso? (.int n) = none ↔ ¬ n.natAbs ≤ 9999999999 := by
      rw [← isSome_iso?_int, Option.not_isSome_iff_eq_none]
    rw [eq_comm, hnone]
    omega

/-- The last second that ten digits tell, between a tab and a wide blank; the second before 1970. -/
theorem iso?_numeral_last_second :
    let front := ['\t']
    let back := ['\u3000']
    (∀ c ∈ front, isBlank c = true) ∧ (∀ c ∈ back, isBlank c = true) ∧
      iso? (.str "\t9999999999\u3000") = some "2286-11-20T17:46:39.000Z" ∧
      iso? (.str "\t-1\u3000") = none ∧ iso? (.str "\t-1\u3000") ≠ iso? (.int (-1)) := by
  intro front back
  have hfront : ∀ c ∈ front, isBlank c = true := List.forall_mem_singleton.mpr rfl
  have hback : ∀ c ∈ back, isBlank c = true := List.forall_mem_singleton.mpr rfl
  have hlast : iso? (.int 9999999999) = some "2286-11-20T17:46:39.000Z" := by decide +kernel
  have htext : String.ofList (front ++ (Number.text (.int 9999999999)).toList ++ back) =
      "\t9999999999\u3000" := by decide +kernel
  have htext' : String.ofList (front ++ (Number.text (.int (-1))).toList ++ back) =
      "\t-1\u3000" := by decide +kernel
  obtain ⟨hread, -⟩ := iso?_numeral hfront hback 9999999999
  obtain ⟨hread', hsame⟩ := iso?_numeral hfront hback (-1)
  rw [htext] at hread
  rw [htext'] at hread' hsame
  exact ⟨hfront, hback, hread.trans hlast, hread', fun heq => hsame.mp heq (by decide)⟩

/-- **A number and its text need not tell the same moment**: a negative number tells one that its
text does not. -/
theorem not_iso?_numeral : ¬ ∀ (n : Int) (front back : List Char), Number.fits n = true →
    (∀ c ∈ front, isBlank c = true) → (∀ c ∈ back, isBlank c = true) →
    iso? (.str (String.ofList (front ++ (Number.text (.int n)).toList ++ back))) =
      iso? (.int n) := by
  intro hall
  have hsame := hall (-1) [] [] (by decide) (List.forall_mem_nil _) (List.forall_mem_nil _)
  have hnumber : iso? (.int (-1)) = some "1969-12-31T23:59:59.000Z" := by decide +kernel
  have htext : iso? (.str (String.ofList ([] ++ (Number.text (.int (-1))).toList ++ []))) =
      none := by decide +kernel
  rw [hnumber, htext] at hsame
  cases hsame

end DeviceStats.Timestamps
