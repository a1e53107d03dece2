import DeviceStats.Text.Split
import Mathlib.Data.List.Infix

/-!
# Proofs/Text/Split — where a text is cut

A part occurs in a text exactly if it stands somewhere in it (`occurs_iff`), and a text is cut at
the first place of a character if the character does not stand before it (`splitFirst?_append`), at
the last if it does not stand behind it (`splitLast?_append`).  Parts that are joined are read back
by whatever peels off one after the other (`cut_join`), and so are lines (`lines_join`).  The parts
between a character are those that the library cuts a list into (`splitOnChar_eq_splitOn`).
-/

namespace DeviceStats.Text

/-! ## Cutting once -/

/-- **A part occurs in a text** exactly if it stands somewhere in it. -/
theorem occurs_iff {part cs : List Char} : occurs part cs = true ↔ part <:+: cs := by
  rw [occurs]
  induction cs with
  | nil => cases part <;> simp [splitFirst?]
  | cons c cs ih =>
    rw [List.infix_cons_iff, ← ih, ← List.isPrefixOf_iff_prefix, splitFirst?]
    split
    · rename_i h
      simp [h]
    · rename_i h
      simp [h]

theorem occurs_eq_false_iff {part cs : List Char} : occurs part cs = false ↔ ¬ part <:+: cs := by
  rw [← occurs_iff, Bool.not_eq_true]

/-- **A text is cut at the first place of a character.** -/
theorem splitFirst?_append {c : Char} {front : List Char} (h : c ∉ front) (back : List Char) :
    splitFirst? [c] (front ++ c :: back) = some (front, back) := by
  induction front with
  | nil => simp [splitFirst?]
  | cons d front ih =>
    have hd := List.ne_of_not_mem_cons h
    simp [splitFirst?, hd, ih (List.not_mem_of_not_mem_cons h)]

theorem splitLast?_of_not_mem {c : Char} {cs : List Char} (h : c ∉ cs) :
    splitLast? [c] cs = none := by
  induction cs with
  | nil => rfl
  | cons d cs ih =>
    have hd := List.ne_of_not_mem_cons h
    simp [splitLast?, ih (List.not_mem_of_not_mem_cons h), hd]

/-- **A text is cut at the last place of a character.** -/
theorem splitLast?_append {c : Char} {back : List Char} (h : c ∉ back) (front : List Char) :
    splitLast? [c] (front ++ c :: back) = some (front, back) := by
  induction front with
  | nil => simp [splitLast?, splitLast?_of_not_mem h]
  | cons d front ih => rw [List.cons_append, splitLast?, ih]

/-- What stands in a text stands in it for a last time. -/
theorem exists_last_of_mem {c : Char} {cs : List Char} (h : c ∈ cs) :
    ∃ front back, cs = front ++ c :: back ∧ c ∉ back := by
  obtain ⟨back, front, hsplit, hback⟩ := List.eq_append_cons_of_mem (List.mem_reverse.mpr h)
  refine ⟨front.reverse, back.reverse, ?_, by simpa using hback⟩
  rw [← List.reverse_reverse cs, hsplit, List.reverse_append, List.reverse_cons, List.append_assoc]
  rfl

/-! ## Cutting everywhere -/

/-- A text in front of parts stands in front of the first one. -/
theorem foldr_extendFirst_cons (cs part : List Char) (parts : List (List Char)) :
    cs.foldr extendFirst (part :: parts) = (cs ++ part) :: parts := by
  induction cs with
  | nil => rfl
  | cons c cs ih => rw [List.foldr_cons, ih, extendFirst, List.cons_append]

theorem join_extendFirst (sep : List Char) (c : Char) (parts : List (List Char)) :
    join sep (extendFirst c parts) = c :: join sep parts := by
  match parts with
  | [] | [_] | _ :: _ :: _ => rfl

theorem join_cons {parts : List (List Char)} (h : parts ≠ []) (sep part : List Char) :
    join sep (part :: parts) = part ++ sep ++ join sep parts := by
  cases parts with
  | nil => exact absurd rfl h
  | cons => rfl

/-- What stands in joined parts stands in one of them or in a separator. -/
theorem mem_or_exists_of_mem_join {sep : List Char} {c : Char} {parts : List (List Char)}
    (h : c ∈ join sep parts) : c ∈ sep ∨ ∃ part ∈ parts, c ∈ part := by
  induction parts with
  | nil => cases h
  | cons part parts ih =>
    cases parts with
    | nil => exact .inr ⟨part, List.mem_cons_self, h⟩
    | cons next parts =>
      rw [join_cons (by simp), List.append_assoc, List.mem_append, List.mem_append] at h
      rcases h with h | h | h
      · exact .inr ⟨part, List.mem_cons_self, h⟩
      · exact .inl h
      · exact (ih h).imp_right fun ⟨other, hother, hc⟩ => ⟨other, List.mem_cons_of_mem _ hother, hc⟩

theorem head?_join {part : List Char} (h : part ≠ []) (sep : List Char)
    (parts : List (List Char)) : (join sep (part :: parts)).head? = part.head? := by
  cases parts with
  | nil => rfl
  | cons => rw [join_cons (by simp), List.append_assoc, List.head?_append_of_ne_nil _ h]

theorem getLast?_join {sep : List Char} {c : Char} {parts : List (List Char)} (hne : parts ≠ [])
    (h : ∀ part ∈ parts, part.getLast? = some c) : (join sep parts).getLast? = some c := by
  induction parts with
  | nil => exact absurd rfl hne
  | cons part parts ih =>
    obtain ⟨hpart, h⟩ := List.forall_mem_cons.mp h
    cases parts with
    | nil => exact hpart
    | cons => rw [join_cons (by simp), List.getLast?_append, ih (by simp) h, Option.some_or]

/-- **Joined parts are read back** by what peels off one after the other. -/
theorem cut_join {α : Type} {cut : List Char → List (List Char)} {sep : Char}
    {written read : α → List Char} {xs : List α} (hne : xs ≠ [])
    (hlast : ∀ x ∈ xs, cut (written x) = [read x])
    (hnext : ∀ x ∈ xs, ∀ rest, cut (written x ++ sep :: rest) = read x :: cut rest) :
    cut (join [sep] (xs.map written)) = xs.map read := by
  induction xs with
  | nil => exact absurd rfl hne
  | cons x xs ih =>
    obtain ⟨hx, hlast⟩ := List.forall_mem_cons.mp hlast
    obtain ⟨hx', hnext⟩ := List.forall_mem_cons.mp hnext
    cases xs with
    | nil => exact hx
    | cons y ys =>
      rw [List.map_cons, join_cons (by simp), List.append_assoc, List.singleton_append, hx',
        ih (by simp) hlast hnext]
      rfl

/-! ## Parts between a character -/

theorem splitOnChar_cons (sep c : Char) (cs : List Char) : splitOnChar sep (c :: cs) =
    if c = sep then [] :: splitOnChar sep cs else extendFirst c (splitOnChar sep cs) := by
  by_cases h : c = sep
  · simp [splitOnChar, splitOn, partsFrom, h]
  · simp [splitOnChar, splitOn, partsFrom, h, Ne.symm h]

theorem splitOnChar_append {sep : Char} {cs : List Char} (h : sep ∉ cs) (rest : List Char) :
    splitOnChar sep (cs ++ rest) = cs.foldr extendFirst (splitOnChar sep rest) := by
  induction cs with
  | nil => rfl
  | cons c cs ih =>
    have hc := List.ne_of_not_mem_cons h
    rw [List.cons_append, splitOnChar_cons, if_neg hc.symm, ih (List.not_mem_of_not_mem_cons h)]
    rfl

/-- **Parts without the separator are read back.** -/
theorem splitOnChar_join {sep : Char} {parts : List (List Char)} (hne : parts ≠ [])
    (h : ∀ part ∈ parts, sep ∉ part) : splitOnChar sep (join [sep] parts) = parts := by
  have hcut : splitOnChar sep (join [sep] (parts.map id)) = parts.map id :=
    cut_join hne (fun part hpart => ?_) (fun part hpart rest => ?_)
  · rwa [List.map_id] at hcut
  · have happend := splitOnChar_append (h part hpart) []
    rwa [List.append_nil, show splitOnChar sep [] = [[]] from rfl, foldr_extendFirst_cons,
      List.append_nil] at happend
  · rw [id, splitOnChar_append (h part hpart), splitOnChar_cons, if_pos rfl, foldr_extendFirst_cons,
      List.append_nil]

theorem splitOnChar_eq_splitOn (sep : Char) (cs : List Char) :
    splitOnChar sep cs = cs.splitOn sep := by
  induction cs with
  | nil => rfl
  | cons c cs ih =>
    obtain ⟨part, parts, hparts⟩ := List.exists_cons_of_ne_nil
      (List.splitOnP_ne_nil (· == sep) cs)
    rw [splitOnChar_cons, ih, List.splitOn, List.splitOn, List.splitOnP_cons_eq_if_modifyHead,
      hparts]
    simp [extendFirst]

theorem splitOnChar_ne_nil (sep : Char) (cs : List Char) : splitOnChar sep cs ≠ [] := by
  rw [splitOnChar_eq_splitOn]
  exact List.splitOnP_ne_nil _ cs

theorem join_splitOnChar (sep : Char) (cs : List Char) : join [sep] (splitOnChar sep cs) = cs := by
  induction cs with
  | nil => rfl
  | cons c cs ih =>
    rw [splitOnChar_cons]
    split
    · rename_i h
      rw [join_cons (splitOnChar_ne_nil sep cs), ih, h]
      rfl
    · rw [join_extendFirst, ih]

/-- No part holds the separator. -/
theorem not_mem_of_mem_splitOnChar {sep : Char} {cs part : List Char}
    (h : part ∈ splitOnChar sep cs) : sep ∉ part := by
  induction cs generalizing part with
  | nil =>
    obtain rfl := List.mem_singleton.mp h
    exact List.not_mem_nil
  | cons c cs ih =>
    obtain ⟨first, parts, hparts⟩ := List.exists_cons_of_ne_nil (splitOnChar_ne_nil sep cs)
    rw [splitOnChar_cons, hparts] at h
    rw [hparts] at ih
    split at h
    · rcases List.mem_cons.mp h with rfl | h
      · exact List.not_mem_nil
      · exact ih h
    · rename_i hc
      rcases List.mem_cons.mp h with rfl | h
      · exact List.not_mem_cons_of_ne_of_not_mem (Ne.symm hc) (ih List.mem_cons_self)
      · exact ih (List.mem_cons_of_mem first h)

/-- **A text is cut at a separator** into the parts before it and those behind it. -/
theorem splitOnChar_append_cons (cs : List Char) (sep : Char) (rest : List Char) :
    splitOnChar sep (cs ++ sep :: rest) = splitOnChar sep cs ++ splitOnChar sep rest := by
  simp only [splitOnChar_eq_splitOn]
  exact List.splitOnP_append_cons cs rest (beq_self_eq_true sep)

/-! ## Lines -/

theorem linesOfParts_eq_self {ls : List (List Char)} (hne : ∀ l ∈ ls, l ≠ [])
    (hreturn : ∀ l ∈ ls, l.getLast? ≠ some '\r') : linesOfParts ls = ls := by
  match ls with
  | [] => rfl
  | [l] => simp [linesOfParts, hne]
  | l :: l' :: ls =>
    obtain ⟨hl, hreturn⟩ := List.forall_mem_cons.mp hreturn
    rw [linesOfParts, withoutReturn, if_neg hl,
      linesOfParts_eq_self (List.forall_mem_cons.mp hne).2 hreturn]
    simp

/-- **Lines are read back** if none is empty, holds the end of a line or ends in a carriage
return. -/
theorem lines_join {ls : List (List Char)} (hls : ls ≠ []) (hne : ∀ l ∈ ls, l ≠ [])
    (hfeed : ∀ l ∈ ls, '\n' ∉ l) (hreturn : ∀ l ∈ ls, l.getLast? ≠ some '\r') :
    lines (join ['\n'] ls) = ls := by
  rw [lines, splitOnChar_join hls hfeed, linesOfParts_eq_self hne hreturn]

end DeviceStats.Text
