import DeviceStats.Text.Blank

/-!
# Proofs/Text/Blank — what is left of a text without the blanks at its ends
-/

namespace DeviceStats.Text

variable {front cs back : List Char}

theorem isBlank_of_isDigit {c : Char} (h : c.isDigit = true) : isBlank c = false := by
  simp only [Char.isDigit, Bool.and_eq_true, decide_eq_true_eq, UInt32.le_iff_toNat_le] at h
  obtain ⟨hlo, hhi⟩ := h
  change 48 ≤ c.toNat at hlo
  change c.toNat ≤ 57 at hhi
  simp [isBlank]
  omega

theorem trimStartChars_eq_self (h : ∀ c ∈ cs.head?, isBlank c = false) :
    trimStartChars cs = cs := by
  cases cs with
  | nil => rfl
  | cons c cs => simp [trimStartChars, h c rfl]

/-- **A text without blanks at its ends is not trimmed.** -/
theorem trimChars_eq_self (hhead : ∀ c ∈ cs.head?, isBlank c = false)
    (hlast : ∀ c ∈ cs.getLast?, isBlank c = false) : trimChars cs = cs := by
  rw [trimChars, trimStartChars_eq_self hhead, trimStartChars_eq_self (by simpa using hlast),
    List.reverse_reverse]

/-- **Blanks around a text are taken away.** -/
theorem trimChars_append (hfront : ∀ c ∈ front, isBlank c = true)
    (hback : ∀ c ∈ back, isBlank c = true) (hne : cs ≠ [])
    (hhead : ∀ c ∈ cs.head?, isBlank c = false) (hlast : ∀ c ∈ cs.getLast?, isBlank c = false) :
    trimChars (front ++ cs ++ back) = cs := by
  have hstart : trimStartChars (front ++ cs ++ back) = cs ++ back := by
    rw [trimStartChars, List.append_assoc, List.dropWhile_append_of_pos hfront]
    obtain ⟨c, cs, rfl⟩ := List.exists_cons_of_ne_nil hne
    exact trimStartChars_eq_self hhead
  have hend : trimStartChars (cs ++ back).reverse = cs.reverse := by
    rw [trimStartChars, List.reverse_append, List.dropWhile_append_of_pos (by simpa using hback)]
    exact trimStartChars_eq_self (by simpa using hlast)
  rw [trimChars, hstart, hend, List.reverse_reverse]

end DeviceStats.Text
