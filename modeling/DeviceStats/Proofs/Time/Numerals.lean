import DeviceStats.Proofs.Text.Blank
import DeviceStats.Proofs.Time.Layouts

/-!
# Proofs/Time/Numerals — a whole number is read as no date

Behind the digits that a layout begins with, each of them asks for a character that is no digit; a
layout that begins otherwise asks for a name.  So digits alone, with a minus before them or not,
follow no layout (`ofChars?_eq_none`).
-/

namespace DeviceStats.Time

open Text (isBlank)

/-- The text of a whole number: digits, with a minus before them or not. -/
inductive Numeral : List Char → Prop
  | digits {cs : List Char} (h : ∀ c ∈ cs, c.isDigit = true) : Numeral cs
  | minus {cs : List Char} (h : ∀ c ∈ cs, c.isDigit = true) : Numeral ('-' :: cs)

namespace Numeral

variable {cs : List Char}

theorem isDigit_or_eq_minus (h : Numeral cs) : ∀ c ∈ cs, c.isDigit = true ∨ c = '-' := by
  cases h with
  | digits h => exact fun c hc => .inl (h c hc)
  | minus h => exact fun c hc => (List.mem_cons.mp hc).symm.imp_left (h c)

/-- A whole number has no blanks around it, so trimming leaves it. -/
theorem isBlank_eq_false (h : Numeral cs) : ∀ c ∈ cs, isBlank c = false := by
  intro c hc
  rcases h.isDigit_or_eq_minus c hc with hdigit | rfl
  · exact Text.isBlank_of_isDigit hdigit
  · rfl

end Numeral

namespace Reader

variable {β : Type} {cs rest : List Char} {least n : Nat} {most : Option Nat}

/-! ## Digits -/

/-- Behind a number that is read from digits there are digits only. -/
theorem isDigit_of_number (h : ∀ c ∈ cs, c.isDigit = true)
    (hread : number least most cs = some (n, rest)) : ∀ c ∈ rest, c.isDigit = true := by
  intro c hc
  refine h c ?_
  rw [(number_eq_some hread).2]
  exact List.mem_append_right _ hc

/-- What fails on digits fails behind a number that is read from digits. -/
theorem number_bind_eq_none {f : Nat → Reader β} (h : ∀ c ∈ cs, c.isDigit = true)
    (hf : ∀ n rest, (∀ c ∈ rest, c.isDigit = true) → f n rest = none) :
    (number least most >>= f) cs = none := by
  rw [bind_apply, Option.bind_eq_none_iff]
  rintro ⟨n, rest⟩ hread
  exact hf n rest (isDigit_of_number h hread)

/-- Among digits no other character is found. -/
theorem char_of_digits {c : Char} (hc : c.isDigit = false) (h : ∀ c ∈ cs, c.isDigit = true) :
    char c cs = none := by
  cases cs with
  | nil => rfl
  | cons d cs =>
    refine if_neg fun heq => ?_
    subst heq
    exact absurd (hc.symm.trans (h c List.mem_cons_self)) (by decide)

/-- Between digits there is no gap. -/
theorem gap_of_digits (h : ∀ c ∈ cs, c.isDigit = true) : gap cs = none := by
  cases cs with
  | nil => rfl
  | cons d cs => simp [gap, Text.isBlank_of_isDigit (h d List.mem_cons_self)]

/-! ## Numerals -/

/-- Before a whole number there are no blanks to skip. -/
theorem blanks_of_numeral (h : Numeral cs) : blanks cs = some ((), cs) := by
  have hstart : cs.dropWhile isBlank = cs :=
    Text.trimStartChars_eq_self fun c hc => h.isBlank_eq_false c (List.mem_of_mem_head? hc)
  exact congrArg (fun cs => some ((), cs)) hstart

theorem toLower_of_isDigit {c : Char} (h : c.isDigit = true) : c.toLower = c := by
  simp only [Char.isDigit, Bool.and_eq_true, decide_eq_true_eq, UInt32.le_iff_toNat_le] at h
  have hhi : c.toNat ≤ 57 := h.2
  refine dif_neg fun hcapital => ?_
  have hlo : 65 ≤ c.toNat := UInt32.le_iff_toNat_le.mp hcapital.1
  omega

/-- A name that is not written with digits and a minus is not read from a number. -/
theorem name_of_numeral {names : List String}
    (hnames : (names.all fun s => s.toList.any fun c => !c.isDigit && c != '-') = true)
    (h : Numeral cs) : name names cs = none := by
  rw [name, Option.map_eq_none_iff, List.findIdx?_eq_none_iff]
  intro s hs
  refine beq_eq_false_iff_ne.mpr fun heq => ?_
  obtain ⟨c, hc, hother⟩ := List.any_eq_true.mp (List.all_eq_true.mp hnames s hs)
  obtain ⟨hdigit, hminus⟩ := Bool.and_eq_true_iff.mp hother
  rw [heq, List.mem_map] at hc
  obtain ⟨d, hd, rfl⟩ := hc
  rcases h.isDigit_or_eq_minus d (List.mem_of_mem_take hd) with hd | rfl
  · rw [toLower_of_isDigit hd, hd] at hdigit
    cases hdigit
  · cases hminus

/-- Behind a year that is read from a number there are digits only. -/
theorem isDigit_of_longYear (h : Numeral cs) {year : Int}
    (hread : longYear cs = some (year, rest)) : ∀ c ∈ rest, c.isDigit = true := by
  have hnumber {cs : List Char} {most : Option Nat} {f : Nat → Int}
      (h : ∀ c ∈ cs, c.isDigit = true)
      (hread : (do return f (← number 1 most) : Reader Int) cs = some (year, rest)) :
      ∀ c ∈ rest, c.isDigit = true := by
    rw [bind_apply, Option.bind_eq_some_iff] at hread
    obtain ⟨⟨n, rest'⟩, hn, heq⟩ := hread
    cases heq
    exact isDigit_of_number h hn
  rw [longYear, bind_of_eq (blanks_of_numeral h),
    bind_of_eq (rfl : (get : Reader _) cs = some (cs, cs))] at hread
  split at hread
  · cases h with
    | digits h => exact absurd (h '-' List.mem_cons_self) (by decide)
    | minus h => exact hnumber (f := fun n => -(n : Int)) h hread
  · cases h with
    | digits h => exact absurd (h '+' List.mem_cons_self) (by decide)
  · rename_i hminus _
    cases h with
    | digits h => exact hnumber h hread
    | minus h => exact absurd rfl (hminus _)

/-! ## Layouts -/

variable {layout : List Item} {c : Char}

/-- Digits alone do not go on behind the year. -/
theorem items_year_char (hc : c.isDigit = false) (h : Numeral cs) :
    items (.year :: .char c :: layout) cs = none := by
  rw [items, List.foldlM_cons, item, bind_apply, Option.bind_eq_none_iff]
  rintro ⟨p, rest⟩ hread
  rw [bind_apply, Option.bind_eq_some_iff] at hread
  obtain ⟨⟨year, rest'⟩, hyear, heq⟩ := hread
  cases heq
  exact bind_of_none (bind_of_none (char_of_digits hc (isDigit_of_longYear h hyear)))

/-- A layout that begins with a weekday does not begin with a number, … -/
theorem items_weekday (h : Numeral cs) : items (.weekday :: layout) cs = none :=
  bind_of_none (bind_of_none (name_of_numeral rfl h))

/-- … and one that begins with a month's name does not, either. -/
theorem items_monthName (h : Numeral cs) : items (.monthName :: layout) cs = none :=
  bind_of_none (bind_of_none (bind_of_none (name_of_numeral rfl h)))

/-- Digits do not go on to the first dash of an internet date. -/
theorem whole_internet_of_numeral (h : Numeral cs) : whole internet cs = none := by
  cases h with
  | minus h => exact whole_internet_of_not_isDigit (by decide) _
  | digits h =>
    have hnone : internet cs = none :=
      number_bind_eq_none h fun _ _ hrest => bind_of_none (char_of_digits (by decide) hrest)
    rw [whole, hnone]

/-- Digits do not go on to the gap behind the day of a mail header's date. -/
theorem whole_mail_of_numeral (h : Numeral cs) : whole mail cs = none := by
  cases h with
  | minus h => exact whole_mail_of_sign (.inl rfl) _
  | digits h =>
    have hblanks := blanks_of_numeral (.digits h)
    have hweekday : attempt weekday cs = some (none, cs) := by
      rw [attempt, weekday, name_of_numeral rfl (.digits h)]
    have hnone : mail cs = none := by
      unfold mail
      rw [bind_of_eq hblanks, bind_of_eq hweekday]
      refine (bind_of_eq hblanks).trans (number_bind_eq_none h fun _ _ hrest => ?_)
      exact bind_of_none (gap_of_digits hrest)
    rw [whole, hnone]

/-- Each plain layout begins with a name, or with a year and a character that is no digit. -/
theorem items_of_numeral (h : Numeral cs) :
    ∀ layout ∈ dashedDate :: plainLayouts, items layout cs = none := by
  simp only [dashedDate, clock, plainLayouts, List.forall_mem_cons, List.cons_append]
  exact ⟨items_year_char (by decide) h, items_year_char (by decide) h,
    items_year_char (by decide) h, items_weekday h, items_monthName h,
    items_year_char (by decide) h, List.forall_mem_nil _⟩

end Reader

/-- **A whole number is read in no layout.** -/
theorem Numeral.ofChars?_eq_none {cs : List Char} (h : Numeral cs) : Moment.ofChars? cs = none := by
  refine Moment.ofChars?_eq_none (Reader.forall_mem_layouts ?_ ?_ (fun l hl => ?_) ?_)
  · exact Reader.whole_internet_of_numeral h
  · exact Reader.whole_mail_of_numeral h
  · rw [Reader.whole, Reader.items_of_numeral h l (List.mem_cons_of_mem _ hl)]
  · rw [Reader.whole, Reader.bind_of_none (Reader.items_of_numeral h _ List.mem_cons_self)]

end DeviceStats.Time
