import DeviceStats.Proofs.Time.Written

/-!
# Proofs/Time/Layouts — what all layouts have in common

Two facts about every layout, each carried from its parts by a rule for sequences.  The moments that
are read are moments on a clock (`onClock_of_ofChars?`): a fraction is less than a second and clocks
are ahead by whole minutes.  A written moment of a year before 0 or after 9999 is not read at all
(`ofChars?_isoChars_eq_none`).
-/

namespace DeviceStats.Time

/-! ## What is read fits a clock -/

/-- Parts that a clock can show.  Clocks are ahead by whole minutes. -/
structure Parts.OnClock (p : Parts) : Prop where
  nanos_lt : p.nanos < 1000000000
  ahead : p.ahead % 60 = 0

namespace Reader

variable {α β : Type} {r : Reader α} {f : α → Reader β}

/-- Whatever a reader reads has a property. -/
def Gives (r : Reader α) (P : α → Prop) : Prop := ∀ ⦃cs a rest⦄, r cs = some (a, rest) → P a

/-- What is read later may use what is known of what was read first. -/
theorem Gives.bind {P : α → Prop} {Q : β → Prop} (hr : Gives r P) (hf : ∀ a, P a → Gives (f a) Q) :
    Gives (r >>= f) Q := by
  intro cs b rest h
  rw [bind_apply, Option.bind_eq_some_iff] at h
  obtain ⟨⟨a, mid⟩, hr', h⟩ := h
  exact hf a (hr hr') h

/-- What is read first may be anything. -/
theorem Gives.after {Q : β → Prop} (hf : ∀ a, Gives (f a) Q) : Gives (r >>= f) Q :=
  Gives.bind (P := fun _ => True) (fun _ _ _ _ => trivial) fun a _ => hf a

theorem gives_pure {P : α → Prop} {a : α} (h : P a) : Gives (pure a) P := by
  rintro cs b rest heq
  cases heq
  exact h

/-- A reader that always fails gives whatever one likes. -/
theorem gives_fail (P : α → Prop) : Gives fail P := nofun

theorem gives_ite {r r' : Reader α} {P : α → Prop} {c : Prop} [Decidable c] (h : Gives r P)
    (h' : Gives r' P) : Gives (if c then r else r') P := by
  split
  · exact h
  · exact h'

theorem digit_le {c : Char} (h : c.isDigit = true) : c.toNat - '0'.toNat ≤ 9 := by
  simp only [Char.isDigit, Bool.and_eq_true, decide_eq_true_eq, UInt32.le_iff_toNat_le] at h
  exact Nat.sub_le_sub_right h.2 _

/-- A number of some digits is below the power of ten with as many zeros. -/
theorem ofDigitChars_lt {cs : List Char} (h : ∀ c ∈ cs, c.isDigit = true) :
    Nat.ofDigitChars 10 cs 0 < 10 ^ cs.length := by
  induction cs using List.reverseRecOn with
  | nil => decide
  | append_singleton cs c ih =>
    have hlt := ih fun c hc => h c (List.mem_append_left _ hc)
    have hdigit := digit_le (h c (List.mem_append_right _ (List.mem_singleton_self c)))
    rw [Nat.ofDigitChars_append, Nat.ofDigitChars_cons, Nat.ofDigitChars_nil, List.length_append,
      List.length_singleton, pow_succ]
    omega

/-- Of a fraction nine digits are kept, as billionths, and the digits after these are skipped. -/
theorem gives_fraction : Gives fraction (· < 1000000000) := by
  intro cs n rest h
  rcases fraction_eq_some h with ⟨tail, k, mid, -, hk, rfl, -⟩ | ⟨rfl, -⟩
  · obtain ⟨rfl, htail⟩ := number_eq_some hk
    have hread : tail.length - mid.length = (digits (some 9) tail).length := by
      have := congrArg List.length htail
      rw [List.length_append] at this
      omega
    have hlt := ofDigitChars_lt (@isDigit_of_mem_digits (some 9) tail)
    have hle := length_digits_le 9 tail
    rw [hread]
    calc _ < 10 ^ (digits (some 9) tail).length * 10 ^ (9 - (digits (some 9) tail).length) :=
          Nat.mul_lt_mul_of_pos_right hlt (by positivity)
      _ = 10 ^ 9 := by rw [← pow_add, Nat.add_sub_cancel' hle]
      _ = 1000000000 := by norm_num
  · decide

/-- An offset is read in hours and minutes, so it has no seconds. -/
theorem gives_hoursAndMinutes (between : Reader Unit) :
    Gives (hoursAndMinutes between) (· % 60 = 0) := by
  unfold hoursAndMinutes
  refine .after fun hours => .after fun _ => .after fun _ => .after fun minutes => gives_pure ?_
  omega

/-- A sign keeps an offset in whole minutes. -/
theorem gives_signed (minus : List Char) (between : Reader Unit) :
    Gives (signed minus between) (· % 60 = 0) := by
  unfold signed
  refine .after fun cs => ?_
  split
  · exact .after fun _ => gives_hoursAndMinutes between
  · refine gives_ite (.after fun _ => ?_) (gives_fail _)
    exact .bind (gives_hoursAndMinutes between) fun ahead h => gives_pure (by omega)
  · exact gives_fail _

theorem gives_offset : Gives offset (· % 60 = 0) := by
  unfold offset
  refine .after fun cs => ?_
  split
  · refine gives_ite (.after fun _ => gives_pure rfl) ?_
    exact .bind (gives_signed _ _) fun ahead h => gives_ite (gives_pure h) (gives_fail _)
  · exact gives_fail _

/-- A named zone is ahead by whole hours, any other by an offset. -/
theorem gives_zone : Gives zone (· % 60 = 0) := by
  unfold zone
  refine .after fun cs => gives_ite ?_ (.after fun _ => ?_)
  · exact .bind (gives_signed _ _) fun ahead h => gives_ite (gives_pure h) (gives_fail _)
  · split
    · exact gives_pure (by omega)
    · exact gives_ite (gives_fail _) (gives_pure rfl)
    · exact gives_fail _

/-- The internet date has a fraction and an offset, each within its bounds. -/
theorem gives_internet : Gives internet Parts.OnClock := by
  unfold internet
  refine .after fun _ => .after fun _ => .after fun _ => .after fun _ => .after fun _ => ?_
  refine .after fun _ => .after fun _ => .after fun _ => .after fun _ => .after fun _ => ?_
  refine .after fun _ => .after fun _ => .after fun _ => .after fun _ => ?_
  exact .bind gives_fraction fun nanos hnanos => .bind gives_offset fun ahead hahead =>
    gives_pure ⟨hnanos, hahead⟩

/-- The end of a mail header's date, after its time of day. -/
theorem gives_mailEnd (year : Int) (month day hour minute second : Nat) (weekday : Option Nat) :
    Gives (do
      gap
      let ahead ← zone
      comments (← get).length
      return { year := some year, month, day, hour, minute, second, weekday, ahead })
      Parts.OnClock :=
  .after fun _ => .bind gives_zone fun _ hahead => .after fun _ => .after fun _ =>
    gives_pure ⟨Nat.succ_pos _, hahead⟩

/-- The date of a mail header has no fraction, and an offset or a named zone. -/
theorem gives_mail : Gives mail Parts.OnClock := by
  unfold mail
  refine .after fun _ => .after fun weekday => ?_
  dsimp only
  refine gives_ite (.after fun _ => ?_) ?_
  all_goals
    refine .after fun _ => .after fun _ => .after fun _ => .after fun _ => .after fun _ => ?_
    refine .after fun _ => .after fun _ => .after fun _ => .after fun _ => .after fun _ => ?_
    refine .after fun _ => .after fun _ => .after fun _ => .after fun _ => .after fun colon => ?_
    cases colon with
    | none => exact .after fun _ => gives_mailEnd ..
    | some _ => exact .after fun _ => .after fun _ => gives_mailEnd ..

/-- A part of a plain layout leaves the offset alone, and a fraction is less than a second. -/
theorem gives_item {p : Parts} (h : p.OnClock) (i : Item) : Gives (item p i) Parts.OnClock := by
  cases i with
  | fraction => exact .bind gives_fraction fun nanos hnanos => gives_pure ⟨hnanos, h.ahead⟩
  | year | month | day | hour | minute | second | weekday | monthName | blanks | char =>
    exact .after fun _ => gives_pure ⟨h.nanos_lt, h.ahead⟩

/-- One item after the other keeps what is read so far on a clock. -/
theorem gives_foldlM_item {p : Parts} (h : p.OnClock) (layout : List Item) :
    Gives (layout.foldlM item p) Parts.OnClock := by
  induction layout generalizing p with
  | nil => exact gives_pure h
  | cons i layout ih =>
    rw [List.foldlM_cons]
    exact .bind (gives_item h i) fun p hp => ih hp

theorem gives_items (layout : List Item) : Gives (items layout) Parts.OnClock :=
  gives_foldlM_item ⟨Nat.succ_pos _, rfl⟩ layout

/-- What all layouts have in common holds of the internet date, of the date of a mail header, and of
the plain layouts. -/
theorem forall_mem_layouts {P : Reader Parts → Prop} (hinternet : P internet) (hmail : P mail)
    (hplain : ∀ l ∈ plainLayouts, P (items l)) (hdate : P (do return midnight (← items dashedDate))) :
    ∀ layout ∈ layouts, P layout := by
  intro layout h
  simp only [layouts, List.mem_append, List.mem_map, List.mem_cons, List.not_mem_nil, or_false] at h
  obtain ((rfl | rfl) | ⟨l, hl, rfl⟩) | rfl := h
  · exact hinternet
  · exact hmail
  · exact hplain l hl
  · exact hdate

/-- Every layout that is tried gives parts that a clock can show. -/
theorem gives_of_mem_layouts : ∀ layout ∈ layouts, Gives layout Parts.OnClock :=
  forall_mem_layouts gives_internet gives_mail (fun l _ => gives_items l)
    (.bind (gives_items _) fun _ hp => gives_pure ⟨hp.nanos_lt, hp.ahead⟩)

end Reader

/-- A leap second is kept as second 59 and more than a second of nanoseconds, which is on a clock at
the end of a minute only: hence the offsets in whole minutes. -/
theorem Moment.onClock_ofClock {d : Date} {hour minute second nanos : Nat} {ahead : Int}
    (hnanos : nanos < 1000000000) (hahead : ahead % 60 = 0) :
    (ofClock d hour minute second nanos ahead).OnClock := by
  unfold ofClock secondsPerDay
  split
  · exact ⟨by dsimp only; omega, fun _ => by dsimp only; omega⟩
  · exact ⟨by dsimp only; omega, fun h => by dsimp only at h; omega⟩

/-- The parts of a date make a moment on a clock, if they make one. -/
theorem Parts.OnClock.moment {p : Parts} {m : Moment} (h : p.OnClock) (hm : p.moment? = some m) :
    m.OnClock := by
  unfold moment? at hm
  simp only [Option.bind_eq_bind, Option.bind_eq_some_iff] at hm
  obtain ⟨d, -, hour, -, minute, -, hm⟩ := hm
  split at hm
  · cases hm
    exact Moment.onClock_ofClock h.nanos_lt h.ahead
  · cases hm

/-- **What is read from a text fits a clock.** -/
theorem Moment.onClock_of_ofChars? {cs : List Char} {m : Moment} (h : ofChars? cs = some m) :
    m.OnClock := by
  obtain ⟨layout, hmem, h⟩ := List.exists_of_findSome?_eq_some h
  obtain ⟨p, hp, hm⟩ := Option.bind_eq_some_iff.mp h
  unfold Reader.whole at hp
  split at hp
  · rename_i hread
    cases hp
    exact (Reader.gives_of_mem_layouts layout hmem hread).moment hm
  · cases hp

/-! ## Years of more than four digits

A written year beyond 9999 or before 0 has a sign, which neither the internet date nor the date of a
mail header takes.  The plain layouts do, but none of them has a place for the letter at the end. -/

namespace Reader

variable {α β : Type} {r : Reader α} {f : α → Reader β}

/-- A reader that does not read past the letter of universal time. -/
def KeepsLetter (r : Reader α) : Prop :=
  ∀ ⦃cs a rest⦄, r cs = some (a, rest) → 'Z' ∈ cs → 'Z' ∈ rest

/-- What two readers keep, one after the other, is kept. -/
theorem KeepsLetter.bind (hr : KeepsLetter r) (hf : ∀ a, KeepsLetter (f a)) :
    KeepsLetter (r >>= f) := by
  intro cs b rest h hmem
  rw [bind_apply, Option.bind_eq_some_iff] at h
  obtain ⟨⟨a, mid⟩, hr', h⟩ := h
  exact hf a h (hr hr' hmem)

theorem keepsLetter_pure (a : α) : KeepsLetter (pure a : Reader α) := by
  rintro cs b rest h hmem
  cases h
  exact hmem

theorem keepsLetter_fail : KeepsLetter (fail : Reader α) := nofun

/-- What stands before the rest is without the letter. -/
theorem mem_of_append {cs front rest : List Char} (h : cs = front ++ rest) (hfront : 'Z' ∉ front)
    (hmem : 'Z' ∈ cs) : 'Z' ∈ rest := by
  subst h
  exact (List.mem_append.mp hmem).resolve_left hfront

/-- Skipping stops at the letter, at the latest. -/
theorem mem_dropWhile {p : Char → Bool} (hp : p 'Z' = false) {cs : List Char} (hmem : 'Z' ∈ cs) :
    'Z' ∈ cs.dropWhile p := by
  refine mem_of_append (List.takeWhile_append_dropWhile (p := p) (l := cs)).symm ?_ hmem
  intro h
  have htrue : p 'Z' = true := List.mem_takeWhile_imp h
  exact absurd (hp.symm.trans htrue) (by decide)

/-- Digits are not the letter. -/
theorem keepsLetter_number (least : Nat) (most : Option Nat) : KeepsLetter (number least most) := by
  intro cs n rest h hmem
  refine mem_of_append (number_eq_some h).2 ?_ hmem
  exact fun hz => absurd (isDigit_of_mem_digits _ hz) (by decide)

theorem keepsLetter_blanks : KeepsLetter blanks := by
  intro cs _ rest h hmem
  cases h
  exact mem_dropWhile (by decide) hmem

theorem keepsLetter_within (lo hi n : Nat) : KeepsLetter (within lo hi n) := by
  unfold within
  split
  · exact keepsLetter_pure n
  · exact keepsLetter_fail

/-- A single character other than the letter is not the letter. -/
theorem keepsLetter_char {c : Char} (hc : c ≠ 'Z') : KeepsLetter (char c) := by
  intro cs _ rest h hmem
  cases cs with
  | nil => cases h
  | cons d cs =>
    simp only [char] at h
    split at h
    · rename_i heq
      cases h
      exact (List.mem_cons.mp hmem).resolve_left fun hz => hc (heq.trans hz.symm)
    · cases h

/-- Names are compared in lower case, so it is the small letter that none of them may have. -/
theorem keepsLetter_name {names : List String} (hnames : ∀ s ∈ names, 'z' ∉ s.toList) :
    KeepsLetter (name names) := by
  intro cs i rest h hmem
  unfold name at h
  obtain ⟨j, hj, h⟩ := Option.map_eq_some_iff.mp h
  cases h
  obtain ⟨hlt, hword, -⟩ := List.findIdx?_eq_some_iff_getElem.mp hj
  refine mem_of_append (List.take_append_drop 3 cs).symm (fun hz => ?_) hmem
  refine hnames _ (List.getElem_mem hlt) ?_
  rw [eq_of_beq hword]
  exact List.mem_map_of_mem hz

theorem keepsLetter_fraction : KeepsLetter fraction := by
  intro cs n rest h hmem
  rcases fraction_eq_some h with ⟨tail, k, mid, rfl, hk, -, rfl⟩ | ⟨-, rfl⟩
  · refine mem_dropWhile (by decide) (keepsLetter_number 1 (some 9) hk ?_)
    exact (List.mem_cons.mp hmem).resolve_left (by decide)
  · exact hmem

/-- A long year is a sign and digits, none of them the letter. -/
theorem keepsLetter_longYear : KeepsLetter longYear := by
  refine .bind keepsLetter_blanks fun _ => ?_
  have hnumber (most : Option Nat) (f : Nat → Int) :
      KeepsLetter (do return f (← number 1 most)) :=
    .bind (keepsLetter_number 1 most) fun _ => keepsLetter_pure _
  intro cs year rest h hmem
  rw [bind_of_eq (rfl : (get : Reader _) cs = some (cs, cs))] at h
  split at h
  · exact hnumber none (fun n => -(n : Int)) h ((List.mem_cons.mp hmem).resolve_left (by decide))
  · exact hnumber none (fun n => (n : Int)) h ((List.mem_cons.mp hmem).resolve_left (by decide))
  · exact hnumber (some 4) (fun n => (n : Int)) h hmem

theorem keepsLetter_two (lo hi : Nat) : KeepsLetter (two lo hi) :=
  .bind keepsLetter_blanks fun _ => .bind (keepsLetter_number 1 (some 2)) fun _ =>
    keepsLetter_within _ _ _

/-- Of the items of a layout only the letter itself reads past it. -/
theorem keepsLetter_item (p : Parts) {i : Item} (h : i ≠ .char 'Z') : KeepsLetter (item p i) := by
  cases i with
  | year => exact .bind keepsLetter_longYear fun _ => keepsLetter_pure _
  | month | day | hour | minute | second =>
    exact .bind (keepsLetter_two _ _) fun _ => keepsLetter_pure _
  | fraction => exact .bind keepsLetter_fraction fun _ => keepsLetter_pure _
  | weekday => exact .bind (keepsLetter_name (by decide)) fun _ => keepsLetter_pure _
  | monthName =>
    exact .bind (.bind (keepsLetter_name (by decide)) fun _ => keepsLetter_pure _) fun _ =>
      keepsLetter_pure _
  | blanks => exact .bind keepsLetter_blanks fun _ => keepsLetter_pure _
  | char c => exact .bind (keepsLetter_char fun hc => h (hc ▸ rfl)) fun _ => keepsLetter_pure _

/-- A layout without the letter does not read past it. -/
theorem keepsLetter_items {layout : List Item} (h : Item.char 'Z' ∉ layout) :
    KeepsLetter (items layout) := by
  unfold items
  generalize ({} : Parts) = p
  induction layout generalizing p with
  | nil => exact keepsLetter_pure p
  | cons i layout ih =>
    rw [List.foldlM_cons]
    refine .bind (keepsLetter_item p (List.ne_of_not_mem_cons h).symm) fun p => ?_
    exact ih (List.not_mem_of_not_mem_cons h) p

theorem letter_not_mem : ∀ layout ∈ dashedDate :: plainLayouts, Item.char 'Z' ∉ layout := by
  simp [plainLayouts, dashedDate, clock]

/-- A text with the letter in it is not read to its end by a reader that does not read past it. -/
theorem KeepsLetter.whole_eq_none {cs : List Char} (hr : KeepsLetter r) (hmem : 'Z' ∈ cs) :
    whole r cs = none := by
  unfold whole
  split
  · rename_i h
    exact absurd (hr h hmem) List.not_mem_nil
  · rfl

theorem bind_of_none {cs : List Char} (h : r cs = none) : (r >>= f) cs = none := by
  rw [bind_apply, h, Option.bind_none]

theorem number_of_not_isDigit {least : Nat} (hpos : 0 < least) (most : Option Nat) {c : Char}
    (hc : c.isDigit = false) (cs : List Char) : number least most (c :: cs) = none := by
  have hnone : digits most (c :: cs) = [] := by
    match most with
    | none => simp [digits, hc]
    | some 0 => rfl
    | some (n + 1) => simp [digits, hc]
  rw [number_eq, hnone, List.length_nil, if_pos hpos]

/-- The internet date begins with a digit, so a signed year is none. -/
theorem whole_internet_of_not_isDigit {c : Char} (hc : c.isDigit = false) (cs : List Char) :
    whole internet (c :: cs) = none := by
  have hnone : internet (c :: cs) = none :=
    bind_of_none (number_of_not_isDigit (by decide) (some 4) hc cs)
  rw [whole, hnone]

/-- The date of a mail header begins with a weekday or a day, so a signed year is none. -/
theorem whole_mail_of_sign {c : Char} (hc : c = '-' ∨ c = '+') (cs : List Char) :
    whole mail (c :: cs) = none := by
  have hblanks : blanks (c :: cs) = some ((), c :: cs) := by
    rcases hc with rfl | rfl <;> rfl
  have hweekday : attempt weekday (c :: cs) = some (none, c :: cs) := by
    rcases hc with rfl | rfl <;> rfl
  have hdigit : c.isDigit = false := by
    rcases hc with rfl | rfl <;> decide
  have hnone : mail (c :: cs) = none := by
    unfold mail
    rw [bind_of_eq hblanks, bind_of_eq hweekday]
    exact (bind_of_eq hblanks).trans
      (bind_of_none (number_of_not_isDigit (by decide) (some 2) hdigit cs))
  rw [whole, hnone]

end Reader

namespace Moment

/-- A written moment ends with the letter. -/
theorem mem_isoChars (m : Moment) : 'Z' ∈ m.isoChars :=
  List.mem_append_right _ (List.mem_singleton_self _)

/-- The year of a written moment is signed where four digits do not hold it. -/
theorem exists_isoChars_eq_sign {m : Moment} (h : ¬(0 ≤ m.date.year ∧ m.date.year ≤ 9999)) :
    ∃ c cs, m.isoChars = c :: cs ∧ (c = '-' ∨ c = '+') := by
  simp only [isoChars, yearChars, if_neg h, List.append_assoc, List.cons_append]
  exact ⟨_, _, rfl, by split <;> simp⟩

/-- A text is read in no layout if none reads the whole of it. -/
theorem ofChars?_eq_none {cs : List Char}
    (h : ∀ layout ∈ Reader.layouts, Reader.whole layout cs = none) : ofChars? cs = none := by
  unfold ofChars?
  rw [List.findSome?_eq_none_iff]
  intro layout hmem
  rw [h layout hmem, Option.bind_none]

/-- **A written moment of another year is not read.** -/
theorem ofChars?_isoChars_eq_none {m : Moment} (h : ¬(0 ≤ m.date.year ∧ m.date.year ≤ 9999)) :
    ofChars? m.isoChars = none := by
  have hletter {r : Reader Parts} (hr : r.KeepsLetter) : Reader.whole r m.isoChars = none :=
    hr.whole_eq_none m.mem_isoChars
  obtain ⟨c, cs, hcs, hc⟩ := exists_isoChars_eq_sign h
  refine ofChars?_eq_none (Reader.forall_mem_layouts ?_ ?_ (fun l hl => ?_) ?_)
  · rw [hcs]
    exact Reader.whole_internet_of_not_isDigit (by rcases hc with rfl | rfl <;> decide) cs
  · rw [hcs]
    exact Reader.whole_mail_of_sign hc cs
  · exact hletter (Reader.keepsLetter_items (Reader.letter_not_mem l (List.mem_cons_of_mem _ hl)))
  · exact hletter (.bind (Reader.keepsLetter_items (Reader.letter_not_mem _ List.mem_cons_self))
      fun _ => Reader.keepsLetter_pure _)

end Moment

end DeviceStats.Time
