import DeviceStats.Json.Printer
import DeviceStats.Proofs.Json.Number

/-!
# Proofs/Json/Printer — the text of a value tells it apart

Written values form a prefix code: where a value is followed by a comma, a closing mark or nothing,
it is known from the characters which value it is and where it ends (`Value.chars_append_inj`).  Its
quotes come in pairs (`Value.paired_chars`) and a question mark stands in it only inside of quotes,
so no value goes on with another behind a question mark (`not_paired_of_question`).
-/

namespace DeviceStats.Json

/-! ## Quoted texts -/

/-- The value of a hexadecimal digit. -/
def hexValue (c : Char) : Nat := if c.toNat < 58 then c.toNat - 48 else c.toNat - 87

/-- What an escaped character stands for. -/
def unescaped (c : Char) : Char :=
  if c = 'n' then '\n'
  else if c = 't' then '\t'
  else if c = 'r' then '\r'
  else if c = 'b' then '\x08'
  else if c = 'f' then '\x0C'
  else c

/-- The first character inside quotes, and what follows it. -/
def unescape? : List Char → Option (Char × List Char)
  | '\\' :: 'u' :: '0' :: '0' :: h :: l :: cs => some (Char.ofNat (16 * hexValue h + hexValue l), cs)
  | '\\' :: c :: cs => some (unescaped c, cs)
  | c :: cs => some (c, cs)
  | [] => none

theorem hexValue_hexDigit : ∀ n < 0x20,
    16 * hexValue (hexDigit (n / 16)) + hexValue (hexDigit (n % 16)) = n := by
  decide

/-- **What is escaped is read back.** -/
theorem unescape?_escapeChar (c : Char) (cs : List Char) :
    unescape? (escapeChar c ++ cs) = some (c, cs) := by
  unfold escapeChar
  split_ifs with hquote hbackslash hline htab hreturn hback hfeed hcontrol
  · rw [hquote]
    rfl
  · rw [hbackslash]
    rfl
  · rw [hline]
    rfl
  · rw [htab]
    rfl
  · rw [hreturn]
    rfl
  · rw [hback]
    rfl
  · rw [hfeed]
    rfl
  · have hdigits := hexValue_hexDigit c.toNat hcontrol
    simp [unescape?, hdigits, Char.ofNat_toNat]
  · simp [unescape?, hbackslash]

/-- No escaped character starts with a quote. -/
theorem escapeChar_append_ne (c : Char) (cs cs' : List Char) : escapeChar c ++ cs ≠ '"' :: cs' := by
  intro h
  have hread := congrArg unescape? h
  rw [unescape?_escapeChar] at hread
  obtain rfl : c = '"' := congrArg Prod.fst (Option.some.inj hread)
  exact absurd (List.cons.inj h).1 (by decide)

/-- **Of a quoted text it is known where it ends.** -/
theorem quoteChars_append_inj {cs cs' r r' : List Char}
    (h : quoteChars cs ++ r = quoteChars cs' ++ r') : cs = cs' ∧ r = r' := by
  have h : cs.flatMap escapeChar ++ '"' :: r = cs'.flatMap escapeChar ++ '"' :: r' := by
    simpa [quoteChars] using h
  induction cs generalizing cs' with
  | nil => cases cs' with
    | nil => exact ⟨rfl, (List.cons.inj h).2⟩
    | cons c' cs' =>
      rw [List.flatMap_cons, List.append_assoc] at h
      exact absurd h.symm (escapeChar_append_ne c' _ r)
  | cons c cs ih => cases cs' with
    | nil =>
      rw [List.flatMap_cons, List.append_assoc] at h
      exact absurd h (escapeChar_append_ne c _ r')
    | cons c' cs' =>
      rw [List.flatMap_cons, List.append_assoc, List.flatMap_cons, List.append_assoc] at h
      have hread := congrArg unescape? h
      rw [unescape?_escapeChar, unescape?_escapeChar] at hread
      obtain ⟨rfl, hrest⟩ := Prod.mk.inj (Option.some.inj hread)
      obtain ⟨rfl, hr⟩ := ih (by simpa [quoteChars] using hrest) hrest
      exact ⟨rfl, hr⟩

/-! ## Finite values -/

namespace Value

mutual

/-- Whether every number in a value is finite. -/
def isFinite : Value → Bool
  | .null | .bool _ | .str _ => true
  | .num n => n.isFinite
  | .arr items => areFinite items
  | .obj fields => fieldsFinite fields

def areFinite : List Value → Bool
  | [] => true
  | v :: vs => v.isFinite && areFinite vs

def fieldsFinite : List (String × Value) → Bool
  | [] => true
  | (_, v) :: rest => v.isFinite && fieldsFinite rest

end

/-! ## Words -/

/-- The characters of words: of numbers, `null`, `true` and `false`. -/
def isWordChar (c : Char) : Bool := Number.isNumberChar c || c.isLower

/-- Whether no word goes on where a text starts. -/
def Ended (r : List Char) : Prop := ∀ c ∈ r.head?, isWordChar c = false

theorem ended_nil : Ended [] := nofun

theorem ended_cons {c : Char} {r : List Char} (h : isWordChar c = false) : Ended (c :: r) := by
  rintro _ ⟨⟩
  exact h

/-- Of a word it is known where it ends. -/
theorem word_append_inj {ws ws' r r' : List Char} (hws : ∀ c ∈ ws, isWordChar c = true)
    (hws' : ∀ c ∈ ws', isWordChar c = true) (hr : Ended r) (hr' : Ended r')
    (h : ws ++ r = ws' ++ r') : ws = ws' ∧ r = r' := by
  have htake {ws r : List Char} (hws : ∀ c ∈ ws, isWordChar c = true) (hr : Ended r) :
      (ws ++ r).takeWhile isWordChar = ws := by
    rw [List.takeWhile_append_of_pos hws]
    cases r with
    | nil => simp
    | cons c r =>
      have hc : isWordChar c = false := hr c rfl
      simp [hc]
  obtain rfl : ws = ws' := by
    rw [← htake hws hr, h, htake hws' hr']
  exact ⟨rfl, List.append_cancel_left h⟩

/-- Whether a value is written as a word. -/
def isWord : Value → Bool
  | .null | .bool _ | .num _ => true
  | _ => false

theorem isWordChar_of_mem_chars {v : Value} (hv : v.isFinite = true) (h : v.isWord = true) :
    ∀ c ∈ v.chars, isWordChar c = true := by
  have hletters {cs : List Char} (h : cs.all Char.isLower = true) :
      ∀ c ∈ cs, isWordChar c = true := fun c hc => by
    rw [isWordChar, List.all_eq_true.mp h c hc, Bool.or_true]
  match v with
  | .null => exact hletters rfl
  | .bool true => exact hletters rfl
  | .bool false => exact hletters rfl
  | .num n =>
    intro c hc
    rw [isWordChar, Number.isNumberChar_of_mem_text hv c hc, Bool.true_or]

/-- The first character of a value. -/
theorem exists_chars_eq_cons {v : Value} (hv : v.isFinite = true) :
    ∃ c cs, v.chars = c :: cs ∧ (isWordChar c = true ∧ v.isWord = true ∨
      v.isWord = false ∧ (c = '"' ∨ c = '[' ∨ c = '\x7b')) := by
  have hword (h : v.isWord = true) (hne : v.chars ≠ []) :
      ∃ c cs, v.chars = c :: cs ∧ (isWordChar c = true ∧ v.isWord = true ∨
        v.isWord = false ∧ (c = '"' ∨ c = '[' ∨ c = '\x7b')) := by
    obtain ⟨c, cs, hcs⟩ := List.exists_cons_of_ne_nil hne
    exact ⟨c, cs, hcs, .inl ⟨isWordChar_of_mem_chars hv h c (by simp [hcs]), h⟩⟩
  match v with
  | .null => exact hword rfl (by simp [chars])
  | .bool b => exact hword rfl (by cases b <;> simp [chars])
  | .num n => exact hword rfl (Number.toList_text_ne_nil hv)
  | .str s => exact ⟨_, _, rfl, .inr ⟨rfl, .inl rfl⟩⟩
  | .arr items => exact ⟨_, _, rfl, .inr ⟨rfl, .inr (.inl rfl)⟩⟩
  | .obj fields => exact ⟨_, _, rfl, .inr ⟨rfl, .inr (.inr rfl)⟩⟩

/-- A number is not written with letters. -/
theorem toList_text_ne {n : Number} (hn : n.isFinite = true) {c : Char} (cs : List Char)
    (hc : Number.isNumberChar c = false) : n.text.toList ≠ c :: cs := by
  intro h
  have := Number.isNumberChar_of_mem_text hn c (h ▸ List.mem_cons_self)
  exact Bool.noConfusion (this.symm.trans hc)

/-- Words tell values apart. -/
theorem eq_of_isWord {v w : Value} (hv : v.isFinite = true) (hw : w.isFinite = true)
    (hvword : v.isWord = true) (hwword : w.isWord = true) (h : v.chars = w.chars) : v = w := by
  have hnum {m : Number} (hm : m.isFinite = true) {u : Value} (hu : u.isFinite = true)
      (huword : u.isWord = true) (h : (Value.num m).chars = u.chars) : .num m = u := by
    match u with
    | .null => exact absurd h (toList_text_ne hm _ rfl)
    | .bool true => exact absurd h (toList_text_ne hm _ rfl)
    | .bool false => exact absurd h (toList_text_ne hm _ rfl)
    | .num n => exact congrArg num (Number.text_inj hm hu (String.toList_inj.mp h))
  match v, w with
  | .num _, _ => exact hnum hv hw hwword h
  | _, .num _ => exact (hnum hw hv hvword h.symm).symm
  | .null, .null => rfl
  | .bool a, .bool b => cases a <;> cases b <;> first | rfl | exact absurd h (by decide)
  | .null, .bool b => cases b <;> exact absurd h (by decide)
  | .bool b, .null => cases b <;> exact absurd h (by decide)

/-! ## Values -/

theorem charsItems_cons (v : Value) (vs : List Value) : charsItems (v :: vs) =
    v.chars ++ if vs.isEmpty then [] else ',' :: charsItems vs := by
  cases vs <;> simp [charsItems]

theorem charsFields_cons (k : String) (v : Value) (rest : List (String × Value)) :
    charsFields ((k, v) :: rest) = quoteChars k.toList ++
      ':' :: (v.chars ++ if rest.isEmpty then [] else ',' :: charsFields rest) := by
  cases rest <;> simp [charsFields]

/-- What stands behind an entry ends it. -/
theorem ended_tail {c : Char} (hc : isWordChar c = false) (empty : Bool) (cs r : List Char) :
    Ended ((if empty then [] else ',' :: cs) ++ c :: r) := by
  cases empty with
  | true => exact ended_cons hc
  | false => exact ended_cons rfl

/-- Behind an entry it is known whether there are more. -/
theorem tail_inj {c : Char} (hc : c ≠ ',') {empty empty' : Bool} {cs cs' r r' : List Char}
    (h : (if empty then [] else ',' :: cs) ++ c :: r = (if empty' then [] else ',' :: cs') ++ c :: r') :
    empty = true ∧ empty' = true ∧ r = r' ∨ cs ++ c :: r = cs' ++ c :: r' := by
  cases empty <;> cases empty' <;> simp only [if_true, Bool.false_eq_true, if_false] at h
  · exact .inr (List.cons.inj h).2
  · exact absurd (List.cons.inj h).1.symm hc
  · exact absurd (List.cons.inj h).1 hc
  · exact .inl ⟨rfl, rfl, (List.cons.inj h).2⟩

/-- Where a word and another value start alike, the other is a word. -/
theorem isWord_of_append_eq {v w : Value} {r r' : List Char} (hv : v.isFinite = true)
    (hw : w.isFinite = true) (h : v.chars ++ r = w.chars ++ r') : v.isWord = w.isWord := by
  obtain ⟨c, cs, hcs, hc⟩ := exists_chars_eq_cons hv
  obtain ⟨c', cs', hcs', hc'⟩ := exists_chars_eq_cons hw
  rw [hcs, hcs'] at h
  obtain rfl : c = c' := (List.cons.inj h).1
  have hmark (h : c = '"' ∨ c = '[' ∨ c = '\x7b') : isWordChar c = false := by
    rcases h with rfl | rfl | rfl <;> rfl
  rcases hc with ⟨hc, hword⟩ | ⟨hword, hc⟩ <;> rcases hc' with ⟨hc', hword'⟩ | ⟨hword', hc'⟩ <;>
    rw [hword, hword']
  · exact Bool.noConfusion (hc.symm.trans (hmark hc'))
  · exact Bool.noConfusion (hc'.symm.trans (hmark hc))

/-- No value starts with a closing mark. -/
theorem chars_append_ne {v : Value} (hv : v.isFinite = true) {c : Char} (hc : c = ']' ∨ c = '\x7d')
    (r r' : List Char) : v.chars ++ r ≠ c :: r' := by
  obtain ⟨c', cs, hcs, hc'⟩ := exists_chars_eq_cons hv
  intro h
  rw [hcs] at h
  obtain rfl : c' = c := (List.cons.inj h).1
  obtain ⟨hplain, hopening⟩ : isWordChar c' = false ∧ ¬ (c' = '"' ∨ c' = '[' ∨ c' = '\x7b') := by
    rcases hc with rfl | rfl <;> decide
  rcases hc' with ⟨hword, -⟩ | ⟨-, hmark⟩
  · exact Bool.noConfusion (hplain.symm.trans hword)
  · exact hopening hmark

/-- Where a word and another value are followed by no word, both are the same word. -/
theorem chars_append_inj_of_isWord {v w : Value} {r r' : List Char} (hv : v.isFinite = true)
    (hw : w.isFinite = true) (hr : Ended r) (hr' : Ended r') (hword : v.isWord = true)
    (h : v.chars ++ r = w.chars ++ r') : v = w ∧ r = r' := by
  have hword' : w.isWord = true := (isWord_of_append_eq hv hw h).symm.trans hword
  obtain ⟨hchars, hrest⟩ := word_append_inj (isWordChar_of_mem_chars hv hword)
    (isWordChar_of_mem_chars hw hword') hr hr' h
  exact ⟨eq_of_isWord hv hw hword hword' hchars, hrest⟩

mutual

/-- **Of a value it is known where it ends.** -/
theorem chars_append_inj : (v : Value) → ∀ {w : Value} {r r' : List Char}, v.isFinite = true →
    w.isFinite = true → Ended r → Ended r' → v.chars ++ r = w.chars ++ r' → v = w ∧ r = r'
  | .null, _, _, _, hv, hw, hr, hr', h => chars_append_inj_of_isWord hv hw hr hr' rfl h
  | .bool _, _, _, _, hv, hw, hr, hr', h => chars_append_inj_of_isWord hv hw hr hr' rfl h
  | .num _, _, _, _, hv, hw, hr, hr', h => chars_append_inj_of_isWord hv hw hr hr' rfl h
  | .str s, w, r, r', hv, hw, _, _, h => by
    have hword := isWord_of_append_eq hv hw h
    cases w with
    | str t =>
      obtain ⟨hst, hrest⟩ := quoteChars_append_inj h
      exact ⟨congrArg str (String.toList_inj.mp hst), hrest⟩
    | arr | obj => exact absurd (List.cons.inj h).1 (by decide)
    | _ => cases hword
  | .arr items, w, r, r', hv, hw, _, _, h => by
    have hword := isWord_of_append_eq hv hw h
    cases w with
    | arr items' =>
      have h : charsItems items ++ ']' :: r = charsItems items' ++ ']' :: r' := by
        simpa [chars] using h
      obtain ⟨rfl, hrest⟩ := charsItems_append_inj items hv hw h
      exact ⟨rfl, hrest⟩
    | str | obj => exact absurd (List.cons.inj h).1 (by decide)
    | _ => cases hword
  | .obj fields, w, r, r', hv, hw, _, _, h => by
    have hword := isWord_of_append_eq hv hw h
    cases w with
    | obj fields' =>
      have h : charsFields fields ++ '\x7d' :: r = charsFields fields' ++ '\x7d' :: r' := by
        simpa [chars] using h
      obtain ⟨rfl, hrest⟩ := charsFields_append_inj fields hv hw h
      exact ⟨rfl, hrest⟩
    | str | arr => exact absurd (List.cons.inj h).1 (by decide)
    | _ => cases hword

theorem charsItems_append_inj : (vs : List Value) → ∀ {ws : List Value} {r r' : List Char},
    areFinite vs = true → areFinite ws = true →
    charsItems vs ++ ']' :: r = charsItems ws ++ ']' :: r' → vs = ws ∧ r = r'
  | [], [], _, _, _, _, h => ⟨rfl, (List.cons.inj h).2⟩
  | [], w :: ws, r, r', _, hws, h => by
    rw [charsItems_cons, List.append_assoc] at h
    exact absurd h.symm (chars_append_ne (Bool.and_eq_true_iff.mp hws).1 (.inl rfl) _ r)
  | v :: vs, [], r, r', hvs, _, h => by
    rw [charsItems_cons, List.append_assoc] at h
    exact absurd h (chars_append_ne (Bool.and_eq_true_iff.mp hvs).1 (.inl rfl) _ r')
  | v :: vs, w :: ws, r, r', hvs, hws, h => by
    obtain ⟨hv, hvs'⟩ := Bool.and_eq_true_iff.mp hvs
    obtain ⟨hw, hws'⟩ := Bool.and_eq_true_iff.mp hws
    rw [charsItems_cons, List.append_assoc, charsItems_cons, List.append_assoc] at h
    obtain ⟨rfl, htail⟩ := chars_append_inj v hv hw (ended_tail rfl _ _ _) (ended_tail rfl _ _ _) h
    rcases tail_inj (by decide) htail with ⟨hempty, hempty', hr⟩ | hmore
    · rw [List.isEmpty_iff.mp hempty, List.isEmpty_iff.mp hempty']
      exact ⟨rfl, hr⟩
    · obtain ⟨rfl, hr⟩ := charsItems_append_inj vs hvs' hws' hmore
      exact ⟨rfl, hr⟩

theorem charsFields_append_inj : (fields : List (String × Value)) →
    ∀ {fields' : List (String × Value)} {r r' : List Char}, fieldsFinite fields = true →
    fieldsFinite fields' = true →
    charsFields fields ++ '\x7d' :: r = charsFields fields' ++ '\x7d' :: r' →
    fields = fields' ∧ r = r'
  | [], [], _, _, _, _, h => ⟨rfl, (List.cons.inj h).2⟩
  | [], (k, w) :: rest, r, r', _, hws, h => by
    rw [charsFields_cons] at h
    exact absurd (List.cons.inj h).1 (by decide)
  | (k, v) :: rest, [], r, r', hvs, _, h => by
    rw [charsFields_cons] at h
    exact absurd (List.cons.inj h).1 (by decide)
  | (k, v) :: rest, (k', w) :: rest', r, r', hvs, hws, h => by
    obtain ⟨hv, hvs'⟩ := Bool.and_eq_true_iff.mp hvs
    obtain ⟨hw, hws'⟩ := Bool.and_eq_true_iff.mp hws
    rw [charsFields_cons, List.append_assoc, charsFields_cons, List.append_assoc] at h
    obtain ⟨hk, hvalue⟩ := quoteChars_append_inj h
    obtain rfl : k = k' := String.toList_inj.mp hk
    simp only [List.cons_append, List.append_assoc, List.cons.injEq, true_and] at hvalue
    obtain ⟨rfl, htail⟩ :=
      chars_append_inj v hv hw (ended_tail rfl _ _ _) (ended_tail rfl _ _ _) hvalue
    rcases tail_inj (by decide) htail with ⟨hempty, hempty', hr⟩ | hmore
    · rw [List.isEmpty_iff.mp hempty, List.isEmpty_iff.mp hempty']
      exact ⟨rfl, hr⟩
    · obtain ⟨rfl, hr⟩ := charsFields_append_inj rest hvs' hws' hmore
      exact ⟨rfl, hr⟩

end

/-- **The text of a finite value tells it apart.** -/
theorem text_inj {v w : Value} (hv : v.isFinite = true) (hw : w.isFinite = true)
    (h : v.text = w.text) : v = w := by
  have h : v.chars ++ [] = w.chars ++ [] := by simpa [text] using congrArg String.toList h
  exact (chars_append_inj v hv hw ended_nil ended_nil h).1

end Value

/-! ## Question marks in texts -/

/-- Where one stands in a text, by the quotes before it. -/
inductive Place
  | outside
  | inside
  /-- Behind a backslash. -/
  | escaped
  /-- Behind a backslash or a question mark outside of quotes, where no value has one. -/
  | astray
deriving DecidableEq

namespace Place

def next : Place → Char → Place
  | .outside, c => if c = '"' then .inside else if c = '\\' ∨ c = '?' then .astray else .outside
  | .inside, c => if c = '"' then .outside else if c = '\\' then .escaped else .inside
  | .escaped, _ => .inside
  | .astray, _ => .astray

theorem foldl_astray (cs : List Char) : cs.foldl next .astray = .astray := by
  induction cs with
  | nil => rfl
  | cons c cs ih => exact ih

end Place

/-- Whether a text leads from outside of quotes to the outside again, and from the inside to the
inside, if anywhere. -/
structure Paired (cs : List Char) : Prop where
  outside : cs.foldl Place.next .outside = .outside
  inside : cs.foldl Place.next .inside = .inside ∨ cs.foldl Place.next .inside = .astray

theorem Paired.append {cs cs' : List Char} (h : Paired cs) (h' : Paired cs') :
    Paired (cs ++ cs') := by
  refine ⟨by rw [List.foldl_append, h.outside, h'.outside], ?_⟩
  rw [List.foldl_append]
  rcases h.inside with heq | heq <;> rw [heq]
  · exact h'.inside
  · exact .inr (Place.foldl_astray cs')

theorem paired_of_forall {cs : List Char} (h : ∀ c ∈ cs, c ≠ '"' ∧ c ≠ '\\' ∧ c ≠ '?') :
    Paired cs := by
  induction cs with
  | nil => exact ⟨rfl, .inl rfl⟩
  | cons c cs ih =>
    obtain ⟨⟨hquote, hbackslash, hmark⟩, hcs⟩ := List.forall_mem_cons.mp h
    have hc : Paired [c] := by
      constructor <;> simp [Place.next, hquote, hbackslash, hmark]
    exact hc.append (ih hcs)

theorem foldl_hexDigits : ∀ n < 0x20,
    ['0', '0', hexDigit (n / 16), hexDigit (n % 16)].foldl Place.next .inside = .inside := by
  decide

/-- An escaped character leads from the inside to the inside, and from the outside nowhere else. -/
theorem foldl_escapeChar (c : Char) : (escapeChar c).foldl Place.next .inside = .inside ∧
    ((escapeChar c).foldl Place.next .outside = .outside ∨
      (escapeChar c).foldl Place.next .outside = .astray) := by
  have hescape (d : Char) (cs : List Char) (hcs : cs.foldl Place.next .inside = .inside) :
      ('\\' :: d :: cs).foldl Place.next .inside = .inside ∧
        (('\\' :: d :: cs).foldl Place.next .outside = .outside ∨
          ('\\' :: d :: cs).foldl Place.next .outside = .astray) :=
    ⟨hcs, .inr (Place.foldl_astray cs)⟩
  unfold escapeChar
  split_ifs with hquote hbackslash hline htab hreturn hback hfeed hcontrol
  · exact hescape _ _ rfl
  · exact hescape _ _ rfl
  · exact hescape _ _ rfl
  · exact hescape _ _ rfl
  · exact hescape _ _ rfl
  · exact hescape _ _ rfl
  · exact hescape _ _ rfl
  · exact hescape _ _ (foldl_hexDigits c.toNat hcontrol)
  · by_cases hmark : c = '?' <;> simp [Place.next, hquote, hbackslash, hmark]

theorem paired_quoteChars (cs : List Char) : Paired (quoteChars cs) := by
  have hinner : (cs.flatMap escapeChar).foldl Place.next .inside = .inside ∧
      ((cs.flatMap escapeChar).foldl Place.next .outside = .outside ∨
        (cs.flatMap escapeChar).foldl Place.next .outside = .astray) := by
    induction cs with
    | nil => exact ⟨rfl, .inl rfl⟩
    | cons c cs ih =>
      obtain ⟨hinside, houtside⟩ := foldl_escapeChar c
      rw [List.flatMap_cons, List.foldl_append, List.foldl_append, hinside]
      refine ⟨ih.1, ?_⟩
      rcases houtside with heq | heq <;> rw [heq]
      · exact ih.2
      · exact .inr (Place.foldl_astray _)
  have hfold (p : Place) : (quoteChars cs).foldl Place.next p =
      ((cs.flatMap escapeChar).foldl Place.next (p.next '"')).next '"' := by
    rw [quoteChars, List.foldl_cons, List.foldl_append]
    rfl
  refine ⟨by rw [hfold]; exact congrArg (Place.next · '"') hinner.1, ?_⟩
  rw [hfold]
  rcases hinner.2 with heq | heq
  · exact .inl (congrArg (Place.next · '"') heq)
  · exact .inr (congrArg (Place.next · '"') heq)

namespace Value

theorem paired_of_isWord {v : Value} (hv : v.isFinite = true) (h : v.isWord = true) :
    Paired v.chars :=
  paired_of_forall fun c hc => by
    have hword := isWordChar_of_mem_chars hv h c hc
    refine ⟨?_, ?_, ?_⟩ <;> rintro rfl <;> exact absurd hword (by decide)

mutual

/-- **In a value quotes come in pairs.** -/
theorem paired_chars : (v : Value) → v.isFinite = true → Paired v.chars
  | .null, hv | .bool _, hv | .num _, hv => paired_of_isWord hv rfl
  | .str s, _ => paired_quoteChars s.toList
  | .arr items, hv =>
    have hopen : Paired ['['] := ⟨rfl, .inl rfl⟩
    have hclose : Paired [']'] := ⟨rfl, .inl rfl⟩
    hopen.append ((paired_charsItems items hv).append hclose)
  | .obj fields, hv =>
    have hopen : Paired ['\x7b'] := ⟨rfl, .inl rfl⟩
    have hclose : Paired ['\x7d'] := ⟨rfl, .inl rfl⟩
    hopen.append ((paired_charsFields fields hv).append hclose)

theorem paired_charsItems : (vs : List Value) → areFinite vs = true → Paired (charsItems vs)
  | [], _ => ⟨rfl, .inl rfl⟩
  | v :: vs, h => by
    obtain ⟨hv, hvs⟩ := Bool.and_eq_true_iff.mp h
    rw [charsItems_cons]
    refine (paired_chars v hv).append ?_
    split
    · exact ⟨rfl, .inl rfl⟩
    · have hcomma : Paired [','] := ⟨rfl, .inl rfl⟩
      exact hcomma.append (paired_charsItems vs hvs)

theorem paired_charsFields : (fields : List (String × Value)) → fieldsFinite fields = true →
    Paired (charsFields fields)
  | [], _ => ⟨rfl, .inl rfl⟩
  | (k, v) :: rest, h => by
    obtain ⟨hv, hrest⟩ := Bool.and_eq_true_iff.mp h
    have hcolon : Paired [':'] := ⟨rfl, .inl rfl⟩
    rw [charsFields_cons]
    refine (paired_quoteChars k.toList).append (hcolon.append ((paired_chars v hv).append ?_))
    split
    · exact ⟨rfl, .inl rfl⟩
    · have hcomma : Paired [','] := ⟨rfl, .inl rfl⟩
      exact hcomma.append (paired_charsFields rest hrest)

end

end Value

/-- **No value goes on with another behind a question mark.** -/
theorem not_paired_of_question {cs : List Char} (h : Paired cs) (before : List Char) :
    ¬ Paired (before ++ '?' :: cs) := by
  intro hall
  have houtside := hall.outside
  rw [List.foldl_append, List.foldl_cons] at houtside
  have hmark (p : Place) : p.next '?' = .inside ∨ p.next '?' = .astray := by
    cases p <;> simp [Place.next]
  rcases hmark (before.foldl Place.next .outside) with heq | heq <;> rw [heq] at houtside
  · rcases h.inside with hinside | hastray
    · exact absurd (hinside.symm.trans houtside) (by decide)
    · exact absurd (hastray.symm.trans houtside) (by decide)
  · exact absurd ((Place.foldl_astray cs).symm.trans houtside) (by decide)

end DeviceStats.Json
