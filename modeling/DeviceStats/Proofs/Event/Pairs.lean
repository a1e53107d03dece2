import DeviceStats.Event
import DeviceStats.Proofs.Json.Names
import DeviceStats.Proofs.Text.Blank
import DeviceStats.Proofs.Text.Split

/-!
# Proofs/Event/Pairs — the pairs that a line writes

Cutting a line loses nothing of it (`join_splitPairs`).  A line that writes pairs is cut where one
pair ends, whatever stands inside quotes, and each part is read as its pair (`pairs_written`).  No
such line is taken for a JSON object, though its first key may start with a brace (`object?_join`):
behind the brace an object has a quote or its end, and here an equals sign comes before the first
quote.
-/

namespace DeviceStats.Event

open Json (Value Object Source)
open Text (isBlank trimChars extendFirst join)

/-! ## Lines cut at commas -/

theorem splitPairs_ne_nil (quoted : Bool) (line : List Char) : splitPairs quoted line ≠ [] := by
  have hextend (c : Char) (parts : List (List Char)) : extendFirst c parts ≠ [] := by
    cases parts <;> simp [extendFirst]
  cases line with
  | nil => simp [splitPairs]
  | cons c cs =>
    rw [splitPairs]
    split_ifs
    · exact hextend c _
    · simp
    · exact hextend c _

/-- **The parts of a line with commas between them are the line.** -/
theorem join_splitPairs (quoted : Bool) (line : List Char) :
    join [','] (splitPairs quoted line) = line := by
  induction line generalizing quoted with
  | nil => rfl
  | cons c cs ih =>
    rw [splitPairs]
    split_ifs with hquote hcomma
    · rw [Text.join_extendFirst, ih]
    · obtain ⟨rfl, -⟩ := (Bool.and_eq_true _ _).mp hcomma |>.imp_left of_decide_eq_true
      rw [Text.join_cons (splitPairs_ne_nil quoted cs), ih]
      rfl
    · rw [Text.join_extendFirst, ih]

/-- What neither opens nor closes quotes and holds no comma outside them belongs to one part. -/
theorem splitPairs_append {quoted : Bool} {cs : List Char} (hquote : '"' ∉ cs)
    (hcomma : quoted = false → ',' ∉ cs) (rest : List Char) :
    splitPairs quoted (cs ++ rest) = cs.foldr extendFirst (splitPairs quoted rest) := by
  induction cs with
  | nil => rfl
  | cons c cs ih =>
    have hc : c ≠ '"' := (List.ne_of_not_mem_cons hquote).symm
    have hsep : ¬ (decide (c = ',') && !quoted) = true := by
      intro h
      obtain ⟨rfl, hout⟩ := (Bool.and_eq_true _ _).mp h |>.imp_left of_decide_eq_true
      exact hcomma (Bool.not_eq_true' _ |>.mp hout) List.mem_cons_self
    rw [List.cons_append, splitPairs, if_neg hc, if_neg hsep, List.foldr_cons,
      ih (List.not_mem_of_not_mem_cons hquote) fun h => List.not_mem_of_not_mem_cons (hcomma h)]

theorem splitPairs_quote (quoted : Bool) (rest : List Char) :
    splitPairs quoted ('"' :: rest) = extendFirst '"' (splitPairs (!quoted) rest) := by
  rw [splitPairs, if_pos rfl]

theorem splitPairs_comma (rest : List Char) :
    splitPairs false (',' :: rest) = [] :: splitPairs false rest := by
  rw [splitPairs, if_neg (by decide), if_pos (by decide)]

/-! ## Written pairs -/

/-- A pair as it is written: the key, an equals sign and the value in quotes. -/
def writtenPair (p : String × String) : List Char :=
  p.1.toList ++ '=' :: '"' :: (p.2.toList ++ ['"'])

/-- Pairs as they are written, with commas between them. -/
def written (pairs : List (String × String)) : String :=
  String.ofList (join [','] (pairs.map writtenPair))

/-- A pair that can be written: what ends a key stands in no key, no blank stands at the ends of
one, and no quote in the value. -/
structure Writable (p : String × String) : Prop where
  key_ne_nil : p.1.toList ≠ []
  key_head : ∀ c ∈ p.1.toList.head?, isBlank c = false
  key_last : ∀ c ∈ p.1.toList.getLast?, isBlank c = false
  equals_not_mem : '=' ∉ p.1.toList
  comma_not_mem : ',' ∉ p.1.toList
  quote_not_mem : '"' ∉ p.1.toList
  value : '"' ∉ p.2.toList

variable {p : String × String} {pairs : List (String × String)}

/-- A written pair is one part up to what follows it. -/
theorem splitPairs_writtenPair (h : Writable p) (rest : List Char) :
    splitPairs false (writtenPair p ++ rest) =
      (writtenPair p).foldr extendFirst (splitPairs false rest) := by
  have hkey : '"' ∉ p.1.toList ++ ['='] := by simp [h.quote_not_mem]
  have hkey' : false = false → ',' ∉ p.1.toList ++ ['='] := fun _ => by simp [h.comma_not_mem]
  have hsplit : writtenPair p = (p.1.toList ++ ['=']) ++ ['"'] ++ p.2.toList ++ ['"'] := by
    simp [writtenPair]
  rw [hsplit, List.append_assoc, List.append_assoc, List.append_assoc, splitPairs_append hkey hkey',
    List.singleton_append, splitPairs_quote, Bool.not_false, splitPairs_append h.value (by simp),
    List.singleton_append, splitPairs_quote, Bool.not_true]
  simp

/-- **Written pairs are cut where one ends.** -/
theorem splitPairs_written (hne : pairs ≠ []) (h : ∀ p ∈ pairs, Writable p) :
    splitPairs false (join [','] (pairs.map writtenPair)) = pairs.map writtenPair := by
  refine Text.cut_join hne (fun p hp => ?_) (fun p hp rest => ?_)
  · have hpart := splitPairs_writtenPair (h p hp) []
    rwa [List.append_nil, splitPairs, Text.foldr_extendFirst_cons, List.append_nil] at hpart
  · rw [splitPairs_writtenPair (h p hp), splitPairs_comma, Text.foldr_extendFirst_cons,
      List.append_nil]

/-- **A written pair is read.** -/
theorem pair?_writtenPair (h : Writable p) : pair? (writtenPair p) = some (p.1, .str p.2) := by
  have hkey : trimChars p.1.toList = p.1.toList := Text.trimChars_eq_self h.key_head h.key_last
  have hvalue : trimChars ('"' :: (p.2.toList ++ ['"'])) = '"' :: (p.2.toList ++ ['"']) := by
    refine Text.trimChars_eq_self (by simp [isBlank]) fun c hc => ?_
    rw [← List.cons_append, List.getLast?_concat] at hc
    cases hc
    rfl
  have hne : p.1.toList.isEmpty = false := List.isEmpty_eq_false_iff.mpr h.key_ne_nil
  rw [pair?, writtenPair, Text.splitFirst?_append h.equals_not_mem]
  simp [hkey, hvalue, hne, unquote]

/-- **The pairs of a line that writes pairs.** -/
theorem pairs_written (hne : pairs ≠ []) (h : ∀ p ∈ pairs, Writable p) :
    Event.pairs (join [','] (pairs.map writtenPair)) =
      Named.ofPairs (pairs.map fun p => (p.1, .str p.2)) := by
  rw [Event.pairs, splitPairs_written hne h, List.filterMap_map]
  refine congrArg Named.ofPairs ?_
  calc pairs.filterMap (pair? ∘ writtenPair)
      = pairs.filterMap (some ∘ fun p => (p.1, .str p.2)) :=
        List.filterMap_congr fun p hp => pair?_writtenPair (h p hp)
    _ = pairs.map fun p => (p.1, .str p.2) := congrFun List.filterMap_eq_map pairs

/-! ## No object -/

section Source

open Json.Source (skip ofText)

/-- What follows an opening brace, if it is no quote. -/
theorem read_brace {fuel : Nat} {c : Char} {rest more : List Char} (hrest : skip rest = c :: more)
    (hc : c ≠ '"') : Source.read (fuel + 2) ('\x7b' :: rest) =
      if c = '\x7d' then (.obj [] none, some more) else (.obj [] (some .noKey), none) := by
  rw [Source.read, hrest]
  split
  · rename_i h
    cases h
  · rename_i h
    cases h
    rfl
  · rename_i h
    have hend : c ≠ '\x7d' := fun heq => h more (by rw [heq])
    rw [if_neg hend, Source.readFields]
    rintro _ ⟨⟩
    exact hc rfl

theorem skip_append_equals (front back : List Char) :
    skip (front ++ '=' :: back) = skip front ++ '=' :: back := by
  induction front with
  | nil => rfl
  | cons c front ih =>
    rw [List.cons_append, skip, skip, List.dropWhile_cons, List.dropWhile_cons]
    split
    · exact ih
    · rfl

/-- **No JSON value starts with a brace that an equals sign follows before any quote.** -/
theorem ofText?_brace {front : List Char} (h : '"' ∉ front) (back : List Char) :
    Value.ofText? (String.ofList ('\x7b' :: (front ++ '=' :: back))) = none := by
  obtain ⟨c, more, hfirst, hc, hmore⟩ : ∃ c more, skip (front ++ '=' :: back) = c :: more ∧
      c ≠ '"' ∧ (c = '\x7d' → skip more ≠ []) := by
    rw [skip_append_equals]
    cases hfront : skip front with
    | nil => exact ⟨'=', back, rfl, by decide, fun h => absurd h (by decide)⟩
    | cons c cs =>
      have hmem : c ∈ front := (List.dropWhile_suffix _).subset (hfront ▸ List.mem_cons_self)
      refine ⟨c, cs ++ '=' :: back, rfl, fun hc => h (hc ▸ hmem), fun _ => ?_⟩
      rw [skip_append_equals]
      exact List.append_ne_nil_of_right_ne_nil _ (List.cons_ne_nil _ _)
  have hstart (cs : List Char) : skip ('\x7b' :: cs) = '\x7b' :: cs := rfl
  rw [Value.ofText?, Value.ofText, ofText, String.toList_ofList, hstart]
  simp only [List.length_cons, Nat.mul_add, read_brace hfirst hc]
  -- an empty object has text behind it, any other lacks its first key
  split
  · rename_i hend
    cases hrest : skip more with
    | nil => exact absurd hrest (hmore hend)
    | cons =>
      simp only [Option.map_some, hrest]
      rfl
  · rfl

end Source

/-! ## Written lines -/

/-- A line that writes pairs starts with a key and an equals sign. -/
theorem exists_join_eq (p : String × String) (ps : List (String × String)) :
    ∃ back, join [','] ((p :: ps).map writtenPair) = p.1.toList ++ '=' :: back := by
  cases ps with
  | nil => exact ⟨_, rfl⟩
  | cons q ps =>
    rw [List.map_cons, Text.join_cons (by simp), writtenPair, List.append_assoc, List.append_assoc]
    exact ⟨_, rfl⟩

theorem getLast?_writtenPair (p : String × String) : (writtenPair p).getLast? = some '"' := by
  have hend : writtenPair p = p.1.toList ++ ['=', '"'] ++ p.2.toList ++ ['"'] := by
    simp [writtenPair]
  rw [hend, List.getLast?_concat]

theorem trimChars_join (hne : pairs ≠ []) (h : ∀ p ∈ pairs, Writable p) :
    trimChars (join [','] (pairs.map writtenPair)) = join [','] (pairs.map writtenPair) := by
  refine Text.trimChars_eq_self ?_ ?_
  · obtain ⟨p, ps, rfl⟩ := List.exists_cons_of_ne_nil hne
    obtain ⟨back, hback⟩ := exists_join_eq p ps
    have hp := h p List.mem_cons_self
    rw [hback, List.head?_append_of_ne_nil _ hp.key_ne_nil]
    exact hp.key_head
  · have hlast : (join [','] (pairs.map writtenPair)).getLast? = some '"' :=
      Text.getLast?_join (by simpa using hne) (List.forall_mem_map.mpr fun p _ =>
        getLast?_writtenPair p)
    rw [hlast]
    rintro _ ⟨⟩
    rfl

/-- **A line that writes pairs is no object**, though its first key may start with a brace. -/
theorem object?_join (hne : pairs ≠ []) (h : ∀ p ∈ pairs, Writable p) :
    object? (join [','] (pairs.map writtenPair)) = none := by
  obtain ⟨p, ps, rfl⟩ := List.exists_cons_of_ne_nil hne
  obtain ⟨back, hback⟩ := exists_join_eq p ps
  have hquote := (h p List.mem_cons_self).quote_not_mem
  obtain ⟨c, key, hkey⟩ := List.exists_cons_of_ne_nil (h p List.mem_cons_self).key_ne_nil
  rw [hkey] at hback hquote
  rw [hback]
  unfold object?
  split
  · rename_i hbrace
    obtain ⟨rfl, -⟩ := List.cons.inj hbrace
    rw [List.cons_append, ofText?_brace (List.not_mem_of_not_mem_cons hquote) back]
    rfl
  · rfl

/-- **A line that writes pairs is read as the object of them**: keys in the order in which they
first come up, each with the value that it is given last.  And cutting any line at its commas loses
nothing of it. -/
theorem written_pairs :
    (∀ pairs : List (String × String), pairs ≠ [] → (∀ p ∈ pairs, Writable p) →
      ∃ o : Object, ofLine (written pairs) = .obj o ∧
        Named.Records o (pairs.map fun p => (p.1, .str p.2))) ∧
      ∀ line, join [','] (splitPairs false line) = line := by
  refine ⟨fun pairs hne h => ?_, join_splitPairs false⟩
  refine ⟨Named.ofPairs (pairs.map fun p => (p.1, .str p.2)), ?_, Named.records_ofPairs _⟩
  rw [ofLine, written, String.toList_ofList]
  simp only [trimChars_join hne h, object?_join hne h, pairs_written hne h]
  split
  · rename_i hnil
    exact absurd (List.map_eq_nil_iff.mp (Named.ofPairs_eq_nil_iff.mp hnil)) hne
  · rfl

/-- A key that starts with a brace, blanks and separators inside quotes, and a key given twice. -/
theorem written_pairs_three :
    let pairs := [("\x7ba b", " x, y=\x7d "), ("é", ""), ("\x7ba b", "z")]
    written pairs = "\x7ba b=\" x, y=\x7d \",é=\"\",\x7ba b=\"z\"" ∧ (∀ p ∈ pairs, Writable p) ∧
      ∃ o, ofLine (written pairs) = .obj o ∧ Named.keys o = ["\x7ba b", "é"] ∧
        Named.get? o "\x7ba b" = some (.str "z") := by
  intro pairs
  have h : ∀ p ∈ pairs, Writable p := by
    simp only [pairs, List.forall_mem_cons, List.not_mem_nil, false_implies, implies_true, and_true]
    refine ⟨?_, ?_, ?_⟩ <;> constructor <;> simp [isBlank]
  obtain ⟨o, ho, hrecords⟩ := written_pairs.1 pairs (by decide) h
  refine ⟨by decide +kernel, h, o, ho, ?_, ?_⟩
  · rw [hrecords.keys]
    decide +kernel
  · exact hrecords.last (pairs.dropLast.map fun p => (p.1, .str p.2)) "\x7ba b" (.str "z") [] rfl
      List.not_mem_nil

end DeviceStats.Event
