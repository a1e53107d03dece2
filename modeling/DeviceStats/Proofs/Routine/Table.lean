import DeviceStats.Proofs.Json.Decoders
import DeviceStats.Proofs.Text.Blank
import DeviceStats.Proofs.Text.Split
import DeviceStats.Routine.Table

/-!
# Proofs/Routine/Table — tables are read as they are written

A field is written in quotes, with every quote in it written twice.  Inside quotes a quote belongs
to the field if another follows, and the closing one is followed by a delimiter or by the end, so a
written line is cut into its fields (`fields_writtenLine`).  Written lines are neither blank nor cut
by what stands in fields, so a written table has its rows (`rows_written`), as a list or under the
texts of a column (`run_written`).
-/

namespace DeviceStats.Table

open Json (Value Object)
open Text (isBlank trimChars extendFirst join)

variable {delimiter : Char}

/-! ## Written tables -/

/-- A character of a field as it is written: a quote twice. -/
def escaped (c : Char) : List Char := if c = '"' then ['"', '"'] else [c]

/-- A field as it is written: in quotes. -/
def quoted (field : List Char) : List Char := '"' :: (field.flatMap escaped ++ ['"'])

/-- A line as it is written: the fields with a delimiter between them. -/
def writtenLine (delimiter : Char) (line : List String) : List Char :=
  join [delimiter] (line.map fun field => quoted field.toList)

/-- A table as it is written: the header and the rows, each in a line. -/
def written (delimiter : Char) (header : List String) (rows : List (List String)) : String :=
  String.ofList (join ['\n'] ((header :: rows).map (writtenLine delimiter)))

/-- A table that can be written: no line is empty, no field holds the end of a line, and columns are
told apart by their names without the blanks around them. -/
structure Writable (delimiter : Char) (header : List String) (rows : List (List String)) :
    Prop where
  ne_quote : delimiter ≠ '"'
  ne_feed : delimiter ≠ '\n'
  line_ne_nil : ∀ line ∈ header :: rows, line ≠ []
  feed_not_mem : ∀ line ∈ header :: rows, ∀ field ∈ line, '\n' ∉ field.toList
  columns : (header.map Text.trim).Nodup

/-- A row under a header: the columns and the fields, each without the blanks around it, as far as
both go. -/
def record (header line : List String) : Object :=
  (header.map Text.trim).zip (line.map fun field => .str (Text.trim field))

/-! ## Fields -/

/-- The text of a field inside quotes is read as it is, up to a quote that no other follows. -/
theorem rawFields_escaped (field : List Char) {rest : List Char} (hrest : rest.head? ≠ some '"') :
    rawFields delimiter true (field.flatMap escaped ++ '"' :: rest) =
      field.foldr extendFirst (rawFields delimiter false rest) := by
  induction field with
  | nil =>
    cases rest with
    | nil => rfl
    | cons c rest =>
      have hc : c ≠ '"' := fun hc => hrest (congrArg some hc)
      simp [rawFields, hc]
  | cons c field ih =>
    rw [List.flatMap_cons, List.append_assoc, List.foldr_cons, ← ih, escaped]
    split
    · rename_i hc
      subst hc
      simp [rawFields]
    · rename_i hc
      simp [rawFields, hc]

/-- **A written field is read as it is.** -/
theorem rawFields_quoted (field : List Char) {rest : List Char} (hrest : rest.head? ≠ some '"') :
    rawFields delimiter false (quoted field ++ rest) =
      field.foldr extendFirst (rawFields delimiter false rest) := by
  have hopen (cs : List Char) : rawFields delimiter false ('"' :: cs) =
      rawFields delimiter true cs := by simp [rawFields]
  rw [quoted, List.cons_append, List.append_assoc, hopen]
  exact rawFields_escaped field hrest

/-- **A written line has its fields.** -/
theorem fields_writtenLine (hquote : delimiter ≠ '"') {line : List String} (hne : line ≠ []) :
    fields delimiter (writtenLine delimiter line) =
      line.map fun field => trimChars field.toList := by
  have hraw : rawFields delimiter false (writtenLine delimiter line) = line.map String.toList := by
    refine Text.cut_join hne (fun field _ => ?_) (fun field _ rest => ?_)
    · have hfield : rawFields delimiter false (quoted field.toList ++ []) = _ :=
        rawFields_quoted field.toList nofun
      rwa [List.append_nil, rawFields, Text.foldr_extendFirst_cons, List.append_nil] at hfield
    · have hend : rawFields delimiter false (delimiter :: rest) =
          [] :: rawFields delimiter false rest := by
        simp [rawFields]
      rw [rawFields_quoted field.toList (by simpa using hquote), hend, Text.foldr_extendFirst_cons,
        List.append_nil]
  rw [fields, hraw, List.map_map]
  rfl

/-! ## Lines -/

variable {header line : List String} {rows : List (List String)}

theorem getLast?_quoted (field : List Char) : (quoted field).getLast? = some '"' := by
  rw [quoted, ← List.cons_append, List.getLast?_concat]

theorem feed_not_mem_quoted {field : List Char} (h : '\n' ∉ field) : '\n' ∉ quoted field := by
  simp only [quoted, List.mem_cons, List.mem_append, List.mem_flatMap, List.not_mem_nil, or_false,
    not_or, not_exists, not_and]
  refine ⟨by decide, fun c hc hmem => ?_, by decide⟩
  unfold escaped at hmem
  split at hmem
  · exact absurd hmem (by decide)
  · exact h (List.mem_singleton.mp hmem ▸ hc)

theorem feed_not_mem_writtenLine (hfeed : delimiter ≠ '\n')
    (h : ∀ field ∈ line, '\n' ∉ field.toList) : '\n' ∉ writtenLine delimiter line := by
  intro hmem
  rcases Text.mem_or_exists_of_mem_join hmem with hmem | ⟨part, hpart, hmem⟩
  · exact hfeed (List.mem_singleton.mp hmem).symm
  · obtain ⟨field, hfield, rfl⟩ := List.mem_map.mp hpart
    exact feed_not_mem_quoted (h field hfield) hmem

theorem head?_writtenLine (hne : line ≠ []) : (writtenLine delimiter line).head? = some '"' := by
  obtain ⟨field, fields, rfl⟩ := List.exists_cons_of_ne_nil hne
  exact Text.head?_join (List.cons_ne_nil _ _) _ _

theorem getLast?_writtenLine (hne : line ≠ []) :
    (writtenLine delimiter line).getLast? = some '"' :=
  Text.getLast?_join (by simpa using hne) (List.forall_mem_map.mpr fun _ _ => getLast?_quoted _)

theorem trimChars_writtenLine_ne_nil (hne : line ≠ []) :
    trimChars (writtenLine delimiter line) ≠ [] := by
  have htrim : trimChars (writtenLine delimiter line) = writtenLine delimiter line := by
    refine Text.trimChars_eq_self ?_ ?_
    · rw [head?_writtenLine hne]
      rintro _ ⟨⟩
      rfl
    · rw [getLast?_writtenLine hne]
      rintro _ ⟨⟩
      rfl
  intro hnil
  have hhead : (writtenLine delimiter line).head? = some '"' := head?_writtenLine hne
  rw [← htrim, hnil] at hhead
  cases hhead

/-- **A written table has its lines**, and none of them is blank. -/
theorem lines_written (h : Writable delimiter header rows) :
    ((Text.lines (written delimiter header rows).toList).filter fun l =>
      !(trimChars l).isEmpty) = (header :: rows).map (writtenLine delimiter) := by
  have hlines : Text.lines (written delimiter header rows).toList =
      (header :: rows).map (writtenLine delimiter) := by
    rw [written, String.toList_ofList]
    refine Text.lines_join (by simp) (List.forall_mem_map.mpr fun line hline => ?_)
      (List.forall_mem_map.mpr fun line hline => ?_) (List.forall_mem_map.mpr fun line hline => ?_)
    · exact List.ne_nil_of_mem (List.mem_of_head? (head?_writtenLine (h.line_ne_nil line hline)))
    · exact feed_not_mem_writtenLine h.ne_feed (h.feed_not_mem line hline)
    · rw [getLast?_writtenLine (h.line_ne_nil line hline)]
      decide
  rw [hlines, List.filter_eq_self]
  refine List.forall_mem_map.mpr fun line hline => ?_
  rw [Bool.not_eq_true', List.isEmpty_eq_false_iff]
  exact trimChars_writtenLine_ne_nil (h.line_ne_nil line hline)

/-! ## Rows -/

theorem nodup_keys_record (h : (header.map Text.trim).Nodup) (line : List String) :
    (Named.keys (record header line)).Nodup := by
  have hprefix : Named.keys (record header line) <+: header.map Text.trim := by
    rw [Named.keys, record, List.zip_eq_zip_take_min, List.map_fst_zip (by simp)]
    exact List.take_prefix _ _
  exact h.sublist hprefix.sublist

theorem row_fields (h : (header.map Text.trim).Nodup) (line : List String) :
    row (header.map fun name => trimChars name.toList)
      (line.map fun field => trimChars field.toList) = record header line := by
  have hpairs : List.zipWith (fun name field => (String.ofList name, Value.str (String.ofList field)))
      (header.map fun name => trimChars name.toList)
      (line.map fun field => trimChars field.toList) = record header line := by
    rw [record, List.zip, List.zipWith_map, List.zipWith_map]
    rfl
  rw [row, hpairs, Named.ofPairs_of_nodup (nodup_keys_record h line)]

/-- **A written table has its rows.** -/
theorem rows_written (h : Writable delimiter header rows) :
    Table.rows delimiter (written delimiter header rows).toList = rows.map (record header) := by
  have hfields (line : List String) (hline : line ∈ header :: rows) :=
    fields_writtenLine h.ne_quote (h.line_ne_nil line hline)
  rw [Table.rows, lines_written h, List.map_cons]
  simp only [List.map_map]
  refine List.map_congr_left fun line hline => ?_
  rw [Function.comp, hfields header List.mem_cons_self, hfields line (List.mem_cons_of_mem _ hline),
    row_fields h.columns]

theorem hasHeader_written (h : Writable delimiter header rows) :
    hasHeader (written delimiter header rows).toList = true := by
  have hmem : writtenLine delimiter header ∈ (header :: rows).map (writtenLine delimiter) :=
    List.mem_cons_self
  rw [← lines_written h, List.mem_filter] at hmem
  exact List.any_eq_true.mpr ⟨_, hmem⟩

/-! ## Rows by a column -/

/-- The text of a row in a column, without the blanks around it. -/
def textAt (i : Nat) (line : List String) : String := Text.trim (line.getD i "")

theorem get?_record (h : (header.map Text.trim).Nodup) {i : Nat} {column : String}
    (hcolumn : (header.map Text.trim)[i]? = some column) (hi : i < line.length) :
    Named.get? (record header line) column = some (.str (textAt i line)) := by
  refine (Named.get?_eq_some_iff (nodup_keys_record h line)).mpr (List.mem_of_getElem? (i := i) ?_)
  refine List.getElem?_zip_eq_some.mpr ⟨hcolumn, ?_⟩
  simp [textAt, hi]

/-- **Rows that have a text in a column are put under it.** -/
theorem keyed_records (h : (header.map Text.trim).Nodup) {i : Nat} {column : String}
    (hcolumn : (header.map Text.trim)[i]? = some column) (hi : ∀ line ∈ rows, i < line.length) :
    keyed column (rows.map (record header)) =
      .ok (Named.ofPairs (rows.map fun line => (textAt i line, .obj (record header line)))) := by
  rw [keyed, List.mapM_map, Json.Decoder.mapM_eq_ok_map (g := fun line =>
    (textAt i line, Value.obj (record header line))) fun line hline => ?_]
  · rfl
  · rw [Function.comp, get?_record h hcolumn (hi line hline)]
    rfl

/-! ## Tables -/

/-- **A written table is read back**: every line has its fields, and the table its rows, as a list
or, if a column is given, under their texts in it.  Blanks around a field do not count. -/
theorem run_written {args : Object} (h : Writable (delimiterOf args) header rows) :
    (∀ line ∈ header :: rows, fields (delimiterOf args) (writtenLine (delimiterOf args) line) =
        line.map fun field => trimChars field.toList) ∧
      ((args.get? "keyName").bind Value.str? = none →
        run args (.str (written (delimiterOf args) header rows)) =
          .ok (.arr (rows.map fun line => .obj (record header line)))) ∧
      ∀ i column, args.get? "keyName" = some (.str column) →
        (header.map Text.trim)[i]? = some column → (∀ line ∈ rows, i < line.length) →
        ∃ o : Object, run args (.str (written (delimiterOf args) header rows)) = .ok (.obj o) ∧
          Named.Records o (rows.map fun line => (textAt i line, .obj (record header line))) := by
  refine ⟨fun line hline => fields_writtenLine h.ne_quote (h.line_ne_nil line hline),
    fun hnone => ?_, fun i column hcolumn hheader hi => ⟨_, ?_, Named.records_ofPairs _⟩⟩
  · simp only [run, hnone, rows_written h, List.map_map]
    rfl
  · simp only [run, hcolumn, rows_written h, hasHeader_written h, Option.bind_some, Value.str?,
      keyed_records h.columns hheader hi, if_true]
    rfl

/-- A delimiter and a quote inside fields, blanks around them, a row that is too long and a key that
comes twice. -/
theorem run_written_three_rows :
    let header := ["name", " a;\"b\" "]
    let rows := [["x", "1", "more"], [" \"", ";\t"], ["x ", ""]]
    let table := "\"name\";\" a;\"\"b\"\" \"\n\"x\";\"1\";\"more\"\n\" \"\"\";\";\t\"\n\"x \";\"\""
    let args : Object := [("delimiter", .str ";")]
    let byName : Object := args ++ [("keyName", .str "name")]
    written ';' header rows = table ∧ Writable ';' header rows ∧
      run args (.str table) = .ok (.arr [.obj [("name", .str "x"), ("a;\"b\"", .str "1")],
        .obj [("name", .str "\""), ("a;\"b\"", .str ";")],
        .obj [("name", .str "x"), ("a;\"b\"", .str "")]]) ∧
      ∃ o : Object, run byName (.str table) = .ok (.obj o) ∧ Named.keys o = ["x", "\""] ∧
        Named.get? o "x" = some (.obj [("name", .str "x"), ("a;\"b\"", .str "")]) := by
  intro header rows table args byName
  have hwritten : written ';' header rows = table := by decide +kernel
  have h : Writable ';' header rows := by constructor <;> decide +kernel
  refine ⟨hwritten, h, ?_, ?_⟩
  · have hrun := (@run_written header rows args h).2.1 rfl
    rw [show delimiterOf args = ';' from rfl, hwritten] at hrun
    exact hrun
  · obtain ⟨o, ho, hrecords⟩ :=
      (@run_written header rows byName h).2.2 0 "name" rfl rfl (by decide)
    rw [show delimiterOf byName = ';' from rfl, hwritten] at ho
    refine ⟨o, ho, hrecords.keys.trans (by decide +kernel), ?_⟩
    exact hrecords.last ((rows.take 2).map fun line => (textAt 0 line, .obj (record header line)))
      "x" _ [] rfl List.not_mem_nil

end DeviceStats.Table
