import DeviceStats.Property
import DeviceStats.Proofs.Property.Finite
import DeviceStats.Proofs.Step.Declared

/-!
# Proofs/Property/Declared — descriptors written and read

A descriptor that has been read from anything is read back from what is written of it, with every
step as it was (`Descriptor.decode_encode`), so the same pipeline is set up again.
-/

namespace DeviceStats

open Json (Value)
open Json.Decoder

theorem Placement.decode_encode (p : Placement) : decode p.encode = .ok p :=
  record_of_writes (by decide) (.optional rfl (fun _ _ => ⟨nofun, rfl⟩) (.given rfl (.nil _)))

namespace Descriptor

/-- Whether the steps of a descriptor repeat no name, and its arguments are not merely null. -/
structure Tidy (d : Descriptor) : Prop where
  steps : ∀ steps ∈ d.normalization?, ∀ s ∈ steps, s.Tidy
  args : ∀ args ∈ d.keyArgs?, args ≠ .null

theorem tidy_of_decode {v : Value} {d : Descriptor} (h : decode v = .ok d) : d.Tidy := by
  refine record_keeps (Q := fun _ => True) ?_ (fun l _ => l.forall_true) h ⟨nofun, nofun⟩
  simp only [List.forall_mem_cons, List.not_mem_nil, false_imp_iff, implies_true, and_true]
  refine ⟨keeps_needed fun _ _ h => ⟨h.steps, h.args⟩,
    keeps_optional (R := fun steps => ∀ s ∈ steps, Step.Tidy s) ?_ fun _ _ hb h => ⟨hb, h.args⟩,
    keeps_given fun _ _ h => ⟨h.steps, h.args⟩, keeps_given fun _ _ h => ⟨h.steps, h.args⟩,
    keeps_given fun _ _ h => ⟨h.steps, h.args⟩,
    keeps_optional (R := fun args => args ≠ Value.null) ?_ fun _ _ hb h => ⟨h.steps, hb⟩,
    keeps_given fun _ _ h => ⟨h.steps, h.args⟩, keeps_given fun _ _ h => ⟨h.steps, h.args⟩,
    keeps_given fun _ _ h => ⟨h.steps, h.args⟩, keeps_given fun _ _ h => ⟨h.steps, h.args⟩,
    keeps_given fun _ _ h => ⟨h.steps, h.args⟩, keeps_given fun _ _ h => ⟨h.steps, h.args⟩,
    keeps_given fun _ _ h => ⟨h.steps, h.args⟩⟩
  · intro v steps _ _ h s hs
    obtain ⟨w, hw⟩ := mem_of_list h hs
    exact Step.tidy_of_decode hw
  · exact fun v args hv _ h => value_iff.mp h ▸ hv

/-- A descriptor is read back field by field; what it leaves out is what the fields start with. -/
theorem decode_encode {d : Descriptor} (h : d.Tidy) : decode d.encode = .ok d := by
  simp only [encode, entry, List.append_assoc, List.cons_append, List.nil_append]
  exact record_of_writes (by decide) <|
    .needed rfl <|
    .optional rfl (fun steps hsteps => ⟨nofun, list_arr_map fun s hs =>
      Step.decode_encode (h.steps steps hsteps s hs)⟩) <|
    .optional rfl (fun p _ => ⟨nofun, p.decode_encode⟩) <|
    .given rfl <|
    .given rfl <|
    .optional rfl (fun args hargs => ⟨h.args args hargs, rfl⟩) <|
    .given rfl <|
    .optional rfl (fun _ _ => ⟨nofun, rfl⟩) <|
    .optional rfl (fun f _ => ⟨by cases f <;> nofun, f.decode_encode⟩) <|
    .optional rfl (fun r _ => ⟨nofun, r.decode_encode⟩) <|
    .optional rfl (fun keys _ => ⟨nofun, list_string keys⟩) <|
    .optional rfl (fun a _ => ⟨nofun, a.decode_encode⟩) <|
    .optional_last rfl fun f _ => ⟨nofun, f.decode_encode⟩

end Descriptor

/-! ## Values without templates and conditionals -/

namespace Conditional

mutual

/-- Whether a value has nothing to render: no text with a brace and no object with a name `if`. -/
def isPlain : Value → Bool
  | .str s => !s.toList.contains '\x7b'
  | .arr items => arePlain items
  | .obj fields => fieldsPlain fields
  | _ => true

def arePlain : List Value → Bool
  | [] => true
  | v :: vs => isPlain v && arePlain vs

def fieldsPlain : List (String × Value) → Bool
  | [] => true
  | (k, v) :: rest => k != "if" && isPlain v && fieldsPlain rest

end

variable (facts : Facts)

/-- A text without an opening brace has nothing to fill in. -/
theorem fillFrom_of_not_mem {cs : List Char} (h : '\x7b' ∉ cs) :
    Template.fillFrom facts 0 cs = cs := by
  induction cs with
  | nil => rfl
  | cons c cs ih =>
    obtain ⟨hc, hcs⟩ := not_or.mp (List.mem_cons.not.mp h)
    have hnone : Template.placeholder? (c :: cs) = none := by
      unfold Template.placeholder?
      split
      · rename_i heq
        exact absurd (List.cons.inj heq).1.symm hc
      · rfl
    rw [Template.fillFrom, hnone, ih hcs]

mutual

/-- Filling in leaves a plain value as it is. -/
theorem fill_of_isPlain : {v : Value} → isPlain v = true → Template.fill facts v = v
  | .null, _ | .bool _, _ | .num _, _ => rfl
  | .str s, h => by
    have hs : '\x7b' ∉ s.toList := by simpa [isPlain] using h
    rw [Template.fill, Template.fillText, fillFrom_of_not_mem facts hs, String.ofList_toList]
  | .arr items, h => congrArg Value.arr (fillItems_of_arePlain h)
  | .obj fields, h => congrArg Value.obj (fillFields_of_fieldsPlain h)

theorem fillItems_of_arePlain : {vs : List Value} → arePlain vs = true →
    Template.fillItems facts vs = vs
  | [], _ => rfl
  | v :: vs, h => by
    obtain ⟨hv, hvs⟩ := Bool.and_eq_true_iff.mp h
    rw [Template.fillItems, fill_of_isPlain hv, fillItems_of_arePlain hvs]

theorem fillFields_of_fieldsPlain : {fields : List (String × Value)} → fieldsPlain fields = true →
    Template.fillFields facts fields = fields
  | [], _ => rfl
  | (k, v) :: rest, h => by
    obtain ⟨hkv, hrest⟩ := Bool.and_eq_true_iff.mp h
    obtain ⟨-, hv⟩ := Bool.and_eq_true_iff.mp hkv
    rw [Template.fillFields, fill_of_isPlain hv, fillFields_of_fieldsPlain hrest]

end

theorem arePlain_iff {vs : List Value} : arePlain vs = true ↔ ∀ v ∈ vs, isPlain v = true := by
  induction vs with
  | nil => simp [arePlain]
  | cons v vs ih => rw [arePlain, Bool.and_eq_true, ih, List.forall_mem_cons]

/-- An object is plain if it has no condition and what stands under its names is plain. -/
theorem fieldsPlain_iff {fields : List (String × Value)} :
    fieldsPlain fields = true ↔ ∀ kv ∈ fields, kv.1 ≠ "if" ∧ isPlain kv.2 = true := by
  induction fields with
  | nil => simp [fieldsPlain]
  | cons kv rest ih =>
    rw [fieldsPlain, Bool.and_eq_true, Bool.and_eq_true, bne_iff_ne, ih, List.forall_mem_cons]

/-- A plain value holds no block. -/
theorem each_plain_of_isPlain {v : Value} (h : isPlain v = true) : v.Each {} Plain := by
  induction v using Value.partsInduction with
  | arr items ih =>
    exact Value.each_arr.mpr fun _ v hv => ih v hv (arePlain_iff.mp h v hv)
  | obj o ih =>
    have hfields := fieldsPlain_iff.mp h
    refine Value.each_obj.mpr ⟨fun hmem => ?_, fun kv hkv _ => ih kv hkv (hfields kv hkv).2⟩
    obtain ⟨kv, hkv, hname⟩ := List.mem_map.mp hmem
    exact (hfields kv hkv).1 hname
  | scalar v ha ho => exact Value.each_scalar ha ho

/-- **A plain value is rendered to itself**, on every device. -/
theorem render_of_isPlain {v : Value} (h : isPlain v = true) : render facts v = .ok v := by
  rw [render, fill_of_isPlain facts h, resolve_eq_self facts (each_plain_of_isPlain h)]

end Conditional

/-! ## Descriptors compiled again -/

/-- What is compiled depends on what is read from the rendered declaration only. -/
theorem Property.compile?_congr {facts : Facts} {defaults : TagDefaults} {name : String}
    {declared declared' v v' : Value} (hv : Conditional.render facts declared = .ok v)
    (hv' : Conditional.render facts declared' = .ok v')
    (h : Descriptor.decode v = Descriptor.decode v') :
    compile? facts defaults name declared = compile? facts defaults name declared' := by
  simp only [compile?, hv, hv', Except.mapError, bind, Except.bind, h]

/-- **A descriptor survives being written and read.**  Whatever it was read from, it is read back
from its written form, so its pipeline is set up again; and unless the written form holds templates
or conditionals, it is compiled to the same property as what was declared. -/
theorem Descriptor.decode_encode_of_decode {v : Value} {d : Descriptor} (h : decode v = .ok d) :
    decode d.encode = .ok d ∧
      (∀ (name : String) (defaults : TagDefaults),
        (decode d.encode).map (fun d' => (Property.mk name d' defaults).pipeline) =
          .ok (Property.mk name d defaults).pipeline) ∧
      ∀ (facts : Facts) (defaults : TagDefaults) (name : String) (declared : Value),
        Conditional.render facts declared = .ok v →
        Conditional.render facts d.encode = .ok d.encode →
        Property.compile? facts defaults name d.encode =
          Property.compile? facts defaults name declared := by
  have hread := decode_encode (tidy_of_decode h)
  refine ⟨hread, fun name defaults => ?_, fun facts defaults name declared hv hd => ?_⟩
  · rw [hread]
    rfl
  · exact Property.compile?_congr hd hv (hread.trans h.symm)

/-- A declaration that uses every kind of step and of rule, both forms of tagging, and patterns as
one map and as a list. -/
theorem Descriptor.decode_encode_of_decode_all_kinds :
    let rules : Value := .obj [
      ("a", .str "b"), ("c", .obj [("exactMatch", .bool true), ("constant", .str "d")]),
      ("e", .obj [("replaceCharacter", .str "/"), ("withCharacter", .str "-")]),
      ("f", .obj [("group", .int 1), ("pattern", .str "f(.)"), ("exactMatch", .null)])]
    let declared : Value := .obj [
      ("normalization", .arr [
        .obj [("convertArrayToMap", .obj [("keyName", .str "name")])],
        .obj [("includeFirstEntry", .obj [("pattern", .str "/stats"), ("excludePattern", .null)])],
        .obj [("filterKeys", .obj [("include", .null), ("exclude", .arr [.str "kind"])])],
        .obj [("renameKeys", .obj [("patterns", rules)])],
        .obj [("renameKeys", .obj [("patterns", .arr [rules, .obj []]),
          ("options", .obj [("exactMatch", .bool true)])])],
        .obj [("formatTimestamps", .arr [.str "lastUpdate"])],
        .obj [("addKeysByTag", .bool true)],
        .obj [("addKeysByTag", .obj [
          ("tags", .obj [("tenant", .str "A")]),
          ("definitions", .obj [("t", .obj [("pattern", .str "."), ("group", .int 0)])]),
          ("opts", .obj [("skip", .arr [.str "kind"]), ("classifyByKeys", .str "id")])])],
        .obj [("runFunctions", .arr [.obj [("name", .str "getSum")],
          .obj [("args", .obj [("totalKey", .null)]), ("name", .str "getPercentFromKeys")]])]]),
      ("key", .str "/mgmt/tm/sys::child"), ("keyArgs", .obj [("$top", .arr [.null])]),
      ("structure", .obj [("parentKey", .str "system"), ("folder", .bool true)]),
      ("filterKeys", .obj [("include", .arr [])]), ("isCustom", .bool true),
      ("disabled", .bool false)]
    ∃ d : Descriptor, decode declared = .ok d ∧ decode d.encode = .ok d ∧
      Property.compile? ⟨[]⟩ {} "system" d.encode = Property.compile? ⟨[]⟩ {} "system" declared ∧
      d.normalization?.map (·.map Step.name) = some [
        "convertArrayToMap", "includeFirstEntry", "filterKeys", "renameKeys", "renameKeys",
        "formatTimestamps", "addKeysByTag", "addKeysByTag", "runFunctions"] := by
  intro rules declared
  obtain ⟨d, hd⟩ : ∃ d, decode declared = .ok d := ⟨_, rfl⟩
  have hplain : (decode declared).map (fun d => Conditional.isPlain d.encode) = .ok true := rfl
  have hnames : (decode declared).map (fun d => d.normalization?.map (·.map Step.name)) =
      .ok (some ["convertArrayToMap", "includeFirstEntry", "filterKeys", "renameKeys", "renameKeys",
        "formatTimestamps", "addKeysByTag", "addKeysByTag", "runFunctions"]) := rfl
  rw [hd] at hplain hnames
  have hagain := decode_encode_of_decode hd
  exact ⟨d, hd, hagain.1, hagain.2.2 ⟨[]⟩ {} "system" declared
    (Conditional.render_of_isPlain ⟨[]⟩ (by decide))
    (Conditional.render_of_isPlain ⟨[]⟩ (Except.ok.inj hplain)), Except.ok.inj hnames⟩

end DeviceStats
