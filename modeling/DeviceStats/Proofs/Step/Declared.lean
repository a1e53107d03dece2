import DeviceStats.Proofs.Json.Records
import DeviceStats.Step

/-!
# Proofs/Step/Declared — declared steps written and read

What is written of a step, and of each part of it, is read back (`Step.decode_encode`).  Named
values must not repeat a name for that, and those of a step that has been read never do
(`Step.tidy_of_decode`).
-/

namespace DeviceStats

open Json (Value Object Decoder Field Distinct)
open Json.Decoder

/-! ## Filters -/

/-- Of the two lists of names a filter writes only its own, so reading cannot take it for the
other. -/
theorem KeyFilter.decode_encode (filter : KeyFilter) : decode filter.encode = .ok filter := by
  cases filter with
  | keep names =>
    exact bind_eq_ok (record_of_writes (by decide)
      (.given (optional_some (list_string names) nofun) (.skip rfl (.nil _)))) rfl
  | drop names =>
    exact bind_eq_ok (record_of_writes (by decide)
      (.skip rfl (.given (optional_some (list_string names) nofun) (.nil _)))) rfl

/-! ## Renamings -/

namespace RenameRule

/-- The mark for an exact match is written where it is given and left out where it is not. -/
theorem writes_exact {σ : Type} {set : σ → Option Bool → σ} {s : σ} (hset : set s none = s)
    (whole? : Option Bool) : Writes [exactField set] (encodeExact whole?) s (set s whole?) := by
  cases whole? with
  | none => exact .skip rfl (hset.symm ▸ .nil s)
  | some b => exact .given rfl (.nil _)

/-- The kinds of a rule are tried in order, and each refuses what is written for a later one. -/
theorem decode_encode (rule : RenameRule) : decode rule.encode = .ok rule := by
  cases rule with
  | constant text whole? =>
    exact choice_cons_of_ok (bind_eq_ok (record_of_writes (by decide)
      (.needed rfl (writes_exact rfl whole?))) rfl)
  | replace old new whole? =>
    refine (choice_cons_of_error (by cases whole? <;> rfl)).trans ?_
    exact choice_cons_of_ok (bind_eq_ok (record_of_writes (by decide)
      (.needed rfl (.needed rfl (writes_exact rfl whole?)))) rfl)
  | capture pattern group? whole? =>
    refine (choice_cons_of_error (by cases group? <;> cases whole? <;> rfl)).trans ?_
    refine (choice_cons_of_error (by cases group? <;> cases whole? <;> rfl)).trans ?_
    exact choice_cons_of_ok (bind_eq_ok (record_of_writes (by decide) (.needed rfl
      (.optional rfl (fun g _ => ⟨nofun, size_ofNat g⟩) (writes_exact rfl whole?)))) rfl)
  | bare text => rfl

end RenameRule

namespace Renaming

/-- A map of renamings is read field by field, so its order and repeated names survive. -/
theorem decodeMap_mapValues (map : Named RenameRule) :
    decodeMap (map.mapValues RenameRule.encode) = .ok map :=
  mapM_map_eq fun kv _ => by simp only [RenameRule.decode_encode]

/-- The maps of a renaming are read back in order, with its mark for nested names. -/
theorem decode_encode (r : Renaming) : decode r.encode = .ok r := by
  have hmaps : decodeMaps (.arr (r.maps.map fun m => .obj (m.mapValues RenameRule.encode))) =
      .ok r.maps := mapM_map_eq fun map _ => decodeMap_mapValues map
  exact record_of_writes (by decide) (.needed hmaps (.given rfl (.nil _)))

end Renaming

/-! ## Reductions -/

/-- The key and the leniency are always written, the prefix only if there is one. -/
theorem ArrayKey.decode_encode (a : ArrayKey) : decode a.encode = .ok a :=
  record_of_writes (by decide)
    (.needed rfl (.optional rfl (fun _ _ => ⟨nofun, rfl⟩) (.given rfl (.nil _))))

theorem FirstEntry.decode_encode (f : FirstEntry) : decode f.encode = .ok f :=
  record_of_writes (by decide) (.needed rfl (.optional_last rfl fun _ _ => ⟨nofun, rfl⟩))

/-! ## Tags -/

/-- A group is written only if the definition names one. -/
theorem TagDefinition.decode_encode (d : TagDefinition) :
    (decode d.encode : Except StepError TagDefinition) = .ok d :=
  record_of_writes (by decide) (.needed rfl (.optional_last rfl fun g _ => ⟨nofun, size_ofNat g⟩))

/-- Names to skip are written only if there are any, and are read as none where they are missing. -/
theorem Tag.InjectOptions.decode_encode (o : Tag.InjectOptions) : decode o.encode = .ok o := by
  refine record_of_writes (by decide) (.given_unless (fun hskip => ?_) (list_string o.skip)
    (.optional_last rfl fun _ _ => ⟨nofun, rfl⟩))
  rw [List.isEmpty_iff.mp hskip]

namespace Tagging

/-- Whether no name stands twice among own tags and own definitions. -/
structure Tidy (t : Tagging) : Prop where
  tags : ∀ tags ∈ t.tags?, Distinct tags
  definitions : ∀ ds ∈ t.definitions?, (Named.keys ds).Nodup

/-- Own tags and own definitions are objects, so they are read back only if they repeat no name. -/
theorem decode_encode {t : Tagging} (ht : t.Tidy) : decode t.encode = .ok t := by
  rw [encode, List.append_assoc]
  exact record_of_writes (by decide)
    (.optional rfl (fun tags h => ⟨nofun, named_value (ht.tags tags h)⟩)
      (.optional rfl (fun ds h => ⟨nofun, named_obj_mapValues (ht.definitions ds h)
          fun kv _ => TagDefinition.decode_encode kv.2⟩)
        (.given (Tag.InjectOptions.decode_encode t.options) (.nil _))))

/-- A tagging that has been read is tidy, since objects keep one value for a name. -/
theorem tidy_of_decode {v : Value} {t : Tagging} (h : decode v = .ok t) : t.Tidy := by
  refine record_keeps (Q := fun _ => True) ?_ (fun l _ => l.forall_true) h ⟨nofun, nofun⟩
  simp only [List.forall_mem_cons, List.not_mem_nil, false_imp_iff, implies_true, and_true]
  exact ⟨keeps_optional (R := Distinct) (fun _ _ _ _ => nodup_keys_of_named)
      fun _ _ hb h => ⟨hb, h.definitions⟩,
    keeps_optional (R := fun ds => (Named.keys ds).Nodup) (fun _ _ _ _ => nodup_keys_of_named)
      fun _ _ hb h => ⟨h.tags, hb⟩,
    keeps_given fun _ _ h => ⟨h.tags, h.definitions⟩⟩

end Tagging

namespace TaggingStep

def Tidy (step : TaggingStep) : Prop := ∀ t, step = .options t → t.Tidy

/-- A tagging is a flag or a record, and a record is no flag. -/
theorem decode_encode {step : TaggingStep} (h : step.Tidy) : decode step.encode = .ok step := by
  cases step with
  | flag on => rfl
  | options t =>
    refine (choice_cons_of_error (by rfl)).trans (choice_cons_of_ok ?_)
    exact bind_eq_ok (Tagging.decode_encode (h t rfl)) rfl

/-- A flag has no names to repeat; the options behind a record are those of a tagging. -/
theorem tidy_of_decode {v : Value} {step : TaggingStep} (h : decode v = .ok step) : step.Tidy := by
  rintro t rfl
  obtain ⟨decoder, hmem, h⟩ := exists_of_choice h
  simp only [List.mem_cons, List.not_mem_nil, or_false] at hmem
  rcases hmem with rfl | rfl
  · obtain ⟨on, -, h⟩ := exists_ok_of_bind h
    cases h
  · obtain ⟨t', ht', h⟩ := exists_ok_of_bind h
    cases h
    exact Tagging.tidy_of_decode ht'

end TaggingStep

/-! ## Routines -/

namespace RoutineCall

def Tidy (c : RoutineCall) : Prop := Distinct c.args

/-- A routine is read by the name that it is written with. -/
theorem decodeRoutine_name (r : Routine) : decodeRoutine (.str r.name) = .ok r := by
  cases r <;> rfl

/-- Arguments are written only if there are any, and are read as none where they are missing. -/
theorem decode_encode {c : RoutineCall} (h : c.Tidy) : decode c.encode = .ok c := by
  rw [encode, ← List.append_nil (if c.args.isEmpty = true then _ else _)]
  refine record_of_writes (by decide) (.needed (decodeRoutine_name c.routine)
    (.given_unless (fun hargs => ?_) (named_value h) (.nil _)))
  rw [List.isEmpty_iff.mp hargs]

theorem tidy_of_decode {v : Value} {c : RoutineCall} (h : decode v = .ok c) : c.Tidy := by
  refine record_keeps (Q := fun _ => True) ?_ (fun l _ => l.forall_true) h List.nodup_nil
  simp only [List.forall_mem_cons, List.not_mem_nil, false_imp_iff, implies_true, and_true]
  exact ⟨keeps_needed fun _ _ => id,
    keeps_given_of (R := Distinct) (fun _ _ _ => nodup_keys_of_named) fun _ _ hb _ => hb⟩

end RoutineCall

/-! ## Steps -/

namespace Step

/-- What is written of a step carries one of the seven names that a step can have. -/
theorem contains_name (s : Step) : names.contains s.name = true := by
  cases s <;> rfl

/-- Whether no name stands twice among the named values of a step. -/
def Tidy : Step → Prop
  | .addKeysByTag step => step.Tidy
  | .runFunctions calls => ∀ c ∈ calls, c.Tidy
  | _ => True

/-- **A step is read back from what is written of it.** -/
theorem decode_encode {s : Step} (h : s.Tidy) : decode s.encode = .ok s := by
  refine bind_eq_ok (variant_obj s.contains_name _) ?_
  cases s with
  | filterKeys filter => exact bind_eq_ok filter.decode_encode rfl
  | renameKeys r => exact bind_eq_ok r.decode_encode rfl
  | formatTimestamps keys => exact bind_eq_ok (list_string keys) rfl
  | addKeysByTag step => exact bind_eq_ok (TaggingStep.decode_encode h) rfl
  | runFunctions calls =>
    exact bind_eq_ok (list_arr_map fun c hc => RoutineCall.decode_encode (h c hc)) rfl
  | convertArrayToMap key => exact bind_eq_ok key.decode_encode rfl
  | includeFirstEntry first => exact bind_eq_ok first.decode_encode rfl

/-- Only taggings and routine calls have named values, and what is read of these is tidy. -/
theorem tidy_of_decode {v : Value} {s : Step} (h : decode v = .ok s) : s.Tidy := by
  obtain ⟨⟨name, content⟩, -, h⟩ := exists_ok_of_bind h
  simp only at h
  split at h
  all_goals
    obtain ⟨x, hx, h⟩ := exists_ok_of_bind h
    cases h
  case h_4 => exact TaggingStep.tidy_of_decode hx
  case h_5 =>
    intro c hc
    obtain ⟨v, hv⟩ := mem_of_list hx hc
    exact RoutineCall.tidy_of_decode hv
  all_goals trivial

end Step

end DeviceStats
