import DeviceStats.Proofs.Json.Paths
import DeviceStats.Proofs.Text.Split
import DeviceStats.Routine.Regroup

/-!
# Proofs/Routine/Regroup — what is left of entries grouped by rule

A name with a colon is an event of a rule, every other one a rule itself.  `Adds` says what one
entry does to the groups so far: a rule's own value takes its place, an event is put into the value
of its rule, or is refused if that value cannot hold events.  Hence a rule's own value is left but
for events that it has gained (`exists_gained`), and an event is found under its rule if the rule's
own value, where there is one, stands before it and can hold events (`has_grouped`).
-/

namespace DeviceStats.Regroup

open Json (Value Object Distinct named)

/-! ## Values that hold events -/

/-- The events of a value that can hold some: an object that has none yet, or has them in an object
under `events`. -/
def events? : Value → Option Object
  | .obj fields => ((Named.get? fields "events").getD (.obj [])).obj?
  | _ => none

/-- A value with other events. -/
def withEvents (v : Value) (events : Object) : Value :=
  match v with
  | .obj fields => .obj (Named.insert fields "events" (.obj events))
  | v => v

variable {v own : Value} {o o' fields events more : Object} {rule event key : String}

theorem exists_obj_of_events? (h : events? v = some events) :
    ∃ fields, v = .obj fields ∧
      ((Named.get? fields "events").getD (.obj [])).obj? = some events := by
  cases v with
  | obj fields => exact ⟨fields, rfl, h⟩
  | null | bool | num | str | arr => cases h

theorem events?_withEvents (h : events? v = some events) (more : Object) :
    events? (withEvents v more) = some more := by
  obtain ⟨fields, rfl, -⟩ := exists_obj_of_events? h
  rw [withEvents, events?, Named.get?_insert, if_pos rfl]
  rfl

theorem withEvents_withEvents (v : Value) (events more : Object) :
    withEvents (withEvents v events) more = withEvents v more := by
  cases v with
  | obj fields => rw [withEvents, withEvents, withEvents, Named.insert_insert]
  | null | bool | num | str | arr => rfl

/-- An event is found at its path. -/
theorem node?_of_events? (hown : Named.get? o rule = some own) (h : events? own = some events)
    (hevent : Named.get? events event = some v) :
    (Value.obj o).node? (named [rule, "events", event]) = some v := by
  obtain ⟨fields, rfl, hfields⟩ := exists_obj_of_events? h
  have hevents : Named.get? fields "events" = some (.obj events) := by
    cases hget : Named.get? fields "events" with
    | none =>
      rw [hget] at hfields
      cases hfields
      cases hevent
    | some x =>
      rw [hget, Option.getD_some] at hfields
      cases x with
      | obj events' => exact congrArg (some ∘ Value.obj) (Option.some.inj hfields)
      | null | bool | num | str | arr => cases hfields
  simp only [named, List.map_cons, List.map_nil, Value.node?_obj_name, hown, hevents, hevent,
    Option.bind_some]
  rfl

/-! ## One entry -/

/-- The value of a rule so far: an object without events if it has none. -/
def ownOf (o : Object) (rule : String) : Value := (Named.get? o rule).getD (.obj [])

theorem addEvent_eq (o : Object) (rule event : String) (v : Value) :
    addEvent o rule event v =
      match events? (ownOf o rule) with
      | some events => Named.insert o rule (withEvents (ownOf o rule) (Named.insert events event v))
      | none => o := by
  rw [addEvent, ownOf]
  cases (Named.get? o rule).getD (.obj []) with
  | obj fields =>
    dsimp only [events?]
    cases (Named.get? fields "events").getD (.obj []) with
    | obj | null | bool | num | str | arr => rfl
  | null | bool | num | str | arr => rfl

/-- What an entry does to the groups so far. -/
inductive Adds (o : Object) (key : String) (v : Value) : Object → Prop
  | own (h : ':' ∉ key.toList) : Adds o key v (Named.insert o key v)
  | event {rule event : String} {events : Object} (hkey : key = rule ++ ":" ++ event)
    (h : ':' ∉ event.toList) (hevents : events? (ownOf o rule) = some events) :
    Adds o key v (Named.insert o rule (withEvents (ownOf o rule) (Named.insert events event v)))
  | refused {rule event : String} (hkey : key = rule ++ ":" ++ event) (h : ':' ∉ event.toList)
    (hevents : events? (ownOf o rule) = none) : Adds o key v o

theorem ownOf_insert (o : Object) (key : String) (v : Value) (rule : String) :
    ownOf (Named.insert o key v) rule = if key = rule then v else ownOf o rule := by
  rw [ownOf, Named.get?_insert]
  split <;> rfl

theorem add_own (h : ':' ∉ key.toList) (o : Object) (v : Value) :
    add o key v = Named.insert o key v := by
  rw [add, Text.splitLast?_of_not_mem h]

theorem add_event (h : ':' ∉ event.toList) (o : Object) (rule : String) (v : Value) :
    add o (rule ++ ":" ++ event) v = addEvent o rule event v := by
  have hsplit : (rule ++ ":" ++ event).toList = rule.toList ++ ':' :: event.toList := by simp
  rw [add, hsplit, Text.splitLast?_append h]
  simp only [String.ofList_toList]

/-- **What is done to one entry.** -/
theorem adds_add (o : Object) (key : String) (v : Value) : Adds o key v (add o key v) := by
  by_cases hcolon : ':' ∈ key.toList
  · obtain ⟨rule, event, hsplit, h⟩ := Text.exists_last_of_mem hcolon
    have hkey : key = String.ofList rule ++ ":" ++ String.ofList event :=
      String.toList_inj.mp (by simp [hsplit])
    have hevent : ':' ∉ (String.ofList event).toList := by rwa [String.toList_ofList]
    have hadd := congrArg (fun k => add o k v) hkey
    simp only [add_event hevent, addEvent_eq] at hadd
    rw [hadd]
    split
    · rename_i hevents
      exact .event hkey hevent hevents
    · rename_i hevents
      exact .refused hkey hevent hevents
  · rw [add_own hcolon]
    exact .own hcolon

/-! ## A rule's own value -/

/-- What may become of a rule's own value: it is as it was, or it can hold events and has gained
some, each from an entry of the rule. -/
inductive Gained (fields : Object) (rule : String) (v : Value) : Value → Prop
  | same : Gained fields rule v v
  | events {events more : Object} (h : events? v = some events)
    (hmore : ∀ kv ∈ more, (rule ++ ":" ++ kv.1, kv.2) ∈ fields) :
    Gained fields rule v (withEvents v (Named.extend events more))

theorem Gained.insert {w x : Value} (h : Gained fields rule v w) (hevents : events? w = some events)
    (hx : (rule ++ ":" ++ event, x) ∈ fields) :
    Gained fields rule v (withEvents w (Named.insert events event x)) := by
  cases h with
  | same =>
    have hone : Named.insert events event x = Named.extend events [(event, x)] := rfl
    rw [hone]
    exact .events hevents (List.forall_mem_singleton.mpr hx)
  | events hv hmore =>
    rename_i before more
    obtain rfl := Option.some.inj ((events?_withEvents hv _).symm.trans hevents)
    have hlast : Named.insert (Named.extend before more) event x =
        Named.extend before (more ++ [(event, x)]) := by
      rw [Named.extend, Named.extend, List.foldl_append]
      rfl
    rw [withEvents_withEvents, hlast]
    exact .events hv (List.forall_mem_append.mpr ⟨hmore, List.forall_mem_singleton.mpr hx⟩)

/-- No other entry does more to a rule's own value than give it events. -/
theorem exists_gained_of_adds {w x : Value} (h : Adds o key x o') (hkey : key ≠ rule)
    (hx : (key, x) ∈ fields) (hw : Named.get? o rule = some w) (hgained : Gained fields rule v w) :
    ∃ w', Named.get? o' rule = some w' ∧ Gained fields rule v w' := by
  cases h with
  | own => exact ⟨w, by rw [Named.get?_insert, if_neg hkey, hw], hgained⟩
  | event hsplit h hevents =>
    rename_i other event events
    by_cases hrule : other = rule
    · subst hrule
      have hown : ownOf o other = w := by rw [ownOf, hw, Option.getD_some]
      rw [hown] at hevents ⊢
      exact ⟨_, by rw [Named.get?_insert, if_pos rfl], hgained.insert hevents (hsplit ▸ hx)⟩
    · exact ⟨w, by rw [Named.get?_insert, if_neg hrule, hw], hgained⟩
  | refused => exact ⟨w, hw, hgained⟩

/-! ## All entries -/

/-- Entries grouped by rule. -/
def grouped (o fields : Object) : Object := fields.foldl (fun o kv => add o kv.1 kv.2) o

theorem grouped_append_cons (front back : Object) (key : String) (v : Value) :
    grouped [] (front ++ (key, v) :: back) = grouped (add (grouped [] front) key v) back := by
  rw [grouped, List.foldl_append, List.foldl_cons]
  rfl

/-- No name comes again behind its place. -/
theorem not_mem_keys_of_distinct {front back : Object}
    (h : Distinct (front ++ (key, v) :: back)) : key ∉ Named.keys back := by
  rw [Distinct, Named.keys, List.map_append] at h
  exact (List.nodup_cons.mp (List.nodup_append.mp h).2.1).1

/-- **A rule's own value is left**, with the events that it has gained. -/
theorem exists_gained (hn : Distinct fields) (hv : (rule, v) ∈ fields) (hrule : ':' ∉ rule.toList) :
    ∃ w, Named.get? (grouped [] fields) rule = some w ∧ Gained fields rule v w := by
  obtain ⟨front, back, hsplit⟩ := List.append_of_mem hv
  have hback : rule ∉ Named.keys back := not_mem_keys_of_distinct (hsplit ▸ hn)
  rw [hsplit, grouped_append_cons, add_own hrule, ← hsplit]
  refine List.foldlRecOn back _ (motive := fun o => ∃ w, Named.get? o rule = some w ∧
    Gained fields rule v w) ⟨v, by rw [Named.get?_insert, if_pos rfl], .same⟩ ?_
  rintro o ⟨w, hw, hgained⟩ ⟨key, x⟩ hx
  refine exists_gained_of_adds (adds_add o key x) (fun hkey => ?_) ?_ hw hgained
  · exact hback (hkey ▸ List.mem_map_of_mem hx)
  · rw [hsplit]
    exact List.mem_append_right _ (List.mem_cons_of_mem _ hx)

/-! ## Events -/

/-- A rule has an event: its value holds it. -/
def Has (o : Object) (rule event : String) (v : Value) : Prop :=
  ∃ own events, Named.get? o rule = some own ∧ events? own = some events ∧
    Named.get? events event = some v

/-- The value of a rule can hold events. -/
def Takes (o : Object) (rule : String) : Prop := (events? (ownOf o rule)).isSome = true

theorem takes_of_adds {x : Value} (h : Adds o key x o')
    (hown : key = rule → ':' ∉ rule.toList → (events? x).isSome = true) (htakes : Takes o rule) :
    Takes o' rule := by
  cases h with
  | own hcolon =>
    rw [Takes, ownOf_insert]
    split
    · rename_i hkey
      exact hown hkey (hkey ▸ hcolon)
    · exact htakes
  | event hsplit h hevents =>
    rw [Takes, ownOf_insert]
    split
    · rw [events?_withEvents hevents]
      rfl
    · exact htakes
  | refused => exact htakes

theorem has_of_adds {x : Value} (h : Adds o key x o') (hkey : key ≠ rule ++ ":" ++ event)
    (hown : ':' ∉ rule.toList → key ≠ rule) (hhas : Has o rule event v) : Has o' rule event v := by
  obtain ⟨own, events, hget, hevents, hevent⟩ := hhas
  cases h with
  | own hcolon =>
    have hne : key ≠ rule := fun heq => hown (heq ▸ hcolon) heq
    exact ⟨own, events, by rw [Named.get?_insert, if_neg hne, hget], hevents, hevent⟩
  | event hsplit h hevents' =>
    rename_i other event' events'
    by_cases hrule : other = rule
    · subst hrule
      have hname : event' ≠ event := fun heq => hkey (heq ▸ hsplit)
      have hvalue : ownOf o other = own := by rw [ownOf, hget, Option.getD_some]
      rw [hvalue] at hevents' ⊢
      obtain rfl := Option.some.inj (hevents.symm.trans hevents')
      exact ⟨_, _, by rw [Named.get?_insert, if_pos rfl], events?_withEvents hevents' _,
        by rw [Named.get?_insert, if_neg hname, hevent]⟩
    · exact ⟨own, events, by rw [Named.get?_insert, if_neg hrule, hget], hevents, hevent⟩
  | refused => exact ⟨own, events, hget, hevents, hevent⟩

/-- An event is put into a value that can hold it. -/
theorem has_add (h : ':' ∉ event.toList) (htakes : Takes o rule) (v : Value) :
    Has (add o (rule ++ ":" ++ event) v) rule event v := by
  obtain ⟨events, hevents⟩ := Option.isSome_iff_exists.mp htakes
  rw [add_event h, addEvent_eq, hevents]
  exact ⟨_, _, by rw [Named.get?_insert, if_pos rfl], events?_withEvents hevents _,
    by rw [Named.get?_insert, if_pos rfl]⟩

/-- **An event is found under its rule**, if the rule's own value does not follow it and can hold
events. -/
theorem has_grouped {front back : Object}
    (hn : Distinct (front ++ (rule ++ ":" ++ event, v) :: back)) (h : ':' ∉ event.toList)
    (hown : ':' ∉ rule.toList → rule ∉ Named.keys back ∧
      ∀ own, (rule, own) ∈ front → (events? own).isSome = true) :
    Has (grouped [] (front ++ (rule ++ ":" ++ event, v) :: back)) rule event v := by
  have hback := not_mem_keys_of_distinct hn
  have htakes : Takes (grouped [] front) rule := by
    refine List.foldlRecOn front _ (motive := fun o => Takes o rule) rfl ?_
    rintro o htakes ⟨key, x⟩ hx
    refine takes_of_adds (adds_add o key x) ?_ htakes
    rintro rfl hcolon
    exact (hown hcolon).2 x hx
  rw [grouped_append_cons]
  refine List.foldlRecOn back _ (motive := fun o => Has o rule event v) (has_add h htakes v) ?_
  rintro o hhas ⟨key, x⟩ hx
  have hmem : key ∈ Named.keys back := List.mem_map_of_mem hx
  exact has_of_adds (adds_add o key x) (fun heq => hback (heq ▸ hmem))
    (fun hcolon heq => (hown hcolon).1 (heq ▸ hmem)) hhas

/-! ## Regrouping -/

/-- **Regrouping keeps the values of its entries**: a rule's own value is under its name, with no
more than the events that it has gained, and an event is under the events of its rule if the rule's
own value, where there is one, stands before it and can hold events. -/
theorem byRule_keeps {fields : Object} (hn : Distinct fields) :
    ∃ o : Object, byRule (.obj fields) = .ok (.obj o) ∧
      (∀ rule v, (rule, v) ∈ fields → ':' ∉ rule.toList →
        ∃ w, Named.get? o rule = some w ∧ Gained fields rule v w) ∧
      ∀ front rule event v back, fields = front ++ (rule ++ ":" ++ event, v) :: back →
        ':' ∉ event.toList →
        (':' ∉ rule.toList → rule ∉ Named.keys back ∧
          ∀ own, (rule, own) ∈ front → (events? own).isSome = true) →
        (Value.obj o).node? (named [rule, "events", event]) = some v := by
  refine ⟨grouped [] fields, rfl, fun rule v hv hrule => exists_gained hn hv hrule, ?_⟩
  rintro front rule event v back rfl hevent hown
  obtain ⟨own, events, hget, hevents, hv⟩ := has_grouped hn hevent hown
  exact node?_of_events? hget hevents hv

/-- A rule that has events of its own gains another, and a name with two colons is an event of a
rule with one. -/
theorem byRule_keeps_three :
    let own : Value := .obj [("n", .int 1), ("events", .obj [("x", .int 2)])]
    let fields : Object := [("r", own), ("r:y", .int 3), ("r:y:z", .str "w")]
    Distinct fields ∧ ∃ o : Object, byRule (.obj fields) = .ok (.obj o) ∧
      (∃ w, Named.get? o "r" = some w ∧ Gained fields "r" own w) ∧
      (Value.obj o).node? (named ["r", "events", "y"]) = some (.int 3) ∧
      (Value.obj o).node? (named ["r:y", "events", "z"]) = some (.str "w") := by
  intro own fields
  have hn : Distinct fields := by decide
  obtain ⟨o, ho, howns, hevents⟩ := byRule_keeps hn
  refine ⟨hn, o, ho, howns "r" own List.mem_cons_self (by decide), ?_, ?_⟩
  · refine hevents [("r", own)] "r" "y" (.int 3) [("r:y:z", .str "w")] rfl (by decide) fun _ =>
      ⟨by decide, fun v hv => ?_⟩
    obtain rfl := (Prod.mk.inj (List.mem_singleton.mp hv)).2
    rfl
  · exact hevents [("r", own), ("r:y", .int 3)] "r:y" "z" (.str "w") [] rfl (by decide)
      fun h => absurd (by decide) h

/-- **A rule's own value may leave no room for its events**: what is no object stays as it is. -/
theorem not_byRule_keeps_all : ¬ ∀ fields : Object, Distinct fields →
    ∃ o : Object, byRule (.obj fields) = .ok (.obj o) ∧ ∀ rule event v,
      (rule ++ ":" ++ event, v) ∈ fields → ':' ∉ event.toList →
      (Value.obj o).node? (named [rule, "events", event]) = some v := by
  intro hall
  obtain ⟨o, ho, hevents⟩ := hall [("r", .int 5), ("r:e", .int 1)] (by decide)
  have hevent := hevents "r" "e" (.int 1) (List.mem_cons_of_mem _ List.mem_cons_self) (by decide)
  obtain rfl : [("r", .int 5)] = o := Value.obj.inj (Except.ok.inj ho)
  cases hevent

end DeviceStats.Regroup
