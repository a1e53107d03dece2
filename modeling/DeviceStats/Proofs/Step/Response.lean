import DeviceStats.Proofs.Step.Reduction
import DeviceStats.Proofs.Text.Split

/-!
# Proofs/Step/Response — the stats that a response stands for

A device writes a tree of named stats in one of many ways: it may wrap each node and add other
fields to it, it chooses a wrapper for each value, and a path may be the key of a stat as a whole,
with tildes or as the end of an address (`KeyOf`, `Response`).  Whichever way it chooses, a
reduction without options gives back the tree (`apply_response`).
-/

namespace DeviceStats.Reduction

open Json (Value Object Distinct)

/-! ## Keys -/

/-- A path with a mark before each of its segments. -/
def marked (mark : Char) (segments : List (List Char)) : List Char := segments.flatMap (mark :: ·)

/-- Whether segments make up a path. -/
def IsPath (segments : List (List Char)) : Prop :=
  segments ≠ [] ∧ ∀ s ∈ segments, s ≠ [] ∧ '/' ∉ s ∧ '~' ∉ s

instance : DecidablePred IsPath := fun _ => inferInstanceAs (Decidable (_ ∧ _))

/-- `KeyOf name key`: what has a name may be found under the key. -/
inductive KeyOf : String → String → Prop
  /-- The name itself, unless it looks like a path with tildes or an address. -/
  | itself {name : String} (hurl : ¬ "://".toList <:+: name.toList)
      (htilde : name.toList.head? ≠ some '~') : KeyOf name name
  | tildes {segments : List (List Char)} (h : IsPath segments) :
      KeyOf (String.ofList (marked '/' segments)) (String.ofList (marked '~' segments))
  /-- An address that ends in a path with tildes and `/stats`. -/
  | address {segments : List (List Char)} (lead : List Char) (h : IsPath segments)
      (hurl : "://".toList <:+: lead ++ '/' :: (marked '~' segments ++ "/stats".toList)) :
      KeyOf (String.ofList (marked '/' segments))
        (String.ofList (lead ++ '/' :: (marked '~' segments ++ "/stats".toList)))

theorem not_mem_marked {segments : List (List Char)} (h : IsPath segments) :
    '/' ∉ marked '~' segments := by
  intro hmem
  obtain ⟨s, hs, hmem⟩ := List.mem_flatMap.mp hmem
  rcases List.mem_cons.mp hmem with heq | hmem
  · exact absurd heq (by decide)
  · exact (h.2 s hs).2.1 hmem

theorem exists_marked_eq_cons {segments : List (List Char)} (h : IsPath segments) :
    ∃ cs, marked '~' segments = '~' :: cs := by
  obtain ⟨s, rest, rfl⟩ := List.exists_cons_of_ne_nil h.1
  exact ⟨_, rfl⟩

/-- Slashes in place of tildes give the path. -/
theorem map_marked {segments : List (List Char)} (h : IsPath segments) :
    (marked '~' segments).map (fun c => if c = '~' then '/' else c) = marked '/' segments := by
  rw [marked, List.map_flatMap, marked]
  refine List.flatMap_congr fun s hs => ?_
  have hsame : s.map (fun c => if c = '~' then '/' else c) = s.map id := by
    refine List.map_congr_left fun c hc => if_neg ?_
    rintro rfl
    exact (h.2 s hs).2.2 hc
  rw [List.map_cons, hsame, List.map_id, if_pos rfl]

/-- The last segment of an address that ends in a path with tildes is the path. -/
theorem lastSegment_append {segments : List (List Char)} (h : IsPath segments) (lead : List Char) :
    lastSegment (lead ++ '/' :: (marked '~' segments ++ "/stats".toList)) =
      marked '~' segments := by
  have hstats : "/stats".toList = ['/', 's', 't', 'a', 't', 's'] := by decide
  have hdrop : dropTrailing '/' (lead ++ '/' :: (marked '~' segments ++ "/stats".toList)) =
      lead ++ '/' :: marked '~' segments ++ "/stats".toList := by
    rw [dropTrailing, hstats]
    simp
  have hending (cs : List Char) : dropEnding "/stats".toList (cs ++ "/stats".toList) = cs := by
    rw [dropEnding, if_pos (List.isSuffixOf_iff_suffix.mpr (List.suffix_append cs _))]
    simp
  rw [lastSegment]
  simp only [hdrop, hending, Text.splitLast?_append (not_mem_marked h)]

theorem shortChars_of_tilde {cs short : List Char}
    (h : (if Text.occurs "://".toList cs then lastSegment cs else cs) = '~' :: short) :
    shortChars cs = ('~' :: short).map fun c => if c = '~' then '/' else c := by
  rw [shortChars]
  simp only [h]

theorem KeyOf.short {name key : String} (h : KeyOf name key) : shortKey key = name := by
  cases h with
  | itself hurl htilde =>
    have hshort : shortChars name.toList = name.toList := by
      rw [shortChars, Text.occurs_eq_false_iff.mpr hurl]
      simp only [Bool.false_eq_true, if_false]
      split
      · rename_i heq
        exact absurd (congrArg List.head? heq) htilde
      · rfl
    rw [shortKey, hshort, String.ofList_toList]
  | tildes h =>
    rename_i segments
    obtain ⟨cs, hcs⟩ := exists_marked_eq_cons h
    have hplain : Text.occurs "://".toList (marked '~' segments) = false :=
      Text.occurs_eq_false_iff.mpr fun hin => not_mem_marked h (hin.subset (by decide))
    rw [shortKey, String.toList_ofList, shortChars_of_tilde (by rw [hplain]; exact hcs), ← hcs,
      map_marked h]
  | address lead h hurl =>
    obtain ⟨cs, hcs⟩ := exists_marked_eq_cons h
    rw [shortKey, String.toList_ofList, shortChars_of_tilde
      (by rw [Text.occurs_iff.mpr hurl, if_pos rfl, lastSegment_append h, hcs]), ← hcs,
      map_marked h]

/-! ## Responses -/

mutual

/-- `Response v w`: the device may answer `w` for the tree of stats `v`. -/
inductive Response : Value → Value → Prop
  /-- A scalar in an object of one of three names. -/
  | leaf {v : Value} {wrapper : String} (ha : v.arr? = none) (ho : v.obj? = none)
      (hwrapper : wrapper ∈ ["value", "description", "color"]) : Response v (.obj [(wrapper, v)])
  /-- An object that has entries, and whatever other fields. -/
  | node {stats E o : Object} (hn : Distinct stats) (hE : Entries stats E)
      (ho : o.get? "entries" = some (.obj E)) : Response (.obj stats) (.obj o)
  | nested {stats : Object} {w : Value} (h : Response (.obj stats) w) :
      Response (.obj stats) (.obj [("nestedStats", w)])

/-- Stats and the entries that they are found in, one by one. -/
inductive Entries : Object → Object → Prop
  | nil : Entries [] []
  | cons {name key : String} {v w : Value} {stats E : Object} (hkey : KeyOf name key)
      (h : Response v w) (hE : Entries stats E) : Entries ((name, v) :: stats) ((key, w) :: E)

end

/-- A single wrapped value is seen as such. -/
theorem view_singleton {k : String} {v : Value} (hk : wrappers.contains k = true) :
    view {} [(k, v)] = .wrapped v := by
  have hne : k ≠ "entries" := by
    rintro rfl
    exact absurd hk (by decide)
  have hnone (E : Object) : Named.get? [(k, v)] "entries" ≠ some (.obj E) := by
    rw [Named.get?_cons, if_neg hne]
    nofun
  rw [view_of_forall hnone, wrapped?_eq_some_iff.mpr ⟨k, rfl, hk⟩]

mutual

/-- **A response is reduced to the stats that it stands for.** -/
theorem Response.bare_eq {v w : Value} : Response v w → bare w = v
  | .leaf ha ho hwrapper => by
    rw [bare_wrapped (view_singleton (List.contains_iff_mem.mpr (List.mem_cons_of_mem _ hwrapper))),
      bare_scalar ha ho]
  | .node hn hE ho => by
    rw [bare_entries (view_entries_iff.mpr ho), shortened, hE.map_eq, Named.ofPairs_of_nodup hn]
  | .nested h => by rw [bare_wrapped (view_singleton rfl), h.bare_eq]

theorem Entries.map_eq {stats E : Object} : Entries stats E →
    E.map (fun kv => (shortKey kv.1, bare kv.2)) = stats
  | .nil => rfl
  | .cons hkey h hE => by rw [List.map_cons, hkey.short, h.bare_eq, hE.map_eq]

end

/-- **Reduction decodes responses without loss**: whichever way a device writes a tree of named
stats, a reduction without options succeeds and gives the tree back, names in order and leaves as
they were. -/
theorem apply_response {v w : Value} (h : Response v w) : apply {} w = .ok v := by
  rw [apply, reduce_eq, h.bare_eq]

/-- Stats named as wrappers and entries are, in a response that uses every way of writing. -/
theorem apply_response_alike_names :
    let stats : Value := .obj [
      ("entries", .obj [("value", .int 5)]), ("nestedStats", .null),
      ("/Common/vs1", .obj [("color", .str "green")]), ("/Common/vs2", .int 1)]
    let response : Value := .obj [("kind", .str "stats"), ("entries", .obj [
      ("entries", .obj [("nestedStats", .obj [("entries", .obj [
        ("value", .obj [("value", .int 5)])])])]),
      ("nestedStats", .obj [("description", .null)]),
      ("https://localhost/~Common~vs1/stats", .obj [("entries", .obj [
        ("color", .obj [("color", .str "green")])])]),
      ("~Common~vs2", .obj [("value", .int 1)])])]
    Response stats response ∧ apply {} response = .ok stats := by
  intro stats response
  have hvs1 : KeyOf "/Common/vs1" "https://localhost/~Common~vs1/stats" :=
    .address "https://localhost".toList
      (show IsPath ["Common".toList, "vs1".toList] by decide) (by decide)
  have hvs2 : KeyOf "/Common/vs2" "~Common~vs2" :=
    .tildes (show IsPath ["Common".toList, "vs2".toList] by decide)
  have hresponse : Response stats response :=
    .node (by decide)
      (.cons (.itself (by decide) (by decide))
        (.nested (.node (by decide)
          (.cons (.itself (by decide) (by decide)) (.leaf rfl rfl (by decide)) .nil) rfl))
        (.cons (.itself (by decide) (by decide)) (.leaf rfl rfl (by decide))
          (.cons hvs1
            (.node (by decide)
              (.cons (.itself (by decide) (by decide)) (.leaf rfl rfl (by decide)) .nil) rfl)
            (.cons hvs2 (.leaf rfl rfl (by decide)) .nil))))
      rfl
  exact ⟨hresponse, apply_response hresponse⟩

end DeviceStats.Reduction
