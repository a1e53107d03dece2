import DeviceStats.Fixtures
import DeviceStats.Proofs.Text.Split
import Mathlib.Data.List.DropRight

/-!
# Proofs/Path/Below — the files of endpoints stand below their folder

What a path means is read off its segments one after the other, the first one apart (`through`).  So
a path that is put behind another goes on where that one ends (`components_append`), and a change of
the last name changes the last component alone, whatever segments that name nothing are lost from
the text (`components_withLastName`).  The file of an endpoint is found on the way that the endpoint
spells, with names only, and other files are not read.
-/

namespace DeviceStats.Path

variable {path q dir segment first : List Char} {S rest : Segments} {n last : List Char}

/-! ## Segments and what they name -/

/-- A name that a path can go down by. -/
structure IsName (n : List Char) : Prop where
  ne_nil : n ≠ []
  ne_current : n ≠ ['.']
  ne_parent : n ≠ ['.', '.']
  not_mem : '/' ∉ n

/-- What segments behind the first one name. -/
def named (S : Segments) : List Component := S.filterMap component?

/-- What segments go through. -/
def through : Segments → List Component
  | [] => []
  | first :: rest => (firstComponent? first !rest.isEmpty).toList ++ named rest

theorem components_eq_through (path : List Char) : components path = through (segments path) := rfl

/-- Only idle segments name nothing. -/
theorem component?_eq_none_iff : component? segment = none ↔ isIdle segment = true := by
  unfold component? isIdle
  split
  · rename_i h
    simpa using h
  · rename_i h
    split <;> simpa using h

theorem exists_component? (h : ¬ isIdle segment = true) : ∃ c, component? segment = some c :=
  Option.ne_none_iff_exists'.mp (mt component?_eq_none_iff.mp h)

theorem named_cons_of_none (h : component? segment = none) :
    named (segment :: S) = named S := List.filterMap_cons_none h

theorem named_cons_of_some {c : Component} (h : component? segment = some c) :
    named (segment :: S) = c :: named S := List.filterMap_cons_some h

theorem component?_of_isName (h : IsName n) : component? n = some (.normal n) := by
  rw [component?, if_neg (not_or.mpr ⟨h.ne_nil, h.ne_current⟩), if_neg h.ne_parent]

/-- A segment behind the first one is idle, leads up, or is a name. -/
theorem component?_cases {c : Component} (h : component? segment = some c) (hs : '/' ∉ segment) :
    c = .parent ∨ c = .normal segment ∧ IsName segment := by
  unfold component? at h
  split at h
  · exact nomatch h
  · rename_i hidle
    obtain ⟨hnil, hcurrent⟩ := not_or.mp hidle
    split at h
    · exact .inl (Option.some.inj h).symm
    · rename_i hparent
      exact .inr ⟨(Option.some.inj h).symm, hnil, hcurrent, hparent, hs⟩

/-- Behind a first segment that is not empty it does not matter whether there are more. -/
theorem firstComponent?_of_ne_nil (h : first ≠ []) (more more' : Bool) :
    firstComponent? first more = firstComponent? first more' := by
  rw [firstComponent?, firstComponent?, if_neg h, if_neg h]

theorem firstComponent?_of_isName (h : IsName n) (more : Bool) :
    firstComponent? n more = some (.normal n) := by
  rw [firstComponent?, if_neg h.ne_nil, if_neg h.ne_current, component?_of_isName h]

/-- A name that a segment stands for is the segment. -/
theorem eq_of_component? (h : component? segment = some (.normal n)) : segment = n := by
  unfold component? at h
  split at h
  · exact nomatch h
  · split at h
    · exact nomatch h
    · exact Component.normal.inj (Option.some.inj h)

theorem eq_of_firstComponent? {more : Bool} (h : firstComponent? first more = some (.normal n)) :
    first = n := by
  unfold firstComponent? at h
  split at h
  · split at h <;> exact nomatch h
  · split at h
    · exact nomatch h
    · exact eq_of_component? h

theorem segments_ne_nil (path : List Char) : segments path ≠ [] := Text.splitOnChar_ne_nil '/' path

theorem not_mem_of_mem_segments (h : segment ∈ segments path) : '/' ∉ segment :=
  Text.not_mem_of_mem_splitOnChar h

theorem segments_of_not_mem (h : '/' ∉ n) : segments n = [n] :=
  Text.splitOnChar_join (List.cons_ne_nil n []) (List.forall_mem_singleton.mpr h)

theorem components_of_isName (h : IsName n) : components n = [.normal n] := by
  rw [components_eq_through, segments_of_not_mem h.not_mem, through, firstComponent?_of_isName h]
  rfl

/-- A name is the only segment of itself, and names itself. -/
theorem named_segments_of_isName (h : IsName n) : named (segments n) = [.normal n] := by
  rw [segments_of_not_mem h.not_mem, named_cons_of_some (component?_of_isName h)]
  rfl

/-! ## Paths behind paths -/

/-- What stands behind a path and a slash goes on where the path ends. -/
theorem components_slash (h : path ≠ []) (q : List Char) :
    components (path ++ '/' :: q) = components path ++ named (segments q) := by
  have hsegments : segments (path ++ '/' :: q) = segments path ++ segments q :=
    Text.splitOnChar_append_cons path '/' q
  rw [components_eq_through, components_eq_through, hsegments]
  cases hpath : segments path with
  | nil => exact absurd hpath (segments_ne_nil path)
  | cons first rest =>
    have hfirst : firstComponent? first (!(rest ++ segments q).isEmpty) =
        firstComponent? first (!rest.isEmpty) := by
      by_cases hnil : first = []
      · cases rest with
        | nil =>
          have hjoin := Text.join_splitOnChar '/' path
          rw [← segments, hpath, hnil] at hjoin
          exact absurd hjoin.symm h
        | cons => rfl
      · exact firstComponent?_of_ne_nil hnil _ _
    rw [List.cons_append, through, through, hfirst, named, List.filterMap_append,
      ← List.append_assoc]
    rfl

theorem components_root (q : List Char) :
    components ('/' :: q) = .root :: named (segments q) := by
  have hsegments : segments ('/' :: q) = [] :: segments q := Text.splitOnChar_append_cons [] '/' q
  rw [components_eq_through, hsegments]
  cases hq : segments q with
  | nil => exact absurd hq (segments_ne_nil q)
  | cons => rfl

/-- **A path that is put behind another goes on where that one ends**, if it starts with a name. -/
theorem components_append (dir : List Char) (h : components q = named (segments q)) :
    components (append dir q) = components dir ++ components q := by
  rw [append, h]
  split
  · rename_i hdir
    by_cases hnil : dir = []
    · rw [hnil, List.nil_append, h]
      rfl
    · obtain ⟨front, rfl⟩ := List.getLast?_eq_some_iff.mp (hdir.resolve_left hnil)
      rw [List.append_assoc, List.singleton_append]
      by_cases hfront : front = []
      · rw [hfront, List.nil_append, List.nil_append, components_root, components_root]
        rfl
      · rw [components_slash hfront, components_slash hfront, List.append_assoc]
        rfl
  · rename_i hdir
    exact components_slash (not_or.mp hdir).1 q

/-! ## Changing the last name -/

/-- Idle segments at the end name nothing, so they may be lost. -/
theorem named_rdropWhile (S : Segments) : named (S.rdropWhile isIdle) = named S := by
  induction S using List.reverseRecOn with
  | nil => rfl
  | append_singleton S segment ih =>
    rw [List.rdropWhile_concat]
    split
    · rename_i hidle
      rw [ih, named, named, List.filterMap_append,
        List.filterMap_cons_none (component?_eq_none_iff.mpr hidle)]
      simp
    · rfl

theorem named_concat {c : Component} (h : component? segment = some c) :
    named (S ++ [segment]) = named S ++ [c] := by
  rw [named, List.filterMap_append, List.filterMap_cons_some h]
  rfl

/-- Where idle segments at the end are dropped, one that is not idle is at the end. -/
theorem of_rdropWhile_eq_concat (h : rest.rdropWhile isIdle = S ++ [segment]) :
    rest ≠ [] ∧ S ⊆ rest ∧ ¬ isIdle segment = true := by
  have hlast := List.rdropWhile_last_not isIdle rest (by rw [h]; simp)
  have hmem {s : List Char} (hs : s ∈ S ++ [segment]) : s ∈ rest :=
    (List.rdropWhile_prefix isIdle rest).subset (h ▸ hs)
  exact ⟨List.ne_nil_of_mem (hmem List.mem_concat_self),
    fun s hs => hmem (List.mem_append_left _ hs), by simpa [h] using hlast⟩

/-- What the text of segments means, if more are to follow. -/
theorem components_ofSegments_trimEnd (h : ∀ s ∈ first :: rest, '/' ∉ s) :
    components (ofSegments (trimEnd (first :: rest))) =
      (firstComponent? first true).toList ++ named rest := by
  have htrim : trimEnd (first :: rest) = first :: rest.rdropWhile isIdle := rfl
  rw [htrim, ← named_rdropWhile rest, ofSegments]
  split
  · rename_i hroot
    obtain ⟨rfl, hrest⟩ := List.cons.inj hroot
    rw [hrest]
    rfl
  · rename_i hroot
    have hslash : ∀ s ∈ first :: rest.rdropWhile isIdle, '/' ∉ s := fun s hs =>
      h s (List.cons_subset_cons first (List.rdropWhile_prefix _ rest).subset hs)
    rw [components_eq_through, segments, Text.splitOnChar_join (List.cons_ne_nil _ _) hslash,
      through]
    by_cases hfirst : first = []
    · cases hrest : rest.rdropWhile isIdle with
      | nil => exact absurd (by rw [hfirst, hrest]) hroot
      | cons => rfl
    · rw [firstComponent?_of_ne_nil hfirst _ true]

/-- **A change of the last name changes the last component alone.** -/
theorem components_withLastName {front : List Component} (change : List Char → List Char)
    (h : components path = front ++ [.normal last]) (hname : IsName (change last)) :
    components (withLastName change path) = front ++ [.normal (change last)] := by
  obtain ⟨first, rest, hsegments⟩ := List.exists_cons_of_ne_nil (segments_ne_nil path)
  have htrim : trimEnd (segments path) = first :: rest.rdropWhile isIdle := by rw [hsegments]; rfl
  rw [components_eq_through, hsegments, through, ← named_rdropWhile rest] at h
  rw [withLastName, htrim]
  -- the last segment that names something is the first one, or stands behind it
  obtain hrest | ⟨before, segment, hrest⟩ := List.eq_nil_or_concat' (rest.rdropWhile isIdle)
  · rw [hrest] at h ⊢
    cases hfirst : firstComponent? first !rest.isEmpty with
    | none =>
      rw [hfirst] at h
      exact absurd h.symm (by simp [named])
    | some c =>
      rw [hfirst] at h
      obtain ⟨hfront, hc⟩ := List.append_inj' (List.nil_append _ |>.trans h) rfl
      obtain rfl := eq_of_firstComponent? (hfirst.trans (congrArg some (List.singleton_inj.mp hc)))
      rw [← hfront]
      exact components_of_isName hname
  · obtain ⟨hrest', hbefore, hidle⟩ := of_rdropWhile_eq_concat hrest
    obtain ⟨c, hc⟩ := exists_component? hidle
    have hmore : (!rest.isEmpty) = true := by simpa using hrest'
    have hslash : ∀ s ∈ first :: before, '/' ∉ s := fun s hs =>
      not_mem_of_mem_segments (hsegments ▸ List.cons_subset_cons first hbefore hs)
    rw [hrest, hmore, named_concat hc, ← List.append_assoc] at h
    obtain ⟨hfront, hlast⟩ := List.append_inj' h rfl
    obtain rfl := eq_of_component? (hc.trans (congrArg some (List.singleton_inj.mp hlast)))
    have hstart := (components_of_isName hname).trans (named_segments_of_isName hname).symm
    rw [hrest, ← List.cons_append, List.dropLast_concat, List.getLast?_concat, Option.getD_some,
      components_append _ hstart, components_of_isName hname, components_ofSegments_trimEnd hslash,
      hfront]

/-! ## Paths without slashes at their ends -/

/-- No slash is left at the beginning. -/
theorem head?_strip (path : List Char) : (strip path).head? ≠ some '/' := by
  intro h
  have hprefix : strip path <+: path.dropWhile (· == '/') := List.rdropWhile_prefix _ _
  obtain ⟨rest, hrest⟩ := hprefix
  cases hstrip : strip path with
  | nil => rw [hstrip] at h; exact nomatch h
  | cons c cs =>
    rw [hstrip] at h hrest
    obtain rfl : c = '/' := Option.some.inj h
    have := List.head?_dropWhile_not (· == '/') path
    rw [← hrest] at this
    simp at this

/-- Segments behind the first one lead up or are names: nothing else is between slashes. -/
theorem mem_named {c : Component} (h : c ∈ named S) (hS : ∀ s ∈ S, '/' ∉ s) :
    c = .parent ∨ ∃ n, c = .normal n ∧ IsName n := by
  obtain ⟨segment, hsegment, hc⟩ := List.mem_filterMap.mp h
  exact (component?_cases hc (hS segment hsegment)).imp_right fun h => ⟨segment, h⟩

/-- A path that is not empty and does not start at the root starts where it is, or it has names and
ways up only. -/
theorem components_cases (hne : path ≠ []) (hhead : path.head? ≠ some '/') :
    components path = .current :: named (segments path) ∨
      components path = named (segments path) ∧ components path ≠ [] := by
  obtain ⟨first, rest, hsegments⟩ := List.exists_cons_of_ne_nil (segments_ne_nil path)
  have hjoin : Text.join ['/'] (first :: rest) = path := by
    rw [← hsegments]
    exact Text.join_splitOnChar '/' path
  have hnil : first ≠ [] := by
    rintro rfl
    cases rest with
    | nil => exact hne hjoin.symm
    | cons => exact hhead (hjoin ▸ rfl)
  rw [components_eq_through, hsegments, through]
  by_cases hcurrent : first = ['.']
  · left
    rw [hcurrent]
    rfl
  · right
    have hidle : ¬ isIdle first = true := by simp [isIdle, hnil, hcurrent]
    obtain ⟨c, hc⟩ := exists_component? hidle
    rw [firstComponent?, if_neg hnil, if_neg hcurrent, named_cons_of_some hc, hc]
    exact ⟨rfl, List.cons_ne_nil c _⟩

/-- A path descends just if it goes down by names, and somewhere at all. -/
theorem descends_iff : descends path = true ↔
    path ≠ [] ∧ ∀ c ∈ components path, ∃ n, c = .normal n := by
  rw [descends, Bool.and_eq_true, List.all_eq_true, Bool.not_eq_true', List.isEmpty_eq_false_iff]
  refine and_congr_right fun _ => forall₂_congr fun c _ => ?_
  cases c <;> simp

/-- **A stripped path descends exactly if it is not empty, does not lead up, and does not start
where it is.** -/
theorem descends_strip_iff (path : List Char) : descends (strip path) = true ↔
    strip path ≠ [] ∧ .parent ∉ components (strip path) ∧
      (components (strip path)).head? ≠ some .current := by
  rw [descends_iff]
  refine and_congr_right fun hne => ⟨fun h => ⟨fun hparent => ?_, fun hcurrent => ?_⟩, ?_⟩
  · obtain ⟨n, hn⟩ := h _ hparent
    exact nomatch hn
  · obtain ⟨n, hn⟩ := h _ (List.mem_of_mem_head? hcurrent)
    exact nomatch hn
  · rintro ⟨hparent, hcurrent⟩ c hc
    obtain hstart | ⟨hnamed, -⟩ := components_cases hne (head?_strip path)
    · exact absurd (congrArg List.head? hstart) hcurrent
    · obtain rfl | ⟨n, rfl, -⟩ := mem_named (hnamed ▸ hc) fun _ => not_mem_of_mem_segments
      · exact absurd hc hparent
      · exact ⟨n, rfl⟩

theorem exists_names {cs : List Component} (h : ∀ c ∈ cs, ∃ n, c = .normal n ∧ IsName n) :
    ∃ names : Segments, cs = names.map .normal ∧ ∀ n ∈ names, IsName n := by
  induction cs with
  | nil => exact ⟨[], rfl, nofun⟩
  | cons c cs ih =>
    obtain ⟨⟨n, rfl, hn⟩, hcs⟩ := List.forall_mem_cons.mp h
    obtain ⟨names, rfl, hnames⟩ := ih hcs
    exact ⟨n :: names, rfl, List.forall_mem_cons.mpr ⟨hn, hnames⟩⟩

/-- What a path that descends goes through. -/
theorem exists_of_descends (h : descends path = true) (hhead : path.head? ≠ some '/') :
    components path = named (segments path) ∧ ∃ (front : Segments) (last : List Char),
      components path = front.map .normal ++ [.normal last] ∧ (∀ n ∈ front, IsName n) ∧
        IsName last := by
  obtain ⟨hne, hnormal⟩ := descends_iff.mp h
  obtain hcurrent | ⟨hnamed, hcomponents⟩ := components_cases hne hhead
  · obtain ⟨n, hn⟩ := hnormal .current (hcurrent ▸ List.mem_cons_self)
    exact nomatch hn
  · have hnames : ∀ c ∈ components path, ∃ n, c = .normal n ∧ IsName n := fun c hc => by
      obtain rfl | hname := mem_named (hnamed ▸ hc) fun _ => not_mem_of_mem_segments
      · obtain ⟨n, hn⟩ := hnormal _ hc
        exact nomatch hn
      · exact hname
    obtain ⟨names, heq, hnames⟩ := exists_names hnames
    refine ⟨hnamed, ?_⟩
    obtain rfl | ⟨front, last, rfl⟩ := List.eq_nil_or_concat' names
    · exact absurd heq hcomponents
    · obtain ⟨hfront, hlast⟩ := List.forall_mem_append.mp hnames
      exact ⟨front, last, by rw [heq, List.map_append]; rfl, hfront,
        hlast last (List.mem_singleton_self last)⟩

/-- What ends like the name of a file is a name. -/
theorem isName_append_json (h : IsName n) : IsName (n ++ ".json".toList) where
  ne_nil := by simp
  ne_current := fun heq => by simpa using congrArg List.getLast? heq
  ne_parent := fun heq => by simpa using congrArg List.getLast? heq
  not_mem := fun hmem => (List.mem_append.mp hmem).elim h.not_mem (by decide)

end DeviceStats.Path

namespace DeviceStats.Files

open DeviceStats.Path (Component Segments components)

variable {f : Files} {folder names : List (List Char)} {cs : List Component}

/-- Where components lead from a folder on.  What is not below the working directory is no folder of
a tree. -/
def place? : List (List Char) → List Component → Option (List (List Char))
  | folder, [] => some folder
  | folder, .current :: cs => place? folder cs
  | folder, .normal n :: cs => place? (folder ++ [n]) cs
  | [], .parent :: _ => none
  | above :: folder, .parent :: cs => place? (above :: folder).dropLast cs
  | _, .root :: _ => none

/-- A place below a folder is found through the names that lead there. -/
theorem place?_append (folder : List (List Char)) (cs : List Component)
    (names : List (List Char)) : place? folder (cs ++ names.map .normal) =
      (place? folder cs).map (· ++ names) := by
  fun_induction place? folder cs with
  | case1 folder =>
    induction names generalizing folder with
    | nil => simp [place?]
    | cons n names ih =>
      rw [List.nil_append] at ih ⊢
      rw [List.map_cons, place?, ih]
      simp
  | case2 folder cs ih => exact ih
  | case3 folder n cs ih => exact ih
  | case4 => rfl
  | case5 above folder cs ih => exact ih
  | case6 => rfl

theorem component?_of_not_isUp {s : List Char} (hidle : ¬ Path.isIdle s = true)
    (hup : ¬ isUp s = true) : Path.component? s = some (.normal s) := by
  rw [Path.component?, if_neg (by simpa [Path.isIdle] using hidle),
    if_neg (by simpa [isUp] using hup)]

/-- A text that is found by following segments stands where they lead. -/
theorem text?_of_follow {S : Segments} {text : String} (h : f.follow folder S = .ok text) :
    ∃ names, place? folder (Path.named S) = some names ∧ f.text? names = some text := by
  fun_induction follow f folder S with
  | case1 | case3 | case5 | case7 | case9 => exact nomatch h
  | case2 folder s rest hidle ih =>
    rw [Path.named_cons_of_none (Path.component?_eq_none_iff.mpr hidle)]
    exact ih h
  | case4 folder s rest hidle hup hfolder ih =>
    obtain rfl : s = ['.', '.'] := eq_of_beq hup
    rw [Path.named_cons_of_some rfl]
    cases folder with
    | nil => exact absurd rfl hfolder
    | cons => exact ih h
  | case6 folder s rest hidle hup _ names _ htext hrest =>
    obtain rfl := Except.ok.inj h
    rw [Path.named_cons_of_some (component?_of_not_isUp hidle hup), List.isEmpty_iff.mp hrest]
    exact ⟨names, rfl, htext⟩
  | case8 folder s rest hidle hup _ names _ _ ih =>
    rw [Path.named_cons_of_some (component?_of_not_isUp hidle hup)]
    exact ih h

/-- A text that is read stands where its path leads from the working directory. -/
theorem text?_of_read {path text : String} (h : f.read path = .ok text) :
    ∃ names, place? [] (components path.toList) = some names ∧ f.text? names = some text := by
  unfold read at h
  simp only at h
  split at h
  · exact nomatch h
  · split at h
    · exact nomatch h
    · split at h
      · exact nomatch h
      · exact nomatch h
      · rename_i hne hhead
        have hhead : path.toList.head? ≠ some '/' := fun hhead' => by
          obtain ⟨rest, hrest⟩ := List.head?_eq_some_iff.mp hhead'
          exact hhead rest hrest
        obtain hcurrent | ⟨hnamed, -⟩ := Path.components_cases hne hhead
        · rw [hcurrent, place?]
          exact text?_of_follow h
        · rw [hnamed]
          exact text?_of_follow h

end DeviceStats.Files

namespace DeviceStats.Fixtures

open DeviceStats.Path (Component IsName components strip)

/-- Whether a path leads from a folder down, with names only and one at least. -/
def Below (dir path : String) : Prop := ∃ names : Path.Segments, names ≠ [] ∧
  (∀ n ∈ names, IsName n) ∧ components path.toList = components dir.toList ++ names.map .normal

/-- The file of an endpoint stands where its names lead from the folder, the last of them with its
ending. -/
theorem components_path? {dir endpoint path : String} (h : path? dir endpoint = some path) :
    ∃ (front : Path.Segments) (last : List Char),
      components (strip endpoint.toList) = front.map .normal ++ [.normal last] ∧
      components path.toList = components dir.toList ++
        (front.map .normal ++ [.normal (last ++ ".json".toList)]) ∧ Below dir path := by
  unfold path? at h
  simp only at h
  split at h
  · rename_i hdescends
    obtain ⟨hnamed, front, last, heq, hfront, hlast⟩ :=
      Path.exists_of_descends hdescends (Path.head?_strip _)
    have happend := Path.components_append dir.toList hnamed
    rw [heq, ← List.append_assoc] at happend
    have hfile := Path.isName_append_json hlast
    have hpath := Path.components_withLastName (· ++ ".json".toList) happend hfile
    obtain rfl := Option.some.inj h
    rw [List.append_assoc] at hpath
    rw [Below, String.toList_ofList, hpath]
    refine ⟨front, last, heq, rfl, front ++ [last ++ ".json".toList], by simp, ?_, by simp⟩
    exact List.forall_mem_append.mpr ⟨hfront, List.forall_mem_singleton.mpr hfile⟩
  · exact nomatch h

/-- An endpoint has no file if nothing is left of it, or if it leads up or begins where one is. -/
theorem path?_eq_none_iff {dir endpoint : String} : path? dir endpoint = none ↔
    strip endpoint.toList = [] ∨ .parent ∈ components (strip endpoint.toList) ∨
      (components (strip endpoint.toList)).head? = some .current := by
  have hdescends : path? dir endpoint = none ↔ ¬ Path.descends (strip endpoint.toList) = true := by
    unfold path?
    simp only
    split <;> simp_all
  rw [hdescends, Path.descends_strip_iff, not_and_or, not_and_or, not_not, not_not, not_not]

/-- **Only what stands below the folder matters.** -/
theorem load_eq_of_below {disk disk' : Disk} {dir : String}
    (h : ∀ path, Below dir path → disk path = disk' path) (r : Request) :
    load disk dir r = load disk' dir r := by
  unfold load
  cases hpath : path? dir r.endpoint with
  | none => rfl
  | some path =>
    obtain ⟨-, -, -, -, hbelow⟩ := components_path? hpath
    simp only [h path hbelow]

/-- **What is loaded from a tree of texts stands below the folder** that the path leads to. -/
theorem exists_text_of_load {f : Files} {dir : String} {r : Request} {v : Json.Value}
    (h : load f.read dir r = .ok v) : ∃ folder names text,
      Files.place? [] (components dir.toList) = some folder ∧ names ≠ [] ∧
        f.text? (folder ++ names) = some text ∧ Json.Value.ofText text = .ok v := by
  unfold load at h
  split at h
  · exact nomatch h
  · rename_i path hpath
    obtain ⟨-, -, -, -, names, hne, -, hcomponents⟩ := components_path? hpath
    split at h
    · exact nomatch h
    · exact nomatch h
    · rename_i text htext
      obtain ⟨place, hplace, hfound⟩ := Files.text?_of_read htext
      rw [hcomponents, Files.place?_append] at hplace
      obtain ⟨folder, hfolder, rfl⟩ := Option.map_eq_some_iff.mp hplace
      split at h
      · rename_i hread
        obtain rfl := Except.ok.inj h
        exact ⟨folder, names, text, hfolder, hne, hfound, hread⟩
      · exact nomatch h

/-- **The files of endpoints stand below their folder.**  An endpoint that has a file, has it on the
way that it spells without its outer slashes: behind the folder the path goes through the names of
the endpoint, the last of them with an ending, and through nothing else.  It has none exactly if
nothing is left of it, it leads up somewhere, or it starts with a dot.  What is loaded depends on
what stands below the folder alone, and in a tree of texts it stands below the place that the folder
leads to. -/
theorem path?_below (dir endpoint : String) :
    (∀ path, path? dir endpoint = some path → ∃ (front : Path.Segments) (last : List Char),
      components (strip endpoint.toList) = front.map .normal ++ [.normal last] ∧
        components path.toList = components dir.toList ++
          (front.map .normal ++ [.normal (last ++ ".json".toList)]) ∧ Below dir path) ∧
      (path? dir endpoint = none ↔ strip endpoint.toList = [] ∨
        .parent ∈ components (strip endpoint.toList) ∨
          (components (strip endpoint.toList)).head? = some .current) ∧
      (∀ disk disk' : Disk, (∀ path, Below dir path → disk path = disk' path) →
        ∀ args?, load disk dir ⟨endpoint, args?⟩ = load disk' dir ⟨endpoint, args?⟩) ∧
      ∀ (f : Files) args? v, load f.read dir ⟨endpoint, args?⟩ = .ok v → ∃ folder names text,
        Files.place? [] (components dir.toList) = some folder ∧ names ≠ [] ∧
          f.text? (folder ++ names) = some text ∧ Json.Value.ofText text = .ok v :=
  ⟨fun _ => components_path?, path?_eq_none_iff,
    fun _ _ h args? => load_eq_of_below h ⟨endpoint, args?⟩, fun _ _ _ => exists_text_of_load⟩

/-- Slashes and dots that name nothing do not matter, and neither does what is outside. -/
theorem path?_below_info :
    let dir := "./fixtures/"
    let endpoint := "/sys//./info/./"
    let inside (path : String) : Bool :=
      (components dir.toList).isPrefixOf (components path.toList)
    let disk : Disk := fun path => if inside path then .ok "[]" else .error .missing
    let disk' : Disk := fun path => if inside path then .ok "[]" else .ok "outside"
    let f : Files := .ofList [("info.json", "1"), ("fixtures/sys/info.json", "2")]
    (path? dir endpoint = some "./fixtures/sys/info.json" ∧ Below dir "./fixtures/sys/info.json") ∧
      path? dir "sys/../../passwd" = none ∧
      ((∀ path, Below dir path → disk path = disk' path) ∧
        load disk dir ⟨endpoint, none⟩ = load disk' dir ⟨endpoint, none⟩) ∧
      load f.read dir ⟨endpoint, none⟩ = .ok (.int 2) ∧ ∃ folder names text,
        Files.place? [] (components dir.toList) = some folder ∧ names ≠ [] ∧
          f.text? (folder ++ names) = some text ∧ Json.Value.ofText text = .ok (.int 2) := by
  intro dir endpoint inside disk disk' f
  have hpath : path? dir endpoint = some "./fixtures/sys/info.json" := by decide +kernel
  have hdisk : ∀ path, Below dir path → disk path = disk' path := by
    rintro path ⟨names, -, -, hnames⟩
    have hinside : inside path = true := by simp [inside, hnames]
    simp only [disk, disk', hinside, if_true]
  have htext : f.read "./fixtures/sys/info.json" = .ok "2" := rfl
  have hvalue : Json.Value.ofText "2" = .ok (.int 2) := rfl
  have hread : load f.read dir ⟨endpoint, none⟩ = .ok (.int 2) := by
    simp only [load, hpath, htext, hvalue]
  obtain ⟨hbelow, -, hload, hplace⟩ := path?_below dir endpoint
  obtain ⟨-, hnone, -⟩ := path?_below dir "sys/../../passwd"
  obtain ⟨-, -, -, -, hinfo⟩ := hbelow _ hpath
  exact ⟨⟨hpath, hinfo⟩, hnone.mpr (.inr (.inl (by decide +kernel))),
    ⟨hdisk, hload disk disk' hdisk none⟩, hread, hplace f none _ hread⟩

end DeviceStats.Fixtures
