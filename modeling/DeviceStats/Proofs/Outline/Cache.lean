import DeviceStats.Outline.Selection
import DeviceStats.Proofs.Action.Finite
import Mathlib.Data.Finset.Card

/-!
# Proofs/Outline/Cache — remembered selections are right

The canonical text says all that a selection depends on (`SelectionCache.selection_eq_of_text_eq`):
it is the text of a finite value, and that value holds the written actions, which tell actions
apart, and what a selection sees of each property.  So a cache that tells texts apart by their
hashes answers each request as if there were no cache, and holds one selection for each text that
was asked for since it was cleared (`SelectionCache.run_transparent`).
-/

namespace DeviceStats

open Json (Value)
open Json.Value (isFinite areFinite_iff)

/-! ## What a selection sees of a property -/

theorem Fingerprint.shape_eq_iff {p p' : Property} :
    shape p = shape p' ↔
      p.name = p'.name ∧ p.parent? = p'.parent? ∧ p.inFolder = p'.inFolder := by
  unfold shape
  cases p.parent? <;> cases p'.parent? <;> simp

namespace Outline

open Fingerprint (shape shape_eq_iff)

theorem add_congr {p p' : Property} (h : shape p = shape p') (disabledFolders : NameSet)
    (nested : Named Outline) : add disabledFolders nested p = add disabledFolders nested p' := by
  obtain ⟨hname, hparent, hfolder⟩ := shape_eq_iff.mp h
  rw [add, add, hname, hparent, hfolder]

theorem path_congr {p p' : Property} (h : shape p = shape p') : p.path = p'.path := by
  obtain ⟨hname, hparent, -⟩ := shape_eq_iff.mp h
  rw [Property.path, Property.path, hname, hparent]

variable {properties properties' : List Property}

theorem foldl_add_congr (h : List.Forall₂ (fun p p' => shape p = shape p') properties properties')
    (disabledFolders : NameSet) (nested : Named Outline) :
    properties.foldl (add disabledFolders) nested =
      properties'.foldl (add disabledFolders) nested := by
  induction h generalizing nested with
  | nil => rfl
  | cons hp _ ih => rw [List.foldl_cons, List.foldl_cons, add_congr hp, ih]

theorem filter_hasPath_congr
    (h : List.Forall₂ (fun p p' => shape p = shape p') properties properties') (o : Outline) :
    (properties.filter fun p => o.hasPath p.path).map (·.name) =
      (properties'.filter fun p => o.hasPath p.path).map (·.name) := by
  induction h with
  | nil => rfl
  | cons hp _ ih =>
    rw [List.filter_cons, List.filter_cons, path_congr hp]
    split
    · rw [List.map_cons, List.map_cons, ih, (shape_eq_iff.mp hp).1]
    · exact ih

/-- A selection sees the shapes of properties only. -/
theorem select_congr (h : properties.map shape = properties'.map shape) (actions : List Action)
    (disabledFolders : NameSet) :
    select properties actions disabledFolders = select properties' actions disabledFolders := by
  have hshapes : List.Forall₂ (fun p p' => shape p = shape p') properties properties' :=
    List.forall₂_map_left_iff.mp (List.forall₂_map_right_iff.mp (List.forall₂_eq_eq_eq ▸ h))
  simp only [select, final, build, foldl_add_congr hshapes, filter_hasPath_congr hshapes]

end Outline

/-! ## Requests -/

namespace SelectionCache

/-- What a selection is asked for.  The numbers in its actions are finite, as those of actions that
have been read are (`Action.isFinite_of_decodeAll`). -/
structure Query where
  properties : List Property
  actions : List Action
  disabledFolders : NameSet
  finite : ∀ a ∈ actions, a.encode.isFinite = true

namespace Query

def canonical (q : Query) : Value :=
  Fingerprint.canonical q.properties q.actions q.disabledFolders

/-- The canonical text. -/
def text (q : Query) : String := q.canonical.text

def key (q : Query) : UInt64 := Fnv.hash q.text

/-- What is selected without a cache. -/
def selection (q : Query) : NameSet := Outline.select q.properties q.actions q.disabledFolders

theorem isFinite_canonical (q : Query) : q.canonical.isFinite = true := by
  have hproperties : Json.Value.areFinite (q.properties.map Fingerprint.shape) = true := by
    refine areFinite_iff.mpr fun v hv => ?_
    obtain ⟨p, -, rfl⟩ := List.mem_map.mp hv
    rw [Fingerprint.shape]
    cases p.parent? <;> rfl
  have hactions : Json.Value.areFinite (q.actions.map Action.encode) = true := by
    refine areFinite_iff.mpr fun v hv => ?_
    obtain ⟨a, ha, rfl⟩ := List.mem_map.mp hv
    exact q.finite a ha
  have hfolders : Json.Value.areFinite (q.disabledFolders.map Value.str) = true := by
    refine areFinite_iff.mpr fun v hv => ?_
    obtain ⟨name, -, rfl⟩ := List.mem_map.mp hv
    rfl
  simp [canonical, Fingerprint.canonical, isFinite, Json.Value.fieldsFinite, hproperties, hactions,
    hfolders]

/-- **Requests with one canonical text have one selection.** -/
theorem selection_eq_of_text_eq {q q' : Query} (h : q.text = q'.text) :
    q.selection = q'.selection := by
  have hcanonical := Json.Value.text_inj q.isFinite_canonical q'.isFinite_canonical h
  simp only [canonical, Fingerprint.canonical, Value.obj.injEq, List.cons.injEq, Prod.mk.injEq,
    Value.arr.injEq, and_true, true_and] at hcanonical
  obtain ⟨hshapes, hactions, hfolders⟩ := hcanonical
  have hnames : Function.Injective (List.map Value.str) :=
    List.map_injective_iff.mpr fun _ _ => Value.str.inj
  rw [selection, selection, Action.encode_injective.list_map hactions, hnames hfolders,
    Outline.select_congr hshapes]

end Query

/-! ## Runs -/

inductive Call
  | select (q : Query)
  | clear

/-- The answers of a cache to calls, and the cache that is left. -/
def run (c : SelectionCache) : List Call → List NameSet × SelectionCache
  | [] => ([], c)
  | .select q :: calls =>
    let (names, c) := c.select q.properties q.actions q.disabledFolders
    let (answers, c) := c.run calls
    (names :: answers, c)
  | .clear :: calls => c.clear.run calls

/-- All requests of some calls. -/
def queries : List Call → List Query
  | [] => []
  | .select q :: calls => q :: queries calls
  | .clear :: calls => queries calls

/-- The requests of some calls that come after the last time the cache is cleared, behind those
that came before the calls. -/
def sinceClear (seen : List Query) : List Call → List Query
  | [] => seen
  | .select q :: calls => sinceClear (seen ++ [q]) calls
  | .clear :: calls => sinceClear [] calls

/-! ## What a cache remembers -/

def keys (c : SelectionCache) : List UInt64 := c.entries.map (·.1)

theorem get?_eq_none_iff {c : SelectionCache} {key : UInt64} :
    c.get? key = none ↔ key ∉ c.keys := by
  simp only [get?, Option.map_eq_none_iff, List.find?_eq_none, keys, List.mem_map, beq_iff_eq,
    not_exists, not_and]

/-- What is added under a new key is found, and what was found before still is. -/
theorem get?_add {c : SelectionCache} {key : UInt64} (h : key ∉ c.keys) (names : NameSet)
    (other : UInt64) :
    get? ⟨c.entries ++ [(key, names)]⟩ other =
      if other = key then some names else c.get? other := by
  have happend : get? ⟨c.entries ++ [(key, names)]⟩ other =
      (c.get? other).or (get? ⟨[(key, names)]⟩ other) := by
    simp only [get?, List.find?_append, Option.map_or]
  rw [happend]
  split
  · rename_i heq
    rw [heq, get?_eq_none_iff.mpr h]
    simp [get?]
  · rename_i hne
    have hnone : get? ⟨[(key, names)]⟩ other = none := by simp [get?, Ne.symm hne]
    rw [hnone, Option.or_none]

section Answers

variable {c : SelectionCache} {q : Query}

/-- What is remembered is given back. -/
theorem select_hit {names : NameSet} (h : c.get? q.key = some names) :
    c.select q.properties q.actions q.disabledFolders = (names, c) := by
  have hkey : c.get? (Fingerprint.ofInputs q.properties q.actions q.disabledFolders) =
      some names := h
  simp only [SelectionCache.select, hkey]

/-- What is not remembered is selected and added. -/
theorem select_miss (h : c.get? q.key = none) :
    c.select q.properties q.actions q.disabledFolders =
      (q.selection, ⟨c.entries ++ [(q.key, q.selection)]⟩) := by
  have hkey : c.get? (Fingerprint.ofInputs q.properties q.actions q.disabledFolders) = none := h
  simp only [SelectionCache.select, hkey]
  rfl

end Answers

/-- A cache that has answered some requests: it has their selections under their keys, and nothing
else. -/
structure Remembers (c : SelectionCache) (seen : List Query) : Prop where
  nodup : c.keys.Nodup
  mem_keys : ∀ key, key ∈ c.keys ↔ ∃ q ∈ seen, q.key = key
  get? : ∀ q ∈ seen, c.get? q.key = some q.selection

namespace Remembers

variable {c : SelectionCache} {seen : List Query} {q : Query}

theorem empty : Remembers {} [] :=
  ⟨List.nodup_nil, by simp [keys], by simp⟩

/-- A cache remembers a request with the text of one before. -/
theorem again (h : Remembers c seen) {q' : Query} (hq' : q' ∈ seen) (htext : q'.text = q.text) :
    Remembers c (seen ++ [q]) := by
  have hkey : q'.key = q.key := congrArg Fnv.hash htext
  have hget : c.get? q.key = some q.selection := by
    rw [← hkey, h.get? q' hq', Query.selection_eq_of_text_eq htext]
  refine ⟨h.nodup, fun key => (h.mem_keys key).trans ?_,
    List.forall_mem_append.mpr ⟨h.get?, List.forall_mem_singleton.mpr hget⟩⟩
  constructor
  · rintro ⟨p, hp, hpkey⟩
    exact ⟨p, List.mem_append_left _ hp, hpkey⟩
  · rintro ⟨p, hp, hpkey⟩
    rcases List.mem_append.mp hp with hp | hp
    · exact ⟨p, hp, hpkey⟩
    · exact ⟨q', hq', hkey.trans (List.mem_singleton.mp hp ▸ hpkey)⟩

/-- A cache remembers a request of which it had not the key, once its selection is added. -/
theorem added (h : Remembers c seen) (hnot : q.key ∉ c.keys) :
    Remembers ⟨c.entries ++ [(q.key, q.selection)]⟩ (seen ++ [q]) := by
  have hkeys : keys ⟨c.entries ++ [(q.key, q.selection)]⟩ = c.keys ++ [q.key] := List.map_append
  refine ⟨?_, fun key => ?_, List.forall_mem_append.mpr
    ⟨fun q' hq' => ?_, List.forall_mem_singleton.mpr ?_⟩⟩
  · rw [hkeys]
    exact (List.perm_append_singleton q.key _).nodup_iff.mpr (List.nodup_cons.mpr ⟨hnot, h.nodup⟩)
  · rw [hkeys, List.mem_append, h.mem_keys]
    simp only [List.mem_append, List.mem_singleton, or_and_right, exists_or, ↓existsAndEq,
      true_and, eq_comm]
  · have hne : q'.key ≠ q.key := fun heq => hnot ((h.mem_keys q.key).mpr ⟨q', hq', heq⟩)
    rw [get?_add hnot, if_neg hne, h.get? q' hq']
  · rw [get?_add hnot, if_pos rfl]

/-- A request is answered with its own selection, and remembered, if its key tells its text from
those before. -/
theorem select (h : Remembers c seen) (hkey : ∀ q' ∈ seen, q'.key = q.key → q'.text = q.text) :
    (c.select q.properties q.actions q.disabledFolders).1 = q.selection ∧
      Remembers (c.select q.properties q.actions q.disabledFolders).2 (seen ++ [q]) := by
  cases hget : c.get? q.key with
  | some names =>
    have hmem : q.key ∈ c.keys := by
      by_contra hnot
      rw [get?_eq_none_iff.mpr hnot] at hget
      cases hget
    obtain ⟨q', hq', hkey'⟩ := (h.mem_keys q.key).mp hmem
    have hagain := h.again hq' (hkey q' hq' hkey')
    have hnames := hagain.get? q (List.mem_append_right _ (List.mem_singleton_self q))
    rw [select_hit hget]
    exact ⟨Option.some.inj (hget.symm.trans hnames), hagain⟩
  | none =>
    rw [select_miss hget]
    exact ⟨rfl, h.added (get?_eq_none_iff.mp hget)⟩

/-- The number of remembered selections is the number of texts asked for. -/
theorem size_eq (h : Remembers c seen)
    (hkeys : ∀ q ∈ seen, ∀ q' ∈ seen, q.key = q'.key → q.text = q'.text) :
    c.size = (seen.map Query.text).toFinset.card := by
  have hfinset : c.keys.toFinset = (seen.map Query.text).toFinset.image Fnv.hash := by
    ext key
    simp [h.mem_keys, Query.key]
  have hinj : Set.InjOn Fnv.hash (seen.map Query.text).toFinset := by
    intro t ht t' ht' heq
    obtain ⟨q, hq, rfl⟩ := List.mem_map.mp (List.mem_toFinset.mp (Finset.mem_coe.mp ht))
    obtain ⟨q', hq', rfl⟩ := List.mem_map.mp (List.mem_toFinset.mp (Finset.mem_coe.mp ht'))
    exact hkeys q hq q' hq' heq
  rw [← Finset.card_image_of_injOn hinj, ← hfinset, List.toFinset_card_of_nodup h.nodup, keys,
    List.length_map, size]

end Remembers

/-! ## What a run answers -/

theorem mem_of_mem_sinceClear {q : Query} {seen : List Query} {calls : List Call}
    (h : q ∈ sinceClear seen calls) : q ∈ seen ++ queries calls := by
  induction calls generalizing seen with
  | nil => exact List.mem_append_left _ h
  | cons call calls ih =>
    cases call with
    | select p => exact List.append_cons seen p (queries calls) ▸ ih h
    | clear => exact List.mem_append_right seen (ih h)

/-- A run answers each request as if there were no cache, and what is left remembers the requests
since the cache was cleared. -/
theorem Remembers.run {c : SelectionCache} {seen : List Query} (h : Remembers c seen)
    (calls : List Call) (hkeys : ∀ q ∈ seen ++ queries calls, ∀ q' ∈ seen ++ queries calls,
      q.key = q'.key → q.text = q'.text) :
    (c.run calls).1 = (queries calls).map Query.selection ∧
      Remembers (c.run calls).2 (sinceClear seen calls) := by
  induction calls generalizing c seen with
  | nil => exact ⟨rfl, h⟩
  | cons call calls ih =>
    cases call with
    | select q =>
      rw [queries, List.append_cons] at hkeys
      have hmem : q ∈ seen ++ [q] ++ queries calls := by simp
      obtain ⟨hanswer, hnext⟩ := h.select fun q' hq' =>
        hkeys q' (List.mem_append_left _ (List.mem_append_left _ hq')) q hmem
      obtain ⟨hanswers, hlast⟩ := ih hnext hkeys
      exact ⟨congrArg₂ List.cons hanswer hanswers, hlast⟩
    | clear =>
      exact ih .empty fun q hq q' hq' =>
        hkeys q (List.mem_append_right _ hq) q' (List.mem_append_right _ hq')

/-- **The cache is transparent.**  If the hash tells apart the canonical texts of some calls, every
request is answered with its own selection, and the cache then holds as many selections as texts
were asked for since it was last cleared.  Requests with one text have one selection in any case. -/
theorem run_transparent (calls : List Call)
    (hkeys : ∀ q ∈ queries calls, ∀ q' ∈ queries calls,
      Fnv.hash q.text = Fnv.hash q'.text → q.text = q'.text) :
    (run {} calls).1 = (queries calls).map Query.selection ∧
      (run {} calls).2.size = ((sinceClear [] calls).map Query.text).toFinset.card ∧
      ∀ q q' : Query, q.text = q'.text → q.selection = q'.selection := by
  obtain ⟨hanswers, hlast⟩ := Remembers.empty.run calls hkeys
  refine ⟨hanswers, hlast.size_eq fun q hq q' hq' => ?_, fun q q' => Query.selection_eq_of_text_eq⟩
  exact hkeys q (mem_of_mem_sinceClear hq) q' (mem_of_mem_sinceClear hq')

/-- A request for one property and nothing done to it. -/
def keeping : Query := ⟨[⟨"a", { key := "a" }, {}⟩], [], [], by decide⟩

/-- A request for the same property, which an action takes out. -/
def dropping : Query :=
  ⟨[⟨"a", { key := "a" }, {}⟩], [⟨true, none, .excludeData [("a", .bool true)]⟩], [], by decide⟩

/-- Two texts, asked for more than once, before and after the cache is cleared. -/
theorem run_transparent_two_texts :
    let calls : List Call := [.select keeping, .select keeping, .clear, .select dropping,
      .select keeping, .select dropping]
    (run {} calls).1 = [["a"], ["a"], [], ["a"], []] ∧ (run {} calls).2.size = 2 := by
  intro calls
  have hhash : Fnv.hash keeping.text ≠ Fnv.hash dropping.text := by decide +kernel
  have hmem : ∀ q ∈ queries calls, q = keeping ∨ q = dropping := by
    simp only [calls, queries, List.forall_mem_cons, List.not_mem_nil, false_imp_iff,
      implies_true, true_or, or_true, and_true]
  obtain ⟨hanswers, hsize, -⟩ := run_transparent calls fun q hq q' hq' heq => by
    rcases hmem q hq with rfl | rfl <;> rcases hmem q' hq' with rfl | rfl
    · rfl
    · exact absurd heq hhash
    · exact absurd heq.symm hhash
    · rfl
  have hkeeping : keeping.selection = ["a"] := by decide +kernel
  have hdropping : dropping.selection = [] := by decide +kernel
  have htexts : keeping.text ≠ dropping.text := fun h => hhash (congrArg Fnv.hash h)
  refine ⟨?_, hsize.trans ?_⟩
  · rw [hanswers]
    simp only [calls, queries, List.map_cons, List.map_nil, hkeeping, hdropping]
  · change ([dropping, keeping, dropping].map Query.text).toFinset.card = 2
    rw [List.map_cons, List.map_cons, List.map_cons, List.map_nil]
    generalize keeping.text = t at htexts ⊢
    generalize dropping.text = u at htexts ⊢
    simp [Finset.card_pair htexts]

end SelectionCache

end DeviceStats
