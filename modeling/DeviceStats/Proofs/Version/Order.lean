import DeviceStats.Conditional
import DeviceStats.Proofs.Text.Split
import Mathlib.Order.PiLex
import Mathlib.Order.Std

/-!
# Proofs/Version/Order — versions in order

A version that is continued by zeros is an endless row of numbers, and versions are compared as
their rows are: the first difference decides (`cmp_eq_compare`).  Rows are linearly ordered, so
versions are totally preordered, and those with one row cannot be told apart.  Segments `.0` at the
end change no row.
-/

namespace DeviceStats.Version

variable {u v w : Version} {a b c : String}

/-! ## Rows -/

/-- The numbers of a version, continued by zeros, in the order in which the first difference
decides. -/
def row (v : Version) : Lex (ℕ → ℕ) := toLex fun i => v.getD i 0

/-- A row without its first number. -/
def tail (x : Lex (ℕ → ℕ)) : Lex (ℕ → ℕ) := toLex fun i => x (i + 1)

@[simp] theorem row_nil_zero : row [] 0 = 0 := rfl

@[simp] theorem row_cons_zero (n : ℕ) (v : Version) : row (n :: v) 0 = n := rfl

@[simp] theorem tail_row_nil : tail (row []) = row [] := rfl

@[simp] theorem tail_row_cons (n : ℕ) (v : Version) : tail (row (n :: v)) = row v := rfl

theorem row_eq_iff {x y : Lex (ℕ → ℕ)} : x = y ↔ x 0 = y 0 ∧ tail x = tail y := by
  refine ⟨fun h => h ▸ ⟨rfl, rfl⟩, fun ⟨hzero, htail⟩ => funext fun i => ?_⟩
  cases i with
  | zero => exact hzero
  | succ i => exact congrFun htail i

/-- Rows differ in their first numbers, or behind them. -/
theorem row_lt_iff {x y : Lex (ℕ → ℕ)} :
    x < y ↔ x 0 < y 0 ∨ x 0 = y 0 ∧ tail x < tail y := by
  constructor
  · rintro ⟨i, heq, hlt⟩
    cases i with
    | zero => exact .inl hlt
    | succ i => exact .inr ⟨heq 0 i.succ_pos, i, fun j hj => heq (j + 1) (Nat.succ_lt_succ hj), hlt⟩
  · rintro (hlt | ⟨hzero, i, heq, hlt⟩)
    · exact ⟨0, fun j hj => absurd hj j.not_lt_zero, hlt⟩
    · refine ⟨i + 1, fun j hj => ?_, hlt⟩
      cases j with
      | zero => exact hzero
      | succ j => exact heq j (Nat.lt_of_succ_lt_succ hj)

/-- Rows are compared by their first numbers, and behind them if those are equal. -/
theorem compare_row (x y : Lex (ℕ → ℕ)) :
    compare x y = (compare (x 0) (y 0)).then (compare (tail x) (tail y)) := by
  cases h : (compare (x 0) (y 0)).then (compare (tail x) (tail y)) with
  | lt =>
    rw [Ordering.then_eq_lt, compare_lt_iff_lt, compare_eq_iff_eq, compare_lt_iff_lt] at h
    exact compare_lt_iff_lt.mpr (row_lt_iff.mpr h)
  | eq =>
    rw [Ordering.then_eq_eq, compare_eq_iff_eq, compare_eq_iff_eq] at h
    exact compare_eq_iff_eq.mpr (row_eq_iff.mpr h)
  | gt =>
    rw [Ordering.then_eq_gt, compare_gt_iff_gt, compare_eq_iff_eq, compare_gt_iff_gt] at h
    exact compare_gt_iff_gt.mpr (row_lt_iff.mpr (h.imp_right fun h => ⟨h.1.symm, h.2⟩))

/-- **Versions are compared as their rows are.** -/
theorem cmp_eq_compare (v w : Version) : cmp v w = compare (row v) (row w) := by
  fun_induction cmp v w with
  | case1 => exact (compare_eq_iff_eq.mpr rfl).symm
  | case2 n w ih => rw [ih, compare_row _ (row (n :: w))]; simp
  | case3 n v ih => rw [ih, compare_row (row (n :: v))]; simp
  | case4 m v n w ih => rw [ih, compare_row (row (m :: v))]; simp

instance : Std.TransCmp cmp := by
  have heq : cmp = compareOn row := funext fun v => funext (cmp_eq_compare v)
  rw [heq]
  infer_instance

/-! ## Zeros at the end -/

theorem row_append_zero (v : Version) : row (v ++ [0]) = row v := by
  induction v with
  | nil => exact row_eq_iff.mpr ⟨rfl, rfl⟩
  | cons n v ih => exact row_eq_iff.mpr ⟨rfl, ih⟩

theorem ofString_append_zero (s : String) : ofString (s ++ ".0") = ofString s ++ [0] := by
  have hlast : (Text.splitOnChar '.' ['0']).map number = [0] := by decide
  rw [ofString, String.toList_append, show ".0".toList = ['.', '0'] from rfl,
    Text.splitOnChar_append_cons, List.map_append, hlast, ofString]

/-- **Segments `.0` at the end of a version change nothing.** -/
theorem row_ofString_zeros (n : ℕ) (s : String) :
    row (ofString ((· ++ ".0")^[n] s)) = row (ofString s) := by
  induction n with
  | zero => rfl
  | succ n ih => rw [Function.iterate_succ_apply', ofString_append_zero, row_append_zero, ih]

/-! ## Conditions on a version -/

/-- **A version that is raised satisfies what it satisfied before.** -/
theorem holds_of_raised {facts facts' : Facts} (h : facts.version? = some a)
    (h' : facts'.version? = some b) (hraised : atLeast b a = true) {arg : Json.Value}
    (hholds : Conditional.versionAtLeast.holds facts arg = true) :
    Conditional.versionAtLeast.holds facts' arg = true := by
  rw [Conditional.holds, h] at hholds
  rw [Conditional.holds, h']
  cases harg : arg.str? with
  | none =>
    rw [harg] at hholds
    exact nomatch hholds
  | some wanted =>
    rw [harg] at hholds
    exact Std.TransCmp.isGE_trans hraised hholds

/-- **Versions are totally preordered**: of two that are written one is below the other exactly if
its number is at the first difference of their rows, and neither if there is no difference.  The
other way round the comparison is reversed, being at least is transitive, versions that are equal
compare alike with every third, and segments `.0` at the end change nothing.  So a condition on the
version of a device stays true when the version is raised. -/
theorem preorder (a b c : String) :
    ((cmp (ofString a) (ofString b) = .lt ↔ row (ofString a) < row (ofString b)) ∧
      (cmp (ofString a) (ofString b) = .eq ↔ row (ofString a) = row (ofString b))) ∧
      cmp (ofString b) (ofString a) = (cmp (ofString a) (ofString b)).swap ∧
      (atLeast a b = true → atLeast b c = true → atLeast a c = true) ∧
      (cmp (ofString a) (ofString b) = .eq →
        cmp (ofString a) (ofString c) = cmp (ofString b) (ofString c) ∧
          cmp (ofString c) (ofString a) = cmp (ofString c) (ofString b)) ∧
      (∀ m n, cmp (ofString ((· ++ ".0")^[m] a)) (ofString ((· ++ ".0")^[n] b)) =
        cmp (ofString a) (ofString b)) ∧
      ∀ (facts facts' : Facts) (arg : Json.Value), facts.version? = some a →
        facts'.version? = some b → atLeast b a = true →
        Conditional.versionAtLeast.holds facts arg = true →
        Conditional.versionAtLeast.holds facts' arg = true := by
  refine ⟨⟨?_, ?_⟩, Std.OrientedCmp.eq_swap, Std.TransCmp.isGE_trans, fun h =>
    ⟨Std.TransCmp.congr_left h, Std.TransCmp.congr_right h⟩, fun m n => ?_,
    fun facts facts' arg h h' hraised => holds_of_raised h h' hraised⟩
  · rw [cmp_eq_compare]
    exact compare_lt_iff_lt
  · rw [cmp_eq_compare]
    exact compare_eq_iff_eq
  · rw [cmp_eq_compare, row_ofString_zeros, row_ofString_zeros, ← cmp_eq_compare]

/-- Segments that are no numbers or too large for one count as zero. -/
theorem preorder_fifteen :
    let facts (version : String) : Facts := ⟨[("deviceVersion", .str version)]⟩
    (atLeast "15.1.0-3" "15.1.x" = true ∧ atLeast "15.1.x" "14.99999999999999999999.7" = true ∧
      atLeast "15.1.0-3" "14.99999999999999999999.7" = true) ∧
      (cmp (ofString "15.1.0-3") (ofString "15.1.x") = .eq ∧
        cmp (ofString "15.1.0-3") (ofString "15.1.0.1") =
          cmp (ofString "15.1.x") (ofString "15.1.0.1")) ∧
      (Conditional.versionAtLeast.holds (facts "15.1.x") (.str "15.1") = true ∧
        Conditional.versionAtLeast.holds (facts "15.1.0.1") (.str "15.1") = true) := by
  intro facts
  have ha : ofString "15.1.0-3" = [15, 1, 0] := by decide +kernel
  have hb : ofString "15.1.x" = [15, 1, 0] := by decide +kernel
  have hc : ofString "14.99999999999999999999.7" = [14, 0, 7] := by decide +kernel
  have hlow : ofString "15.1" = [15, 1] := by decide +kernel
  have hhigh : ofString "15.1.0.1" = [15, 1, 0, 1] := by decide +kernel
  have hab : atLeast "15.1.0-3" "15.1.x" = true := by simp [atLeast, ha, hb, cmp]
  have hbc : atLeast "15.1.x" "14.99999999999999999999.7" = true := by
    simp [atLeast, hb, hc, cmp, Nat.compare_eq_gt.mpr]
  have heq : cmp (ofString "15.1.0-3") (ofString "15.1.x") = .eq := by simp [ha, hb, cmp]
  have hraise : atLeast "15.1.0.1" "15.1.x" = true := by
    simp [atLeast, hb, hhigh, cmp, Nat.compare_eq_gt.mpr]
  have hholds : Conditional.versionAtLeast.holds (facts "15.1.x") (.str "15.1") = true := by
    simp [facts, Conditional.holds, Facts.version?, Json.Value.str?, Named.get?_cons, atLeast, hb,
      hlow, cmp]
  obtain ⟨-, -, htrans, -⟩ :=
    preorder "15.1.0-3" "15.1.x" "14.99999999999999999999.7"
  obtain ⟨-, -, -, hcongr, -⟩ := preorder "15.1.0-3" "15.1.x" "15.1.0.1"
  obtain ⟨-, -, -, -, -, hraised⟩ := preorder "15.1.x" "15.1.0.1" ""
  exact ⟨⟨hab, hbc, htrans hab hbc⟩, ⟨heq, (hcongr heq).1⟩, hholds,
    hraised _ _ _ rfl rfl hraise hholds⟩

end DeviceStats.Version
