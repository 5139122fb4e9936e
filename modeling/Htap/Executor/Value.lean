import Htap.Parser.Ast

/-!
Result values and the comparisons the executor makes on them.

`CompareResultValues` compares values of different alternatives too, or throws,
so it orders nothing by itself. On values of one static type it is the order of
`rank`, a linear order in which NULL comes last, and the comparators of
`std::map` and `std::sort` built on it are lexicographic orders of ranks.
-/

namespace Htap.Executor

open Storage Htap.Parser

inductive ResultValue where
  | int64 (value : Int64)
  | double (value : Binary64)
  | string (value : Bytes)
  | bool (value : Bool)
  deriving DecidableEq

abbrev NullableResultValue : Type := Option ResultValue

abbrev ResultRow : Type := List NullableResultValue

def incompatibleTypes : Exception := .runtimeError "Incompatible types in comparison"

/-- Neither less nor greater counts as equal, as for NaN. -/
def compareDoubles (left right : Binary64) : Ordering :=
  if Binary64.lt left right then .lt else if Binary64.lt right left then .gt else .eq

/-- `CompareResultValues`; the sign of the result is an `Ordering`. -/
def compareResultValues : ResultValue → ResultValue → Result Ordering
  | .int64 left, .int64 right => .ok (cmp left right)
  | .int64 left, .double right => .ok (compareDoubles (Binary64.ofInt64 left) right)
  | .double left, .double right => .ok (compareDoubles left right)
  | .double left, .int64 right => .ok (compareDoubles left (Binary64.ofInt64 right))
  | .string left, .string right => .ok (cmp left right)
  | .bool left, .bool right => .ok (if left = right then .eq else if left then .gt else .lt)
  | _, _ => .error incompatibleTypes

/-- `CompareNullableResultValues`. -/
def compareNullableResultValues : NullableResultValue → NullableResultValue → Result Ordering
  | none, none => .ok .eq
  | none, some _ => .ok .gt
  | some _, none => .ok .lt
  | some left, some right => compareResultValues left right

abbrev GroupKey : Type := List NullableResultValue

/-- `GroupKeyLess`. -/
def groupKeyLess : GroupKey → GroupKey → Result Bool
  | [], right => .ok !right.isEmpty
  | _ :: _, [] => .ok false
  | l :: left, r :: right => do
    match ← compareNullableResultValues l r with
    | .lt => return true
    | .gt => return false
    | .eq => groupKeyLess left right

/-- The comparator of both `std::sort` calls, on the sort keys of two rows. -/
def sortKeysLess : List OrderDirection → List NullableResultValue → List NullableResultValue →
    Result Bool
  | direction :: directions, x :: xs, y :: ys => do
    match ← compareNullableResultValues x y, direction with
    | .eq, _ => sortKeysLess directions xs ys
    | comparison, .asc => return comparison == .lt
    | comparison, .desc => return comparison == .gt
  | _, _, _ => .ok false

/-! ## The order of the values of one type -/

/-- NULL last, numbers by value, strings by their bytes. -/
abbrev Rank : Type := ℕ ×ₗ ℤ ×ₗ List ℕ

def rank : NullableResultValue → Rank
  | none => toLex (1, toLex (0, []))
  | some (.int64 value) => toLex (0, toLex (value.toInt, []))
  | some (.double value) => toLex (0, toLex (value.rank, []))
  | some (.string value) => toLex (0, toLex (0, value.map UInt8.toNat))
  | some (.bool value) => toLex (0, toLex (if value then 1 else 0, []))

/-- Values that compare by rank: NULL with everything, and values of one
alternative with each other, where a NaN meets only itself. -/
def Comparable : NullableResultValue → NullableResultValue → Prop
  | none, _ => True
  | _, none => True
  | some (.int64 _), some (.int64 _) => True
  | some (.double left), some (.double right) =>
    left.isNaN = false ∧ right.isNaN = false ∨ left = right
  | some (.string _), some (.string _) => True
  | some (.bool _), some (.bool _) => True
  | _, _ => False

private theorem toNat_lt_iff (a b : Bytes) : a.map UInt8.toNat < b.map UInt8.toNat ↔ a < b := by
  induction a generalizing b with
  | nil =>
    cases b with
    | nil => simp
    | cons y ys => simp
  | cons x xs ih =>
    cases b with
    | nil => simp
    | cons y ys =>
      simp only [List.map_cons, List.cons_lt_cons_iff, ih, UInt8.lt_iff_toNat_lt,
        UInt8.toNat_inj]

private theorem cmp_embed {α β : Type} [LT α] [DecidableLT α] [LinearOrder β] (f : α → β)
    (h : ∀ a b, f a < f b ↔ a < b) (a b : α) : cmp (f a) (f b) = cmp a b := by
  simp only [cmp, cmpUsing, h]

private theorem cmp_lex_right {α β : Type} [LinearOrder α] [LinearOrder β] (a : α) (x y : β) :
    cmp (toLex (a, x)) (toLex (a, y)) = cmp x y := by
  simp only [cmp, cmpUsing, Prod.Lex.toLex_lt_toLex, lt_irrefl, true_and, false_or]

private theorem cmp_lex_left {α β : Type} [LinearOrder α] [LinearOrder β] (x y : α) (b : β) :
    cmp (toLex (x, b)) (toLex (y, b)) = cmp x y := by
  simp only [cmp, cmpUsing, Prod.Lex.toLex_lt_toLex, lt_irrefl, and_false, or_false]

theorem compareDoubles_eq {a b : Binary64}
    (h : a.isNaN = false ∧ b.isNaN = false ∨ a = b) : compareDoubles a b = cmp a.rank b.rank := by
  rcases h with ⟨ha, hb⟩ | rfl
  · unfold compareDoubles
    simp only [Binary64.lt_iff ha hb, Binary64.lt_iff hb ha, cmp, cmpUsing]
  · rw [cmp_self_eq_eq]
    simp [compareDoubles, Binary64.lt]

/-- On comparable values the comparison is that of their ranks. -/
theorem compareNullableResultValues_eq {a b : NullableResultValue} (h : Comparable a b) :
    compareNullableResultValues a b = .ok (cmp (rank a) (rank b)) := by
  match a, b, h with
  | none, none, _ => simp [compareNullableResultValues]
  | none, some v, _ =>
    cases v <;> rfl
  | some v, none, _ =>
    cases v <;> rfl
  | some (.int64 x), some (.int64 y), _ =>
    simp only [compareNullableResultValues, compareResultValues, rank, cmp_lex_right, cmp_lex_left]
    rw [cmp_embed Int64.toInt fun _ _ => Int64.lt_iff_toInt_lt.symm]
  | some (.double x), some (.double y), h =>
    simp only [compareNullableResultValues, compareResultValues, rank, cmp_lex_right, cmp_lex_left,
      compareDoubles_eq h]
  | some (.string x), some (.string y), _ =>
    simp only [compareNullableResultValues, compareResultValues, rank, cmp_lex_right]
    rw [cmp_embed (List.map UInt8.toNat) toNat_lt_iff]
  | some (.bool x), some (.bool y), _ =>
    cases x <;> cases y <;> rfl

/-- Comparable values compare equal when their ranks agree. -/
theorem compareNullableResultValues_eq_iff {a b : NullableResultValue} (h : Comparable a b) :
    compareNullableResultValues a b = .ok .eq ↔ rank a = rank b := by
  rw [compareNullableResultValues_eq h, Except.ok.injEq, cmp_eq_eq_iff]

/-! ## Group keys -/

/-- `GroupKeyLess` is the lexicographic order of the ranks. -/
theorem groupKeyLess_eq {left right : GroupKey} (h : List.Forall₂ Comparable left right) :
    groupKeyLess left right = .ok (decide (left.map rank < right.map rank)) := by
  induction h with
  | nil => simp [groupKeyLess]
  | @cons l r left right hhead _ ih =>
    simp only [groupKeyLess, compareNullableResultValues_eq hhead, Result.ok_bind, List.map_cons,
      List.cons_lt_cons_iff]
    rcases lt_trichotomy (rank l) (rank r) with hlt | heq | hgt
    · have hcmp : cmp (rank l) (rank r) = .lt := (cmp_eq_lt_iff _ _).mpr hlt
      simp [hcmp, hlt]
    · simp [heq, ih]
    · have hcmp : cmp (rank l) (rank r) = .gt := (cmp_eq_gt_iff _ _).mpr hgt
      simp [hcmp, hgt.not_gt, hgt.ne']

/-! ## Sort keys -/

/-- One component of a sort key in the direction of its item. -/
def directed : OrderDirection → NullableResultValue → Rank ⊕ₗ Rankᵒᵈ
  | .asc, value => Sum.inlₗ (rank value)
  | .desc, value => Sum.inrₗ (OrderDual.toDual (rank value))

/-- The place of a row in the order that the ORDER BY items ask for. -/
def orderKey (directions : List OrderDirection) (values : List NullableResultValue) :
    List (Rank ⊕ₗ Rankᵒᵈ) :=
  List.zipWith directed directions values

/-- The comparator of `std::sort` is the lexicographic order of directed ranks. -/
theorem sortKeysLess_eq {directions : List OrderDirection} {xs ys : List NullableResultValue}
    (hlength : directions.length = xs.length) (h : List.Forall₂ Comparable xs ys) :
    sortKeysLess directions xs ys =
      .ok (decide (orderKey directions xs < orderKey directions ys)) := by
  induction h generalizing directions with
  | nil =>
    obtain rfl := List.length_eq_zero_iff.mp hlength
    simp [sortKeysLess, orderKey]
  | @cons x y xs ys hhead _ ih =>
    cases directions with
    | nil => cases hlength
    | cons direction directions =>
      have hrest := ih (Nat.succ.inj hlength)
      unfold orderKey at hrest ⊢
      simp only [sortKeysLess, compareNullableResultValues_eq hhead, Result.ok_bind,
        List.zipWith_cons_cons, List.cons_lt_cons_iff]
      rcases lt_trichotomy (rank x) (rank y) with hlt | heq | hgt
      · have hcmp : cmp (rank x) (rank y) = .lt := (cmp_eq_lt_iff _ _).mpr hlt
        cases direction <;> simp [hcmp, directed, hlt, hlt.not_gt, hlt.ne]
      · cases direction <;> simp [directed, heq, hrest]
      · have hcmp : cmp (rank x) (rank y) = .gt := (cmp_eq_gt_iff _ _).mpr hgt
        cases direction <;> simp [hcmp, directed, hgt, hgt.not_gt, hgt.ne']

end Htap.Executor
