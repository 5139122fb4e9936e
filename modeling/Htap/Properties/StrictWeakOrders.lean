import Htap.Properties.RowOrder

/-!
The comparators of `std::map` and `std::sort` on tuples of column values. A NaN compares
equal to every number, so they are strict weak orders on tuples in which no position mixes
NaN with numbers that differ, and on no others.
-/

namespace Htap.Properties

open Storage Htap.Parser Executor

/-- What one place of the tuples may hold: some of the values of a column. -/
structure TuplePosition (schema : Schema) where
  column : Nat
  values : Set NullableValue
  admitted : ∀ v ∈ values, schema.isValidValue column v = true
  inhabited : values.Nonempty

/-- All that `is_valid_value` admits. -/
def TuplePosition.all (schema : Schema) (column : Nat) (value : NullableValue)
    (h : schema.isValidValue column value = true) : TuplePosition schema where
  column := column
  values := {v | schema.isValidValue column v = true}
  admitted := fun _ hv => hv
  inhabited := ⟨value, h⟩

/-- Where NaN may stand, no two numbers differ. -/
def TuplePosition.KeepsNaNApart {schema : Schema} (position : TuplePosition schema) : Prop :=
  (∃ d, some (.double d) ∈ position.values ∧ d.isNaN = true) →
    ∀ a b, some (.double a) ∈ position.values → some (.double b) ∈ position.values →
      Binary64.lt a b = false

section

variable {schema : Schema}

/-- The cell holds one of the values of the position. -/
def TuplePosition.Holds (position : TuplePosition schema) (cell : NullableResultValue) : Prop :=
  ∃ v ∈ position.values, cell = v.map resultValue

def tuples (positions : List (TuplePosition schema)) : Set (List NullableResultValue) :=
  {t | List.Forall₂ TuplePosition.Holds positions t}

/-! ## Positions that keep NaN apart -/

open Classical in
/-- The value by which a position compares: beside NaN all doubles are one. -/
noncomputable def TuplePosition.levelled (position : TuplePosition schema) :
    NullableResultValue → NullableResultValue
  | some (.double d) =>
    if ∃ nan, some (.double nan) ∈ position.values ∧ nan.isNaN = true then
      some (.double Binary64.zero)
    else some (.double d)
  | cell => cell

/-- Two cells of one position hold values of one column type. -/
private theorem sameType {position : TuplePosition schema} {v w : Value}
    (hv : some v ∈ position.values) (hw : some w ∈ position.values) : v.type = w.type := by
  have hvalid := position.admitted _ hv
  have hvalid' := position.admitted _ hw
  unfold Schema.isValidValue at hvalid hvalid'
  cases hcolumn : schema.columns[position.column]? with
  | none =>
    rw [hcolumn] at hvalid
    cases hvalid
  | some column =>
    rw [hcolumn] at hvalid hvalid'
    exact (beq_iff_eq.mp hvalid).trans (beq_iff_eq.mp hvalid').symm

/-- Levelled cells are comparable, and compare as the cells do. -/
theorem TuplePosition.KeepsNaNApart.levelled {position : TuplePosition schema}
    (h : position.KeepsNaNApart) {x y : NullableResultValue} (hx : position.Holds x)
    (hy : position.Holds y) :
    Comparable (position.levelled x) (position.levelled y) ∧
      compareNullableResultValues x y =
        compareNullableResultValues (position.levelled x) (position.levelled y) := by
  obtain ⟨v, hv, rfl⟩ := hx
  obtain ⟨w, hw, rfl⟩ := hy
  cases v with
  | none =>
    refine ⟨trivial, ?_⟩
    cases w with
    | none => rfl
    | some w =>
      cases w with
      | int64 k => rfl
      | string text => rfl
      | double d =>
        simp only [Option.map, resultValue, TuplePosition.levelled]
        split <;> rfl
  | some v =>
    cases w with
    | none =>
      cases v with
      | int64 k => exact ⟨trivial, rfl⟩
      | string text => exact ⟨trivial, rfl⟩
      | double d =>
        simp only [Option.map, resultValue, TuplePosition.levelled]
        split <;> exact ⟨trivial, rfl⟩
    | some w =>
      have htype := sameType hv hw
      cases v with
      | int64 k =>
        cases w with
        | int64 l => exact ⟨trivial, rfl⟩
        | double d => cases htype
        | string text => cases htype
      | string text =>
        cases w with
        | string text' => exact ⟨trivial, rfl⟩
        | int64 k => cases htype
        | double d => cases htype
      | double a =>
        cases w with
        | int64 k => cases htype
        | string text => cases htype
        | double b =>
          simp only [Option.map, resultValue, TuplePosition.levelled]
          split
          · rename_i hnan
            refine ⟨Or.inr rfl, ?_⟩
            simp only [compareNullableResultValues, compareResultValues, compareDoubles,
              h hnan a b hv hw, h hnan b a hw hv]
            rfl
          · rename_i hnone
            have hnumber : ∀ d, some (Value.double d) ∈ position.values → d.isNaN = false := by
              intro d hd
              by_contra hne
              exact hnone ⟨d, hd, by simpa using hne⟩
            exact ⟨Or.inl ⟨hnumber a hv, hnumber b hw⟩, rfl⟩

/-- Cell by cell. -/
noncomputable def levelledTuple (positions : List (TuplePosition schema))
    (t : List NullableResultValue) : List NullableResultValue :=
  List.zipWith TuplePosition.levelled positions t

theorem length_levelledTuple {positions : List (TuplePosition schema)}
    {t : List NullableResultValue} (ht : t ∈ tuples positions) :
    (levelledTuple positions t).length = positions.length := by
  have hlength := List.Forall₂.length_eq ht
  rw [levelledTuple, List.length_zipWith, ← hlength, min_self]

theorem comparable_levelledTuple {positions : List (TuplePosition schema)}
    (h : ∀ p ∈ positions, p.KeepsNaNApart) {x y : List NullableResultValue}
    (hx : x ∈ tuples positions) (hy : y ∈ tuples positions) :
    List.Forall₂ Comparable (levelledTuple positions x) (levelledTuple positions y) := by
  induction positions generalizing x y with
  | nil =>
    cases hx
    cases hy
    exact List.Forall₂.nil
  | cons p positions ih =>
    cases hx with
    | cons hcell hrest =>
      cases hy with
      | cons hcell' hrest' =>
        have hhead := (h p List.mem_cons_self).levelled hcell hcell'
        exact List.Forall₂.cons hhead.1
          (ih (fun q hq => h q (List.mem_cons_of_mem p hq)) hrest hrest')

theorem groupKeyLess_levelledTuple {positions : List (TuplePosition schema)}
    (h : ∀ p ∈ positions, p.KeepsNaNApart) {x y : List NullableResultValue}
    (hx : x ∈ tuples positions) (hy : y ∈ tuples positions) :
    groupKeyLess x y =
      groupKeyLess (levelledTuple positions x) (levelledTuple positions y) := by
  induction positions generalizing x y with
  | nil =>
    cases hx
    cases hy
    rfl
  | cons p positions ih =>
    cases hx with
    | cons hcell hrest =>
      cases hy with
      | cons hcell' hrest' =>
        have hhead := (h p List.mem_cons_self).levelled hcell hcell'
        have htail := ih (fun q hq => h q (List.mem_cons_of_mem p hq)) hrest hrest'
        simp only [levelledTuple, List.zipWith_cons_cons, groupKeyLess, hhead.2] at htail ⊢
        rw [htail]

theorem sortKeysLess_levelledTuple {positions : List (TuplePosition schema)}
    (h : ∀ p ∈ positions, p.KeepsNaNApart) (directions : List OrderDirection)
    {x y : List NullableResultValue} (hx : x ∈ tuples positions) (hy : y ∈ tuples positions) :
    sortKeysLess directions x y =
      sortKeysLess directions (levelledTuple positions x) (levelledTuple positions y) := by
  induction positions generalizing directions x y with
  | nil =>
    cases hx
    cases hy
    rfl
  | cons p positions ih =>
    cases hx with
    | cons hcell hrest =>
      cases hy with
      | cons hcell' hrest' =>
        cases directions with
        | nil => rfl
        | cons direction directions =>
          have hhead := (h p List.mem_cons_self).levelled hcell hcell'
          have htail := ih (fun q hq => h q (List.mem_cons_of_mem p hq)) directions hrest hrest'
          simp only [levelledTuple, List.zipWith_cons_cons, sortKeysLess, hhead.2] at htail ⊢
          rw [htail]

theorem strictWeak_groupKeyLess {positions : List (TuplePosition schema)}
    (h : ∀ p ∈ positions, p.KeepsNaNApart) : StrictWeakOrder groupKeyLess (tuples positions) := by
  apply StrictWeakOrder.of_key fun t => (levelledTuple positions t).map rank
  intro x hx y hy
  rw [groupKeyLess_levelledTuple h hx hy,
    Executor.groupKeyLess_eq (comparable_levelledTuple h hx hy)]
  congr

theorem strictWeak_sortKeysLess {positions : List (TuplePosition schema)}
    (h : ∀ p ∈ positions, p.KeepsNaNApart) {directions : List OrderDirection}
    (hlength : directions.length = positions.length) :
    StrictWeakOrder (sortKeysLess directions) (tuples positions) := by
  apply StrictWeakOrder.of_key fun t => orderKey directions (levelledTuple positions t)
  intro x hx y hy
  have hlevelled : directions.length = (levelledTuple positions x).length := by
    rw [length_levelledTuple hx, hlength]
  rw [sortKeysLess_levelledTuple h directions hx hy,
    sortKeysLess_eq hlevelled (comparable_levelledTuple h hx hy)]
  congr

/-! ## A position that does not -/

theorem groupKeyLess_append (before x y : List NullableResultValue) :
    groupKeyLess (before ++ x) (before ++ y) = groupKeyLess x y := by
  induction before with
  | nil => rfl
  | cons v before ih =>
    simp only [List.cons_append, groupKeyLess, compare_self, Result.ok_bind]
    exact ih

theorem groupKeyLess_self (x : List NullableResultValue) : groupKeyLess x x = .ok false := by
  have happend := groupKeyLess_append x [] []
  rw [List.append_nil] at happend
  exact happend

theorem sortKeysLess_append {first : List OrderDirection} {before : List NullableResultValue}
    (hlength : first.length = before.length) (directions : List OrderDirection)
    (x y : List NullableResultValue) :
    sortKeysLess (first ++ directions) (before ++ x) (before ++ y) =
      sortKeysLess directions x y := by
  induction before generalizing first with
  | nil =>
    rw [List.length_eq_zero_iff.mp hlength]
    rfl
  | cons v before ih =>
    cases first with
    | nil => cases hlength
    | cons direction first =>
      simp only [List.cons_append, sortKeysLess, compare_self, Result.ok_bind]
      exact ih (Nat.succ.inj hlength)

theorem sortKeysLess_self (directions : List OrderDirection) (x : List NullableResultValue) :
    sortKeysLess directions x x = .ok false := by
  induction x generalizing directions with
  | nil => cases directions <;> rfl
  | cons v x ih =>
    cases directions with
    | nil => rfl
    | cons direction directions =>
      simp only [sortKeysLess, compare_self, Result.ok_bind]
      exact ih directions

/-- The comparator decides by one cell of the tuple, in one direction or the other. -/
structure DecidesBy (less : GroupKey → GroupKey → Result Bool)
    (place : NullableResultValue → GroupKey) (decision : Ordering → Bool) : Prop where
  eq : ∀ {v w comparison}, compareNullableResultValues v w = .ok comparison →
    less (place v) (place w) = .ok (decision comparison)
  equal : decision .eq = false
  differ : decision .lt = true ∨ decision .gt = true

/-- Two numbers that differ are both incomparable with NaN. -/
theorem not_strictWeakOrder {position : TuplePosition schema} (h : ¬ position.KeepsNaNApart)
    {less : GroupKey → GroupKey → Result Bool} {place : NullableResultValue → GroupKey}
    {decision : Ordering → Bool} (hdecides : DecidesBy less place decision) {S : Set GroupKey}
    (hplace : ∀ v, position.Holds v → place v ∈ S) : ¬ StrictWeakOrder less S := by
  intro horder
  unfold TuplePosition.KeepsNaNApart at h
  push Not at h
  obtain ⟨⟨nan, hnan, hisNaN⟩, a, b, ha, hb, hlt⟩ := h
  have hless : Binary64.lt a b = true := by simpa using hlt
  have hgreater : Binary64.lt b a = false := by
    simp only [Binary64.lt, Bool.and_eq_true, decide_eq_true_eq] at hless
    simp only [Binary64.lt, Bool.and_eq_false_iff, decide_eq_false_iff_not]
    exact Or.inr (not_lt.mpr hless.2.le)
  have hbeside : ∀ d,
      compareNullableResultValues (some (.double d)) (some (.double nan)) = .ok .eq ∧
      compareNullableResultValues (some (.double nan)) (some (.double d)) = .ok .eq := by
    intro d
    constructor
    all_goals simp [compareNullableResultValues, compareResultValues, compareDoubles, Binary64.lt,
      hisNaN]
  have hab : compareNullableResultValues (some (.double a)) (some (.double b)) = .ok .lt := by
    simp [compareNullableResultValues, compareResultValues, compareDoubles, hless]
  have hba : compareNullableResultValues (some (.double b)) (some (.double a)) = .ok .gt := by
    simp [compareNullableResultValues, compareResultValues, compareDoubles, hless, hgreater]
  have htie : ∀ v w, compareNullableResultValues v w = .ok .eq →
      less (place v) (place w) = .ok false := by
    intro v w hvw
    rw [hdecides.eq hvw, hdecides.equal]
  have hmem : ∀ d, some (.double d) ∈ position.values → place (some (.double d)) ∈ S :=
    fun d hd => hplace _ ⟨_, hd, rfl⟩
  obtain ⟨hfalse, hfalse'⟩ := horder.incomparable _ (hmem a ha) _ (hmem nan hnan) _ (hmem b hb)
    (htie _ _ (hbeside a).1) (htie _ _ (hbeside a).2) (htie _ _ (hbeside b).2)
    (htie _ _ (hbeside b).1)
  rw [hdecides.eq hab] at hfalse
  rw [hdecides.eq hba] at hfalse'
  rcases hdecides.differ with htrue | htrue
  · rw [htrue] at hfalse
    cases hfalse
  · rw [htrue] at hfalse'
    cases hfalse'

/-- Some tuple holds whatever is asked for. -/
theorem exists_tuple (positions : List (TuplePosition schema)) : ∃ t, t ∈ tuples positions := by
  induction positions with
  | nil => exact ⟨[], List.Forall₂.nil⟩
  | cons p positions ih =>
    obtain ⟨t, ht⟩ := ih
    obtain ⟨v, hv⟩ := p.inhabited
    exact ⟨v.map resultValue :: t, List.Forall₂.cons ⟨v, hv, rfl⟩ ht⟩

/-- A tuple with one place left open. -/
theorem exists_tuple_around {positions : List (TuplePosition schema)} {p : TuplePosition schema}
    (hp : p ∈ positions) : ∃ before after : List NullableResultValue,
      before.length + 1 + after.length = positions.length ∧
      ∀ v, p.Holds v → before ++ v :: after ∈ tuples positions := by
  obtain ⟨first, rest, rfl⟩ := List.append_of_mem hp
  obtain ⟨before, hbefore⟩ := exists_tuple first
  obtain ⟨after, hafter⟩ := exists_tuple rest
  refine ⟨before, after, ?_, ?_⟩
  · have hfirst := List.Forall₂.length_eq hbefore
    have hrest := List.Forall₂.length_eq hafter
    rw [List.length_append, List.length_cons]
    omega
  · intro v hv
    exact List.rel_append hbefore (List.Forall₂.cons hv hafter)

theorem decidesBy_groupKeyLess (before after : List NullableResultValue) :
    DecidesBy groupKeyLess (fun v => before ++ v :: after) (· == .lt) where
  eq := by
    intro v w comparison hcompare
    rw [groupKeyLess_append]
    simp only [groupKeyLess, hcompare, Result.ok_bind]
    cases comparison with
    | lt => rfl
    | gt => rfl
    | eq => exact groupKeyLess_self after
  equal := rfl
  differ := Or.inl rfl

/-- The row is before the other one when its cell compares so. -/
def comesFirst : OrderDirection → Ordering → Bool
  | .asc, comparison => comparison == .lt
  | .desc, comparison => comparison == .gt

theorem decidesBy_sortKeysLess {directions : List OrderDirection}
    {before after : List NullableResultValue}
    (hlength : directions.length = before.length + 1 + after.length) :
    ∃ direction, DecidesBy (sortKeysLess directions) (fun v => before ++ v :: after)
      (comesFirst direction) := by
  have hsplit := List.take_append_drop before.length directions
  have htake : (directions.take before.length).length = before.length := by
    rw [List.length_take]
    omega
  cases hdrop : directions.drop before.length with
  | nil =>
    have hnone := List.drop_eq_nil_iff.mp hdrop
    omega
  | cons direction rest =>
    rw [hdrop] at hsplit
    refine ⟨direction, ?_, ?_, ?_⟩
    · intro v w comparison hcompare
      rw [← hsplit, sortKeysLess_append htake]
      simp only [sortKeysLess, hcompare, Result.ok_bind]
      cases comparison with
      | eq =>
        rw [sortKeysLess_self rest after]
        cases direction <;> rfl
      | lt => cases direction <;> rfl
      | gt => cases direction <;> rfl
    · cases direction <;> rfl
    · cases direction with
      | asc => exact Or.inl rfl
      | desc => exact Or.inr rfl

/-! ## When the comparators are strict weak orders -/

/-- On the tuples that any positions admit, both comparators are strict weak orders exactly
where NaN is kept apart: a position that may hold NaN holds no two numbers that differ. The
directions of ORDER BY have no say. -/
theorem comparators_strictWeak_iff (positions : List (TuplePosition schema)) :
    (StrictWeakOrder groupKeyLess (tuples positions) ↔ ∀ p ∈ positions, p.KeepsNaNApart) ∧
    ∀ directions : List OrderDirection, directions.length = positions.length →
      (StrictWeakOrder (sortKeysLess directions) (tuples positions) ↔
        ∀ p ∈ positions, p.KeepsNaNApart) := by
  constructor
  · constructor
    · intro horder p hp
      by_contra hmixed
      obtain ⟨before, after, -, hplace⟩ := exists_tuple_around hp
      exact not_strictWeakOrder hmixed (decidesBy_groupKeyLess before after) hplace horder
    · exact strictWeak_groupKeyLess
  · intro directions hlength
    constructor
    · intro horder p hp
      by_contra hmixed
      obtain ⟨before, after, hcount, hplace⟩ := exists_tuple_around hp
      obtain ⟨direction, hdecides⟩ := decidesBy_sortKeysLess (hlength.trans hcount.symm)
      exact not_strictWeakOrder hmixed hdecides hplace horder
    · exact fun h => strictWeak_sortKeysLess h hlength

end

/-! ## Tuples of one nullable DOUBLE column -/

def measureSchema : Schema :=
  ⟨[⟨[105, 100], .int64, true, false⟩, ⟨[120], .double, false, true⟩]⟩

/-- The column holds numbers and NULL only. -/
def numbersOnly : TuplePosition measureSchema where
  column := 1
  values := {v | measureSchema.isValidValue 1 v = true ∧
    ∀ d, v = some (.double d) → d.isNaN = false}
  admitted := fun _ hv => hv.1
  inhabited := ⟨none, rfl, fun _ hd => by cases hd⟩

theorem comparators_strictWeak_numbersOnly :
    StrictWeakOrder groupKeyLess (tuples [numbersOnly, numbersOnly]) ∧
      StrictWeakOrder (sortKeysLess [.desc, .asc]) (tuples [numbersOnly, numbersOnly]) := by
  have hapart : ∀ p ∈ [numbersOnly, numbersOnly], p.KeepsNaNApart := by
    intro p hp
    obtain rfl : p = numbersOnly := by simpa using hp
    rintro ⟨d, hd, hnan⟩
    rw [hd.2 d rfl] at hnan
    cases hnan
  have hiff := comparators_strictWeak_iff [numbersOnly, numbersOnly]
  exact ⟨hiff.1.mpr hapart, (hiff.2 [.desc, .asc] rfl).mpr hapart⟩

/-- 1.0 and 2.0 are incomparable with NaN, and not with each other. -/
theorem nan_breaks_comparators :
    ¬ StrictWeakOrder groupKeyLess (tuples [TuplePosition.all measureSchema 1 none rfl]) ∧
      ¬ StrictWeakOrder (sortKeysLess [.asc])
        (tuples [TuplePosition.all measureSchema 1 none rfl]) := by
  have hmem : ∀ d, [some (ResultValue.double d)] ∈
      tuples [TuplePosition.all measureSchema 1 none rfl] :=
    fun d => List.Forall₂.cons ⟨some (.double d), rfl, rfl⟩ List.Forall₂.nil
  have hone := hmem ⟨0x3FF0000000000000⟩
  have hnan := hmem Binary64.nan
  have htwo := hmem ⟨0x4000000000000000⟩
  constructor
  · intro horder
    have hfalse := (horder.incomparable _ hone _ hnan _ htwo rfl rfl rfl rfl).1
    cases hfalse
  · intro horder
    have hfalse := (horder.incomparable _ hone _ hnan _ htwo rfl rfl rfl rfl).1
    cases hfalse

end Htap.Properties
