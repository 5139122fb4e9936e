import Htap.Executor.Binder

/-!
Key pushdown loses no row: whatever the plan made from the conjuncts of WHERE,
the key of every row on which WHERE holds is within its reach. What it lets in
besides is filtered again, row by row.
-/

namespace Htap.Executor

open Storage Htap.Parser SSTable Words

/-- The expression is true on the row, neither false nor NULL. -/
def HoldsOn (row : Row) (e : BoundExpression) : Prop :=
  evaluateExpression (rowValue row) e = .ok (some (.bool true))

private theorem booleanOperand_true {what : String} {value : NullableResultValue}
    {operand : Option Bool} (h : booleanOperand what value = .ok operand)
    (hfalse : operand ≠ some false) (hnone : operand.isNone = false) :
    value = some (.bool true) := by
  match value, operand, h with
  | none, none, _ => cases hnone
  | some (.bool true), _, rfl => rfl
  | some (.bool false), _, rfl => exact absurd rfl hfalse

/-- A conjunction is true only when both sides are. -/
theorem of_evaluateAnd {left right : NullableResultValue}
    (h : evaluateAnd left right = .ok (some (.bool true))) :
    left = some (.bool true) ∧ right = some (.bool true) := by
  unfold evaluateAnd at h
  obtain ⟨l, hl, h⟩ := Result.bind_eq_ok.mp h
  split at h
  · cases h
  · rename_i hlf
    obtain ⟨r, hr, h⟩ := Result.bind_eq_ok.mp h
    split at h
    · cases h
    · rename_i hrf
      split at h
      · cases h
      · rename_i hnone
        simp only [Bool.or_eq_true, not_or, Bool.not_eq_true] at hnone
        exact ⟨booleanOperand_true hl hlf hnone.1, booleanOperand_true hr hrf hnone.2⟩

theorem holdsOn_and {row : Row} {left right : BoundExpression}
    (h : HoldsOn row (.binary .and left right)) : HoldsOn row left ∧ HoldsOn row right := by
  obtain ⟨l, hl, h⟩ := Result.bind_eq_ok.mp h
  obtain ⟨r, hr, h⟩ := Result.bind_eq_ok.mp h
  obtain ⟨rfl, rfl⟩ := of_evaluateAnd h
  exact ⟨hl, hr⟩

/-- What a conjunction passes on to both sides holds of every conjunct of WHERE. -/
theorem forall_conjuncts {P : BoundExpression → Prop} {statement : BoundSelectStatement}
    (hand : ∀ left right, P (.binary .and left right) → P left ∧ P right)
    (h : ∀ e ∈ statement.whereExpression, P e) : ∀ c ∈ conjuncts statement, P c := by
  have hcollect : ∀ e, P e → ∀ c ∈ collectConjuncts e, P c := by
    intro e he
    fun_induction collectConjuncts e with
    | case1 left right ihl ihr =>
      obtain ⟨hleft, hright⟩ := hand left right he
      intro c hc
      rcases List.mem_append.mp hc with hc | hc
      · exact ihl hleft c hc
      · exact ihr hright c hc
    | case2 e _ =>
      intro c hc
      obtain rfl := List.mem_singleton.mp hc
      exact he
  intro c hc
  unfold conjuncts at hc
  cases hw : statement.whereExpression with
  | none => simp [hw] at hc
  | some e =>
    rw [hw, Option.map_some, Option.getD_some] at hc
    exact hcollect e (h e hw) c hc

/-- The conjuncts of a true condition are true. -/
theorem holdsOn_conjuncts {row : Row} {statement : BoundSelectStatement}
    (h : ∀ e ∈ statement.whereExpression, HoldsOn row e) :
    ∀ c ∈ conjuncts statement, HoldsOn row c :=
  forall_conjuncts (fun _ _ => holdsOn_and) h

/-! ## Comparisons with the key column -/

/-- How `operation` compares `key`, on the side of the column, with a literal. -/
def KeyCompares (operation : BinaryOperation) (columnOnLeft : Bool) (key literal : Key) : Prop :=
  match operation, columnOnLeft with
  | .equal, _ => key = literal
  | .greater, true | .less, false => literal < key
  | .greater, false | .less, true => key < literal
  | .greaterEqual, true | .lessEqual, false => literal ≤ key
  | .greaterEqual, false | .lessEqual, true => key ≤ literal
  | _, _ => True

private theorem cmp_beq_eq (a b : Int64) : (cmp a b == .eq) = true ↔ a = b := by
  rw [beq_iff_eq, cmp_eq_eq_iff]

private theorem cmp_beq_lt (a b : Int64) : (cmp a b == .lt) = true ↔ a < b := by
  rw [beq_iff_eq, cmp_eq_lt_iff]

private theorem cmp_beq_gt (a b : Int64) : (cmp a b == .gt) = true ↔ b < a := by
  rw [beq_iff_eq, cmp_eq_gt_iff]

private theorem cmp_bne_gt (a b : Int64) : (cmp a b != .gt) = true ↔ a ≤ b := by
  rw [bne_iff_ne, ne_eq, cmp_eq_gt_iff, not_lt]

private theorem cmp_bne_lt (a b : Int64) : (cmp a b != .lt) = true ↔ b ≤ a := by
  rw [bne_iff_ne, ne_eq, cmp_eq_lt_iff, not_lt]

private theorem of_evaluateComparison {operation : BinaryOperation} {l r : NullableResultValue}
    (h : evaluateComparison operation l r = .ok (some (.bool true))) :
    ∃ x y c, l = some x ∧ r = some y ∧ compareResultValues x y = .ok c ∧
      comparisonHolds operation c = .ok true := by
  unfold evaluateComparison at h
  split at h
  · rename_i x y
    obtain ⟨c, hc, h⟩ := Result.bind_eq_ok.mp h
    obtain ⟨b, hb, h⟩ := Result.bind_eq_ok.mp h
    cases h
    exact ⟨x, y, c, rfl, rfl, hc, hb⟩
  · cases h

private theorem comparisonHolds_cmp {operation : BinaryOperation} {a b : Int64}
    (h : comparisonHolds operation (cmp a b) = .ok true) :
    KeyCompares operation true a b ∧ KeyCompares operation false b a := by
  cases operation with
  | equal =>
    have heq := (cmp_beq_eq a b).mp (Except.ok.inj h)
    exact ⟨heq, heq.symm⟩
  | notEqual => exact ⟨trivial, trivial⟩
  | less =>
    have hlt := (cmp_beq_lt a b).mp (Except.ok.inj h)
    exact ⟨hlt, hlt⟩
  | lessEqual =>
    have hle := (cmp_bne_gt a b).mp (Except.ok.inj h)
    exact ⟨hle, hle⟩
  | greater =>
    have hgt := (cmp_beq_gt a b).mp (Except.ok.inj h)
    exact ⟨hgt, hgt⟩
  | greaterEqual =>
    have hge := (cmp_bne_lt a b).mp (Except.ok.inj h)
    exact ⟨hge, hge⟩
  | and => cases h
  | or => cases h

/-- In a schema of the builder the key column is the first. -/
theorem Schema.WellFormed.index_of_isKey {schema : Schema} (hschema : schema.WellFormed) {i : Nat}
    {column : Column} (hget : schema.getColumn i = .ok column) (hkey : column.isKey = true) :
    i = 0 := by
  obtain ⟨c, rest, hcolumns, -, -, -, hrest⟩ := hschema.keyFirst
  unfold Schema.getColumn at hget
  rw [hcolumns] at hget
  cases i with
  | zero => rfl
  | succ i =>
    simp only [List.getElem?_cons_succ] at hget
    split at hget
    · rename_i hd
      cases hget
      have hnot := hrest _ (List.mem_of_getElem? hd)
      rw [hnot] at hkey
      cases hkey
    · cases hget

private theorem cell_zero {schema : Schema} {row : Row} (hrow : ValidRow schema row) :
    cell row 0 = some (.int64 (rowKey row)) := by
  obtain ⟨rest, hrest⟩ := hrow.head
  rw [hrest]
  rfl

private theorem evaluateBinary_cases {operation : BinaryOperation} {l r : NullableResultValue}
    {value : NullableResultValue}
    (h : (match operation with
      | .and => evaluateAnd l r
      | .or => evaluateOr l r
      | operation => evaluateComparison operation l r) = .ok value) :
    (operation = .and ∧ evaluateAnd l r = .ok value) ∨
      (operation = .or ∧ evaluateOr l r = .ok value) ∨
        evaluateComparison operation l r = .ok value := by
  cases operation with
  | and => exact Or.inl ⟨rfl, h⟩
  | or => exact Or.inr (Or.inl ⟨rfl, h⟩)
  | equal | notEqual | less | lessEqual | greater | greaterEqual => exact Or.inr (Or.inr h)

private theorem evaluateOr_int64_left (k : Int64) (r : NullableResultValue)
    (value : NullableResultValue) : evaluateOr (some (.int64 k)) r ≠ .ok value := by
  intro h
  cases h

private theorem evaluateOr_int64_right (k : Int64) {l : NullableResultValue}
    {literal : NullableValue}
    (hl : l = literal.map resultValue) (value : NullableResultValue) :
    evaluateOr l (some (.int64 k)) ≠ .ok value := by
  subst hl
  intro h
  match literal, h with
  | none, h => cases h
  | some (.int64 _), h => cases h
  | some (.double _), h => cases h
  | some (.string _), h => cases h

/-- A true comparison of the key column with a literal: the literal is not NULL,
and an INT64 literal stands to the key of the row as the operator says. -/
theorem holdsOn_keyComparison {schema : Schema} {row : Row} (hrow : ValidRow schema row)
    {e : BoundExpression} {operation : BinaryOperation} {literal : NullableValue}
    {columnOnLeft : Bool} (hshape : columnComparison e = some (operation, 0, literal, columnOnLeft))
    (h : HoldsOn row e) :
    literal ≠ none ∧
      ∀ k, literal = some (.int64 k) → KeyCompares operation columnOnLeft (rowKey row) k := by
  have hcell := cell_zero hrow
  unfold columnComparison at hshape
  split at hshape
  · rename_i op i columnType value literalType
    cases hshape
    obtain ⟨l, hl, h⟩ := Result.bind_eq_ok.mp h
    obtain ⟨r, hr, h⟩ := Result.bind_eq_ok.mp h
    cases hr
    obtain ⟨v, hv, hl⟩ := Result.bind_eq_ok.mp hl
    cases hv
    cases hl
    rw [hcell, Option.map_some, resultValue] at h
    rcases evaluateBinary_cases h with ⟨-, hand⟩ | ⟨-, hor⟩ | hcomparison
    · exact absurd (of_evaluateAnd hand).1 (by simp)
    · exact absurd hor (evaluateOr_int64_left _ _ _)
    · obtain ⟨x, y, c, hx, hy, hc, hholds⟩ := of_evaluateComparison hcomparison
      cases hx
      refine ⟨?_, ?_⟩
      · rintro rfl
        cases hy
      · rintro k rfl
        cases hy
        cases hc
        exact (comparisonHolds_cmp hholds).1
  · rename_i op value literalType i columnType
    cases hshape
    obtain ⟨l, hl, h⟩ := Result.bind_eq_ok.mp h
    obtain ⟨r, hr, h⟩ := Result.bind_eq_ok.mp h
    cases hl
    obtain ⟨v, hv, hr⟩ := Result.bind_eq_ok.mp hr
    cases hv
    cases hr
    rw [hcell, Option.map_some, resultValue] at h
    rcases evaluateBinary_cases h with ⟨-, hand⟩ | ⟨-, hor⟩ | hcomparison
    · exact absurd (of_evaluateAnd hand).2 (by simp)
    · exact absurd hor (evaluateOr_int64_right _ rfl _)
    · obtain ⟨x, y, c, hx, hy, hc, hholds⟩ := of_evaluateComparison hcomparison
      cases hy
      refine ⟨?_, ?_⟩
      · rintro rfl
        cases hx
      · rintro k rfl
        cases hx
        cases hc
        exact (comparisonHolds_cmp hholds).2
  · cases hshape

/-! ## The plan -/

/-- The plan lets `key` through. -/
structure KeyPlan.Admits (plan : KeyPlan) (key : Key) : Prop where
  nonempty : plan.emptyResult = false
  point : ∀ k ∈ plan.pointKey, k = key
  lower : ∀ f ∈ plan.fromKey, f ≤ key
  upper : ∀ t ∈ plan.toKey, key < t

namespace KeyPlan.Admits

variable {plan : KeyPlan} {key k : Key}

theorem equalTo (h : plan.Admits key) (hk : key = k) : (plan.equalTo k).Admits key := by
  unfold KeyPlan.equalTo
  split
  · exact ⟨h.nonempty, fun p hp => by cases hp; exact hk.symm, h.lower, h.upper⟩
  · rename_i point hpoint
    have hsame : point = k := (h.point point hpoint).trans hk
    rw [if_neg (by simp [hsame])]
    exact h

theorem atLeast (h : plan.Admits key) (hk : k ≤ key) : (plan.atLeast k).Admits key := by
  unfold KeyPlan.atLeast
  split
  · exact ⟨h.nonempty, h.point, fun f hf => by cases hf; exact hk, h.upper⟩
  · exact h

theorem below (h : plan.Admits key) (hk : key < k) : (plan.below k).Admits key := by
  unfold KeyPlan.below
  split
  · exact ⟨h.nonempty, h.point, h.lower, fun t ht => by cases ht; exact hk⟩
  · exact h

theorem greaterThan (h : plan.Admits key) (hk : k < key) : (plan.greaterThan k).Admits key := by
  have hmax : k ≠ Int64.maxValue := by
    rintro rfl
    exact absurd hk (not_lt.mpr (le_maxValue key))
  rw [KeyPlan.greaterThan, if_neg hmax]
  exact h.atLeast ((add_one_le_iff k key hmax).mpr hk)

theorem atMost (h : plan.Admits key) (hk : key ≤ k) : (plan.atMost k).Admits key := by
  unfold KeyPlan.atMost
  split
  · rename_i hmax
    exact h.below ((lt_add_one_iff k key hmax).mpr hk)
  · exact h

/-- A comparison that the key passes keeps the key. -/
theorem addComparison (h : plan.Admits key) {operation : BinaryOperation} {columnOnLeft : Bool}
    (hk : KeyCompares operation columnOnLeft key k) :
    (plan.addComparison operation columnOnLeft k).Admits key := by
  have hranged : KeyPlan.Admits { plan with foundRange := true } key :=
    ⟨h.nonempty, h.point, h.lower, h.upper⟩
  cases operation with
  | equal => exact h.equalTo hk
  | notEqual => exact h
  | greater =>
    cases columnOnLeft with
    | true => exact hranged.greaterThan hk
    | false => exact hranged.below hk
  | greaterEqual =>
    cases columnOnLeft with
    | true => exact hranged.atLeast hk
    | false => exact hranged.atMost hk
  | less =>
    cases columnOnLeft with
    | true => exact hranged.below hk
    | false => exact hranged.greaterThan hk
  | lessEqual =>
    cases columnOnLeft with
    | true => exact hranged.atMost hk
    | false => exact hranged.atLeast hk
  | and => exact h
  | or => exact h

end KeyPlan.Admits

theorem admits_planConjunct {schema : Schema} (hschema : schema.WellFormed) {row : Row}
    (hrow : ValidRow schema row) {plan plan' : KeyPlan} {e : BoundExpression}
    (hplan : planConjunct schema plan e = .ok plan') (h : plan.Admits (rowKey row))
    (he : HoldsOn row e) : plan'.Admits (rowKey row) := by
  unfold planConjunct at hplan
  split at hplan
  · cases hplan
    exact h
  · rename_i operation i literal columnOnLeft hshape
    obtain ⟨column, hcolumn, hrest⟩ := Result.bind_eq_ok.mp hplan
    split at hrest
    · cases hrest
      exact h
    · rename_i hkey
      simp only [Bool.not_eq_true', Bool.not_eq_false] at hkey
      obtain rfl := Schema.WellFormed.index_of_isKey hschema hcolumn hkey
      obtain ⟨hnonnull, hcompares⟩ := holdsOn_keyComparison hrow hshape he
      cases literal with
      | none => exact absurd rfl hnonnull
      | some v =>
        cases v with
        | int64 k =>
          cases hrest
          exact h.addComparison (hcompares k rfl)
        | double _ => cases hrest
        | string _ => cases hrest

theorem admits_planConjuncts {schema : Schema} (hschema : schema.WellFormed) {row : Row}
    (hrow : ValidRow schema row) {es : List BoundExpression} {plan plan' : KeyPlan}
    (hplan : planConjuncts schema plan es = .ok plan') (h : plan.Admits (rowKey row))
    (hes : ∀ e ∈ es, HoldsOn row e) : plan'.Admits (rowKey row) := by
  induction es generalizing plan with
  | nil =>
    cases hplan
    exact h
  | cons e es ih =>
    obtain ⟨next, hnext, hplan⟩ := Result.bind_eq_ok.mp hplan
    have hadmits := admits_planConjunct hschema hrow hnext h (hes e List.mem_cons_self)
    rw [if_neg (by simp [hadmits.nonempty])] at hplan
    exact ih hplan hadmits fun e' he' => hes e' (List.mem_cons_of_mem e he')

/-! ## Access -/

/-- The keys an access reaches. -/
def Access.reaches : Access → Key → Bool
  | .empty, _ => false
  | .point key, k => k == key
  | .range fromKey toKey, k => KeyRange.contains ⟨fromKey, toKey⟩ k

theorem reaches_access {plan : KeyPlan} {key : Key} (h : plan.Admits key) :
    plan.access.reaches key = true := by
  unfold KeyPlan.access
  rw [if_neg (by simp [h.nonempty])]
  split
  · rename_i point hpoint
    exact beq_iff_eq.mpr (h.point point hpoint).symm
  · split
    · split
      · rename_i f t hf ht
        have hlt : f < t := lt_of_le_of_lt (h.lower f hf) (h.upper t ht)
        rw [if_neg (not_le.mpr hlt)]
        exact KeyRange.contains_iff.mpr ⟨fun f' hf' => by cases hf'; exact h.lower f hf,
          fun t' ht' => by cases ht'; exact h.upper t ht⟩
      · exact KeyRange.contains_iff.mpr ⟨h.lower, h.upper⟩
    · simp [Access.reaches, KeyRange.contains]

/-- An access never asks for a range that is the wrong way round. -/
theorem ordered_access {plan : KeyPlan} {fromKey toKey : Option Key}
    (h : plan.access = .range fromKey toKey) : KeyRange.Ordered ⟨fromKey, toKey⟩ := by
  unfold KeyPlan.access at h
  split at h
  · cases h
  · split at h
    · cases h
    · split at h
      · split at h
        · split at h
          · cases h
          · rename_i f t _ _ hlt
            cases h
            intro f' hf' t' ht'
            cases hf'
            cases ht'
            exact (not_le.mp hlt).le
        · rename_i hnot
          cases h
          intro f hf t ht
          exact absurd ht (hnot f t hf)
      · cases h
        intro f hf
        cases hf

/-- The access planned for a statement reaches every row on which WHERE holds. -/
theorem reaches_of_holdsOn {statement : BoundSelectStatement}
    (hschema : statement.schema.WellFormed) {row : Row} (hrow : ValidRow statement.schema row)
    {plan : KeyPlan}
    (hplan : planConjuncts statement.schema {} (conjuncts statement) = .ok plan)
    (h : ∀ e ∈ statement.whereExpression, HoldsOn row e) :
    plan.access.reaches (rowKey row) = true := by
  have hfresh : KeyPlan.Admits {} (rowKey row) :=
    ⟨rfl, fun _ hk => (Option.not_mem_none _ hk).elim, fun _ hk => (Option.not_mem_none _ hk).elim,
      fun _ hk => (Option.not_mem_none _ hk).elim⟩
  apply reaches_access
  exact admits_planConjuncts hschema hrow hplan hfresh (holdsOn_conjuncts h)

end Htap.Executor
