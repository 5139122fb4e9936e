import Htap.Executor.GroupedSelect

/-!
What the values of a result row say about the rows of its group: an expression
has the value it has on each of them, and an aggregate is the count, the least,
the greatest or the sum of the values that are not NULL.
-/

namespace Htap.Executor

open Storage Htap.Parser SSTable Read Cursor

/-! ## Equal expressions -/

/-- The same value, up to the sign of zero. -/
def Alike : NullableResultValue → NullableResultValue → Prop
  | some (.double a), some (.double b) =>
    a = b ∨ (a.isNaN = false ∧ b.isNaN = false ∧ a.rank = b.rank)
  | a, b => a = b

theorem Alike.refl (a : NullableResultValue) : Alike a a := by
  match a with
  | none | some (.int64 _) | some (.string _) | some (.bool _) => rfl
  | some (.double _) => exact Or.inl rfl

theorem Alike.rank_eq {a b : NullableResultValue} (h : Alike a b) : rank a = rank b := by
  match a, b, h with
  | some (.double _), some (.double _), .inl heq => rw [heq]
  | some (.double _), some (.double _), .inr ⟨_, _, heq⟩ => simp only [rank, heq]
  | none, b, h => rw [show none = b from h]
  | some (.int64 x), b, h => rw [show some (.int64 x) = b from h]
  | some (.string x), b, h => rw [show some (.string x) = b from h]
  | some (.bool x), b, h => rw [show some (.bool x) = b from h]

/-- Doubles alike are less and greater than the same doubles. -/
private theorem lt_alike {a a' b b' : Binary64}
    (ha : a = a' ∨ (a.isNaN = false ∧ a'.isNaN = false ∧ a.rank = a'.rank))
    (hb : b = b' ∨ (b.isNaN = false ∧ b'.isNaN = false ∧ b.rank = b'.rank)) :
    Binary64.lt a b = Binary64.lt a' b' := by
  rcases ha with rfl | ⟨ha, ha', harank⟩ <;> rcases hb with rfl | ⟨hb, hb', hbrank⟩
  · rfl
  · simp only [Binary64.lt, hb, hb', hbrank]
  · simp only [Binary64.lt, ha, ha', harank]
  · simp only [Binary64.lt, ha, ha', hb, hb', harank, hbrank]

private theorem compareDoubles_alike {a a' b b' : Binary64}
    (ha : a = a' ∨ (a.isNaN = false ∧ a'.isNaN = false ∧ a.rank = a'.rank))
    (hb : b = b' ∨ (b.isNaN = false ∧ b'.isNaN = false ∧ b.rank = b'.rank)) :
    compareDoubles a b = compareDoubles a' b' := by
  simp only [compareDoubles, lt_alike ha hb, lt_alike hb ha]

private theorem compareResultValues_alike {a a' b b' : ResultValue} (ha : Alike (some a) (some a'))
    (hb : Alike (some b) (some b')) : compareResultValues a b = compareResultValues a' b' := by
  match a, a', ha with
  | .double x, .double x', hx =>
    match b, b', hb with
    | .double y, .double y', hy =>
      exact congrArg Except.ok (compareDoubles_alike hx hy)
    | .int64 y, b', hb =>
      cases Option.some.inj hb
      exact congrArg Except.ok (compareDoubles_alike hx (Or.inl rfl))
    | .string y, b', hb | .bool y, b', hb =>
      cases Option.some.inj hb
      rfl
  | .int64 x, a', ha =>
    cases Option.some.inj ha
    match b, b', hb with
    | .double y, .double y', hy =>
      exact congrArg Except.ok (compareDoubles_alike (Or.inl rfl) hy)
    | .int64 y, b', hb | .string y, b', hb | .bool y, b', hb =>
      cases Option.some.inj hb
      rfl
  | .string x, a', ha | .bool x, a', ha =>
    cases Option.some.inj ha
    match b, b', hb with
    | .double y, .double y', hy => rfl
    | .int64 y, b', hb | .string y, b', hb | .bool y, b', hb =>
      cases Option.some.inj hb
      rfl

private theorem booleanOperand_alike {a b : NullableResultValue} (h : Alike a b) (what : String) :
    booleanOperand what a = booleanOperand what b := by
  match a, b, h with
  | some (.double _), some (.double _), _ => rfl
  | none, b, h => rw [show none = b from h]
  | some (.int64 x), b, h => rw [show some (.int64 x) = b from h]
  | some (.string x), b, h => rw [show some (.string x) = b from h]
  | some (.bool x), b, h => rw [show some (.bool x) = b from h]

private theorem isNone_alike {a b : NullableResultValue} (h : Alike a b) :
    a.isNone = b.isNone := by
  match a, b, h with
  | some (.double _), some (.double _), _ => rfl
  | none, b, h => rw [show none = b from h]
  | some (.int64 x), b, h => rw [show some (.int64 x) = b from h]
  | some (.string x), b, h => rw [show some (.string x) = b from h]
  | some (.bool x), b, h => rw [show some (.bool x) = b from h]

private theorem evaluateComparison_alike (operation : BinaryOperation)
    {a a' b b' : NullableResultValue} (ha : Alike a a') (hb : Alike b b') :
    evaluateComparison operation a b = evaluateComparison operation a' b' := by
  cases a with
  | none =>
    obtain rfl : none = a' := ha
    rfl
  | some x =>
    cases a' with
    | none => exact absurd (isNone_alike ha) (by simp)
    | some x' =>
      cases b with
      | none =>
        obtain rfl : none = b' := hb
        rfl
      | some y =>
        cases b' with
        | none => exact absurd (isNone_alike hb) (by simp)
        | some y' => simp only [evaluateComparison, compareResultValues_alike ha hb]

private theorem alike_literalEqual {a b : NullableValue} (h : literalEqual a b = true) :
    Alike (a.map resultValue) (b.map resultValue) := by
  match a, b, h with
  | none, none, _ => rfl
  | some (.int64 x), some (.int64 y), h =>
    rw [of_decide_eq_true h]
    exact Alike.refl _
  | some (.string x), some (.string y), h =>
    rw [of_decide_eq_true h]
    exact Alike.refl _
  | some (.double x), some (.double y), h =>
    simp only [literalEqual, Bool.and_eq_true, Bool.not_eq_true', decide_eq_true_eq] at h
    exact Or.inr ⟨h.1.1, h.1.2, h.2⟩

/-- Expressions the binder takes for equal evaluate alike. -/
theorem alike_of_areEquivalent {value : Nat → Result NullableValue} {e e' : BoundExpression}
    (h : areEquivalentExpressions e e' = true) {v v' : NullableResultValue}
    (hv : evaluateExpression value e = .ok v) (hv' : evaluateExpression value e' = .ok v') :
    Alike v v' := by
  induction e generalizing e' v v' with
  | literal a type =>
    cases e' with
    | literal b type' =>
      cases hv
      cases hv'
      exact alike_literalEqual (Bool.and_eq_true_iff.mp h).2
    | column _ _ | unary _ _ | binary _ _ _ | isNull _ _ => cases h
  | column i type =>
    cases e' with
    | column j type' =>
      obtain rfl : i = j := of_decide_eq_true (Bool.and_eq_true_iff.mp h).2
      have hsame : evaluateExpression value (.column i type) =
          evaluateExpression value (.column i type') := rfl
      rw [hv, hv', Except.ok.injEq] at hsame
      rw [hsame]
      exact Alike.refl v'
    | literal _ _ | unary _ _ | binary _ _ _ | isNull _ _ => cases h
  | unary operation e ih =>
    cases e' with
    | unary operation' e' =>
      obtain ⟨hoperation, hequivalent⟩ := Bool.and_eq_true_iff.mp h
      obtain rfl := of_decide_eq_true hoperation
      cases operation with
      | not =>
        obtain ⟨x, hx, hv⟩ := Result.bind_eq_ok.mp hv
        obtain ⟨x', hx', hv'⟩ := Result.bind_eq_ok.mp hv'
        rw [booleanOperand_alike (ih hequivalent hx hx'), hv', Except.ok.injEq] at hv
        rw [← hv]
        exact Alike.refl v'
    | literal _ _ | column _ _ | binary _ _ _ | isNull _ _ => cases h
  | binary operation l r ihl ihr =>
    cases e' with
    | binary operation' l' r' =>
      obtain ⟨h, hright⟩ := Bool.and_eq_true_iff.mp h
      obtain ⟨hoperation, hleft⟩ := Bool.and_eq_true_iff.mp h
      obtain rfl := of_decide_eq_true hoperation
      obtain ⟨x, hx, hv⟩ := Result.bind_eq_ok.mp hv
      obtain ⟨y, hy, hv⟩ := Result.bind_eq_ok.mp hv
      obtain ⟨x', hx', hv'⟩ := Result.bind_eq_ok.mp hv'
      obtain ⟨y', hy', hv'⟩ := Result.bind_eq_ok.mp hv'
      have halikeLeft := ihl hleft hx hx'
      have halikeRight := ihr hright hy hy'
      have hsame : v = v' := by
        cases operation with
        | and =>
          simp only [evaluateAnd, booleanOperand_alike halikeLeft,
            booleanOperand_alike halikeRight] at hv hv'
          exact Except.ok.inj (hv.symm.trans hv')
        | or =>
          simp only [evaluateOr, booleanOperand_alike halikeLeft,
            booleanOperand_alike halikeRight] at hv hv'
          exact Except.ok.inj (hv.symm.trans hv')
        | equal | notEqual | less | lessEqual | greater | greaterEqual =>
          simp only [evaluateComparison_alike _ halikeLeft halikeRight] at hv hv'
          exact Except.ok.inj (hv.symm.trans hv')
      rw [hsame]
      exact Alike.refl v'
    | literal _ _ | column _ _ | unary _ _ | isNull _ _ => cases h
  | isNull e isNot ih =>
    cases e' with
    | isNull e' isNot' =>
      obtain ⟨hnot, hequivalent⟩ := Bool.and_eq_true_iff.mp h
      obtain rfl := of_decide_eq_true hnot
      obtain ⟨x, hx, hv⟩ := Result.bind_eq_ok.mp hv
      obtain ⟨x', hx', hv'⟩ := Result.bind_eq_ok.mp hv'
      rw [isNone_alike (ih hequivalent hx hx'), hv', Except.ok.injEq] at hv
      rw [← hv]
      exact Alike.refl v'
    | literal _ _ | column _ _ | unary _ _ | binary _ _ _ => cases h

/-! ## Aggregate states -/

/-- The values of an aggregate's argument that are not NULL. -/
def arguments (e : BoundExpression) (members : List Row) : List ResultValue :=
  members.filterMap fun row => valueOn row e

/-- One value that is not NULL enters a state. -/
def enterValue (kind : AggregateKind) (resultType : ExpressionType) (state : GlobalAggregateState)
    (v : ResultValue) : GlobalAggregateState :=
  valueOr state (updateNonNull kind resultType v state)

section States

variable {kind : AggregateKind} {argument resultType : ExpressionType} {e : BoundExpression}

/-- Only the values that are not NULL count. -/
theorem aggregateState_eq {members : List Row}
    (h : ∀ row ∈ members, evaluateExpression (rowValue row) e = .ok (valueOn row e)) :
    aggregateState (.aggregate kind e resultType) members =
      (arguments e members).foldl (enterValue kind resultType) {} := by
  unfold aggregateState arguments
  generalize ({} : GlobalAggregateState) = state
  induction members generalizing state with
  | nil => rfl
  | cons row rest ih =>
    have hrow := h row List.mem_cons_self
    have hrest := fun state => ih (fun r hr => h r (List.mem_cons_of_mem row hr)) state
    rw [List.foldl_cons, hrest]
    cases hv : valueOn row e with
    | none =>
      simp only [List.filterMap_cons, entered, updateItem, updateAggregate, hrow, hv,
        Result.ok_bind, updateGlobalAggregateState, valueOr]
    | some v =>
      simp only [List.filterMap_cons, List.foldl_cons, entered, updateItem, updateAggregate, hrow,
        hv, Result.ok_bind, updateGlobalAggregateState, enterValue]

private theorem count_updateNonNull {v : ResultValue} {state state' : GlobalAggregateState}
    (h : updateNonNull kind resultType v state = .ok state') :
    state'.count = state.count + 1 := by
  cases kind with
  | count =>
    cases h
    rfl
  | avg =>
    cases v <;> cases h <;> rfl
  | sum =>
    cases resultType with
    | int64 | double =>
      obtain ⟨x, -, h⟩ := Result.bind_eq_ok.mp h
      cases h
      rfl
    | string | boolean | null => cases h
  | min | max =>
    cases resultType with
    | int64 | double =>
      obtain ⟨x, -, h⟩ := Result.bind_eq_ok.mp h
      split at h <;> cases h <;> rfl
    | string | boolean | null => cases h

/-- The counter of a state, modulo `2 ^ 64`. -/
theorem count_foldl {values : List ResultValue}
    (hvalues : ∀ v ∈ values, HasStaticType argument (some v))
    (hresult : getAggregateResultType kind argument = .ok resultType)
    (state : GlobalAggregateState) :
    (values.foldl (enterValue kind resultType) state).count =
      state.count + Int64.ofInt values.length := by
  induction values generalizing state with
  | nil => simp
  | cons v values ih =>
    obtain ⟨state', hstate'⟩ := updateNonNull_ok (hvalues v List.mem_cons_self) hresult state
    have hcount := count_updateNonNull hstate'
    have henter : enterValue kind resultType state v = state' := by
      rw [enterValue, hstate']
      rfl
    rw [List.foldl_cons, henter, ih fun w hw => hvalues w (List.mem_cons_of_mem v hw), hcount,
      List.length_cons, Nat.cast_succ, Int64.ofInt_add, Int64.add_assoc,
      Int64.add_comm (Int64.ofInt _)]
    rfl

/-- The least of the values and of the minimum so far. -/
theorem intMin_foldl (ints : List Int64) (state : GlobalAggregateState) :
    let least := ((ints.map ResultValue.int64).foldl (enterValue .min .int64) state).intMin
    (least = state.intMin ∨ least ∈ ints) ∧ least ≤ state.intMin ∧ ∀ x ∈ ints, least ≤ x := by
  induction ints generalizing state with
  | nil => exact ⟨Or.inl rfl, le_rfl, by simp⟩
  | cons x ints ih =>
    have hstep : (enterValue .min .int64 state (.int64 x)).intMin =
        if x < state.intMin then x else state.intMin := by
      simp only [enterValue, updateNonNull, getInt64, Result.ok_bind]
      split <;> rfl
    obtain ⟨hmem, hle, hall⟩ := ih (enterValue .min .int64 state (.int64 x))
    rw [hstep] at hmem hle
    rw [List.map_cons, List.foldl_cons]
    by_cases hx : x < state.intMin
    · rw [if_pos hx] at hmem hle
      refine ⟨Or.inr ?_, hle.trans hx.le, ?_⟩
      · rcases hmem with hmem | hmem
        · rw [hmem]
          exact List.mem_cons_self
        · exact List.mem_cons_of_mem x hmem
      · intro y hy
        rcases List.mem_cons.mp hy with rfl | hy
        · exact hle
        · exact hall y hy
    · rw [if_neg hx] at hmem hle
      refine ⟨hmem.imp id (List.mem_cons_of_mem x), hle, ?_⟩
      intro y hy
      rcases List.mem_cons.mp hy with rfl | hy
      · exact hle.trans (not_lt.mp hx)
      · exact hall y hy

/-- The greatest of the values and of the maximum so far. -/
theorem intMax_foldl (ints : List Int64) (state : GlobalAggregateState) :
    let greatest := ((ints.map ResultValue.int64).foldl (enterValue .max .int64) state).intMax
    (greatest = state.intMax ∨ greatest ∈ ints) ∧ state.intMax ≤ greatest ∧
      ∀ x ∈ ints, x ≤ greatest := by
  induction ints generalizing state with
  | nil => exact ⟨Or.inl rfl, le_rfl, by simp⟩
  | cons x ints ih =>
    have hstep : (enterValue .max .int64 state (.int64 x)).intMax =
        if state.intMax < x then x else state.intMax := by
      simp only [enterValue, updateNonNull, getInt64, Result.ok_bind]
      split <;> rfl
    obtain ⟨hmem, hle, hall⟩ := ih (enterValue .max .int64 state (.int64 x))
    rw [hstep] at hmem hle
    rw [List.map_cons, List.foldl_cons]
    by_cases hx : state.intMax < x
    · rw [if_pos hx] at hmem hle
      refine ⟨Or.inr ?_, hx.le.trans hle, ?_⟩
      · rcases hmem with hmem | hmem
        · rw [hmem]
          exact List.mem_cons_self
        · exact List.mem_cons_of_mem x hmem
      · intro y hy
        rcases List.mem_cons.mp hy with rfl | hy
        · exact hle
        · exact hall y hy
    · rw [if_neg hx] at hmem hle
      refine ⟨hmem.imp id (List.mem_cons_of_mem x), hle, ?_⟩
      intro y hy
      rcases List.mem_cons.mp hy with rfl | hy
      · exact (not_lt.mp hx).trans hle
      · exact hall y hy

/-- The sum of the values, modulo `2 ^ 64`. -/
theorem intSum_foldl (ints : List Int64) (state : GlobalAggregateState) :
    ((ints.map ResultValue.int64).foldl (enterValue .sum .int64) state).intSum =
      state.intSum + Int64.ofInt (ints.map Int64.toInt).sum := by
  induction ints generalizing state with
  | nil => simp
  | cons x ints ih =>
    have hstep : (enterValue .sum .int64 state (.int64 x)).intSum = state.intSum + x := rfl
    rw [List.map_cons, List.foldl_cons, ih, hstep, List.map_cons, List.sum_cons, Int64.ofInt_add,
      Int64.ofInt_toInt, Int64.add_assoc]

end States

/-! ## The law of an aggregate -/

/-- The value of an INT64 result value. -/
def asInt : ResultValue → Int
  | .int64 v => v.toInt
  | _ => 0

/-- The exact sum of INT64 values. -/
def total (values : List ResultValue) : Int := (values.map asInt).sum

/-- What an aggregate over values of the static type `argument` gives for the ones
that are not NULL. -/
structure AggregateLaw (kind : AggregateKind) (argument : ExpressionType)
    (values : List ResultValue) (result : NullableResultValue) : Prop where
  count : kind = .count → ∃ n : Int64, result = some (.int64 n) ∧ n.toInt = values.length
  null : kind ≠ .count → (result = none ↔ values = [])
  ints : argument = .int64 → ∀ v ∈ values, ∃ x, v = .int64 x
  least : kind = .min → argument = .int64 → values ≠ [] →
    ∃ x, result = some (.int64 x) ∧ .int64 x ∈ values ∧ ∀ y, .int64 y ∈ values → x ≤ y
  greatest : kind = .max → argument = .int64 → values ≠ [] →
    ∃ x, result = some (.int64 x) ∧ .int64 x ∈ values ∧ ∀ y, .int64 y ∈ values → y ≤ x
  sum : kind = .sum → argument = .int64 → values ≠ [] →
    (∀ n, -2 ^ 63 ≤ total (values.take n) ∧ total (values.take n) < 2 ^ 63) →
      ∃ x, result = some (.int64 x) ∧ x.toInt = total values

theorem exists_ints {values : List ResultValue}
    (h : ∀ v ∈ values, HasStaticType .int64 (some v)) :
    ∃ ints : List Int64, values = ints.map ResultValue.int64 := by
  induction values with
  | nil => exact ⟨[], rfl⟩
  | cons v values ih =>
    obtain ⟨ints, hints⟩ := ih fun w hw => h w (List.mem_cons_of_mem v hw)
    rcases hasStaticType_int64 (h v List.mem_cons_self) with hnone | ⟨x, hx⟩
    · cases hnone
    · cases hx
      exact ⟨x :: ints, by rw [hints, List.map_cons]⟩

private theorem total_ints (ints : List Int64) :
    total (ints.map ResultValue.int64) = (ints.map Int64.toInt).sum := by
  rw [total, List.map_map]
  rfl

/-- The count of fewer than `2 ^ 63` values is their number. -/
private theorem count_eq {kind : AggregateKind} {argument resultType : ExpressionType}
    {values : List ResultValue} (hvalues : ∀ v ∈ values, HasStaticType argument (some v))
    (hresult : getAggregateResultType kind argument = .ok resultType)
    (hlength : values.length < 2 ^ 63) :
    (values.foldl (enterValue kind resultType) {}).count.toInt = values.length := by
  rw [count_foldl hvalues hresult, show ({} : GlobalAggregateState).count = 0 from rfl,
    Int64.zero_add,
    Int64.toInt_ofInt_of_le (by omega) (by omega)]

/-- Finalising the state of fewer than `2 ^ 63` values. -/
theorem aggregateLaw_finalize {kind : AggregateKind} {argument resultType : ExpressionType}
    {values : List ResultValue} {result : NullableResultValue}
    (hvalues : ∀ v ∈ values, HasStaticType argument (some v))
    (hresult : getAggregateResultType kind argument = .ok resultType)
    (hlength : values.length < 2 ^ 63)
    (h : finalizeAggregateState kind resultType (values.foldl (enterValue kind resultType) {}) =
      .ok result) : AggregateLaw kind argument values result := by
  have hcount := count_eq hvalues hresult hlength
  have hzero : (values.foldl (enterValue kind resultType) {}).count = 0 ↔ values = [] := by
    rw [← Int64.toInt_inj, hcount, Int64.toInt_zero]
    simp
  constructor
  · rintro rfl
    cases h
    exact ⟨_, rfl, hcount⟩
  · intro hkind
    rw [← hzero]
    cases kind with
    | count => exact absurd rfl hkind
    | avg | sum | min | max =>
      simp only [finalizeAggregateState] at h
      split at h
      · rename_i hnil
        cases h
        exact iff_of_true rfl hnil
      · rename_i hne
        refine iff_of_false ?_ hne
        rintro rfl
        split at h <;> cases h
  · rintro rfl v hv
    rcases hasStaticType_int64 (hvalues v hv) with hnone | ⟨x, hx⟩
    · cases hnone
    · exact ⟨x, Option.some.inj hx⟩
  · rintro rfl rfl hne
    cases hresult
    obtain ⟨ints, rfl⟩ := exists_ints hvalues
    obtain ⟨hmem, -, hall⟩ := intMin_foldl ints {}
    simp only [finalizeAggregateState, if_neg (mt hzero.mp hne), Except.ok.injEq] at h
    refine ⟨_, h.symm, ?_, ?_⟩
    · apply List.mem_map_of_mem
      rcases hmem with hmem | hmem
      · -- The minimum is still the sentinel, so every value is.
        obtain ⟨x, hx⟩ := List.exists_mem_of_ne_nil ints (by rintro rfl; exact hne rfl)
        have hle := hall x hx
        rw [hmem] at hle
        have heq : x = Int64.maxValue := le_antisymm (Words.le_maxValue x) hle
        rw [hmem]
        exact heq ▸ hx
      · exact hmem
    · intro y hy
      obtain ⟨y', hy', heq⟩ := List.mem_map.mp hy
      cases heq
      exact hall y hy'
  · rintro rfl rfl hne
    cases hresult
    obtain ⟨ints, rfl⟩ := exists_ints hvalues
    obtain ⟨hmem, -, hall⟩ := intMax_foldl ints {}
    simp only [finalizeAggregateState, if_neg (mt hzero.mp hne), Except.ok.injEq] at h
    refine ⟨_, h.symm, ?_, ?_⟩
    · apply List.mem_map_of_mem
      rcases hmem with hmem | hmem
      · obtain ⟨x, hx⟩ := List.exists_mem_of_ne_nil ints (by rintro rfl; exact hne rfl)
        have hle := hall x hx
        rw [hmem] at hle
        have heq : x = Int64.minValue := le_antisymm hle (Int64.le_iff_toInt_le.mpr x.le_toInt)
        rw [hmem]
        exact heq ▸ hx
      · exact hmem
    · intro y hy
      obtain ⟨y', hy', heq⟩ := List.mem_map.mp hy
      cases heq
      exact hall y hy'
  · rintro rfl rfl hne hrange
    cases hresult
    obtain ⟨ints, rfl⟩ := exists_ints hvalues
    simp only [finalizeAggregateState, if_neg (mt hzero.mp hne), intSum_foldl, Except.ok.injEq]
      at h
    refine ⟨_, h.symm, ?_⟩
    have htotal := hrange (ints.map ResultValue.int64).length
    rw [List.take_length, total_ints] at htotal
    rw [total_ints, Int64.zero_add, Int64.toInt_ofInt_of_le htotal.1 htotal.2]

end Htap.Executor
