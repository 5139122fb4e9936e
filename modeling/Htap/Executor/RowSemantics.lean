import Htap.Executor.Pushdown

/-!
What a SELECT computes, in terms of the rows of its table: the columns it
projects cover every expression, the access it plans reaches every row that
passes WHERE, and its loop is a filter and a map over the rows it reads.
-/

namespace Htap.Executor

open Storage Htap.Parser SSTable Read Cursor

variable {α : Type} [ICursor α]

/-! ## Projection -/

theorem mem_collectProjectionFromExpression {projection : List Nat} {e : BoundExpression}
    {i : Nat} : i ∈ collectProjectionFromExpression projection e ↔
      i ∈ projection ∨ i ∈ e.columns := by
  induction e generalizing projection with
  | literal _ _ => simp [collectProjectionFromExpression, BoundExpression.columns]
  | column j _ =>
    simp only [collectProjectionFromExpression, BoundExpression.columns, List.mem_singleton]
    split
    · rename_i hmem
      constructor
      · exact Or.inl
      · rintro (h | rfl)
        · exact h
        · exact hmem
    · simp
  | unary _ e ih => exact ih
  | binary _ l r ihl ihr =>
    simp only [collectProjectionFromExpression, BoundExpression.columns, ihr, ihl, List.mem_append,
      or_assoc]
  | isNull e _ ih => exact ih

theorem nodup_collectProjectionFromExpression {projection : List Nat} (h : projection.Nodup)
    (e : BoundExpression) : (collectProjectionFromExpression projection e).Nodup := by
  induction e generalizing projection with
  | literal _ _ => exact h
  | column j _ =>
    unfold collectProjectionFromExpression
    split
    · exact h
    · rename_i hnot
      refine List.nodup_append.mpr ⟨h, List.nodup_singleton j, ?_⟩
      rintro a ha b hb rfl
      obtain rfl := List.mem_singleton.mp hb
      exact hnot ha
  | unary _ e ih => exact ih h
  | binary _ l r ihl ihr => exact ihr (ihl h)
  | isNull e _ ih => exact ih h

private theorem mem_foldl_collect {es : List BoundExpression} {projection : List Nat} {i : Nat} :
    i ∈ es.foldl collectProjectionFromExpression projection ↔
      i ∈ projection ∨ ∃ e ∈ es, i ∈ e.columns := by
  induction es generalizing projection with
  | nil => simp
  | cons e es ih =>
    rw [List.foldl_cons, ih, mem_collectProjectionFromExpression, or_assoc]
    simp

private theorem nodup_foldl_collect (es : List BoundExpression) {projection : List Nat}
    (h : projection.Nodup) : (es.foldl collectProjectionFromExpression projection).Nodup := by
  induction es generalizing projection with
  | nil => exact h
  | cons e es ih => exact ih (nodup_collectProjectionFromExpression h e)

/-- The projection is exactly the columns that some expression reads. -/
theorem mem_collectRequiredProjection {statement : BoundSelectStatement} {i : Nat} :
    i ∈ collectRequiredProjection statement ↔ ∃ e ∈ statement.expressions, i ∈ e.columns := by
  rw [collectRequiredProjection, mem_foldl_collect]
  simp

private theorem columns_lt {schema : Schema} {e : BoundExpression} (he : WellTyped schema e) :
    ∀ i ∈ e.columns, i < schema.size := by
  induction e with
  | literal _ _ =>
    intro i hi
    cases hi
  | column j _ =>
    intro i hi
    obtain rfl := List.mem_singleton.mp hi
    obtain ⟨hlt, -⟩ := List.getElem?_eq_some_iff.mp he
    rwa [Schema.length_types] at hlt
  | unary _ e ih => exact ih he
  | binary _ l r ihl ihr =>
    intro i hi
    rcases List.mem_append.mp hi with hi | hi
    · exact ihl he.1 i hi
    · exact ihr he.2 i hi
  | isNull e _ ih => exact ih he

theorem TypedItem.argument {schema : Schema} {item : BoundSelectItem} (h : TypedItem schema item) :
    WellTyped schema item.argument := by
  cases item with
  | expression e => exact h
  | aggregate kind e type => exact h.1

/-- Every expression of a bound statement is well typed. -/
theorem Bound.wellTyped {schema : Schema} {statement : BoundSelectStatement}
    (h : Bound schema statement) : ∀ e ∈ statement.expressions, WellTyped schema e := by
  intro e he
  unfold BoundSelectStatement.expressions at he
  simp only [List.mem_append, or_assoc] at he
  rcases he with he | he | he | he
  · obtain ⟨item, hitem, rfl⟩ := List.mem_map.mp he
    exact (h.items item hitem).argument
  · exact (h.whereTyped e (Option.mem_toList.mp he)).1
  · exact h.groupBy e he
  · obtain ⟨item, hitem, rfl⟩ := List.mem_map.mp he
    exact h.orderBy item hitem

/-- The engine accepts the projection of a bound statement. -/
theorem Bound.validateProjection_ok {schema : Schema} {statement : BoundSelectStatement}
    (h : Bound schema statement) :
    validateProjection schema (collectRequiredProjection statement) = .ok () := by
  have hlt : ∀ i ∈ collectRequiredProjection statement, i < schema.size := by
    intro i hi
    obtain ⟨e, he, hie⟩ := mem_collectRequiredProjection.mp hi
    exact columns_lt (h.wellTyped e he) i hie
  have hnodup : (collectRequiredProjection statement).Nodup :=
    nodup_foldl_collect statement.expressions List.nodup_nil
  exact validateProjection_eq_ok.mpr ⟨hnodup, hlt⟩

/-! ## What the loop bodies read -/

section ReadsOnly

variable {statement : BoundSelectStatement} {value value' : Nat → Result NullableValue}

/-- Two readers that agree on the projection evaluate every expression alike. -/
theorem evaluate_alike
    (h : ∀ i ∈ collectRequiredProjection statement, value i = value' i) :
    ∀ e ∈ statement.expressions, evaluateExpression value e = evaluateExpression value' e :=
  fun e he => evaluateExpression_congr e fun i hi =>
    h i (mem_collectRequiredProjection.mpr ⟨e, he, hi⟩)

private theorem passesWhere_alike
    (h : ∀ e ∈ statement.expressions, evaluateExpression value e = evaluateExpression value' e) :
    passesWhere statement value = passesWhere statement value' := by
  unfold passesWhere
  cases hw : statement.whereExpression with
  | none => rfl
  | some e =>
    have he : e ∈ statement.expressions := by simp [BoundSelectStatement.expressions, hw]
    simp only [evaluatePredicate, h e he]

private theorem item_mem {item : BoundSelectItem} (h : item ∈ statement.selectItems) :
    item.argument ∈ statement.expressions := by
  unfold BoundSelectStatement.expressions
  simp only [List.mem_append]
  exact Or.inl (Or.inl (Or.inl (List.mem_map_of_mem h)))

private theorem orderByValues_alike
    (h : ∀ e ∈ statement.expressions, evaluateExpression value e = evaluateExpression value' e) :
    orderByValues statement value = orderByValues statement value' := by
  apply Result.mapM_congr
  intro item hitem
  apply h
  unfold BoundSelectStatement.expressions
  exact List.mem_append_right _ (List.mem_map_of_mem hitem)

theorem readsOnly_plainBody (statement : BoundSelectStatement) (requiresKeyAsc earlyLimit : Bool) :
    ReadsOnly (collectRequiredProjection statement)
      (plainBody statement requiresKeyAsc earlyLimit) := by
  intro value value' s hvalue
  have h := evaluate_alike hvalue
  have hitems : statement.selectItems.mapM (plainItem value) =
      statement.selectItems.mapM (plainItem value') := by
    apply Result.mapM_congr
    intro item hitem
    cases item with
    | expression e => exact h e (item_mem hitem)
    | aggregate _ _ _ => rfl
  simp only [plainBody, passesWhere_alike h, hitems, orderByValues_alike h]

theorem readsOnly_globalBody (statement : BoundSelectStatement)
    {aggregates : List (AggregateKind × BoundExpression × ExpressionType)}
    (haggregates : ∀ a ∈ aggregates, a.2.1 ∈ statement.expressions) :
    ReadsOnly (collectRequiredProjection statement) (globalBody statement aggregates) := by
  intro value value' s hvalue
  have h := evaluate_alike hvalue
  have hupdate : (aggregates.zip s).mapM (fun entry => updateAggregate value entry.1 entry.2) =
      (aggregates.zip s).mapM (fun entry => updateAggregate value' entry.1 entry.2) := by
    apply Result.mapM_congr
    intro entry hentry
    have hmem := haggregates entry.1 (List.of_mem_zip hentry).1
    simp only [updateAggregate, h _ hmem]
  simp only [globalBody, passesWhere_alike h, hupdate]

theorem readsOnly_groupBody (statement : BoundSelectStatement) :
    ReadsOnly (collectRequiredProjection statement) (groupBody statement) := by
  intro value value' s hvalue
  have h := evaluate_alike hvalue
  have hkey : statement.groupByItems.mapM (evaluateExpression value) =
      statement.groupByItems.mapM (evaluateExpression value') := by
    apply Result.mapM_congr
    intro e he
    apply h
    unfold BoundSelectStatement.expressions
    exact List.mem_append_left _ (List.mem_append_right _ he)
  have hnew : newGroup statement value = newGroup statement value' := by
    have hitems : statement.selectItems.mapM (selectExpressionValue value) =
        statement.selectItems.mapM (selectExpressionValue value') := by
      apply Result.mapM_congr
      intro item hitem
      cases item with
      | expression e => exact h e (item_mem hitem)
      | aggregate _ _ _ => rfl
    simp only [newGroup, hitems, orderByValues_alike h]
  have hupdate : updateGroup statement value = updateGroup statement value' := by
    funext group
    have hitems : (statement.selectItems.zip group.aggregateStates).mapM (updateItem value) =
        (statement.selectItems.zip group.aggregateStates).mapM (updateItem value') := by
      apply Result.mapM_congr
      rintro ⟨item, state⟩ hitem
      have hmem := item_mem (List.of_mem_zip hitem).1
      cases item with
      | expression e => rfl
      | aggregate kind e type => simp only [updateItem, updateAggregate, h e hmem]
    simp only [updateGroup, hitems]
  simp only [groupBody, passesWhere_alike h, hkey, hnew, hupdate]

end ReadsOnly

/-! ## The table behind an engine -/

/-- The engine serves the table `rows`: `get` returns the rows of a key and `scan`
those of a range, in key order when that is asked for. -/
structure ServesTable (engine : IStorageEngine α) (tableName : Bytes) (schema : Schema)
    (rows : List Row) : Prop where
  get : ∀ key projection, validateProjection schema projection = .ok () →
    ∃ c w found, engine.get tableName key projection = .ok (c, w) ∧
      Reads projection c w found ∧ found.Perm (rows.filter fun r => rowKey r == key)
  scan : ∀ fromKey toKey projection order filter, KeyRange.Ordered ⟨fromKey, toKey⟩ →
    validateProjection schema projection = .ok () →
    ∃ c w found, engine.scan tableName fromKey toKey projection order filter = .ok (c, w) ∧
      Reads projection c w found ∧
      found.Perm (rows.filter fun r => KeyRange.contains ⟨fromKey, toKey⟩ (rowKey r)) ∧
      (order = .keyAscending → SortedRows found)

/-- The rows that an access reads, or none when there is no cursor. -/
def ReadsBuilt (projection : List Nat) : Option (α × World) → List Row → Prop
  | none, found => found = []
  | some (c, w), found => Reads projection c w found

/-- What the cursor of a planned statement reads: the rows in reach of the plan. -/
theorem ServesTable.build {engine : IStorageEngine α} {schema : Schema} {rows : List Row}
    {statement : BoundSelectStatement}
    (h : ServesTable engine statement.tableName schema rows)
    {projection : List Nat}
    (hprojection : validateProjection schema projection = .ok ()) {plan : KeyPlan}
    (hplan : planConjuncts statement.schema {} (conjuncts statement) = .ok plan)
    (requiresKeyAsc : Bool) :
    ∃ built found, buildCursorForSelect engine statement projection requiresKeyAsc = .ok built ∧
      ReadsBuilt projection built found ∧
      found.Perm (rows.filter fun r => plan.access.reaches (rowKey r)) ∧
      (requiresKeyAsc = true → SortedRows found) := by
  unfold buildCursorForSelect
  simp only [hplan, Result.ok_bind]
  cases haccess : plan.access with
  | empty =>
    refine ⟨none, [], rfl, rfl, ?_, fun _ => List.Pairwise.nil⟩
    simp [Access.reaches]
  | point key =>
    obtain ⟨c, w, found, hget, hreads, hperm⟩ := h.get key projection hprojection
    refine ⟨some (c, w), found, by simp [hget], hreads, hperm, fun _ => ?_⟩
    have hsame : ∀ r ∈ found, rowKey r = key := by
      intro r hr
      simpa using (List.mem_filter.mp (hperm.mem_iff.mp hr)).2
    apply List.pairwise_of_forall_mem_list
    intro a ha b hb
    exact ((hsame a ha).trans (hsame b hb).symm).le
  | range fromKey toKey =>
    obtain ⟨c, w, found, hscan, hreads, hperm, hsorted⟩ := h.scan fromKey toKey projection
      (if requiresKeyAsc then .keyAscending else .unordered) (buildDataSkippingFilter statement)
      (ordered_access haccess) hprojection
    refine ⟨some (c, w), found, by simp [hscan], hreads, hperm, fun hasc => hsorted ?_⟩
    rw [if_pos hasc]

/-! ## The rows of a plain SELECT -/

/-- The value of a computation that returns. -/
def valueOr {β : Type} (default : β) : Result β → β
  | .ok value => value
  | .error _ => default

theorem valueOr_of_ok {β : Type} {default value : β} {x : Result β} (h : x = .ok value) :
    x = .ok (valueOr default x) := by
  rw [h]
  rfl

/-- WHERE is true on the row. -/
def holds (statement : BoundSelectStatement) (row : Row) : Bool :=
  valueOr false (passesWhere statement (rowValue row))

/-- The rows that pass WHERE. -/
def passing (statement : BoundSelectStatement) (rows : List Row) : List Row :=
  rows.filter (holds statement)

/-- The result row of a row. -/
def output (statement : BoundSelectStatement) (row : Row) : ResultRow :=
  valueOr [] (statement.selectItems.mapM (plainItem (rowValue row)))

/-- The values of the ORDER BY items on a row. -/
def sortValues (statement : BoundSelectStatement) (row : Row) : List NullableResultValue :=
  valueOr [] (orderByValues statement (rowValue row))

/-- WHERE raises no error on the row, and where it is true the select list raises
none either. -/
structure Outputs (statement : BoundSelectStatement) (row : Row) : Prop where
  passes : ∃ b, passesWhere statement (rowValue row) = .ok b
  items : holds statement row = true →
    ∃ out, statement.selectItems.mapM (plainItem (rowValue row)) = .ok out

variable {statement : BoundSelectStatement}

private theorem stop_eq_false {earlyLimit : Bool} {limit : Option Nat}
    (h : (earlyLimit && limit.isSome) = false) (length : Nat) :
    (earlyLimit && limit.any fun n => decide (n ≤ length)) = false := by
  cases limit with
  | none => simp
  | some n =>
    rw [Option.isSome_some, Bool.and_true] at h
    rw [h, Bool.false_and]

/-- A loop without ORDER BY, or on rows in key order, and without early exit: it
returns exactly when every row of the cursor has an output. -/
theorem foldRows_plain {requiresKeyAsc : Bool}
    (hdirect : (statement.orderByItems.isEmpty || requiresKeyAsc) = true) {rows : List Row}
    (h : ∀ row ∈ rows, Outputs statement row) (earlyLimit : Bool)
    (hlimit : (earlyLimit && statement.limit.isSome) = false) (s : PlainState) :
    foldRows (plainBody statement requiresKeyAsc earlyLimit) rows s =
      .ok { s with rows := s.rows ++ (passing statement rows).map (output statement) } := by
  induction rows generalizing s with
  | nil => simp [foldRows, passing]
  | cons row rest ih =>
    have hrow := h row List.mem_cons_self
    have hrest := ih fun r hr => h r (List.mem_cons_of_mem row hr)
    obtain ⟨b, hb⟩ := hrow.passes
    have hholds : holds statement row = b := by simp [holds, hb, valueOr]
    cases b with
    | false =>
      have hpassing : passing statement (row :: rest) = passing statement rest := by
        simp [passing, hholds]
      simp only [foldRows, plainBody, hb, Result.ok_bind, Bool.not_false, if_true, Result.pure_eq,
        Bool.false_eq_true, if_false, hpassing]
      exact hrest s
    | true =>
      have hout := hrow.items hholds
      obtain ⟨out, hout⟩ := hout
      have houtput : output statement row = out := by simp [output, hout, valueOr]
      have hpassing : passing statement (row :: rest) = row :: passing statement rest := by
        simp [passing, hholds]
      have hgo := stop_eq_false hlimit (s.rows ++ [out]).length
      simp only [foldRows, plainBody, hb, Result.ok_bind, Bool.not_true, Bool.false_eq_true,
        if_false, hout, hdirect, if_true, Result.pure_eq, hgo, hrest, hpassing, List.map_cons,
        houtput, List.append_assoc, List.singleton_append]

theorem outputs_of_foldRows {requiresKeyAsc earlyLimit : Bool}
    (hlimit : (earlyLimit && statement.limit.isSome) = false) {rows : List Row}
    {s s' : PlainState}
    (h : foldRows (plainBody statement requiresKeyAsc earlyLimit) rows s = .ok s') :
    ∀ row ∈ rows, Outputs statement row := by
  induction rows generalizing s with
  | nil =>
    intro row hrow
    cases hrow
  | cons row rest ih =>
    obtain ⟨⟨next, stop⟩, hbody, hrest⟩ := Result.bind_eq_ok.mp h
    obtain ⟨b, hb, hbody⟩ := Result.bind_eq_ok.mp hbody
    have hholds : holds statement row = b := by simp [holds, hb, valueOr]
    have hrow : Outputs statement row ∧ stop = false := by
      cases b with
      | false =>
        simp only [Bool.not_false, if_true, Result.pure_eq, Except.ok.injEq, Prod.mk.injEq]
          at hbody
        refine ⟨⟨⟨false, hb⟩, fun htrue => ?_⟩, hbody.2.symm⟩
        rw [hholds] at htrue
        cases htrue
      | true =>
        simp only [Bool.not_true, Bool.false_eq_true, if_false] at hbody
        obtain ⟨out, hout, hbody⟩ := Result.bind_eq_ok.mp hbody
        refine ⟨⟨⟨true, hb⟩, fun _ => ⟨out, hout⟩⟩, ?_⟩
        split at hbody
        · simp only [Result.pure_eq, stop_eq_false hlimit, Except.ok.injEq, Prod.mk.injEq] at hbody
          exact hbody.2.symm
        · obtain ⟨keys, -, hbody⟩ := Result.bind_eq_ok.mp hbody
          cases hbody
          rfl
    obtain ⟨hrow, rfl⟩ := hrow
    intro r hr
    rcases List.mem_cons.mp hr with rfl | hr
    · exact hrow
    · exact ih hrest r hr

/-- The loop that collects rows for sorting. -/
theorem foldRows_sorting {requiresKeyAsc : Bool}
    (hsort : (statement.orderByItems.isEmpty || requiresKeyAsc) = false) {rows : List Row}
    (h : ∀ row ∈ rows, Outputs statement row)
    (horder : ∀ row ∈ rows, holds statement row = true →
      ∃ keys, orderByValues statement (rowValue row) = .ok keys)
    (earlyLimit : Bool) (s : PlainState) :
    foldRows (plainBody statement requiresKeyAsc earlyLimit) rows s =
      .ok { s with sortedRows := s.sortedRows ++ (passing statement rows).map fun r =>
        ⟨sortValues statement r, output statement r⟩ } := by
  induction rows generalizing s with
  | nil => simp [foldRows, passing]
  | cons row rest ih =>
    have hrow := h row List.mem_cons_self
    have hrest := ih (fun r hr => h r (List.mem_cons_of_mem row hr))
      fun r hr => horder r (List.mem_cons_of_mem row hr)
    obtain ⟨b, hb⟩ := hrow.passes
    have hholds : holds statement row = b := by simp [holds, hb, valueOr]
    cases b with
    | false =>
      have hpassing : passing statement (row :: rest) = passing statement rest := by
        simp [passing, hholds]
      simp only [foldRows, plainBody, hb, Result.ok_bind, Bool.not_false, if_true, Result.pure_eq,
        Bool.false_eq_true, if_false, hpassing]
      exact hrest s
    | true =>
      obtain ⟨out, hout⟩ := hrow.items hholds
      obtain ⟨keys, hkeys⟩ := horder row List.mem_cons_self hholds
      have houtput : output statement row = out := by simp [output, hout, valueOr]
      have hvalues : sortValues statement row = keys := by simp [sortValues, hkeys, valueOr]
      have hpassing : passing statement (row :: rest) = row :: passing statement rest := by
        simp [passing, hholds]
      simp only [foldRows, plainBody, hb, Result.ok_bind, Bool.not_true, Bool.false_eq_true,
        if_false, hout, hsort, hkeys, Result.pure_eq, hrest, hpassing, List.map_cons,
        houtput, hvalues, List.append_assoc, List.singleton_append]

/-- The column names of a bound statement exist. -/
theorem buildSelectColumnNames_ok {schema : Schema} {statement : BoundSelectStatement}
    (hbound : Bound schema statement) :
    ∃ names, buildSelectColumnNames statement = .ok names := by
  have hname : ∀ (i : Nat) {e : BoundExpression}, WellTyped schema e →
      ∃ name, expressionName schema i e = .ok name := by
    intro i e he
    cases e with
    | column columnIndex valueType =>
      have hcolumn : ∃ column, schema.columns[columnIndex]? = some column := by
        unfold WellTyped Schema.types at he
        rw [List.getElem?_map, Option.map_eq_some_iff] at he
        obtain ⟨column, hcolumn, -⟩ := he
        exact ⟨column, hcolumn⟩
      obtain ⟨column, hcolumn⟩ := hcolumn
      exact ⟨column.name, by simp [expressionName, Schema.getColumn, hcolumn]⟩
    | literal _ _ | unary _ _ | binary _ _ _ | isNull _ _ => exact ⟨_, rfl⟩
  have hall : ∀ entry ∈ statement.selectItems.zipIdx,
      ∃ name, selectColumnName statement.schema entry = .ok name := by
    rintro ⟨item, i⟩ hentry
    have htyped := hbound.items item (List.fst_mem_of_mem_zipIdx hentry)
    rw [hbound.schema_eq]
    cases item with
    | expression e => exact hname i htyped
    | aggregate kind e resultType =>
      obtain ⟨name, hname⟩ := hname i htyped.1
      exact ⟨_, by simp only [selectColumnName, hname, Result.ok_bind]; rfl⟩
  refine ⟨_, Result.mapM_eq_map (g := fun entry =>
    valueOr [] (selectColumnName statement.schema entry)) _ fun entry hentry => ?_⟩
  obtain ⟨name, hname⟩ := hall entry hentry
  exact valueOr_of_ok hname

end Htap.Executor
