import Htap.Properties.Grouping

/-!
The projection of a SELECT covers every column its expressions read, and the
storage engine accepts it. What a cursor gives for other columns never shows.
-/

namespace Htap.Properties

open Storage Htap.Parser SSTable Read Cursor Executor

variable {α β σ : Type} [ICursor α] [ICursor β] {std : StdSort Exception}
  {engine : IStorageEngine α} {engine' : IStorageEngine β} {fuel fuel' : Nat} {schema : Schema}
  {statement : BoundSelectStatement} {built : Option (α × World)} {built' : Option (β × World)}
  {rows rows' : List Row} {names : List Bytes}

/-- The columns that `EvaluateExpression` asks `cursor.value` for, in order. Behind
an operand that throws there are none. -/
def valueCalls (value : Nat → Result NullableValue) : BoundExpression → List Nat
  | .literal _ _ => []
  | .column columnIndex _ => [columnIndex]
  | .unary _ expression => valueCalls value expression
  | .binary _ left right =>
    valueCalls value left ++
      if (evaluateExpression value left).isOk then valueCalls value right else []
  | .isNull expression _ => valueCalls value expression

theorem valueCalls_subset (value : Nat → Result NullableValue) (e : BoundExpression) :
    ∀ i ∈ valueCalls value e, i ∈ e.columns := by
  induction e with
  | literal _ _ =>
    intro i hi
    cases hi
  | column _ _ => exact fun i hi => hi
  | unary _ e ih => exact ih
  | binary _ l r ihl ihr =>
    intro i hi
    rcases List.mem_append.mp hi with hi | hi
    · exact List.mem_append_left _ (ihl i hi)
    · split at hi
      · exact List.mem_append_right _ (ihr i hi)
      · cases hi
  | isNull e _ ih => exact ih

/-- Rows that agree on the projected columns, one by one. -/
def AgreeOn (projection : List Nat) (rows rows' : List Row) : Prop :=
  List.Forall₂ (fun r r' => ∀ i ∈ projection, cell r i = cell r' i) rows rows'

/-- Whether the executor asks for a cursor in key order. -/
def asksKeyOrder (statement : BoundSelectStatement) : Bool :=
  !hasAggregateSelectItems statement && !(!statement.groupByItems.isEmpty) &&
    isRequiredKeyAsc statement

/-- What a SELECT makes of cursors depends on their projected columns only. -/
def SeesProjectionOnly (statement : BoundSelectStatement) : Prop :=
  ∀ {α β : Type} [ICursor α] [ICursor β] (std : StdSort Exception) (engine : IStorageEngine α)
    (engine' : IStorageEngine β) (fuel fuel' : Nat) (built : Option (α × World))
    (built' : Option (β × World)) (rows rows' : List Row),
    buildCursorForSelect engine statement (collectRequiredProjection statement)
      (asksKeyOrder statement) = .ok built →
    buildCursorForSelect engine' statement (collectRequiredProjection statement)
      (asksKeyOrder statement) = .ok built' →
    ReadsBuilt (collectRequiredProjection statement) built rows →
    ReadsBuilt (collectRequiredProjection statement) built' rows' →
    AgreeOn (collectRequiredProjection statement) rows rows' →
    rows.length ≤ fuel → rows'.length ≤ fuel' →
      executeSelect std engine fuel statement = executeSelect std engine' fuel' statement

/-! ## The three paths -/

theorem foldRows_agree {projection : List Nat} {body : Body σ} (hbody : ReadsOnly projection body)
    (h : AgreeOn projection rows rows') (s : σ) : foldRows body rows s = foldRows body rows' s := by
  induction h generalizing s with
  | nil => rfl
  | @cons r r' rest rest' hrow _ ih =>
    have hstep : body (rowValue r) s = body (rowValue r') s :=
      hbody _ _ s fun i hi => congrArg Except.ok (hrow i hi)
    rw [foldRows, foldRows, hstep]
    cases body (rowValue r') s with
    | error e => rfl
    | ok next =>
      obtain ⟨s', stop⟩ := next
      cases stop with
      | true => rfl
      | false => exact ih s'

/-- Without rows the plain SELECT has no result rows. -/
private theorem finishPlain_nil (std : StdSort Exception) (statement : BoundSelectStatement)
    (requiresKeyAsc earlyLimit : Bool) :
    finishPlain std statement requiresKeyAsc earlyLimit {} = .ok [] := by
  have hrows : plainRows std statement requiresKeyAsc {} = .ok [] := by
    unfold plainRows
    split
    · obtain ⟨out, hout, hperm, -⟩ := @StdSort.sorts_key _ _ std Nat _ (fun x y : SortRow =>
        sortKeysLess (statement.orderByItems.map BoundOrderByItem.direction) x.sortKeys y.sortKeys)
        (fun _ => 0) [] (by
          intro x hx
          cases hx)
      obtain rfl := List.perm_nil.mp hperm
      have hsorted : sortRows std statement [] = .ok [] := hout
      rw [hsorted, Result.ok_bind]
      rfl
    · rfl
  rw [finishPlain, hrows, Result.ok_bind]
  cases earlyLimit with
  | true => rfl
  | false =>
    cases hlimit : statement.limit with
    | none => simp [truncateRows]
    | some n => simp [truncateRows]

/-- `ExecutePlainSelect` in terms of the rows that its cursor reads. -/
theorem executePlainSelect_eq {early : Bool}
    (hbuilt : buildCursorForSelect engine statement (collectRequiredProjection statement)
      (isRequiredKeyAsc statement) = .ok built)
    (hreads : ReadsBuilt (collectRequiredProjection statement) built rows)
    (hfuel : rows.length ≤ fuel) :
    executePlainSelect std engine fuel statement names (collectRequiredProjection statement)
        early = (do
      let earlyLimit := if isRequiredKeyAsc statement then isRequiredKeyAsc statement else early
      let state ← foldRows (plainBody statement (isRequiredKeyAsc statement) earlyLimit) rows {}
      let rows ← finishPlain std statement (isRequiredKeyAsc statement) earlyLimit state
      return ⟨names, rows⟩) := by
  rw [executePlainSelect]
  simp only [hbuilt, Result.ok_bind]
  cases built with
  | none =>
    rw [show rows = [] from hreads]
    simp only [foldRows, Result.ok_bind, finishPlain_nil]
  | some cursor =>
    obtain ⟨c, w⟩ := cursor
    simp only [whileValid_eq (readsOnly_plainBody statement _ _) hreads hfuel]

theorem seesProjectionOnly (statement : BoundSelectStatement) : SeesProjectionOnly statement := by
  intro α β _ _ std engine engine' fuel fuel' built built' rows rows' hbuilt hbuilt' hreads hreads'
    hagree hfuel hfuel'
  unfold executeSelect
  cases hnames : buildSelectColumnNames statement with
  | error e => rfl
  | ok names =>
    have hsame : ∀ {σ : Type} {body : Body σ},
        ReadsOnly (collectRequiredProjection statement) body → ∀ s,
          overCursor body fuel s built = overCursor body fuel' s built' := by
      intro σ body hbody s
      rw [overCursor_eq hbody hreads hfuel, overCursor_eq hbody hreads' hfuel',
        foldRows_agree hbody hagree]
    simp only [Result.ok_bind]
    split
    · -- Plain: the only path that may ask for the order of keys.
      rename_i hplain
      rw [asksKeyOrder, hplain, Bool.true_and] at hbuilt hbuilt'
      rw [executePlainSelect_eq hbuilt hreads hfuel, executePlainSelect_eq hbuilt' hreads' hfuel']
      simp only [foldRows_agree (readsOnly_plainBody statement _ _) hagree]
    · rename_i hplain
      rw [asksKeyOrder, Bool.eq_false_iff.mpr hplain, Bool.false_and] at hbuilt hbuilt'
      split
      · unfold executeGlobalAggregateSelect
        cases haggregates : statement.selectItems.mapM globalAggregate with
        | error e => rfl
        | ok aggregates =>
          simp only [Result.ok_bind, hbuilt, hbuilt', hsame (readsOnly_aggregates haggregates)]
      · unfold executeGroupedAggregateSelect
        simp only [Result.ok_bind, hbuilt, hbuilt', hsame (readsOnly_groupBody statement)]

/-- The projection that the executor computes for a bound SELECT. Every expression of the
three loops reads columns of it alone, `validate_projection` accepts it, and two cursors
that agree on it give the same result or the same error, so that binding is the only
hypothesis. -/
theorem required_projection {source : SelectStatement}
    (hbind : bindSelectOver schema source = .ok statement) :
    (∀ value, ∀ e ∈ statement.expressions, ∀ i ∈ valueCalls value e,
        i ∈ collectRequiredProjection statement) ∧
      (∀ requiresKeyAsc earlyLimit, ReadsOnly (collectRequiredProjection statement)
        (plainBody statement requiresKeyAsc earlyLimit)) ∧
      (∀ aggregates, statement.selectItems.mapM globalAggregate = .ok aggregates →
        ReadsOnly (collectRequiredProjection statement) (globalBody statement aggregates)) ∧
      ReadsOnly (collectRequiredProjection statement) (groupBody statement) ∧
      (collectRequiredProjection statement).Nodup ∧
      (∀ i ∈ collectRequiredProjection statement, i < schema.size) ∧
      validateProjection schema (collectRequiredProjection statement) = .ok () ∧
      SeesProjectionOnly statement := by
  have hbound := bound_bindSelectOver hbind
  obtain ⟨hnodup, hsize⟩ := validateProjection_ok hbound.validateProjection_ok
  refine ⟨?_, readsOnly_plainBody statement, fun _ => readsOnly_aggregates,
    readsOnly_groupBody statement, hnodup, hsize, hbound.validateProjection_ok,
    seesProjectionOnly statement⟩
  intro value e he i hi
  exact mem_collectRequiredProjection.mpr ⟨e, he, valueCalls_subset value e i hi⟩

theorem required_projection_groups :
    (∀ value, ∀ e ∈ boundSelectGroups.expressions, ∀ i ∈ valueCalls value e,
        i ∈ collectRequiredProjection boundSelectGroups) ∧
      (∀ requiresKeyAsc earlyLimit, ReadsOnly (collectRequiredProjection boundSelectGroups)
        (plainBody boundSelectGroups requiresKeyAsc earlyLimit)) ∧
      (∀ aggregates, boundSelectGroups.selectItems.mapM globalAggregate = .ok aggregates →
        ReadsOnly (collectRequiredProjection boundSelectGroups)
          (globalBody boundSelectGroups aggregates)) ∧
      ReadsOnly (collectRequiredProjection boundSelectGroups) (groupBody boundSelectGroups) ∧
      (collectRequiredProjection boundSelectGroups).Nodup ∧
      (∀ i ∈ collectRequiredProjection boundSelectGroups, i < pairSchema.size) ∧
      validateProjection pairSchema (collectRequiredProjection boundSelectGroups) = .ok () ∧
      SeesProjectionOnly boundSelectGroups :=
  required_projection (show bindSelectOver pairSchema selectGroups = .ok boundSelectGroups from rfl)

end Htap.Properties
