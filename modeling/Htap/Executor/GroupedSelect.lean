import Htap.Basis.Grouping
import Htap.Executor.RowSemantics

/-!
A SELECT with aggregates or GROUP BY in terms of its rows: the map it fills holds
the groups of the rows that pass WHERE, and each group has one result row.
-/

namespace Htap.Executor

open Storage Htap.Parser SSTable Read Cursor

variable {schema : Schema} {statement : BoundSelectStatement} {row : Row}

/-- A row of the schema without NaN on which no expression raises an error. -/
structure GoodRow (schema : Schema) (statement : BoundSelectStatement) (row : Row) : Prop where
  valid : ValidRow schema row
  noNaN : NoNaN row
  evaluates : ∀ e ∈ statement.expressions, ∃ v, evaluateExpression (rowValue row) e = .ok v

/-- The value of an expression on a row. -/
def valueOn (row : Row) (e : BoundExpression) : NullableResultValue :=
  valueOr none (evaluateExpression (rowValue row) e)

/-- The tuple of GROUP BY values of a row. -/
def groupKey (statement : BoundSelectStatement) (row : Row) : GroupKey :=
  statement.groupByItems.map (valueOn row)

/-- The place of a row in the order of the groups. -/
def groupRank (statement : BoundSelectStatement) (row : Row) : List Rank :=
  (groupKey statement row).map rank

namespace GoodRow

theorem valueOn_eq (h : GoodRow schema statement row) {e : BoundExpression}
    (he : e ∈ statement.expressions) :
    evaluateExpression (rowValue row) e = .ok (valueOn row e) := by
  obtain ⟨v, hv⟩ := h.evaluates e he
  exact valueOr_of_ok hv

theorem passesWhere_eq (hbound : Bound schema statement) (h : GoodRow schema statement row) :
    passesWhere statement (rowValue row) = .ok (holds statement row) := by
  cases hwhere : statement.whereExpression with
  | none => simp [holds, passesWhere, hwhere, valueOr]
  | some e =>
    have hmem : e ∈ statement.expressions := by simp [BoundSelectStatement.expressions, hwhere]
    obtain ⟨htyped, hboolean⟩ := hbound.whereTyped e hwhere
    have hpredicate := evaluatePredicate_of_ok h.valid htyped hboolean (h.valueOn_eq hmem)
    simp only [holds, passesWhere, hwhere, hpredicate, valueOr]

theorem groupBy_mem {e : BoundExpression} (he : e ∈ statement.groupByItems) :
    e ∈ statement.expressions := by
  unfold BoundSelectStatement.expressions
  exact List.mem_append_left _ (List.mem_append_right _ he)

theorem item_mem {item : BoundSelectItem} (hitem : item ∈ statement.selectItems) :
    item.argument ∈ statement.expressions := by
  unfold BoundSelectStatement.expressions
  rw [List.append_assoc, List.append_assoc]
  exact List.mem_append_left _ (List.mem_map_of_mem hitem)

theorem groupKey_eq (h : GoodRow schema statement row) :
    statement.groupByItems.mapM (evaluateExpression (rowValue row)) =
      .ok (groupKey statement row) :=
  Result.mapM_eq_map _ fun _ he => h.valueOn_eq (groupBy_mem he)

theorem orderable (h : GoodRow schema statement row) :
    orderByValues statement (rowValue row) = .ok (sortValues statement row) := by
  have hmap := Result.mapM_eq_map (g := fun item : BoundOrderByItem => valueOn row item.expression)
    statement.orderByItems fun item hitem => h.valueOn_eq (by
      unfold BoundSelectStatement.expressions
      exact List.mem_append_right _ (List.mem_map_of_mem hitem))
  exact valueOr_of_ok hmap

/-- The group keys of two rows compare by rank. -/
theorem comparable_groupKey (hbound : Bound schema statement) {s : Row}
    (hr : GoodRow schema statement row) (hs : GoodRow schema statement s) :
    List.Forall₂ Comparable (groupKey statement row) (groupKey statement s) := by
  unfold groupKey
  rw [List.forall₂_map_left_iff, List.forall₂_map_right_iff, List.forall₂_same]
  intro e he
  have hmem := groupBy_mem he
  exact comparable_evaluateExpression hr.valid hs.valid hr.noNaN hs.noNaN (hbound.groupBy e he)
    (hr.valueOn_eq hmem) (hs.valueOn_eq hmem)

theorem groupKeyLess_eq (hbound : Bound schema statement) {s : Row}
    (hr : GoodRow schema statement row) (hs : GoodRow schema statement s) :
    groupKeyLess (groupKey statement row) (groupKey statement s) =
      .ok (decide (groupRank statement row < groupRank statement s)) :=
  Executor.groupKeyLess_eq (hr.comparable_groupKey hbound hs)

end GoodRow

/-! ## Aggregates over the rows of a group -/

/-- The state of an aggregate after one more row. -/
def entered (item : BoundSelectItem) (state : GlobalAggregateState) (row : Row) :
    GlobalAggregateState :=
  valueOr state (updateItem (rowValue row) (item, state))

/-- The state of an aggregate after the rows `members`. -/
def aggregateState (item : BoundSelectItem) (members : List Row) : GlobalAggregateState :=
  members.foldl (entered item) {}

/-- A value of the type the aggregate was bound for is taken. -/
theorem updateNonNull_ok {kind : AggregateKind} {argument resultType : ExpressionType}
    {v : ResultValue} (htype : HasStaticType argument (some v))
    (hresult : getAggregateResultType kind argument = .ok resultType)
    (state : GlobalAggregateState) :
    ∃ state', updateNonNull kind resultType v state = .ok state' := by
  cases kind with
  | count => exact ⟨_, rfl⟩
  | avg =>
    cases argument with
    | int64 =>
      obtain h | ⟨x, h⟩ := hasStaticType_int64 htype
      · cases h
      · cases h
        exact ⟨_, rfl⟩
    | double =>
      obtain h | ⟨x, h⟩ := hasStaticType_double htype
      · cases h
      · cases h
        exact ⟨_, rfl⟩
    | string | boolean | null => cases hresult
  | sum | min | max =>
    cases argument with
    | int64 =>
      cases hresult
      obtain h | ⟨x, h⟩ := hasStaticType_int64 htype
      · cases h
      · cases h
        exact ⟨_, rfl⟩
    | double =>
      cases hresult
      obtain h | ⟨x, h⟩ := hasStaticType_double htype
      · cases h
      · cases h
        exact ⟨_, rfl⟩
    | string | boolean | null => cases hresult

/-- A good row enters every aggregate. -/
theorem updateItem_eq (hbound : Bound schema statement) (hrow : GoodRow schema statement row)
    {item : BoundSelectItem} (hitem : item ∈ statement.selectItems)
    (state : GlobalAggregateState) :
    updateItem (rowValue row) (item, state) = .ok (entered item state row) := by
  have htyped := hbound.items item hitem
  have hvalue := hrow.valueOn_eq (GoodRow.item_mem hitem)
  cases item with
  | expression e => rfl
  | aggregate kind e resultType =>
    obtain ⟨hwell, hresult⟩ := htyped
    have hstatic := hasStaticType_evaluateExpression hrow.valid hwell hvalue
    have hok : ∃ state', updateItem (rowValue row) (.aggregate kind e resultType, state) =
        .ok state' := by
      simp only [updateItem, updateAggregate,
        show evaluateExpression (rowValue row) e = _ from hvalue,
        Result.ok_bind]
      cases hv : valueOn row e with
      | none => exact ⟨state, by rw [BoundSelectItem.argument, hv]; rfl⟩
      | some v =>
        have hv' : HasStaticType e.type (some v) := hv ▸ hstatic
        obtain ⟨state', hstate'⟩ := updateNonNull_ok hv' hresult state
        exact ⟨state', by rw [BoundSelectItem.argument, hv]; exact hstate'⟩
    obtain ⟨state', hstate'⟩ := hok
    exact valueOr_of_ok hstate'

/-! ## The map of the groups -/

/-- What a group holds of the row that opened it. -/
def itemValue (row : Row) : BoundSelectItem → NullableResultValue
  | .expression e => valueOn row e
  | .aggregate _ _ _ => none

def groupState (statement : BoundSelectStatement) (g : Gathered Row) : GroupState where
  selectExpressionValues := statement.selectItems.map (itemValue g.first)
  orderByValues := sortValues statement g.first
  aggregateStates := statement.selectItems.map fun item => aggregateState item g.members

/-- The entry of the map for a group. -/
def groupEntry (statement : BoundSelectStatement) (g : Gathered Row) : GroupKey × GroupState :=
  (groupKey statement g.first, groupState statement g)

private theorem newGroup_eq (hrow : GoodRow schema statement row) :
    newGroup statement (rowValue row) =
      .ok ⟨statement.selectItems.map (itemValue row), sortValues statement row,
        statement.selectItems.map fun _ => {}⟩ := by
  have hitems : statement.selectItems.mapM (selectExpressionValue (rowValue row)) =
      .ok (statement.selectItems.map (itemValue row)) := by
    apply Result.mapM_eq_map
    intro item hitem
    have hvalue := hrow.valueOn_eq (GoodRow.item_mem hitem)
    cases item with
    | expression e => exact hvalue
    | aggregate _ _ _ => rfl
  simp only [newGroup, hitems, Result.ok_bind, hrow.orderable, Result.pure_eq]

private theorem updateGroup_eq (hbound : Bound schema statement)
    (hrow : GoodRow schema statement row) (values keys : List NullableResultValue)
    (states : BoundSelectItem → GlobalAggregateState) :
    updateGroup statement (rowValue row) ⟨values, keys, statement.selectItems.map states⟩ =
      .ok ⟨values, keys, statement.selectItems.map fun item => entered item (states item) row⟩ := by
  have hzip : statement.selectItems.zip (statement.selectItems.map states) =
      statement.selectItems.map fun item => (item, states item) := by
    have h : (statement.selectItems.map id).zip (statement.selectItems.map states) = _ :=
      List.zip_map'
    rwa [List.map_id] at h
  have hstates : (statement.selectItems.zip (statement.selectItems.map states)).mapM
      (updateItem (rowValue row)) =
      .ok (statement.selectItems.map fun item => entered item (states item) row) := by
    rw [Result.mapM_eq_ok, hzip, List.forall₂_map_left_iff, List.forall₂_map_right_iff,
      List.forall₂_same]
    intro item hitem
    exact updateItem_eq hbound hrow hitem (states item)
  simp only [updateGroup, hstates, Result.ok_bind, Result.pure_eq]

/-- A row enters the map as it enters the groups. -/
theorem enterGroup_eq (hbound : Bound schema statement) (hrow : GoodRow schema statement row)
    {gs : List (Gathered Row)} (hgs : ∀ g ∈ gs, GoodRow schema statement g.first) :
    enterGroup (groupKey statement row) (newGroup statement (rowValue row))
        (updateGroup statement (rowValue row)) (gs.map (groupEntry statement)) =
      .ok ((Gathered.enter (groupRank statement) row gs).map (groupEntry statement)) := by
  have hopen : (newGroup statement (rowValue row) >>= updateGroup statement (rowValue row)) =
      .ok (groupState statement ⟨row, []⟩) := by
    rw [newGroup_eq hrow, Result.ok_bind, updateGroup_eq hbound hrow]
    rfl
  obtain ⟨fresh, hfresh, hupdate⟩ := Result.bind_eq_ok.mp hopen
  induction gs with
  | nil =>
    simp only [List.map_nil, enterGroup, hfresh, hupdate, Result.ok_bind, Result.pure_eq]
    rfl
  | cons g rest ih =>
    have hg := hgs g List.mem_cons_self
    have hrest := ih fun x hx => hgs x (List.mem_cons_of_mem g hx)
    have hjoin : updateGroup statement (rowValue row) (groupState statement g) =
        .ok (groupState statement ⟨g.first, g.later ++ [row]⟩) := by
      rw [groupState, updateGroup_eq hbound hrow]
      simp only [groupState, Gathered.members, aggregateState, ← List.cons_append,
        List.foldl_append, List.foldl_cons, List.foldl_nil]
    have hentry : groupEntry statement g = (groupKey statement g.first, groupState statement g) :=
      rfl
    rw [hfresh] at hrest
    simp only [List.map_cons, enterGroup, hentry, hrow.groupKeyLess_eq hbound hg,
      hg.groupKeyLess_eq hbound hrow, Result.ok_bind, hfresh, hupdate, Result.pure_eq, hjoin,
      decide_eq_true_eq, Gathered.enter]
    split
    · rfl
    · split
      · rw [hrest]
        rfl
      · rfl

/-- The loop fills the map with the groups of the rows that pass WHERE. -/
theorem foldRows_groupBody (hbound : Bound schema statement) {rows : List Row}
    (hrows : ∀ r ∈ rows, GoodRow schema statement r) {gs : List (Gathered Row)}
    (hgs : ∀ g ∈ gs, GoodRow schema statement g.first) :
    foldRows (groupBody statement) rows (gs.map (groupEntry statement)) =
      .ok (((passing statement rows).foldl (fun gs r => Gathered.enter (groupRank statement) r gs)
        gs).map (groupEntry statement)) := by
  induction rows generalizing gs with
  | nil => rfl
  | cons r rest ih =>
    have hr := hrows r List.mem_cons_self
    have hrest : ∀ x ∈ rest, GoodRow schema statement x :=
      fun x hx => hrows x (List.mem_cons_of_mem r hx)
    simp only [foldRows, groupBody, hr.passesWhere_eq hbound, Result.ok_bind]
    cases hholds : holds statement r with
    | false =>
      have hpassing : passing statement (r :: rest) = passing statement rest := by
        simp [passing, hholds]
      rw [hpassing]
      exact ih hrest hgs
    | true =>
      have hpassing : passing statement (r :: rest) = r :: passing statement rest := by
        simp [passing, hholds]
      simp only [Bool.not_true, Bool.false_eq_true, if_false, hr.groupKey_eq,
        enterGroup_eq hbound hr hgs, Result.ok_bind, Result.pure_eq, hpassing, List.foldl_cons]
      apply ih hrest
      intro g hg
      rcases Gathered.first_of_mem_enter hg with hfirst | ⟨x, hx, hfirst⟩
      · rwa [hfirst]
      · rw [hfirst]
        exact hgs x hx

/-! ## Result rows -/

/-- What an aggregate gives for the rows `members`. -/
def aggregateResult (item : BoundSelectItem) (members : List Row) : NullableResultValue :=
  match item with
  | .expression _ => none
  | .aggregate kind _ resultType =>
    valueOr none (finalizeAggregateState kind resultType (aggregateState item members))

/-- What a select item gives for a group. -/
def itemResult (g : Gathered Row) (item : BoundSelectItem) : NullableResultValue :=
  match item with
  | .expression e => valueOn g.first e
  | .aggregate _ _ _ => aggregateResult item g.members

/-- The result row of a group, with its sort keys. -/
def groupResult (statement : BoundSelectStatement) (g : Gathered Row) : SortRow :=
  ⟨sortValues statement g.first, statement.selectItems.map (itemResult g)⟩

/-- The groups of the rows that pass WHERE. -/
def groupsOf (statement : BoundSelectStatement) (rows : List Row) : List (Gathered Row) :=
  Gathered.groups (groupRank statement) (passing statement rows)

/-- An aggregate that the binder accepts has a result in every state. -/
theorem finalizeAggregateState_ok {kind : AggregateKind} {argument resultType : ExpressionType}
    (h : getAggregateResultType kind argument = .ok resultType) (state : GlobalAggregateState) :
    ∃ v, finalizeAggregateState kind resultType state = .ok v := by
  cases kind with
  | count => exact ⟨_, rfl⟩
  | avg | sum | min | max =>
    simp only [finalizeAggregateState]
    split
    · exact ⟨none, rfl⟩
    · cases argument <;> cases h <;> exact ⟨_, rfl⟩

theorem aggregateResult_eq (hbound : Bound schema statement) {kind : AggregateKind}
    {e : BoundExpression} {resultType : ExpressionType}
    (hitem : .aggregate kind e resultType ∈ statement.selectItems) (members : List Row) :
    finalizeAggregateState kind resultType
        (aggregateState (.aggregate kind e resultType) members) =
      .ok (aggregateResult (.aggregate kind e resultType) members) := by
  obtain ⟨-, hresult⟩ := hbound.items _ hitem
  obtain ⟨v, hv⟩ := finalizeAggregateState_ok hresult
    (aggregateState (.aggregate kind e resultType) members)
  exact valueOr_of_ok hv

private theorem groupRow_eq (hbound : Bound schema statement) (g : Gathered Row) :
    groupRow statement (groupState statement g) = .ok (groupResult statement g) := by
  have hzip : statement.selectItems.zip ((statement.selectItems.map (itemValue g.first)).zip
      (statement.selectItems.map fun item => aggregateState item g.members)) =
      statement.selectItems.map fun item =>
        (item, itemValue g.first item, aggregateState item g.members) := by
    have h : (statement.selectItems.map id).zip (statement.selectItems.map fun item =>
        (itemValue g.first item, aggregateState item g.members)) = _ := List.zip_map'
    rw [List.map_id] at h
    rw [List.zip_map', h]
    rfl
  have hrow : (statement.selectItems.zip ((statement.selectItems.map (itemValue g.first)).zip
      (statement.selectItems.map fun item => aggregateState item g.members))).mapM groupItem =
      .ok (statement.selectItems.map (itemResult g)) := by
    rw [Result.mapM_eq_ok, hzip, List.forall₂_map_left_iff, List.forall₂_map_right_iff,
      List.forall₂_same]
    intro item hitem
    cases item with
    | expression e => rfl
    | aggregate kind e resultType => exact aggregateResult_eq hbound hitem g.members
  simp only [groupRow, groupState, hrow, Result.ok_bind, Result.pure_eq, groupResult]

variable {α : Type} [ICursor α] {std : StdSort Exception} {engine : IStorageEngine α} {fuel : Nat}
  {built : Option (α × World)} {rows : List Row} {names : List Bytes}

/-- The loop over what was built is the loop over its rows. -/
theorem overCursor_eq {σ : Type} {body : Body σ} {projection : List Nat}
    (hbody : ReadsOnly projection body) (hreads : ReadsBuilt projection built rows)
    (hfuel : rows.length ≤ fuel) (s : σ) : overCursor body fuel s built = foldRows body rows s := by
  cases built with
  | none =>
    rw [show rows = [] from hreads]
    rfl
  | some cursor =>
    obtain ⟨c, w⟩ := cursor
    exact whileValid_eq hbody hreads hfuel s

/-- The aggregates of the select list read projected columns. -/
theorem readsOnly_aggregates
    {aggregates : List (AggregateKind × BoundExpression × ExpressionType)}
    (h : statement.selectItems.mapM globalAggregate = .ok aggregates) :
    ReadsOnly (collectRequiredProjection statement) (globalBody statement aggregates) := by
  apply readsOnly_globalBody
  intro a ha
  obtain ⟨item, hitem, haggregate⟩ := Result.exists_of_mem_mapM h ha
  have hargument := GoodRow.item_mem hitem
  cases item with
  | expression e => cases haggregate
  | aggregate kind e resultType =>
    cases haggregate
    exact hargument

/-- A grouped SELECT sorts and truncates the result rows of the groups. -/
theorem executeGroupedAggregateSelect_eq (hbound : Bound schema statement)
    (hbuilt : buildCursorForSelect engine statement (collectRequiredProjection statement) false =
      .ok built)
    (hreads : ReadsBuilt (collectRequiredProjection statement) built rows)
    (hrows : ∀ r ∈ rows, GoodRow schema statement r) (hfuel : rows.length ≤ fuel) :
    executeGroupedAggregateSelect std engine fuel statement names
        (collectRequiredProjection statement) = (do
      let sorted ← orderGroups std statement
        ((groupsOf statement rows).map (groupResult statement))
      return ⟨names, truncateRows statement.limit (sorted.map SortRow.row)⟩) := by
  have hloop : foldRows (groupBody statement) rows [] =
      .ok ((groupsOf statement rows).map (groupEntry statement)) := by
    have hnone : ∀ g ∈ ([] : List (Gathered Row)), GoodRow schema statement g.first := by
      intro g hg
      cases hg
    exact foldRows_groupBody hbound hrows hnone
  have hresults : ((groupsOf statement rows).map (groupEntry statement)).mapM
      (fun entry => groupRow statement entry.2) =
      .ok ((groupsOf statement rows).map (groupResult statement)) := by
    rw [Result.mapM_eq_ok, List.forall₂_map_left_iff, List.forall₂_map_right_iff,
      List.forall₂_same]
    intro g _
    exact groupRow_eq hbound g
  unfold executeGroupedAggregateSelect
  simp only [hbuilt, Result.ok_bind, overCursor_eq (readsOnly_groupBody statement) hreads hfuel,
    hloop, hresults]

/-! ## One group of all rows -/

private def aggregateOf : BoundSelectItem → AggregateKind × BoundExpression × ExpressionType
  | .expression e => (.count, e, .null)
  | .aggregate kind e resultType => (kind, e, resultType)

private theorem foldRows_globalBody (hbound : Bound schema statement)
    (hall : ∀ item ∈ statement.selectItems, item.isAggregate = true)
    (hrows : ∀ r ∈ rows, GoodRow schema statement r) (seen : List Row) :
    foldRows (globalBody statement (statement.selectItems.map aggregateOf)) rows
        (statement.selectItems.map fun item => aggregateState item seen) =
      .ok (statement.selectItems.map fun item =>
        aggregateState item (seen ++ passing statement rows)) := by
  induction rows generalizing seen with
  | nil => simp [foldRows, passing]
  | cons r rest ih =>
    have hr := hrows r List.mem_cons_self
    have hrest := ih fun x hx => hrows x (List.mem_cons_of_mem r hx)
    simp only [foldRows, globalBody, hr.passesWhere_eq hbound, Result.ok_bind]
    cases hholds : holds statement r with
    | false =>
      have hpassing : passing statement (r :: rest) = passing statement rest := by
        simp [passing, hholds]
      rw [hpassing]
      exact hrest seen
    | true =>
      have hpassing : passing statement (r :: rest) = r :: passing statement rest := by
        simp [passing, hholds]
      have hupdate : ((statement.selectItems.map aggregateOf).zip
          (statement.selectItems.map fun item => aggregateState item seen)).mapM
          (fun entry => updateAggregate (rowValue r) entry.1 entry.2) =
          .ok (statement.selectItems.map fun item => aggregateState item (seen ++ [r])) := by
        rw [Result.mapM_eq_ok, List.zip_map', List.forall₂_map_left_iff,
          List.forall₂_map_right_iff, List.forall₂_same]
        intro item hitem
        have haggregate := hall item hitem
        have hupdated := updateItem_eq hbound hr hitem (aggregateState item seen)
        cases item with
        | expression e => cases haggregate
        | aggregate kind e resultType =>
          simp only [aggregateState, List.foldl_append, List.foldl_cons, List.foldl_nil]
          exact hupdated
      simp only [Bool.not_true, Bool.false_eq_true, if_false, hupdate, Result.ok_bind,
        Result.pure_eq, hpassing]
      rw [hrest (seen ++ [r]), List.append_assoc, List.singleton_append]

/-- A global aggregate SELECT has one row, for all rows that pass WHERE. -/
theorem executeGlobalAggregateSelect_eq (hbound : Bound schema statement)
    (hall : ∀ item ∈ statement.selectItems, item.isAggregate = true)
    (hbuilt : buildCursorForSelect engine statement (collectRequiredProjection statement) false =
      .ok built)
    (hreads : ReadsBuilt (collectRequiredProjection statement) built rows)
    (hrows : ∀ r ∈ rows, GoodRow schema statement r) (hfuel : rows.length ≤ fuel) :
    executeGlobalAggregateSelect engine fuel statement names
        (collectRequiredProjection statement) =
      .ok ⟨names, if statement.limit.all fun n => decide (0 < n) then
        [statement.selectItems.map fun item => aggregateResult item (passing statement rows)]
        else []⟩ := by
  have haggregates : statement.selectItems.mapM globalAggregate =
      .ok (statement.selectItems.map aggregateOf) := by
    apply Result.mapM_eq_map
    intro item hitem
    have haggregate := hall item hitem
    cases item with
    | expression e => cases haggregate
    | aggregate kind e resultType => rfl
  have hreadsOnly := readsOnly_aggregates haggregates
  have hinitial : (statement.selectItems.map aggregateOf).map
      (fun _ => ({} : GlobalAggregateState)) =
      statement.selectItems.map fun item => aggregateState item [] := by
    rw [List.map_map]
    rfl
  have hloop := foldRows_globalBody hbound hall hrows []
  have hrow : ((statement.selectItems.map aggregateOf).zip
      (statement.selectItems.map fun item => aggregateState item (passing statement rows))).mapM
      (fun entry => finalizeAggregateState entry.1.1 entry.1.2.2 entry.2) =
      .ok (statement.selectItems.map fun item =>
        aggregateResult item (passing statement rows)) := by
    rw [Result.mapM_eq_ok, List.zip_map', List.forall₂_map_left_iff, List.forall₂_map_right_iff,
      List.forall₂_same]
    intro item hitem
    have haggregate := hall item hitem
    cases item with
    | expression e => cases haggregate
    | aggregate kind e resultType => exact aggregateResult_eq hbound hitem _
  unfold executeGlobalAggregateSelect
  simp only [haggregates, Result.ok_bind, hbuilt, overCursor_eq hreadsOnly hreads hfuel, hinitial,
    hloop, List.nil_append, hrow, Result.pure_eq]

end Htap.Executor
