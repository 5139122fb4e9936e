import Htap.Executor.GroupLaw
import Htap.Executor.MockEngine

/-!
A SELECT with GROUP BY or aggregates has one row for each group of rows that
pass WHERE, in the order of the group keys, and every value of the row is what
its select item says about the group.
-/

namespace Htap.Properties

open Storage Htap.Parser SSTable Read Cursor Executor

variable {α : Type} [ICursor α] {std : StdSort Exception} {engine : IStorageEngine α}
  {fuel : Nat} {schema : Schema} {statement : BoundSelectStatement} {rows : List Row}
  {built : Option (α × World)}

/-! ## Groups -/

/-- Neither key is less than the other. -/
def sameKey (a b : GroupKey) : Bool :=
  decide (groupKeyLess a b = .ok false) && decide (groupKeyLess b a = .ok false)

/-- The groups of `rows`: all of them as one without GROUP BY, else those with the
same key, in ascending order of the keys. -/
inductive GroupedBy (statement : BoundSelectStatement) (rows : List Row) : List (List Row) → Prop
  | all (h : statement.groupByItems = []) : GroupedBy statement rows [rows]
  | keyed {groups : List (List Row)} (h : statement.groupByItems ≠ [])
      (ascending : groups.Pairwise fun g g' => ∀ r ∈ g, ∀ s ∈ g',
        groupKeyLess (groupKey statement r) (groupKey statement s) = .ok true)
      (exact : ∀ g ∈ groups, ∃ r ∈ g,
        g = rows.filter fun s => sameKey (groupKey statement r) (groupKey statement s))
      (covers : ∀ r ∈ rows, ∃ g ∈ groups, r ∈ g) : GroupedBy statement rows groups

/-- What a select item gives for a group: an expression has its value on every row,
an aggregate that of its law. -/
def ItemLaw (members : List Row) : BoundSelectItem → NullableResultValue → Prop
  | .expression e, v => ∀ row ∈ members, ∃ w, evaluateExpression (rowValue row) e = .ok w ∧
    compareNullableResultValues v w = .ok .eq
  | .aggregate kind e _, v => AggregateLaw kind e.type (arguments e members) v

theorem sameKey_eq (hbound : Bound schema statement) {r s : Row}
    (hr : GoodRow schema statement r) (hs : GoodRow schema statement s) :
    sameKey (groupKey statement r) (groupKey statement s) =
      decide (groupRank statement s = groupRank statement r) := by
  unfold sameKey
  rw [hr.groupKeyLess_eq hbound hs, hs.groupKeyLess_eq hbound hr, Bool.eq_iff_iff]
  simp only [Except.ok.injEq, decide_eq_false_iff_not, not_lt, Bool.and_eq_true, decide_eq_true_eq]
  exact le_antisymm_iff.symm

theorem groupedBy_groupsOf (hbound : Bound schema statement) (hkeyed : statement.groupByItems ≠ [])
    (hrows : ∀ r ∈ rows, GoodRow schema statement r) :
    GroupedBy statement (passing statement rows)
      ((groupsOf statement rows).map Gathered.members) := by
  have hof := Gathered.of_groups (groupRank statement) (passing statement rows)
  have hgood : ∀ r ∈ passing statement rows, GoodRow schema statement r :=
    fun r hr => hrows r (List.mem_filter.mp hr).1
  apply GroupedBy.keyed hkeyed
  · rw [List.pairwise_map]
    apply hof.ascending.imp_of_mem
    intro g g' hg hg' hlt r hr s hs
    obtain ⟨hrmem, hrkey⟩ := (hof.mem_members hg).mp hr
    obtain ⟨hsmem, hskey⟩ := (hof.mem_members hg').mp hs
    rw [(hgood r hrmem).groupKeyLess_eq hbound (hgood s hsmem), hrkey, hskey]
    exact congrArg Except.ok (decide_eq_true hlt)
  · intro members hmembers
    obtain ⟨g, hg, rfl⟩ := List.mem_map.mp hmembers
    refine ⟨g.first, List.mem_cons_self, ?_⟩
    rw [hof.members_eq g hg]
    apply List.filter_congr
    intro s hs
    rw [sameKey_eq hbound (hgood g.first (hof.first_mem hg)) (hgood s hs)]
    exact decide_eq_decide.mpr Iff.rfl
  · intro r hr
    obtain ⟨g, hg, hkey⟩ := hof.covers r hr
    exact ⟨g.members, List.mem_map_of_mem hg, (hof.mem_members hg).mpr ⟨hr, hkey.symm⟩⟩

/-! ## Items -/

/-- An aggregate over fewer than `2 ^ 63` good rows. -/
theorem itemLaw_aggregate (hbound : Bound schema statement) {kind : AggregateKind}
    {e : BoundExpression} {resultType : ExpressionType}
    (hitem : .aggregate kind e resultType ∈ statement.selectItems) {members : List Row}
    (hmembers : ∀ r ∈ members, GoodRow schema statement r) (hlength : members.length < 2 ^ 63) :
    ItemLaw members (.aggregate kind e resultType)
      (aggregateResult (.aggregate kind e resultType) members) := by
  obtain ⟨hwell, hresult⟩ := hbound.items _ hitem
  have hvalue : ∀ r ∈ members, evaluateExpression (rowValue r) e = .ok (valueOn r e) :=
    fun r hr => (hmembers r hr).valueOn_eq (GoodRow.item_mem hitem)
  have htyped : ∀ v ∈ arguments e members, HasStaticType e.type (some v) := by
    intro v hv
    obtain ⟨r, hr, hrv⟩ := List.mem_filterMap.mp hv
    rw [← hrv]
    exact hasStaticType_evaluateExpression (hmembers r hr).valid hwell (hvalue r hr)
  have hcount : (arguments e members).length < 2 ^ 63 :=
    (List.length_filterMap_le _ members).trans_lt hlength
  have hfinal := aggregateResult_eq hbound hitem members
  rw [aggregateState_eq hvalue] at hfinal
  exact aggregateLaw_finalize htyped hresult hcount hfinal

/-- An expression that the binder finds among the GROUP BY items. -/
theorem itemLaw_expression (hbound : Bound schema statement) {e : BoundExpression}
    (hitem : .expression e ∈ statement.selectItems)
    (hgrouped : groupedItem statement.groupByItems (.expression e) = true) {first : Row}
    (hfirst : GoodRow schema statement first) {members : List Row}
    (hmembers : ∀ r ∈ members, GoodRow schema statement r ∧
      groupRank statement r = groupRank statement first) :
    ItemLaw members (.expression e) (valueOn first e) := by
  intro row hrow
  obtain ⟨hgood, hkey⟩ := hmembers row hrow
  have hmem := GoodRow.item_mem hitem
  have hwell : WellTyped schema e := hbound.items _ hitem
  obtain ⟨key, hkeyMem, hequivalent⟩ := List.any_eq_true.mp hgrouped
  have hsame : ∀ {r : Row}, GoodRow schema statement r →
      rank (valueOn r e) = rank (valueOn r key) := by
    intro r hr
    exact (alike_of_areEquivalent hequivalent (hr.valueOn_eq hmem)
      (hr.valueOn_eq (GoodRow.groupBy_mem hkeyMem))).rank_eq
  have hkeyRank : rank (valueOn row key) = rank (valueOn first key) := by
    unfold groupRank groupKey at hkey
    rw [List.map_map, List.map_map] at hkey
    exact List.map_inj_left.mp hkey key hkeyMem
  have hcomparable := comparable_evaluateExpression hfirst.valid hgood.valid hfirst.noNaN
    hgood.noNaN hwell (hfirst.valueOn_eq hmem) (hgood.valueOn_eq hmem)
  refine ⟨valueOn row e, hgood.valueOn_eq hmem, ?_⟩
  rw [compareNullableResultValues_eq_iff hcomparable]
  calc rank (valueOn first e) = rank (valueOn first key) := hsame hfirst
    _ = rank (valueOn row key) := hkeyRank.symm
    _ = rank (valueOn row e) := (hsame hgood).symm

/-! ## The law -/

theorem all_grouped (hbound : Bound schema statement)
    (hkeyed : statement.groupByItems ≠ []) :
    ∀ item ∈ statement.selectItems, groupedItem statement.groupByItems item = true := by
  have hvalidated := hbound.validated
  have hempty : statement.groupByItems.isEmpty = false := List.isEmpty_eq_false_iff.mpr hkeyed
  simp only [validateGroupedSelect, hempty, Bool.and_false, Bool.false_eq_true, if_false]
    at hvalidated
  split at hvalidated
  · rename_i hall
    exact List.all_eq_true.mp hall
  · cases hvalidated

theorem all_aggregates (hbound : Bound schema statement)
    (hagg : hasAggregateSelectItems statement = true) (hglobal : statement.groupByItems = []) :
    ∀ item ∈ statement.selectItems, item.isAggregate = true := by
  have hvalidated := hbound.validated
  simp only [validateGroupedSelect, hagg, hglobal, List.isEmpty_nil, Bool.not_true, Bool.false_and,
    Bool.true_and, Bool.false_eq_true, if_false, if_true] at hvalidated
  split at hvalidated
  · rename_i hall
    exact List.all_eq_true.mp hall
  · cases hvalidated

/-- One row for each group, in the order of the keys, and in it what each select item says
about the group. `hrows` says that no expression fails on a row and no value is NaN, which
would be in no order with the others; COUNT is a signed counter, hence `hlength`. -/
theorem grouping_is_exact {source : SelectStatement}
    (hbind : bindSelectOver schema source = .ok statement)
    (hgrouped : statement.groupByItems ≠ [] ∨ hasAggregateSelectItems statement = true)
    (horder : statement.orderByItems = []) (hlimit : statement.limit = none)
    (hbuilt : buildCursorForSelect engine statement (collectRequiredProjection statement) false =
      .ok built)
    (hreads : ReadsBuilt (collectRequiredProjection statement) built rows)
    (hrows : ∀ r ∈ rows, GoodRow schema statement r) (hfuel : rows.length ≤ fuel)
    (hlength : rows.length < 2 ^ 63) :
    ∃ (result : SelectResult) (groups : List (List Row)),
      executeSelect std engine fuel statement = .ok result ∧
      GroupedBy statement (passing statement rows) groups ∧
      List.Forall₂ (fun members row => List.Forall₂ (ItemLaw members) statement.selectItems row)
        groups result.rows := by
  have hbound := bound_bindSelectOver hbind
  obtain ⟨names, hnames⟩ := buildSelectColumnNames_ok hbound
  have hpassing : ∀ r ∈ passing statement rows, r ∈ rows := fun r hr => (List.mem_filter.mp hr).1
  have hshorter : (passing statement rows).length < 2 ^ 63 :=
    (List.length_filter_le _ rows).trans_lt hlength
  by_cases hkeyed : statement.groupByItems = []
  · -- One group of all rows.
    have hagg := hgrouped.resolve_left (not_not_intro hkeyed)
    have hall := all_aggregates hbound hagg hkeyed
    refine ⟨⟨names, [statement.selectItems.map fun item =>
      aggregateResult item (passing statement rows)]⟩, [passing statement rows], ?_,
      GroupedBy.all hkeyed, List.Forall₂.cons ?_ List.Forall₂.nil⟩
    · simp only [executeSelect, hnames, Result.ok_bind, hagg, hkeyed, Bool.not_true,
        List.isEmpty_nil, Bool.not_false, Bool.false_and, Bool.true_and, Bool.false_eq_true,
        if_false, if_true]
      rw [executeGlobalAggregateSelect_eq hbound hall hbuilt hreads hrows hfuel, hlimit]
      rfl
    · rw [List.forall₂_map_right_iff, List.forall₂_same]
      intro item hitem
      have haggregate := hall item hitem
      cases item with
      | expression e => cases haggregate
      | aggregate kind e resultType =>
        exact itemLaw_aggregate hbound hitem (fun r hr => hrows r (hpassing r hr)) hshorter
  · have hall := all_grouped hbound hkeyed
    have hof := Gathered.of_groups (groupRank statement) (passing statement rows)
    have hisEmpty : statement.groupByItems.isEmpty = false := List.isEmpty_eq_false_iff.mpr hkeyed
    refine ⟨⟨names, (groupsOf statement rows).map fun g => (groupResult statement g).row⟩,
      (groupsOf statement rows).map Gathered.members, ?_,
      groupedBy_groupsOf hbound hkeyed hrows, ?_⟩
    · simp only [executeSelect, hnames, Result.ok_bind, hisEmpty, Bool.not_false, Bool.not_true,
        Bool.and_false, Bool.false_eq_true, if_false]
      rw [executeGroupedAggregateSelect_eq hbound hbuilt hreads hrows hfuel]
      simp only [orderGroups, horder, List.isEmpty_nil, if_true, Result.ok_bind, hlimit,
        truncateRows, List.map_map, Function.comp_def, Result.pure_eq]
    · rw [List.forall₂_map_left_iff, List.forall₂_map_right_iff, List.forall₂_same]
      intro g hg
      have hmembers : ∀ r ∈ g.members, r ∈ passing statement rows ∧
          groupRank statement r = groupRank statement g.first :=
        fun r hr => (hof.mem_members hg).mp hr
      have hgood : ∀ r ∈ g.members, GoodRow schema statement r :=
        fun r hr => hrows r (hpassing r (hmembers r hr).1)
      have hmembersLength : g.members.length < 2 ^ 63 := by
        rw [hof.members_eq g hg]
        exact (List.length_filter_le _ _).trans_lt hshorter
      rw [groupResult, List.forall₂_map_right_iff, List.forall₂_same]
      intro item hitem
      cases item with
      | expression e =>
        exact itemLaw_expression hbound hitem (hall _ hitem) (hgood g.first List.mem_cons_self)
          fun r hr => ⟨hgood r hr, (hmembers r hr).2⟩
      | aggregate kind e resultType =>
        exact itemLaw_aggregate hbound hitem hgood hmembersLength

/-! ## On fixed rows -/

/-- An engine whose cursors yield the same rows whatever is asked of them. -/
def cursorOver (rows : List Row) : IStorageEngine MockCursor where
  tableExists _ := true
  getTableSchema _ := .ok pairSchema
  get _ _ _ := .ok (⟨rows, none⟩, emptyWorld)
  scan _ _ _ _ _ _ := .ok (⟨rows, none⟩, emptyWorld)

theorem reads_cursorOver (pairs : List (Int64 × Int64)) {projection : List Nat}
    (hprojection : ∀ i ∈ projection, i < 2) :
    ReadsBuilt projection (some ((⟨pairs.map pairRow, none⟩ : MockCursor), emptyWorld))
      (pairs.map pairRow) := by
  have hwidth : ∀ row ∈ pairs.map pairRow, ∀ i ∈ projection, i < row.length := by
    intro row hrow i hi
    obtain ⟨pair, -, rfl⟩ := List.mem_map.mp hrow
    exact hprojection i hi
  have hreads := MockCursor.reads (pairs.map pairRow) none emptyWorld hwidth
  have hall : (pairs.map pairRow).takeWhile (fun r => SortedMap.before none (rowKey r)) =
      pairs.map pairRow := List.takeWhile_eq_self_iff.mpr fun _ _ => rfl
  rwa [hall] at hreads

/-- `SELECT v, COUNT(id), MAX(id) FROM t GROUP BY v`. -/
def selectGroups : SelectStatement where
  tableName := pairTable
  selectItems := [.expression (.column [118]), .aggregate .count (.column [105, 100]),
    .aggregate .max (.column [105, 100])]
  groupByItems := [.column [118]]

def boundSelectGroups : BoundSelectStatement where
  tableName := pairTable
  schema := pairSchema
  selectItems := [.expression (.column 1 .int64), .aggregate .count (.column 0 .int64) .int64,
    .aggregate .max (.column 0 .int64) .int64]
  groupByItems := [.column 1 .int64]

/-- On a row of two numbers, columns raise no error. -/
theorem goodRow_pairRow {statement : BoundSelectStatement} (pair : Int64 × Int64)
    (hcolumns : ∀ e ∈ statement.expressions, ∃ i valueType, e = .column i valueType) :
    GoodRow pairSchema statement (pairRow pair) := by
  constructor
  · exact validRow_pairRow pair
  · intro d hd
    rcases List.mem_cons.mp hd with h | h
    · cases h
    · cases List.mem_singleton.mp h
  · intro e he
    obtain ⟨i, valueType, rfl⟩ := hcolumns e he
    exact ⟨_, rfl⟩

theorem grouping_of_three_rows :
    ∃ (result : SelectResult) (groups : List (List Row)),
      executeSelect (StdSort.insertion Exception)
        (cursorOver ([(1, 7), (2, 5), (3, 7)].map pairRow))
        3 boundSelectGroups = .ok result ∧
      GroupedBy boundSelectGroups
        (passing boundSelectGroups ([(1, 7), (2, 5), (3, 7)].map pairRow)) groups ∧
      List.Forall₂ (fun members row => List.Forall₂ (ItemLaw members)
        boundSelectGroups.selectItems row) groups result.rows := by
  have hbind : bindSelectOver pairSchema selectGroups = .ok boundSelectGroups := rfl
  have hbuilt : buildCursorForSelect (cursorOver ([(1, 7), (2, 5), (3, 7)].map pairRow))
      boundSelectGroups (collectRequiredProjection boundSelectGroups) false =
      .ok (some (⟨[(1, 7), (2, 5), (3, 7)].map pairRow, none⟩, emptyWorld)) := rfl
  have hreads := @reads_cursorOver [(1, 7), (2, 5), (3, 7)]
    (collectRequiredProjection boundSelectGroups) (by decide)
  apply grouping_is_exact hbind (Or.inl (List.cons_ne_nil _ _)) rfl rfl hbuilt hreads
  · intro r hr
    obtain ⟨pair, -, rfl⟩ := List.mem_map.mp hr
    apply goodRow_pairRow
    simp [BoundSelectStatement.expressions, boundSelectGroups, BoundSelectItem.argument]
  · exact le_rfl
  · decide

/-- `SELECT COUNT(id) FROM t`. -/
def selectCount : SelectStatement where
  tableName := pairTable
  selectItems := [.aggregate .count (.column [105, 100])]

def boundSelectCount : BoundSelectStatement where
  tableName := pairTable
  schema := pairSchema
  selectItems := [.aggregate .count (.column 0 .int64) .int64]

/-- `n` rows with the keys `0, 1, ..., n - 1`. -/
def countedRows (n : Nat) : List Row :=
  ((List.range n).map fun i => (Int64.ofNat i, (0 : Int64))).map pairRow

private theorem goodRow_countedRows (n : Nat) :
    ∀ r ∈ countedRows n, GoodRow pairSchema boundSelectCount r := by
  intro r hr
  obtain ⟨pair, -, rfl⟩ := List.mem_map.mp hr
  apply goodRow_pairRow
  simp [BoundSelectStatement.expressions, boundSelectCount, BoundSelectItem.argument]

private theorem arguments_countedRows (n : Nat) :
    (arguments (.column 0 .int64) (countedRows n)).length = n := by
  have hall : arguments (.column 0 .int64) (countedRows n) =
      (List.range n).map fun i => ResultValue.int64 (Int64.ofNat i) := by
    unfold arguments countedRows
    rw [List.map_map, List.filterMap_map, ← List.filterMap_eq_map]
    rfl
  rw [hall, List.length_map, List.length_range]

private theorem passing_countedRows (n : Nat) :
    passing boundSelectCount (countedRows n) = countedRows n := by
  unfold passing
  rw [List.filter_eq_self]
  intro r _
  rfl

/-- What COUNT says about `n` rows. -/
private theorem executeSelect_countedRows (n : Nat) {count : Int64} (h : Int64.ofInt n = count) :
    executeSelect (StdSort.insertion Exception) (cursorOver (countedRows n)) n boundSelectCount =
      .ok ⟨[text "count(id)"], [[some (.int64 count)]]⟩ := by
  have hbound : Bound pairSchema boundSelectCount :=
    bound_bindSelectOver
      (show bindSelectOver pairSchema selectCount = .ok boundSelectCount from rfl)
  have hnames : buildSelectColumnNames boundSelectCount = .ok [text "count(id)"] := by
    decide +kernel
  have hreads : ReadsBuilt (collectRequiredProjection boundSelectCount)
      (some ((⟨countedRows n, none⟩ : MockCursor), emptyWorld)) (countedRows n) :=
    reads_cursorOver _ (by decide)
  have hlength : (countedRows n).length ≤ n := by simp [countedRows]
  have hvalue : ∀ r ∈ countedRows n, evaluateExpression (rowValue r) (.column 0 .int64) =
      .ok (valueOn r (.column 0 .int64)) := fun _ _ => rfl
  have htyped : ∀ v ∈ arguments (.column 0 .int64) (countedRows n),
      HasStaticType .int64 (some v) := by
    intro v hv
    obtain ⟨r, hr, hrv⟩ := List.mem_filterMap.mp hv
    obtain ⟨pair, -, rfl⟩ := List.mem_map.mp hr
    cases hrv
    trivial
  have hcount : aggregateResult (.aggregate .count (.column 0 .int64) .int64) (countedRows n) =
      some (.int64 count) := by
    have hstate := count_foldl htyped (show getAggregateResultType .count .int64 = .ok .int64
      from rfl) {}
    rw [arguments_countedRows, ← aggregateState_eq hvalue,
      show ({} : GlobalAggregateState).count = 0 from rfl, Int64.zero_add] at hstate
    simp only [aggregateResult, finalizeAggregateState, valueOr, hstate, h]
  have hglobal := @executeGlobalAggregateSelect_eq pairSchema boundSelectCount MockCursor _
    (cursorOver (countedRows n)) n _ _ [text "count(id)"] hbound (by decide) rfl hreads
    (goodRow_countedRows n) hlength
  have hdispatch : executeSelect (StdSort.insertion Exception) (cursorOver (countedRows n)) n
      boundSelectCount = executeGlobalAggregateSelect (cursorOver (countedRows n)) n
        boundSelectCount [text "count(id)"] (collectRequiredProjection boundSelectCount) := by
    simp only [executeSelect, hnames, Result.ok_bind]
    rfl
  rw [hdispatch, hglobal, passing_countedRows]
  simp only [boundSelectCount, List.map_cons, List.map_nil, hcount, Option.all_none, if_true]

/-- No number of rows is negative. -/
private theorem not_itemLaw_minValue (n : Nat) :
    ¬ ItemLaw (passing boundSelectCount (countedRows n))
      (.aggregate .count (.column 0 .int64) .int64) (some (.int64 Int64.minValue)) := by
  intro hlaw
  obtain ⟨counted, hcounted, hlength⟩ := AggregateLaw.count hlaw rfl
  cases hcounted
  rw [Int64.toInt_minValue] at hlength
  omega

/-- `2 ^ 63` rows with different keys are counted as `-2 ^ 63`. -/
theorem count_of_too_many_rows :
    bindSelectOver pairSchema selectCount = .ok boundSelectCount ∧
      (∀ r ∈ countedRows (2 ^ 63), GoodRow pairSchema boundSelectCount r) ∧
      executeSelect (StdSort.insertion Exception) (cursorOver (countedRows (2 ^ 63))) (2 ^ 63)
        boundSelectCount = .ok ⟨[text "count(id)"], [[some (.int64 Int64.minValue)]]⟩ ∧
      ¬ ItemLaw (passing boundSelectCount (countedRows (2 ^ 63)))
        (.aggregate .count (.column 0 .int64) .int64) (some (.int64 Int64.minValue)) := by
  refine ⟨rfl, goodRow_countedRows _, ?_, ?_⟩
  · exact executeSelect_countedRows _ (by decide)
  · exact not_itemLaw_minValue _

end Htap.Properties
