import Htap.Executor.Consistent
import Htap.Executor.PairTable
import Htap.Properties.SameAnswers
import Htap.Properties.StaticTypes

/-!
How a SELECT can fail. Whatever the table went through, opening its SSTables, reading them
through the caches, merging, grouping and sorting raise nothing. What is left is a key that
WHERE compares with a literal of another type, and an operand of a wrong type on some row.
-/

namespace Htap.Properties

open Storage SSTable Read Cursor Words Executor Htap.Tree Htap.Tree.Session Htap.Parser

variable {schema : Schema} {statement : BoundSelectStatement} {rows found : List Row} {fuel : Nat}
  {names : List Bytes} {x : Exception}

/-- How a SELECT from a table of these rows ends. -/
inductive Ending (statement : BoundSelectStatement) (rows : List Row) : Result SelectResult → Prop
  | returns (result : SelectResult) : Ending statement rows (.ok result)
  | mistypedKey (h : ∃ e ∈ conjuncts statement, MistypesKey statement.schema e) :
    Ending statement rows (.error .badVariantAccess)
  | evaluation {x : Exception} (hlisted : x ∈ evaluationErrors)
    (h : EvaluationRaises statement rows x) : Ending statement rows (.error x)

theorem EvaluationRaises.listed (h : EvaluationRaises statement rows x) : x ∈ evaluationErrors := by
  obtain ⟨row, -, e, -, herror⟩ := h
  exact mem_evaluationErrors herror

/-! ## Sorting -/

/-- The sort keys of one of the rows. -/
def KeysOf (statement : BoundSelectStatement) (rows : List Row)
    (keys : List NullableResultValue) : Prop :=
  ∃ row ∈ rows, orderByValues statement (rowValue row) = .ok keys

/-- Rows can be sorted by the keys they were given. -/
private theorem sortRows_ok (std : StdSort Exception) (hbound : Bound schema statement)
    (hvalid : ∀ row ∈ rows, ValidRow schema row) (hnan : ∀ row ∈ rows, NoNaN row)
    {sorted : List SortRow} (hkeys : ∀ y ∈ sorted, KeysOf statement rows y.sortKeys) :
    ∃ out, sortRows std statement sorted = .ok out := by
  have hdecides : Decides
      (fun y z : SortRow => sortKeysLess (directions statement) y.sortKeys z.sortKeys)
      (fun y z => @decide (orderKey (directions statement) y.sortKeys <
        orderKey (directions statement) z.sortKeys) (LinearOrder.toDecidableLT _ _)) sorted := by
    intro y hy z hz
    obtain ⟨r, hr, hry⟩ := hkeys y hy
    obtain ⟨s, hs, hsz⟩ := hkeys z hz
    have hless := sortKeysLess_rows hbound (hvalid r hr) (hvalid s hs) (hnan r hr) (hnan s hs)
      (orderable_of_orderByValues hry) (orderable_of_orderByValues hsz)
    have hyvalues : sortValues statement r = y.sortKeys := by simp [sortValues, hry, valueOr]
    have hzvalues : sortValues statement s = z.sortKeys := by simp [sortValues, hsz, valueOr]
    rwa [rowOrder, rowOrder, hyvalues, hzvalues] at hless
  obtain ⟨out, hsort, -, -⟩ :=
    std.sorts_key (fun y : SortRow => orderKey (directions statement) y.sortKeys) hdecides
  exact ⟨out, hsort⟩

/-! ## The three paths -/

section

variable {α : Type} [ICursor α] {engine : IStorageEngine α} {built : Option (α × World)}

private theorem keysOf_plainBody {requiresKeyAsc early : Bool} {state : PlainState}
    (h : foldRows (plainBody statement requiresKeyAsc early) found {} = .ok state) :
    ∀ y ∈ state.sortedRows, KeysOf statement found y.sortKeys := by
  refine foldRows_invariant (P := fun s : PlainState =>
    ∀ y ∈ s.sortedRows, KeysOf statement found y.sortKeys) ?_ ?_ h
  · intro row hrow s s' stop hs hbody
    obtain ⟨passes, -, hbody⟩ := Result.bind_eq_ok.mp hbody
    split at hbody
    · cases hbody
      exact hs
    obtain ⟨values, -, hbody⟩ := Result.bind_eq_ok.mp hbody
    split at hbody
    · cases hbody
      exact hs
    · obtain ⟨keys, hkeys, hbody⟩ := Result.bind_eq_ok.mp hbody
      cases hbody
      intro y hy
      rcases List.mem_append.mp hy with hy | hy
      · exact hs y hy
      · rw [List.mem_singleton.mp hy]
        exact ⟨row, hrow, hkeys⟩
  · intro y hy
    cases hy

private theorem raises_plain (std : StdSort Exception) (hbound : Bound schema statement)
    (hplain : hasAggregateSelectItems statement = false)
    (hvalid : ∀ row ∈ found, ValidRow schema row) (hnan : ∀ row ∈ found, NoNaN row)
    (hbuilt : buildCursorForSelect engine statement (collectRequiredProjection statement)
      (isRequiredKeyAsc statement) = .ok built)
    (hreads : ReadsBuilt (collectRequiredProjection statement) built found)
    (hfuel : found.length ≤ fuel) {early : Bool}
    (h : executePlainSelect std engine fuel statement names (collectRequiredProjection statement)
      early = .error x) : EvaluationRaises statement found x := by
  unfold executePlainSelect at h
  simp only [hbuilt, Result.ok_bind] at h
  cases built with
  | none => cases h
  | some cursor =>
    obtain ⟨c, w⟩ := cursor
    have hread : Reads (collectRequiredProjection statement) c w found := hreads
    rcases Result.bind_eq_error.mp h with hloop | ⟨state, hstate, h⟩
    · exact (loopsRaise hbound hread (fun row hrow => (hvalid row hrow).typed) hfuel x).plain
        hplain _ _ hloop
    rw [whileValid_eq (readsOnly_plainBody statement _ _) hread hfuel] at hstate
    obtain ⟨out, hout⟩ := sortRows_ok std hbound hvalid hnan (keysOf_plainBody hstate)
    simp only [finishPlain, plainRows, hout] at h
    split at h <;> cases h

private theorem finalize_ok (hbound : Bound schema statement)
    {kind : AggregateKind} {e : BoundExpression} {resultType : ExpressionType}
    (hitem : .aggregate kind e resultType ∈ statement.selectItems)
    (state : GlobalAggregateState) : finalizeAggregateState kind resultType state ≠ .error x := by
  obtain ⟨v, hv⟩ := (valuesTaken hbound).finalize kind e resultType hitem state
  rw [hv]
  intro hfails
  cases hfails

private theorem raises_total (hbound : Bound schema statement)
    (hagg : hasAggregateSelectItems statement = true) (hglobal : statement.groupByItems = [])
    (hvalid : ∀ row ∈ found, ValidRow schema row)
    (hbuilt : buildCursorForSelect engine statement (collectRequiredProjection statement) false =
      .ok built)
    (hreads : ReadsBuilt (collectRequiredProjection statement) built found)
    (hfuel : found.length ≤ fuel)
    (h : executeGlobalAggregateSelect engine fuel statement names
      (collectRequiredProjection statement) = .error x) : EvaluationRaises statement found x := by
  rcases Result.bind_eq_error.mp h with hitems | ⟨aggregates, haggregates, h⟩
  · obtain ⟨item, hitem, herror⟩ := Result.exists_of_mapM_error hitems
    have haggregate := all_aggregates hbound hagg hglobal item hitem
    cases item with
    | expression e => cases haggregate
    | aggregate kind e resultType => cases herror
  simp only [hbuilt, Result.ok_bind] at h
  rcases Result.bind_eq_error.mp h with hloop | ⟨states, -, h⟩
  · cases built with
    | none => cases hloop
    | some cursor =>
      obtain ⟨c, w⟩ := cursor
      exact (loopsRaise hbound hreads (fun row hrow => (hvalid row hrow).typed) hfuel x).global
        aggregates haggregates hloop
  rcases Result.bind_eq_error.mp h with hrow | ⟨row, -, h⟩
  · obtain ⟨⟨⟨kind, e, resultType⟩, state⟩, hentry, herror⟩ := Result.exists_of_mapM_error hrow
    obtain ⟨item, hitem, haggregate⟩ :=
      Result.exists_of_mem_mapM haggregates (List.of_mem_zip hentry).1
    cases item with
    | expression e => cases haggregate
    | aggregate kind' e' resultType' =>
      cases haggregate
      exact absurd herror (finalize_ok hbound hitem state)
  · cases h

/-- What groups are made with and what updates keep, the map of the groups keeps. -/
private theorem enterGroup_keeps {P : GroupState → Prop} {key : GroupKey}
    {fresh : Result GroupState} {update : GroupState → Result GroupState} {groups groups' : Groups}
    (hfresh : ∀ g, fresh = .ok g → P g) (hupdate : ∀ g g', P g → update g = .ok g' → P g')
    (hgroups : ∀ entry ∈ groups, P entry.2) (h : enterGroup key fresh update groups = .ok groups') :
    ∀ entry ∈ groups', P entry.2 := by
  induction groups generalizing groups' with
  | nil =>
    obtain ⟨g, hg, h⟩ := Result.bind_eq_ok.mp h
    obtain ⟨g', hg', h⟩ := Result.bind_eq_ok.mp h
    cases h
    simp only [List.mem_singleton, forall_eq]
    exact hupdate g g' (hfresh g hg) hg'
  | cons head rest ih =>
    obtain ⟨hhead, hrest⟩ := List.forall_mem_cons.mp hgroups
    obtain ⟨before, -, h⟩ := Result.bind_eq_ok.mp h
    split at h
    · obtain ⟨g, hg, h⟩ := Result.bind_eq_ok.mp h
      obtain ⟨g', hg', h⟩ := Result.bind_eq_ok.mp h
      cases h
      exact List.forall_mem_cons.mpr ⟨hupdate g g' (hfresh g hg) hg', hgroups⟩
    obtain ⟨after, -, h⟩ := Result.bind_eq_ok.mp h
    split at h
    · obtain ⟨rest', hrest', h⟩ := Result.bind_eq_ok.mp h
      cases h
      exact List.forall_mem_cons.mpr ⟨hhead, ih hrest hrest'⟩
    · obtain ⟨g', hg', h⟩ := Result.bind_eq_ok.mp h
      cases h
      exact List.forall_mem_cons.mpr ⟨hupdate _ g' hhead hg', hrest⟩

private theorem keysOf_groupBody {groups : Groups}
    (h : foldRows (groupBody statement) found [] = .ok groups) :
    ∀ entry ∈ groups, KeysOf statement found entry.2.orderByValues := by
  refine foldRows_invariant (P := fun groups : Groups =>
    ∀ entry ∈ groups, KeysOf statement found entry.2.orderByValues) ?_ ?_ h
  · intro row hrow groups groups' stop hgroups hbody
    obtain ⟨passes, -, hbody⟩ := Result.bind_eq_ok.mp hbody
    split at hbody
    · cases hbody
      exact hgroups
    obtain ⟨key, -, hbody⟩ := Result.bind_eq_ok.mp hbody
    obtain ⟨entered, hentered, hbody⟩ := Result.bind_eq_ok.mp hbody
    cases hbody
    refine enterGroup_keeps (P := fun g => KeysOf statement found g.orderByValues) ?_ ?_ hgroups
      hentered
    · intro g hnew
      obtain ⟨values, -, hnew⟩ := Result.bind_eq_ok.mp hnew
      obtain ⟨keys, hkeys, hnew⟩ := Result.bind_eq_ok.mp hnew
      cases hnew
      exact ⟨row, hrow, hkeys⟩
    · intro g g' hg hupdate
      obtain ⟨states, -, hupdate⟩ := Result.bind_eq_ok.mp hupdate
      cases hupdate
      exact hg
  · intro entry hentry
    cases hentry

private theorem raises_grouped (std : StdSort Exception) (hbound : Bound schema statement)
    (hvalid : ∀ row ∈ found, ValidRow schema row) (hnan : ∀ row ∈ found, NoNaN row)
    (hbuilt : buildCursorForSelect engine statement (collectRequiredProjection statement) false =
      .ok built)
    (hreads : ReadsBuilt (collectRequiredProjection statement) built found)
    (hfuel : found.length ≤ fuel)
    (h : executeGroupedAggregateSelect std engine fuel statement names
      (collectRequiredProjection statement) = .error x) : EvaluationRaises statement found x := by
  unfold executeGroupedAggregateSelect at h
  simp only [hbuilt, Result.ok_bind] at h
  rcases Result.bind_eq_error.mp h with hloop | ⟨groups, hgroups, h⟩
  · cases built with
    | none => cases hloop
    | some cursor =>
      obtain ⟨c, w⟩ := cursor
      exact (loopsRaise hbound hreads (fun row hrow => (hvalid row hrow).typed) hfuel x).grouped
        hloop
  have hkeys : ∀ entry ∈ groups, KeysOf statement found entry.2.orderByValues := by
    cases built with
    | none =>
      cases hgroups
      intro entry hentry
      cases hentry
    | some cursor =>
      obtain ⟨c, w⟩ := cursor
      have hread : Reads (collectRequiredProjection statement) c w found := hreads
      change whileValid _ fuel c w _ = _ at hgroups
      rw [whileValid_eq (readsOnly_groupBody statement) hread hfuel] at hgroups
      exact keysOf_groupBody hgroups
  rcases Result.bind_eq_error.mp h with hrows | ⟨results, hresults, h⟩
  · obtain ⟨entry, -, hrow⟩ := Result.exists_of_mapM_error hrows
    rcases Result.bind_eq_error.mp hrow with hitems | ⟨row, -, hrow⟩
    · obtain ⟨⟨item, value, state⟩, hentry, herror⟩ := Result.exists_of_mapM_error hitems
      have hitem := (List.of_mem_zip hentry).1
      cases item with
      | expression e => cases herror
      | aggregate kind e resultType => exact absurd herror (finalize_ok hbound hitem state)
    · cases hrow
  have hsorted : ∀ y ∈ results, KeysOf statement found y.sortKeys := by
    intro y hy
    obtain ⟨entry, hentry, hrow⟩ := Result.exists_of_mem_mapM hresults hy
    obtain ⟨row, -, hrow⟩ := Result.bind_eq_ok.mp hrow
    cases hrow
    exact hkeys entry hentry
  obtain ⟨out, hout⟩ := sortRows_ok std hbound hvalid hnan hsorted
  simp only [orderGroups, hout] at h
  split at h <;> cases h

/-! ## The whole SELECT -/

private theorem globalAggregates_ok (hbound : Bound schema statement)
    (hagg : hasAggregateSelectItems statement = true) (hglobal : statement.groupByItems = []) :
    ∃ aggregates, statement.selectItems.mapM globalAggregate = .ok aggregates := by
  cases hitems : statement.selectItems.mapM globalAggregate with
  | ok aggregates => exact ⟨aggregates, rfl⟩
  | error y =>
    obtain ⟨item, hitem, herror⟩ := Result.exists_of_mapM_error hitems
    have haggregate := all_aggregates hbound hagg hglobal item hitem
    cases item with
    | expression e => cases haggregate
    | aggregate kind e resultType => cases herror

/-- A SELECT whose plan fails fails with the error of the plan. -/
private theorem executeSelect_unplanned (std : StdSort Exception) (hbound : Bound schema statement)
    (hplan : planConjuncts statement.schema {} (conjuncts statement) = .error x) :
    executeSelect std engine fuel statement = .error x := by
  obtain ⟨names, hnames⟩ := buildSelectColumnNames_ok hbound
  by_cases hkeyed : statement.groupByItems = []
  · cases hagg : hasAggregateSelectItems statement with
    | false =>
      rw [executeSelect_plain hagg hkeyed, hnames, Result.ok_bind, executePlainSelect,
        buildCursorForSelect_of_plan_error hplan]
      rfl
    | true =>
      obtain ⟨aggregates, haggregates⟩ := globalAggregates_ok hbound hagg hkeyed
      rw [executeSelect_total hnames hagg hkeyed, executeGlobalAggregateSelect, haggregates,
        Result.ok_bind, buildCursorForSelect_of_plan_error hplan]
      rfl
  · rw [executeSelect_grouped hnames hkeyed, executeGroupedAggregateSelect,
      buildCursorForSelect_of_plan_error hplan]
    rfl

/-- Over an engine that serves the rows, a SELECT returns or fails for a reason of its own. -/
theorem ending_of_skipsRows (std : StdSort Exception)
    (hserves : SkipsRows engine statement.tableName schema rows) (hbound : Bound schema statement)
    (hschema : schema.WellFormed) (hliterals : (buildDataSkippingFilter statement).Ordered)
    (hvalid : ∀ row ∈ rows, ValidRow schema row) (hnan : ∀ row ∈ rows, NoNaN row)
    (hfuel : rows.length ≤ fuel) :
    Ending statement rows (executeSelect std engine fuel statement) := by
  cases hrun : executeSelect std engine fuel statement with
  | ok result => exact .returns result
  | error x =>
    cases hplan : planConjuncts statement.schema {} (conjuncts statement) with
    | error y =>
      rw [executeSelect_unplanned std hbound hplan] at hrun
      cases hrun
      obtain ⟨rfl, hkey⟩ := planConjuncts_error hbound.conjuncts hplan
      exact .mistypedKey hkey
    | ok plan =>
      have hopen := hserves.exists_found hbound hschema hliterals hvalid hnan hplan
      have hraises : ∀ {found : List Row}, (∀ row ∈ found, row ∈ rows) →
          EvaluationRaises statement found x → Ending statement rows (.error x) := by
        rintro found hsub ⟨row, hrow, hraises⟩
        have hraised : EvaluationRaises statement rows x := ⟨row, hsub row hrow, hraises⟩
        exact .evaluation hraised.listed hraised
      obtain ⟨names, hnames⟩ := buildSelectColumnNames_ok hbound
      by_cases hkeyed : statement.groupByItems = []
      · cases hagg : hasAggregateSelectItems statement with
        | false =>
          obtain ⟨built, found, hbuilt, hreads, hfound⟩ := hopen (isRequiredKeyAsc statement)
          rw [executeSelect_plain hagg hkeyed, hnames, Result.ok_bind] at hrun
          apply hraises hfound.sub
          exact raises_plain std hbound hagg (fun row hrow => hvalid row (hfound.sub row hrow))
            (fun row hrow => hnan row (hfound.sub row hrow)) hbuilt hreads
            (hfound.few.trans hfuel) hrun
        | true =>
          obtain ⟨built, found, hbuilt, hreads, hfound⟩ := hopen false
          rw [executeSelect_total hnames hagg hkeyed] at hrun
          apply hraises hfound.sub
          exact raises_total hbound hagg hkeyed (fun row hrow => hvalid row (hfound.sub row hrow))
            hbuilt hreads (hfound.few.trans hfuel) hrun
      · obtain ⟨built, found, hbuilt, hreads, hfound⟩ := hopen false
        rw [executeSelect_grouped hnames hkeyed] at hrun
        apply hraises hfound.sub
        exact raises_grouped std hbound (fun row hrow => hvalid row (hfound.sub row hrow))
          (fun row hrow => hnan row (hfound.sub row hrow)) hbuilt hreads (hfound.few.trans hfuel)
          hrun

end

/-! ## Tables of the LSM engine -/

section

variable {tables : Bytes → Option LSMTree} {start s : Session} {source : SelectStatement}

private theorem ending_of_reached (std : StdSort Exception)
    (h : Reached tables source.tableName start s)
    (hbind : bindSelect (lsmStorageEngine tables) source = .ok statement)
    (hliterals : (buildDataSkippingFilter statement).Ordered) (hfuel : s.inserted.length ≤ fuel)
    (hrows : RowsOf s rows) :
    Ending statement rows (executeSelect std (lsmStorageEngine tables) fuel statement) := by
  obtain ⟨hschema, -⟩ := h.exists_rows
  obtain ⟨hbound, -⟩ := h.bound hbind
  have hserves := h.skipsRows hbind hrows
  exact ending_of_skipsRows std hserves hbound hschema hliterals hrows.stores.valid
    (h.numbers.sub hrows.inserted.subset) (hrows.inserted.length_le.trans hfuel)

/-- In every reachable state of a table, a SELECT returns, or it fails because WHERE
compares the key with a literal of another type or because an expression fails on a row of
the table. That storage, cursors and files fail on their own is thereby excluded. -/
theorem select_fails_for_a_reason (std : StdSort Exception)
    (h : Reached tables source.tableName start s)
    (hbind : bindSelect (lsmStorageEngine tables) source = .ok statement)
    (hliterals : (buildDataSkippingFilter statement).Ordered) (hfuel : s.inserted.length ≤ fuel) :
    ∃ rows, RowsOf s rows ∧
      Ending statement rows (executeSelect std (lsmStorageEngine tables) fuel statement) := by
  obtain ⟨-, rows, hrows, -⟩ := h.exists_rows
  exact ⟨rows, hrows, ending_of_reached std h hbind hliterals hfuel hrows⟩

/-- A SELECT whose types fit never fails, whatever the table holds. `consistent` is a check
of the bound expressions alone, and `hkeys` leaves out WHERE terms that compare the key with
a literal of another type; both can be decided before anything is read. -/
theorem consistent_select_returns (std : StdSort Exception)
    (h : Reached tables source.tableName start s)
    (hbind : bindSelect (lsmStorageEngine tables) source = .ok statement)
    (hliterals : (buildDataSkippingFilter statement).Ordered)
    (hconsistent : ∀ e ∈ statement.expressions, e.consistent = true)
    (hkeys : ∀ e ∈ conjuncts statement, ¬MistypesKey statement.schema e)
    (hfuel : s.inserted.length ≤ fuel) :
    ∃ result, executeSelect std (lsmStorageEngine tables) fuel statement = .ok result := by
  obtain ⟨-, rows, hrows, -⟩ := h.exists_rows
  obtain ⟨hbound, -⟩ := h.bound hbind
  have hending := ending_of_reached std h hbind hliterals hfuel hrows
  generalize executeSelect std (lsmStorageEngine tables) fuel statement = outcome at hending ⊢
  cases hending with
  | returns result => exact ⟨result, rfl⟩
  | mistypedKey hkey =>
    obtain ⟨e, he, hmistypes⟩ := hkey
    exact absurd hmistypes (hkeys e he)
  | evaluation _ hraises =>
    obtain ⟨row, hrow, e, he, herror⟩ := hraises
    obtain ⟨v, hv⟩ := BoundExpression.evaluates (hrows.stores.valid row hrow).typed
      (hbound.wellTyped e he) (hconsistent e he)
    rw [hv] at herror
    cases herror

end

/-! ## Two SELECTs from a table of two pairs -/

/-- `SELECT id FROM t WHERE v > 'a'`. -/
private def selectMixed : SelectStatement where
  tableName := pairTable
  selectItems := [.expression (.column [105, 100])]
  whereExpression := some (.binary .greater (.column [118]) (.stringLiteral [97]))

private def boundSelectMixed : BoundSelectStatement where
  tableName := pairTable
  schema := pairSchema
  selectItems := [.expression (.column 0 .int64)]
  whereExpression :=
    some (.binary .greater (.column 1 .int64) (.literal (some (.string [97])) .string))

theorem select_fails_for_a_reason_pairs : ∃ rows, RowsOf twoPairs rows ∧
    Ending boundSelectMixed rows (executeSelect (.insertion Exception)
      (lsmStorageEngine (onlyTable pairTable twoPairs)) 2 boundSelectMixed) := by
  have hbind : bindSelect (lsmStorageEngine (onlyTable pairTable twoPairs)) selectMixed =
      .ok boundSelectMixed := bind_twoPairs rfl
  have hliterals : (buildDataSkippingFilter boundSelectMixed).Ordered := by
    intro predicate hpredicate
    cases hpredicate
  have hreached : Reached _ selectMixed.tableName _ twoPairs := reached_twoPairs
  exact select_fails_for_a_reason (.insertion Exception) hreached hbind hliterals le_rfl

theorem consistent_select_returns_pairs : ∃ result, executeSelect (.insertion Exception)
    (lsmStorageEngine (onlyTable pairTable twoPairs)) 2 boundSelectIdAbove = .ok result := by
  have hbind : bindSelect (lsmStorageEngine (onlyTable pairTable twoPairs)) selectIdAbove =
      .ok boundSelectIdAbove := bind_twoPairs rfl
  have hreached : Reached _ selectIdAbove.tableName _ twoPairs := reached_twoPairs
  refine consistent_select_returns (.insertion Exception) hreached hbind ordered_selectIdAbove
    (by decide) ?_ le_rfl
  rintro e he ⟨operation, i, value, columnOnLeft, hcomparison, ⟨column, hcolumn, hkey⟩, -⟩
  obtain rfl := List.mem_singleton.mp he
  cases hcomparison
  obtain rfl := Option.some.inj hcolumn
  cases hkey

end Htap.Properties
