import Htap.Executor.PairTable
import Htap.Properties.SameAnswers

/-!
Laws between the SELECTs of a table that its user relies on: a condition may be put in other
words, and an aggregate is that of the column that the plain SELECT returns.
-/

namespace Htap.Properties

open Storage SSTable Read Cursor Words Executor Htap.Tree Htap.Tree.Session Htap.Parser

variable {tables : Bytes → Option LSMTree} {start s : Session} {source : SelectStatement}
  {statement statement' : BoundSelectStatement} {fuel : Nat} {rows : List Row}

/-! ## Conditions in other words -/

/-- What is bound does not depend on WHERE, but for WHERE itself. -/
private theorem bindSelectOver_where {schema : Schema} {condition : Option Expression}
    (h : bindSelectOver schema source = .ok statement)
    (h' : bindSelectOver schema { source with whereExpression := condition } = .ok statement') :
    statement' = { statement with whereExpression := statement'.whereExpression } := by
  obtain ⟨items, hitems, h⟩ := Result.bind_eq_ok.mp h
  obtain ⟨_, -, h⟩ := Result.bind_eq_ok.mp h
  obtain ⟨groupBy, hgroupBy, h⟩ := Result.bind_eq_ok.mp h
  obtain ⟨orderBy, horderBy, h⟩ := Result.bind_eq_ok.mp h
  obtain ⟨⟨⟩, -, h⟩ := Result.bind_eq_ok.mp h
  obtain ⟨⟨⟩, -, h⟩ := Result.bind_eq_ok.mp h
  cases h
  obtain ⟨items', hitems', h'⟩ := Result.bind_eq_ok.mp h'
  obtain ⟨_, -, h'⟩ := Result.bind_eq_ok.mp h'
  obtain ⟨groupBy', hgroupBy', h'⟩ := Result.bind_eq_ok.mp h'
  obtain ⟨orderBy', horderBy', h'⟩ := Result.bind_eq_ok.mp h'
  obtain ⟨⟨⟩, -, h'⟩ := Result.bind_eq_ok.mp h'
  obtain ⟨⟨⟩, -, h'⟩ := Result.bind_eq_ok.mp h'
  cases h'
  obtain rfl : items = items' := Except.ok.inj (hitems.symm.trans hitems')
  obtain rfl : groupBy = groupBy' := Except.ok.inj (hgroupBy.symm.trans hgroupBy')
  obtain rfl : orderBy = orderBy' := Except.ok.inj (horderBy.symm.trans horderBy')
  rfl

/-- Conditions that are true on the same rows of the table give the same answer, whatever
lookups, ranges and skipped blocks each of them is planned with. Both have to be planned,
which `id = 2.0` is not, and to evaluate on every row. -/
theorem conditions_in_other_words (std : StdSort Exception)
    (h : Reached tables source.tableName start s) (hrows : RowsOf s rows)
    {condition : Option Expression}
    (hbind : bindSelect (lsmStorageEngine tables) source = .ok statement)
    (hbind' : bindSelect (lsmStorageEngine tables) { source with whereExpression := condition } =
      .ok statement') (hplanned : Planned statement) (hplanned' : Planned statement')
    (hholds : ∀ row ∈ rows, holds statement' row = holds statement row)
    (hdetermined : Determined s.tree.schema statement rows)
    (hdetermined' : Determined s.tree.schema statement' rows) (hfuel : rows.length ≤ fuel) :
    ∃ result result', executeSelect std (lsmStorageEngine tables) fuel statement = .ok result ∧
      executeSelect std (lsmStorageEngine tables) fuel statement' = .ok result' ∧
      SameAnswer statement result result' := by
  have h' : Reached tables { source with whereExpression := condition }.tableName start s := h
  obtain ⟨hbound, -⟩ := h.bound hbind
  obtain ⟨hbound', -⟩ := h'.bound hbind'
  have hnumbers : Numbers rows := h.numbers.sub hrows.inserted.subset
  have hserves := h.skipsRows hbind hrows
  obtain ⟨hkeyed, -⟩ := h.exists_rows
  rw [h.bindSelect_eq] at hbind
  rw [h'.bindSelect_eq] at hbind'
  have hsame := bindSelectOver_where hbind hbind'
  generalize statement'.whereExpression = w at hsame
  subst hsame
  exact sameAnswer_of_skipsRows std hserves hserves hbound hbound' hkeyed hplanned hplanned'
    hrows.stores.valid hnumbers hrows.keys (List.Perm.refl rows) hholds hdetermined hdetermined'
    hfuel

/-- `id = 2`. -/
private def idIsTwo : Expression := .binary .equal (.column [105, 100]) (.intLiteral 2)

private def boundSelectTwo : BoundSelectStatement :=
  { boundSelectIdAbove with
    whereExpression :=
      some (.binary .equal (.column 0 .int64) (.literal (some (.int64 2)) .int64)) }

private theorem bind_selectTwo : bindSelectOver pairSchema
    { selectIdAbove with whereExpression := some idIsTwo } = .ok boundSelectTwo := rfl

/-- A plain SELECT on rows of pairs, when its expressions raise no error on them. -/
private theorem determined_pairs {bound : BoundSelectStatement} (hbound : Bound pairSchema bound)
    (hplain : IsPlain bound) (hlimit : bound.limit = none) {pairs : List (Int64 × Int64)}
    (h : ∀ row ∈ pairs.map pairRow, ∀ e ∈ bound.expressions,
      ∃ v, evaluateExpression (rowValue row) e = .ok v) :
    Determined pairSchema bound (pairs.map pairRow) := by
  apply Determined.plain hplain (Or.inl hlimit)
  intro row hrow
  have hgood : GoodRow pairSchema bound row := by
    refine ⟨?_, numbers_pairs pairs row hrow, h row hrow⟩
    obtain ⟨pair, -, rfl⟩ := List.mem_map.mp hrow
    exact validRow_pairRow pair
  exact evaluates_of_goodRow hbound hplain.1 hgood

private theorem evaluates_selectTwo (pairs : List (Int64 × Int64)) : ∀ row ∈ pairs.map pairRow,
    ∀ e ∈ boundSelectTwo.expressions, ∃ v, evaluateExpression (rowValue row) e = .ok v := by
  intro row hrow e he
  obtain ⟨pair, -, rfl⟩ := List.mem_map.mp hrow
  rcases List.mem_cons.mp he with rfl | he
  · exact ⟨_, rfl⟩
  · obtain rfl := List.mem_singleton.mp he
    exact ⟨_, rfl⟩

/-- A scan for `v > 15` and a lookup of the one key that has such a value. -/
theorem conditions_in_other_words_pairs : ∃ result result',
    executeSelect (.insertion Exception) (lsmStorageEngine (onlyTable pairTable twoPairs)) 2
      boundSelectIdAbove = .ok result ∧
    executeSelect (.insertion Exception) (lsmStorageEngine (onlyTable pairTable twoPairs)) 2
      boundSelectTwo = .ok result' ∧ SameAnswer boundSelectIdAbove result result' := by
  obtain ⟨rows, hrows, hpairs⟩ := @exists_rowsOf_pairs freezingPairs [(2, 20), (1, 10)] rfl
    (by decide) (by norm_num)
  have hreached : Reached (onlyTable pairTable twoPairs) selectIdAbove.tableName _ twoPairs :=
    reached_twoPairs
  have hbind := (@bind_twoPairs selectIdAbove rfl).trans bind_selectIdAbove
  have hbindTwo := (bind_twoPairs rfl).trans bind_selectTwo
  have hplanned : Planned boundSelectIdAbove := ⟨⟨_, rfl⟩, ordered_selectIdAbove⟩
  have hplannedTwo : Planned boundSelectTwo := by
    refine ⟨⟨_, rfl⟩, ?_⟩
    intro predicate hpredicate
    cases hpredicate
  have hbound := bound_bindSelectOver bind_selectIdAbove
  have hboundTwo := bound_bindSelectOver bind_selectTwo
  apply conditions_in_other_words (.insertion Exception) hreached hrows hbind hbindTwo hplanned
    hplannedTwo
  · intro row hrow
    have hrow' := hpairs.mem_iff.mp hrow
    rcases List.mem_cons.mp hrow' with rfl | hrow'
    · decide
    · obtain rfl := List.mem_singleton.mp hrow'
      decide
  · exact (determined_pairs hbound ⟨rfl, rfl⟩ rfl (evaluates_selectIdAbove _)).perm hpairs.symm
  · exact (determined_pairs hboundTwo ⟨rfl, rfl⟩ rfl (evaluates_selectTwo _)).perm hpairs.symm
  · exact hpairs.length_eq.le

/-! ## Aggregates and columns -/

/-- `SELECT e1, .., en` without GROUP BY, ORDER BY and LIMIT. -/
def columnsOf (source : SelectStatement) (items : List (AggregateKind × Expression)) :
    SelectStatement :=
  { source with
    selectItems := items.map fun item => .expression item.2
    groupByItems := []
    orderByItems := []
    limit := none }

/-- `SELECT a1(e1), .., an(en)` of the same. -/
def aggregatesOf (source : SelectStatement) (items : List (AggregateKind × Expression)) :
    SelectStatement :=
  { columnsOf source items with selectItems := items.map fun item => .aggregate item.1 item.2 }

/-- An aggregate as it is bound. -/
private abbrev BoundAggregate : Type := AggregateKind × BoundExpression × ExpressionType

private def BoundAggregate.item (a : BoundAggregate) : BoundSelectItem :=
  .aggregate a.1 a.2.1 a.2.2

private def BoundAggregate.column (a : BoundAggregate) : BoundSelectItem := .expression a.2.1

section

variable {schema : Schema} {items : List (AggregateKind × Expression)}
  {listing totals : BoundSelectStatement}

private theorem exists_aggregates {columns aggregates : List (List BoundSelectItem)}
    (h : (items.map fun item => SelectItem.expression item.2).mapM (bindSelectItem schema) =
      .ok columns)
    (h' : (items.map fun item => SelectItem.aggregate item.1 item.2).mapM
      (bindSelectItem schema) = .ok aggregates) :
    ∃ bound : List BoundAggregate,
      List.Forall₂ (fun item a => a.1 = item.1 ∧ bindExpression schema item.2 = .ok a.2.1)
        items bound ∧
      columns.flatten = bound.map BoundAggregate.column ∧
      aggregates.flatten = bound.map BoundAggregate.item := by
  induction items generalizing columns aggregates with
  | nil =>
    cases h
    cases h'
    exact ⟨[], .nil, rfl, rfl⟩
  | cons item items ih =>
    rw [List.map_cons, List.mapM_cons] at h h'
    obtain ⟨first, hfirst, h⟩ := Result.bind_eq_ok.mp h
    obtain ⟨rest, hrest, h⟩ := Result.bind_eq_ok.mp h
    cases h
    obtain ⟨first', hfirst', h'⟩ := Result.bind_eq_ok.mp h'
    obtain ⟨rest', hrest', h'⟩ := Result.bind_eq_ok.mp h'
    cases h'
    obtain ⟨b, hb, hfirst⟩ := Result.bind_eq_ok.mp hfirst
    cases hfirst
    obtain ⟨b', hb', hfirst'⟩ := Result.bind_eq_ok.mp hfirst'
    obtain ⟨type, -, hfirst'⟩ := Result.bind_eq_ok.mp hfirst'
    cases hfirst'
    obtain rfl : b = b' := Except.ok.inj (hb.symm.trans hb')
    obtain ⟨bound, hbound, hcolumns, haggregates⟩ := ih hrest hrest'
    refine ⟨(item.1, b, type) :: bound, .cons ⟨rfl, hb⟩ hbound, ?_, ?_⟩
    · rw [List.flatten_cons, hcolumns]
      rfl
    · rw [List.flatten_cons, haggregates]
      rfl

/-- The two statements differ in their select lists only. -/
private theorem exists_bound (h : bindSelectOver schema (columnsOf source items) = .ok listing)
    (h' : bindSelectOver schema (aggregatesOf source items) = .ok totals) :
    ∃ bound : List BoundAggregate,
      List.Forall₂ (fun item a => a.1 = item.1 ∧ bindExpression schema item.2 = .ok a.2.1)
        items bound ∧
      listing.selectItems = bound.map BoundAggregate.column ∧ listing.groupByItems = [] ∧
      listing.orderByItems = [] ∧ listing.limit = none ∧
      totals = { listing with selectItems := bound.map BoundAggregate.item } := by
  obtain ⟨columns, hcolumns, h⟩ := Result.bind_eq_ok.mp h
  obtain ⟨condition, hcondition, h⟩ := Result.bind_eq_ok.mp h
  obtain ⟨groupBy, hgroupBy, h⟩ := Result.bind_eq_ok.mp h
  obtain ⟨orderBy, horderBy, h⟩ := Result.bind_eq_ok.mp h
  obtain ⟨⟨⟩, -, h⟩ := Result.bind_eq_ok.mp h
  obtain ⟨⟨⟩, -, h⟩ := Result.bind_eq_ok.mp h
  cases h
  obtain ⟨aggregates, haggregates, h'⟩ := Result.bind_eq_ok.mp h'
  obtain ⟨condition', hcondition', h'⟩ := Result.bind_eq_ok.mp h'
  obtain ⟨groupBy', hgroupBy', h'⟩ := Result.bind_eq_ok.mp h'
  obtain ⟨orderBy', horderBy', h'⟩ := Result.bind_eq_ok.mp h'
  obtain ⟨⟨⟩, -, h'⟩ := Result.bind_eq_ok.mp h'
  obtain ⟨⟨⟩, -, h'⟩ := Result.bind_eq_ok.mp h'
  cases h'
  obtain rfl : condition = condition' := Except.ok.inj (hcondition.symm.trans hcondition')
  cases hgroupBy
  cases horderBy
  cases hgroupBy'
  cases horderBy'
  obtain ⟨bound, hbound, hflat, hflat'⟩ := exists_aggregates hcolumns haggregates
  refine ⟨bound, hbound, hflat, rfl, rfl, rfl, ?_⟩
  rw [hflat']
  rfl

variable {α : Type} [ICursor α] {engine : IStorageEngine α} {built : Option (α × World)}
  {found : List Row} {names : List Bytes}

/-- Without ORDER BY and LIMIT a plain SELECT goes through its cursor once. -/
private theorem executeSelect_unordered (std : StdSort Exception) (hbound : Bound schema listing)
    (hplain : IsPlain listing) (horder : listing.orderByItems = [])
    (hlimit : listing.limit = none) (hnames : buildSelectColumnNames listing = .ok names)
    (hbuilt : buildCursorForSelect engine listing (collectRequiredProjection listing) false =
      .ok built)
    (hreads : ReadsBuilt (collectRequiredProjection listing) built found)
    (hgood : ∀ row ∈ found, GoodRow schema listing row) (hfuel : found.length ≤ fuel) :
    executeSelect std engine fuel listing =
      .ok ⟨names, (passing listing found).map (output listing)⟩ := by
  have hasc : isRequiredKeyAsc listing = false := by
    unfold isRequiredKeyAsc
    rw [horder]
  have houtputs : ∀ row ∈ found, Outputs listing row := fun row hrow =>
    (evaluates_of_goodRow hbound hplain.1 (hgood row hrow)).toOutputs
  have hdirect : (listing.orderByItems.isEmpty || false) = true := by
    rw [horder]
    rfl
  have hnever : (canApplyEarlyLimit listing && listing.limit.isSome) = false := by
    rw [hlimit, Option.isSome_none, Bool.and_false]
  have hloop := foldRows_plain hdirect houtputs (canApplyEarlyLimit listing) hnever {}
  rw [executeSelect_plain hplain.1 hplain.2, hnames, Result.ok_bind]
  unfold executePlainSelect
  simp only [hasc, hbuilt, Result.ok_bind]
  cases built with
  | none =>
    obtain rfl : found = [] := hreads
    rfl
  | some cursor =>
    obtain ⟨c, w⟩ := cursor
    dsimp only
    rw [if_neg Bool.false_ne_true, whileValid_eq (readsOnly_plainBody listing _ _) hreads hfuel,
      hloop, Result.ok_bind]
    simp [finishPlain, plainRows, horder, truncateRows, hlimit]

/-- The output of a row under a select list of expressions. -/
private theorem output_columns {bound : List BoundAggregate} {row : Row}
    (hitems : listing.selectItems = bound.map BoundAggregate.column)
    (h : GoodRow schema listing row) :
    output listing row = bound.map fun a => valueOn row a.2.1 := by
  have hvalues : listing.selectItems.mapM (plainItem (rowValue row)) =
      .ok (bound.map fun a => valueOn row a.2.1) := by
    rw [hitems, Result.mapM_eq_ok, List.forall₂_map_left_iff, List.forall₂_map_right_iff,
      List.forall₂_same]
    intro a ha
    apply h.valueOn_eq
    have hmem : BoundAggregate.column a ∈ listing.selectItems := by
      rw [hitems]
      exact List.mem_map_of_mem ha
    exact GoodRow.item_mem hmem
  rw [output, hvalues]
  rfl

/-- A column of the outputs, without its NULLs. -/
private theorem column_eq {bound : List BoundAggregate}
    (hitems : listing.selectItems = bound.map BoundAggregate.column) {members : List Row}
    (hgood : ∀ row ∈ members, GoodRow schema listing row) {i : Nat} {a : BoundAggregate}
    (ha : bound[i]? = some a) :
    ((members.map (output listing)).filterMap fun row => row[i]?.join) =
      arguments a.2.1 members := by
  rw [List.filterMap_map, arguments]
  apply List.filterMap_congr
  intro row hrow
  simp [output_columns hitems (hgood row hrow), ha]

end

private theorem exists_matching {γ δ : Type} {R : γ → δ → Prop} {xs : List γ} {ys : List δ}
    (h : List.Forall₂ R xs ys) {i : Nat} {x : γ} (hx : xs[i]? = some x) :
    ∃ y, ys[i]? = some y ∧ R x y := by
  induction h generalizing i with
  | nil => cases hx
  | cons hhead _ ih =>
    cases i with
    | zero =>
      cases hx
      exact ⟨_, rfl, hhead⟩
    | succ i => exact ih hx

private theorem few_rows (h : Reached tables source.tableName start s) (hrows : RowsOf s rows) :
    rows.length < 2 ^ 63 := by
  obtain ⟨built, next, hsound, -⟩ := h.history.sound h.starts
  have hbounded := hsound.bounded.rows
  have hle := hrows.inserted.length_le
  omega

/-- `SELECT a1(e1), .., an(en)` returns one row, and each of its values is what the
aggregate makes of the column that `SELECT e1, .., en` returns under the same condition. No
expression may fail on a row of the table, also of those that the plan does not come to. -/
theorem aggregates_are_of_columns (std : StdSort Exception)
    (h : Reached tables source.tableName start s) (hrows : RowsOf s rows)
    {items : List (AggregateKind × Expression)} (hitems : items ≠ [])
    {listing totals : BoundSelectStatement}
    (hlisting : bindSelect (lsmStorageEngine tables) (columnsOf source items) = .ok listing)
    (htotals : bindSelect (lsmStorageEngine tables) (aggregatesOf source items) = .ok totals)
    (hplanned : Planned listing)
    (hevaluates : ∀ row ∈ rows, ∀ e ∈ listing.expressions,
      ∃ v, evaluateExpression (rowValue row) e = .ok v) (hfuel : rows.length ≤ fuel) :
    ∃ columns names values,
      executeSelect std (lsmStorageEngine tables) fuel listing = .ok columns ∧
      executeSelect std (lsmStorageEngine tables) fuel totals = .ok ⟨names, [values]⟩ ∧
      ∀ (i : Nat) (item : AggregateKind × Expression) (b : BoundExpression),
        items[i]? = some item → bindExpression s.tree.schema item.2 = .ok b →
        ∃ v, values[i]? = some v ∧
          AggregateLaw item.1 b.type (columns.rows.filterMap fun row => row[i]?.join) v := by
  have h₁ : Reached tables (columnsOf source items).tableName start s := h
  have h₂ : Reached tables (aggregatesOf source items).tableName start s := h
  obtain ⟨hbound, -⟩ := h₁.bound hlisting
  obtain ⟨hbound', -⟩ := h₂.bound htotals
  have hserves := h₁.skipsRows hlisting hrows
  rw [h₁.bindSelect_eq] at hlisting
  rw [h₂.bindSelect_eq] at htotals
  obtain ⟨bound, hall, hcolumns, hgroupBy, horderBy, hlimit, rfl⟩ := exists_bound hlisting htotals
  -- Both statements read the same cursor.
  have hnumbers : Numbers rows := h.numbers.sub hrows.inserted.subset
  obtain ⟨hkeyed, -⟩ := h.exists_rows
  obtain ⟨⟨plan, hplan⟩, hliterals⟩ := hplanned
  obtain ⟨built, found, hbuilt, hreads, hfound⟩ :=
    hserves.exists_found hbound hkeyed hliterals hrows.stores.valid hnumbers hplan false
  have hgood : ∀ row ∈ found, GoodRow s.tree.schema listing row := fun row hrow =>
    have hmem := hfound.sub row hrow
    ⟨hrows.stores.valid row hmem, hnumbers row hmem, hevaluates row hmem⟩
  have hexpressions : ({ listing with
      selectItems := bound.map BoundAggregate.item } : BoundSelectStatement).expressions =
      listing.expressions := by
    simp only [BoundSelectStatement.expressions, hcolumns, List.map_map]
    rfl
  have hprojection : collectRequiredProjection
      { listing with selectItems := bound.map BoundAggregate.item } =
      collectRequiredProjection listing := by
    unfold collectRequiredProjection
    rw [hexpressions]
  have hgood' : ∀ row ∈ found, GoodRow s.tree.schema
      { listing with selectItems := bound.map BoundAggregate.item } row := fun row hrow =>
    ⟨(hgood row hrow).valid, (hgood row hrow).noNaN, hexpressions ▸ (hgood row hrow).evaluates⟩
  -- The plain one.
  have hplain : IsPlain listing := by
    refine ⟨?_, hgroupBy⟩
    unfold hasAggregateSelectItems
    rw [hcolumns, List.any_map, List.any_eq_false]
    intro a _
    exact Bool.false_ne_true
  obtain ⟨names, hnames⟩ := buildSelectColumnNames_ok hbound
  have hrun := executeSelect_unordered std hbound hplain horderBy hlimit hnames hbuilt hreads hgood
    (hfound.few.trans hfuel)
  -- The aggregates.
  have haggregates : ∀ item ∈ bound.map BoundAggregate.item, item.isAggregate = true := by
    intro item hitem
    obtain ⟨a, -, rfl⟩ := List.mem_map.mp hitem
    rfl
  have hne : bound ≠ [] := by
    rintro rfl
    cases hall
    exact hitems rfl
  have hagg : hasAggregateSelectItems
      { listing with selectItems := bound.map BoundAggregate.item } = true := by
    obtain ⟨a, rest, rfl⟩ := List.exists_cons_of_ne_nil hne
    rfl
  obtain ⟨names', hnames'⟩ := buildSelectColumnNames_ok hbound'
  rw [← hprojection] at hreads
  have hbuilt' : buildCursorForSelect (lsmStorageEngine tables)
      { listing with selectItems := bound.map BoundAggregate.item }
      (collectRequiredProjection { listing with selectItems := bound.map BoundAggregate.item })
      false = .ok built := by
    rw [hprojection]
    exact hbuilt
  have htotal : executeSelect std (lsmStorageEngine tables) fuel
      { listing with selectItems := bound.map BoundAggregate.item } =
      .ok ⟨names', [(bound.map BoundAggregate.item).map fun item =>
        aggregateResult item (passing listing found)]⟩ := by
    rw [executeSelect_total hnames' hagg hgroupBy, executeGlobalAggregateSelect_eq hbound'
      haggregates hbuilt' hreads hgood' (hfound.few.trans hfuel), hlimit]
    rfl
  refine ⟨_, names', _, hrun, htotal, ?_⟩
  intro i item b hi hb
  obtain ⟨a, ha, hkind, hargument⟩ := exists_matching hall hi
  obtain rfl : b = a.2.1 := Except.ok.inj (hb.symm.trans hargument)
  rw [List.map_map, List.getElem?_map, ha]
  refine ⟨_, rfl, ?_⟩
  have hpassing : ∀ row ∈ passing listing found, row ∈ found :=
    fun row hrow => (List.mem_filter.mp hrow).1
  dsimp only
  rw [column_eq hcolumns (fun row hrow => hgood row (hpassing row hrow)) ha, ← hkind]
  have hlaw := @itemLaw_aggregate s.tree.schema _ hbound' a.1 a.2.1 a.2.2
    (List.mem_map_of_mem (List.mem_of_getElem? ha)) (passing listing found)
    (fun row hrow => hgood' row (hpassing row hrow)) ?_
  · exact hlaw
  · have hfew := few_rows h hrows
    exact ((List.length_filter_le _ _).trans hfound.few).trans_lt hfew

/-- `COUNT(id), MAX(v)` beside `id, v`, under `v > 15`. -/
private def countAndMax : List (AggregateKind × Expression) :=
  [(.count, .column [105, 100]), (.max, .column [118])]

private def boundListing : BoundSelectStatement :=
  { boundSelectIdAbove with
    selectItems := [.expression (.column 0 .int64), .expression (.column 1 .int64)] }

private def boundTotals : BoundSelectStatement :=
  { boundSelectIdAbove with
    selectItems := [.aggregate .count (.column 0 .int64) .int64,
      .aggregate .max (.column 1 .int64) .int64] }

private theorem evaluates_listing (pairs : List (Int64 × Int64)) : ∀ row ∈ pairs.map pairRow,
    ∀ e ∈ boundListing.expressions, ∃ v, evaluateExpression (rowValue row) e = .ok v := by
  intro row hrow e he
  obtain ⟨pair, -, rfl⟩ := List.mem_map.mp hrow
  rcases List.mem_cons.mp he with rfl | he
  · exact ⟨_, rfl⟩
  rcases List.mem_cons.mp he with rfl | he
  · exact ⟨_, rfl⟩
  · obtain rfl := List.mem_singleton.mp he
    exact ⟨_, rfl⟩

theorem aggregates_are_of_columns_pairs : ∃ columns names values,
    executeSelect (.insertion Exception) (lsmStorageEngine (onlyTable pairTable twoPairs)) 2
      boundListing = .ok columns ∧
    executeSelect (.insertion Exception) (lsmStorageEngine (onlyTable pairTable twoPairs)) 2
      boundTotals = .ok ⟨names, [values]⟩ ∧
    ∀ (i : Nat) (item : AggregateKind × Expression) (b : BoundExpression),
      countAndMax[i]? = some item → bindExpression pairSchema item.2 = .ok b →
      ∃ v, values[i]? = some v ∧
        AggregateLaw item.1 b.type (columns.rows.filterMap fun row => row[i]?.join) v := by
  obtain ⟨rows, hrows, hpairs⟩ := @exists_rowsOf_pairs freezingPairs [(2, 20), (1, 10)] rfl
    (by decide) (by norm_num)
  have hreached : Reached (onlyTable pairTable twoPairs) selectIdAbove.tableName _ twoPairs :=
    reached_twoPairs
  have hlisting : bindSelect (lsmStorageEngine (onlyTable pairTable twoPairs))
      (columnsOf selectIdAbove countAndMax) = .ok boundListing := by
    have hcolumns : Reached (onlyTable pairTable twoPairs)
        (columnsOf selectIdAbove countAndMax).tableName _ twoPairs := reached_twoPairs
    rw [hcolumns.bindSelect_eq]
    rfl
  have htotals : bindSelect (lsmStorageEngine (onlyTable pairTable twoPairs))
      (aggregatesOf selectIdAbove countAndMax) = .ok boundTotals := by
    have haggregates : Reached (onlyTable pairTable twoPairs)
        (aggregatesOf selectIdAbove countAndMax).tableName _ twoPairs := reached_twoPairs
    rw [haggregates.bindSelect_eq]
    rfl
  have hplanned : Planned boundListing := ⟨⟨_, rfl⟩, ordered_selectIdAbove⟩
  apply aggregates_are_of_columns (.insertion Exception) hreached hrows (List.cons_ne_nil _ _)
    hlisting htotals hplanned
  · intro row hrow
    exact evaluates_listing _ row (hpairs.mem_iff.mp hrow)
  · exact hpairs.length_eq.le

end Htap.Properties
