import Htap.Properties.RowOrder

/-!
SUM over INT64 adds in 64 bits and never reports an overflow. A SELECT sums
exactly when no prefix of the values of a group leaves the range.
-/

namespace Htap.Properties

open Storage Htap.Parser SSTable Read Cursor Executor

variable {α : Type} [ICursor α] {std : StdSort Exception} {engine : IStorageEngine α}
  {fuel : Nat} {schema : Schema} {statement : BoundSelectStatement} {rows members : List Row}
  {built : Option (α × World)} {e : BoundExpression}

/-- A number that an INT64 can hold. -/
def FitsInt64 (z : Int) : Prop :=
  -2 ^ 63 ≤ z ∧ z < 2 ^ 63

/-- `SUM(e)` over INT64 is in the select list. -/
def IsIntSum (statement : BoundSelectStatement) (e : BoundExpression) : Prop :=
  .aggregate .sum e .int64 ∈ statement.selectItems

/-- When a value of `members` enters the state of `SUM(e)`, neither the addition to
the sum nor the one to the counter leaves the range. -/
def AdditionsFit (e : BoundExpression) (members : List Row) : Prop :=
  ∀ before row after v, members = before ++ row :: after → valueOn row e = some (.int64 v) →
    FitsInt64 ((aggregateState (.aggregate .sum e .int64) before).intSum.toInt + v.toInt) ∧
      FitsInt64 ((aggregateState (.aggregate .sum e .int64) before).count.toInt + 1)

/-- The values can be counted and added one after another. -/
structure PrefixesFit (values : List ResultValue) : Prop where
  count : values.length < 2 ^ 63
  sums : ∀ n, FitsInt64 (total (values.take n))

/-- What a select item gives for a group, if it is a SUM over INT64: the sum of the
values that are not NULL, and NULL when there are none. -/
def ExactItem (members : List Row) : BoundSelectItem → NullableResultValue → Prop
  | .aggregate .sum e .int64, v =>
    if arguments e members = [] then v = none
    else ∃ x : Int64, v = some (.int64 x) ∧ x.toInt = total (arguments e members)
  | _, _ => True

/-- SUM over INT64 is exact or an error in the SELECT over `groups`. -/
structure SumsExact (std : StdSort Exception) (engine : IStorageEngine α) (fuel : Nat)
    (statement : BoundSelectStatement) (groups : List (List Row)) : Prop where
  additions : ∀ members ∈ groups, ∀ e, IsIntSum statement e → AdditionsFit e members
  exact : (∀ members ∈ groups, ∀ e, IsIntSum statement e →
      FitsInt64 (total (arguments e members))) →
    ∃ result, executeSelect std engine fuel statement = .ok result ∧
      ∀ row ∈ result.rows, ∃ members ∈ groups,
        List.Forall₂ (ExactItem members) statement.selectItems row
  overflow : (∃ members ∈ groups, ∃ e, IsIntSum statement e ∧
      ¬ FitsInt64 (total (arguments e members))) →
    ∃ exception, executeSelect std engine fuel statement = .error exception

/-! ## The accumulator -/

theorem total_append (xs ys : List ResultValue) : total (xs ++ ys) = total xs + total ys := by
  simp only [total, List.map_append, List.sum_append]

/-- The argument of a SUM over INT64 has a value on every row, of INT64 or NULL. -/
structure IntArgument (e : BoundExpression) (members : List Row) : Prop where
  value : ∀ r ∈ members, evaluateExpression (rowValue r) e = .ok (valueOn r e)
  typed : ∀ v ∈ arguments e members, HasStaticType .int64 (some v)

theorem IntArgument.append_left {after : List Row} (h : IntArgument e (members ++ after)) :
    IntArgument e members where
  value r hr := h.value r (List.mem_append_left after hr)
  typed v hv := h.typed v (by
    rw [arguments, List.filterMap_append]
    exact List.mem_append_left _ hv)

/-- The sum so far is the exact one while that fits. -/
theorem intSum_eq (h : IntArgument e members) (hfits : FitsInt64 (total (arguments e members))) :
    (aggregateState (.aggregate .sum e .int64) members).intSum.toInt =
      total (arguments e members) := by
  obtain ⟨ints, hints⟩ := exists_ints h.typed
  have hsum : total (arguments e members) = (ints.map Int64.toInt).sum := by
    rw [hints, total, List.map_map]
    rfl
  rw [hsum] at hfits ⊢
  rw [aggregateState_eq h.value, hints, intSum_foldl,
    show ({} : GlobalAggregateState).intSum = 0 from rfl, Int64.zero_add,
    Int64.toInt_ofInt_of_le hfits.1 hfits.2]

theorem sumCount_eq (h : IntArgument e members) (hlength : (arguments e members).length < 2 ^ 63) :
    (aggregateState (.aggregate .sum e .int64) members).count.toInt =
      (arguments e members).length := by
  have hcount := count_foldl h.typed (show getAggregateResultType .sum .int64 = .ok .int64 from rfl)
    {}
  rw [aggregateState_eq h.value, hcount, show ({} : GlobalAggregateState).count = 0 from rfl,
    Int64.zero_add, Int64.toInt_ofInt_of_le (by omega) (by omega)]

private theorem arguments_append (xs ys : List Row) :
    arguments e (xs ++ ys) = arguments e xs ++ arguments e ys :=
  List.filterMap_append

private theorem arguments_singleton {row : Row} {v : Int64} (h : valueOn row e = some (.int64 v)) :
    arguments e [row] = [.int64 v] := by
  rw [arguments, List.filterMap_cons, h]
  rfl

/-- One more value of a list whose prefixes fit. -/
private theorem PrefixesFit.concat {values : List ResultValue} {v : Int64}
    (h : PrefixesFit values) (hcount : values.length + 1 < 2 ^ 63)
    (hsum : FitsInt64 (total values + v.toInt)) : PrefixesFit (values ++ [.int64 v]) := by
  constructor
  · rwa [List.length_append, List.length_singleton]
  · intro n
    rcases Nat.lt_or_ge values.length n with hn | hn
    · rw [List.take_of_length_le (by simp; omega), total_append]
      simpa [total, asInt] using hsum
    · rw [List.take_append_of_le_length hn]
      exact h.sums n

theorem PrefixesFit.total_fits {values : List ResultValue} (h : PrefixesFit values) :
    FitsInt64 (total values) := by
  have hall := h.sums values.length
  rwa [List.take_length] at hall

/-- The additions of a run over the values stay in range as long as the exact sums
of its prefixes do. -/
theorem additionsFit_iff (h : IntArgument e members) :
    AdditionsFit e members ↔ PrefixesFit (arguments e members) := by
  constructor
  · intro hadds
    induction members using List.reverseRecOn with
    | nil =>
      constructor
      · exact Nat.two_pow_pos 63
      · intro n
        rw [arguments, List.filterMap_nil, List.take_nil]
        constructor <;> decide
    | append_singleton members row ih =>
      have hmembers := h.append_left
      have hprefixes : PrefixesFit (arguments e members) := by
        apply ih hmembers
        intro before r after v hsplit
        exact hadds before r (after ++ [row]) v (by rw [hsplit, List.append_assoc]; rfl)
      rw [arguments_append]
      cases hv : valueOn row e with
      | none =>
        have hnone : arguments e [row] = [] := by
          rw [arguments, List.filterMap_cons, hv]
          rfl
        rwa [hnone, List.append_nil]
      | some value =>
        obtain hnone | ⟨v, hvalue⟩ := hasStaticType_int64 (h.typed value (by
          rw [arguments_append]
          refine List.mem_append_right _ (List.mem_filterMap.mpr ⟨row, ?_, hv⟩)
          exact List.mem_singleton_self row))
        · cases hnone
        · rw [hvalue] at hv
          obtain ⟨hsum, hcount⟩ := hadds members row [] v rfl hv
          rw [intSum_eq hmembers hprefixes.total_fits] at hsum
          rw [sumCount_eq hmembers hprefixes.count] at hcount
          rw [arguments_singleton hv]
          apply hprefixes.concat _ hsum
          have hupper := hcount.2
          omega
  · rintro hprefixes before row after v rfl hv
    have hbefore : IntArgument e before := h.append_left
    have hvalues : arguments e (before ++ row :: after) =
        arguments e before ++ (.int64 v :: arguments e after) := by
      rw [arguments_append, ← List.singleton_append, arguments_append, arguments_singleton hv]
      rfl
    rw [hvalues] at hprefixes
    have hsum : FitsInt64 (total (arguments e before)) := by
      have hprefix := hprefixes.sums (arguments e before).length
      rwa [List.take_left] at hprefix
    have hnext : FitsInt64 (total (arguments e before) + v.toInt) := by
      have hprefix := hprefixes.sums ((arguments e before).length + 1)
      rw [List.take_length_add_append, List.take_succ_cons, List.take_zero, total_append] at hprefix
      simpa [total, asInt] using hprefix
    have hlength := hprefixes.count
    rw [List.length_append, List.length_cons] at hlength
    rw [intSum_eq hbefore hsum, sumCount_eq hbefore (by omega)]
    refine ⟨hnext, ?_⟩
    constructor <;> omega

/-- The SUM of a group whose prefixes fit. -/
private theorem exactItem_aggregateResult (h : IntArgument e members)
    (hfits : PrefixesFit (arguments e members)) :
    ExactItem members (.aggregate .sum e .int64)
      (aggregateResult (.aggregate .sum e .int64) members) := by
  have hcount := sumCount_eq h hfits.count
  have hzero : (aggregateState (.aggregate .sum e .int64) members).count = 0 ↔
      arguments e members = [] := by
    rw [← Int64.toInt_inj, hcount, Int64.toInt_zero]
    simp
  simp only [ExactItem, aggregateResult, finalizeAggregateState, hzero]
  split
  · rfl
  · exact ⟨_, rfl, intSum_eq h hfits.total_fits⟩

/-! ## The SELECT -/

/-- The rows of an aggregated SELECT: each holds what the aggregates give for one
of the groups. -/
theorem executeSelect_aggregated (std : StdSort Exception) (hbound : Bound schema statement)
    (hgrouped : statement.groupByItems ≠ [] ∨ hasAggregateSelectItems statement = true)
    (hbuilt : buildCursorForSelect engine statement (collectRequiredProjection statement) false =
      .ok built)
    (hreads : ReadsBuilt (collectRequiredProjection statement) built rows)
    (hrows : ∀ r ∈ rows, GoodRow schema statement r) (hfuel : rows.length ≤ fuel) :
    ∃ (result : SelectResult) (groups : List (List Row)),
      executeSelect std engine fuel statement = .ok result ∧
      GroupedBy statement (passing statement rows) groups ∧
      (∀ members ∈ groups, ∀ r ∈ members, GoodRow schema statement r) ∧
      ∀ row ∈ result.rows, ∃ members ∈ groups, List.Forall₂
        (fun item v => item.isAggregate = true → v = aggregateResult item members)
        statement.selectItems row := by
  obtain ⟨names, hnames⟩ := buildSelectColumnNames_ok hbound
  have hpassing : ∀ r ∈ passing statement rows, GoodRow schema statement r :=
    fun r hr => hrows r (List.mem_filter.mp hr).1
  by_cases hkeyed : statement.groupByItems = []
  · -- One group of all rows.
    have hagg := hgrouped.resolve_left (not_not_intro hkeyed)
    have hall := all_aggregates hbound hagg hkeyed
    have hglobal := @executeGlobalAggregateSelect_eq _ _ _ _ _ _ _ _ names hbound hall hbuilt
      hreads hrows hfuel
    have hdispatch : executeSelect std engine fuel statement =
        executeGlobalAggregateSelect engine fuel statement names
          (collectRequiredProjection statement) := by
      simp only [executeSelect, hnames, Result.ok_bind, hagg, hkeyed, Bool.not_true,
        List.isEmpty_nil, Bool.not_false, Bool.false_and, Bool.true_and, Bool.false_eq_true,
        if_false, if_true]
    refine ⟨_, [passing statement rows], hdispatch.trans hglobal, GroupedBy.all hkeyed, ?_, ?_⟩
    · intro members hmembers
      obtain rfl := List.mem_singleton.mp hmembers
      exact hpassing
    · intro row hrow
      refine ⟨passing statement rows, List.mem_singleton_self _, ?_⟩
      have hmem : row ∈ [statement.selectItems.map fun item =>
          aggregateResult item (passing statement rows)] := by
        dsimp only at hrow
        split at hrow
        · exact hrow
        · cases hrow
      rw [List.mem_singleton.mp hmem, List.forall₂_map_right_iff, List.forall₂_same]
      intro item _ _
      rfl
  · have hof := Gathered.of_groups (groupRank statement) (passing statement rows)
    have hisEmpty : statement.groupByItems.isEmpty = false := List.isEmpty_eq_false_iff.mpr hkeyed
    obtain ⟨sorted, hsorted, hperm⟩ := orderGroups_ok std hbound hrows
    have hgroupedSelect := @executeGroupedAggregateSelect_eq _ _ _ _ std _ _ _ _ names hbound
      hbuilt hreads hrows hfuel
    have hdispatch : executeSelect std engine fuel statement =
        executeGroupedAggregateSelect std engine fuel statement names
          (collectRequiredProjection statement) := by
      simp only [executeSelect, hnames, Result.ok_bind, hisEmpty, Bool.not_false, Bool.not_true,
        Bool.and_false, Bool.false_eq_true, if_false]
    rw [hsorted, Result.ok_bind] at hgroupedSelect
    refine ⟨_, _, hdispatch.trans hgroupedSelect, groupedBy_groupsOf hbound hkeyed hrows, ?_, ?_⟩
    · intro members hmembers r hr
      obtain ⟨g, hg, rfl⟩ := List.mem_map.mp hmembers
      exact hpassing r ((hof.mem_members hg).mp hr).1
    · intro row hrow
      have hmem : row ∈ sorted.map SortRow.row := by
        dsimp only [truncateRows] at hrow
        split at hrow
        · exact hrow
        · split at hrow
          · exact List.mem_of_mem_take hrow
          · exact hrow
      obtain ⟨x, hx, rfl⟩ := List.mem_map.mp hmem
      obtain ⟨g, hg, rfl⟩ := List.mem_map.mp (hperm.mem_iff.mp hx)
      refine ⟨g.members, List.mem_map_of_mem hg, ?_⟩
      rw [groupResult, List.forall₂_map_right_iff, List.forall₂_same]
      intro item _ haggregate
      cases item with
      | expression e => cases haggregate
      | aggregate kind e resultType => rfl

theorem intArgument_of_bound (hbound : Bound schema statement) (hsum : IsIntSum statement e)
    (hmembers : ∀ r ∈ members, GoodRow schema statement r) : IntArgument e members := by
  obtain ⟨hwell, hresult⟩ := hbound.items _ hsum
  have htype : e.type = .int64 := by
    cases htype : e.type <;> rw [htype] at hresult <;> cases hresult
  have hvalue : ∀ r ∈ members, evaluateExpression (rowValue r) e = .ok (valueOn r e) :=
    fun r hr => (hmembers r hr).valueOn_eq (GoodRow.item_mem hsum)
  refine ⟨hvalue, ?_⟩
  intro v hv
  obtain ⟨r, hr, hrv⟩ := List.mem_filterMap.mp hv
  rw [← htype, ← hrv]
  exact hasStaticType_evaluateExpression (hmembers r hr).valid hwell (hvalue r hr)

/-- Over the groups of an aggregated SELECT, SUM over INT64 is exact or an error if and only
if the values of each group can be added one after another in 64 bits. The groups are those
of the rows that the cursor yields, in its order, and on them no expression fails. -/
theorem sums_exact_iff {source : SelectStatement}
    (hbind : bindSelectOver schema source = .ok statement)
    (hgrouped : statement.groupByItems ≠ [] ∨ hasAggregateSelectItems statement = true)
    (hbuilt : buildCursorForSelect engine statement (collectRequiredProjection statement) false =
      .ok built)
    (hreads : ReadsBuilt (collectRequiredProjection statement) built rows)
    (hrows : ∀ r ∈ rows, GoodRow schema statement r) (hfuel : rows.length ≤ fuel) :
    ∃ groups, GroupedBy statement (passing statement rows) groups ∧
      (SumsExact std engine fuel statement groups ↔
        ∀ members ∈ groups, ∀ e, IsIntSum statement e → PrefixesFit (arguments e members)) := by
  have hbound := bound_bindSelectOver hbind
  obtain ⟨result, groups, hresult, hgroups, hmembers, hitems⟩ :=
    executeSelect_aggregated std hbound hgrouped hbuilt hreads hrows hfuel
  refine ⟨groups, hgroups, ?_⟩
  constructor
  · intro h members hmem e hsum
    have hargument := intArgument_of_bound hbound hsum (hmembers members hmem)
    exact (additionsFit_iff hargument).mp (h.additions members hmem e hsum)
  · intro h
    constructor
    · intro members hmem e hsum
      have hargument := intArgument_of_bound hbound hsum (hmembers members hmem)
      exact (additionsFit_iff hargument).mpr (h members hmem e hsum)
    · intro _
      refine ⟨result, hresult, ?_⟩
      intro row hrow
      obtain ⟨members, hmem, hvalues⟩ := hitems row hrow
      refine ⟨members, hmem, ?_⟩
      obtain ⟨hlength, hpairs⟩ := List.forall₂_iff_zip.mp hvalues
      refine List.forall₂_iff_zip.mpr ⟨hlength, ?_⟩
      intro item v hpair
      have hvalue := hpairs hpair
      have hitem := (List.of_mem_zip hpair).1
      unfold ExactItem
      split
      · rename_i e
        rw [hvalue rfl]
        exact exactItem_aggregateResult
          (intArgument_of_bound hbound hitem (hmembers members hmem)) (h members hmem e hitem)
      · trivial
    · rintro ⟨members, hmem, e, hsum, hunfit⟩
      exact absurd (h members hmem e hsum).total_fits hunfit

/-! ## On fixed rows -/

/-- `SELECT SUM(v) FROM t`. -/
def selectSum : SelectStatement where
  tableName := pairTable
  selectItems := [.aggregate .sum (.column [118])]

def boundSelectSum : BoundSelectStatement where
  tableName := pairTable
  schema := pairSchema
  selectItems := [.aggregate .sum (.column 1 .int64) .int64]

theorem sums_exact_three_rows :
    ∃ groups, GroupedBy boundSelectSum
        (passing boundSelectSum ([(1, 7), (2, -5), (3, 7)].map pairRow)) groups ∧
      (SumsExact (StdSort.insertion Exception)
          (cursorOver ([(1, 7), (2, -5), (3, 7)].map pairRow)) 3 boundSelectSum groups ↔
        ∀ members ∈ groups, ∀ e, IsIntSum boundSelectSum e →
          PrefixesFit (arguments e members)) := by
  have hbind : bindSelectOver pairSchema selectSum = .ok boundSelectSum := rfl
  have hbuilt : buildCursorForSelect (cursorOver ([(1, 7), (2, -5), (3, 7)].map pairRow))
      boundSelectSum (collectRequiredProjection boundSelectSum) false =
      .ok (some (⟨[(1, 7), (2, -5), (3, 7)].map pairRow, none⟩, emptyWorld)) := rfl
  have hreads := @reads_cursorOver [(1, 7), (2, -5), (3, 7)]
    (collectRequiredProjection boundSelectSum) (by decide)
  apply sums_exact_iff hbind (Or.inr rfl) hbuilt hreads
  · intro r hr
    obtain ⟨pair, -, rfl⟩ := List.mem_map.mp hr
    apply goodRow_pairRow
    simp [BoundSelectStatement.expressions, boundSelectSum, BoundSelectItem.argument]
  · exact le_rfl

/-- `2 ^ 63 - 1` and `1` sum up to `-2 ^ 63`, and no error is raised. -/
theorem sum_wraps :
    bindSelectOver pairSchema selectSum = .ok boundSelectSum ∧
      GroupedBy boundSelectSum
        (passing boundSelectSum ([(1, Int64.maxValue), (2, 1)].map pairRow))
        [[(1, Int64.maxValue), (2, 1)].map pairRow] ∧
      executeSelect (StdSort.insertion Exception)
        (cursorOver ([(1, Int64.maxValue), (2, 1)].map pairRow)) 2 boundSelectSum =
          .ok ⟨[text "sum(v)"], [[some (.int64 Int64.minValue)]]⟩ ∧
      ¬ SumsExact (StdSort.insertion Exception)
        (cursorOver ([(1, Int64.maxValue), (2, 1)].map pairRow)) 2 boundSelectSum
        [[(1, Int64.maxValue), (2, 1)].map pairRow] := by
  have hrun : executeSelect (StdSort.insertion Exception)
      (cursorOver ([(1, Int64.maxValue), (2, 1)].map pairRow)) 2 boundSelectSum =
      .ok ⟨[text "sum(v)"], [[some (.int64 Int64.minValue)]]⟩ := by decide +kernel
  refine ⟨rfl, GroupedBy.all rfl, hrun, ?_⟩
  intro hexact
  obtain ⟨exception, herror⟩ := hexact.overflow
    ⟨_, List.mem_singleton_self _, .column 1 .int64, List.mem_singleton_self _, by
      intro hfits
      exact absurd hfits.2 (by decide)⟩
  rw [hrun] at herror
  cases herror

end Htap.Properties
