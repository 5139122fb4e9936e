import Htap.Basis.Additions
import Htap.Executor.PlainSelect
import Htap.Properties.Grouping

/-!
Whether a grouped SELECT depends on the order in which the cursor yields its
rows. Keys, counts, sums of integers and extremes do not. The sort keys of a
group are those of the row that came first, and an average adds doubles: two
orders give the same result when these keys sort alike, and the additions that
come in different orders are exact.
-/

namespace Htap.Properties

open Storage Htap.Parser SSTable Read Cursor Executor

variable {schema : Schema} {statement : BoundSelectStatement}

/-- Two rows of results whose cells compare equal. -/
def SameRow (r s : ResultRow) : Prop :=
  List.Forall₂ (fun v w => compareNullableResultValues v w = .ok .eq) r s

theorem compare_self (v : NullableResultValue) : compareNullableResultValues v v = .ok .eq := by
  have hcomparable : Comparable v v := by
    match v with
    | none | some (.int64 _) | some (.string _) | some (.bool _) => trivial
    | some (.double _) => exact Or.inr rfl
  exact (compareNullableResultValues_eq_iff hcomparable).mpr rfl

/-- The rows of the group of `r` among those that pass WHERE. -/
def groupMembers (statement : BoundSelectStatement) (rows : List Row) (r : Row) : List Row :=
  (passing statement rows).filter fun s => sameKey (groupKey statement r) (groupKey statement s)

/-- The row of the group of `r` that comes first. -/
def opener (statement : BoundSelectStatement) (rows : List Row) (r : Row) : Row :=
  (groupMembers statement rows r).headD r

/-- A value as AVG adds it. -/
def asDouble : ResultValue → Binary64
  | .int64 v => Binary64.ofInt64 v
  | .double v => v
  | _ => Binary64.zero

/-- The two orders come to the same: `SortKeysLess` orders the rows that come first in their
groups alike, and the numbers of an AVG are added alike in each group. -/
structure OrderAlike (statement : BoundSelectStatement) (xs ys : List Row) : Prop where
  orderBy : ∀ r ∈ passing statement xs, ∀ s ∈ passing statement xs,
    sortKeysLess (directions statement) (sortValues statement (opener statement xs r))
        (sortValues statement (opener statement xs s)) =
      sortKeysLess (directions statement) (sortValues statement (opener statement ys r))
        (sortValues statement (opener statement ys s))
  averages : ∀ e resultType, .aggregate .avg e resultType ∈ statement.selectItems →
    ∀ r ∈ passing statement xs, Binary64.AddsAlike Binary64.zero
      ((arguments e (groupMembers statement xs r)).map asDouble)
      ((arguments e (groupMembers statement ys r)).map asDouble)

/-- What makes the order of the rows irrelevant, whatever it is: ORDER BY items have one value
in each group, and the sums of AVG are exact, whichever values are added. -/
structure OrderFree (statement : BoundSelectStatement) (rows : List Row) : Prop where
  orderBy : ∀ r ∈ passing statement rows, ∀ s ∈ groupMembers statement rows r,
    ∀ item ∈ statement.orderByItems,
      compareNullableResultValues (valueOn r item.expression) (valueOn s item.expression) = .ok .eq
  averages : ∀ e resultType, .aggregate .avg e resultType ∈ statement.selectItems →
    ∀ r ∈ passing statement rows, ∀ ints : List Int64,
      (ints.map ResultValue.int64).Subperm (arguments e (groupMembers statement rows r)) →
        Binary64.Exact (ints.map Int64.toInt).sum

/-- No SUM or AVG adds stored doubles. -/
def NoDoubleSums (statement : BoundSelectStatement) : Prop :=
  ∀ kind e resultType, .aggregate kind e resultType ∈ statement.selectItems →
    kind = .sum ∨ kind = .avg → e.type ≠ .double

/-! ## Aggregates -/

/-- The state after the values of the argument, whatever their order. -/
private theorem foldl_count_perm {kind : AggregateKind} {argument resultType : ExpressionType}
    {vs ws : List ResultValue} (hperm : vs.Perm ws)
    (hvs : ∀ v ∈ vs, HasStaticType argument (some v))
    (hresult : getAggregateResultType kind argument = .ok resultType) :
    (vs.foldl (enterValue kind resultType) {}).count =
      (ws.foldl (enterValue kind resultType) {}).count := by
  rw [count_foldl hvs hresult, count_foldl (fun w hw => hvs w (hperm.mem_iff.mpr hw)) hresult,
    hperm.length_eq]

private theorem intMin_perm {xs ys : List Int64} (hperm : xs.Perm ys) :
    ((xs.map ResultValue.int64).foldl (enterValue .min .int64) {}).intMin =
      ((ys.map ResultValue.int64).foldl (enterValue .min .int64) {}).intMin := by
  obtain ⟨hx, hxle, hxall⟩ := intMin_foldl xs {}
  obtain ⟨hy, hyle, hyall⟩ := intMin_foldl ys {}
  apply le_antisymm
  · rcases hy with hy | hy
    · rw [hy]
      exact hxle
    · exact hxall _ (hperm.mem_iff.mpr hy)
  · rcases hx with hx | hx
    · rw [hx]
      exact hyle
    · exact hyall _ (hperm.mem_iff.mp hx)

private theorem intMax_perm {xs ys : List Int64} (hperm : xs.Perm ys) :
    ((xs.map ResultValue.int64).foldl (enterValue .max .int64) {}).intMax =
      ((ys.map ResultValue.int64).foldl (enterValue .max .int64) {}).intMax := by
  obtain ⟨hx, hxle, hxall⟩ := intMax_foldl xs {}
  obtain ⟨hy, hyle, hyall⟩ := intMax_foldl ys {}
  apply le_antisymm
  · rcases hx with hx | hx
    · rw [hx]
      exact hyle
    · exact hyall _ (hperm.mem_iff.mp hx)
  · rcases hy with hy | hy
    · rw [hy]
      exact hxle
    · exact hxall _ (hperm.mem_iff.mpr hy)

/-- The least of the doubles and of the minimum so far, where NaN never counts. -/
private theorem doubleMin_foldl (ds : List Binary64) {state : GlobalAggregateState}
    (hstate : state.doubleMin.isNaN = false) :
    let least := ((ds.map ResultValue.double).foldl (enterValue .min .double) state).doubleMin
    least.isNaN = false ∧ (least = state.doubleMin ∨ least ∈ ds) ∧
      least.rank ≤ state.doubleMin.rank ∧ ∀ d ∈ ds, d.isNaN = false → least.rank ≤ d.rank := by
  induction ds generalizing state with
  | nil => exact ⟨hstate, Or.inl rfl, le_rfl, by simp⟩
  | cons d ds ih =>
    have hstep : (enterValue .min .double state (.double d)).doubleMin =
        if Binary64.lt d state.doubleMin then d else state.doubleMin := by
      simp only [enterValue, updateNonNull, getDouble, Result.ok_bind]
      split <;> rfl
    rw [List.map_cons, List.foldl_cons]
    by_cases hd : Binary64.lt d state.doubleMin = true
    · rw [if_pos hd] at hstep
      have hnan : d.isNaN = false := by
        unfold Binary64.lt at hd
        simp only [Bool.and_eq_true, Bool.not_eq_true'] at hd
        exact hd.1.1
      have hlt := (Binary64.lt_iff hnan hstate).mp hd
      obtain ⟨hleast, hmem, hle, hall⟩ := ih (hstep ▸ hnan)
      rw [hstep] at hmem hle
      refine ⟨hleast, Or.inr ?_, hle.trans hlt.le, ?_⟩
      · rcases hmem with hmem | hmem
        · rw [hmem]
          exact List.mem_cons_self
        · exact List.mem_cons_of_mem d hmem
      · intro x hx hxnan
        rcases List.mem_cons.mp hx with rfl | hx
        · exact hle
        · exact hall x hx hxnan
    · rw [if_neg hd] at hstep
      obtain ⟨hleast, hmem, hle, hall⟩ := ih (hstep ▸ hstate)
      rw [hstep] at hmem hle
      refine ⟨hleast, hmem.imp id (List.mem_cons_of_mem d), hle, ?_⟩
      intro x hx hxnan
      rcases List.mem_cons.mp hx with rfl | hx
      · have hnlt := mt (Binary64.lt_iff hxnan hstate).mpr hd
        exact hle.trans (not_lt.mp hnlt)
      · exact hall x hx hxnan

/-- The greatest of the doubles and of the maximum so far, where NaN never counts. -/
private theorem doubleMax_foldl (ds : List Binary64) {state : GlobalAggregateState}
    (hstate : state.doubleMax.isNaN = false) :
    let greatest := ((ds.map ResultValue.double).foldl (enterValue .max .double) state).doubleMax
    greatest.isNaN = false ∧ (greatest = state.doubleMax ∨ greatest ∈ ds) ∧
      state.doubleMax.rank ≤ greatest.rank ∧ ∀ d ∈ ds, d.isNaN = false →
        d.rank ≤ greatest.rank := by
  induction ds generalizing state with
  | nil => exact ⟨hstate, Or.inl rfl, le_rfl, by simp⟩
  | cons d ds ih =>
    have hstep : (enterValue .max .double state (.double d)).doubleMax =
        if Binary64.lt state.doubleMax d then d else state.doubleMax := by
      simp only [enterValue, updateNonNull, getDouble, Result.ok_bind]
      split <;> rfl
    rw [List.map_cons, List.foldl_cons]
    by_cases hd : Binary64.lt state.doubleMax d = true
    · rw [if_pos hd] at hstep
      have hnan : d.isNaN = false := by
        unfold Binary64.lt at hd
        simp only [Bool.and_eq_true, Bool.not_eq_true'] at hd
        exact hd.1.2
      have hlt := (Binary64.lt_iff hstate hnan).mp hd
      obtain ⟨hgreatest, hmem, hle, hall⟩ := ih (hstep ▸ hnan)
      rw [hstep] at hmem hle
      refine ⟨hgreatest, Or.inr ?_, hlt.le.trans hle, ?_⟩
      · rcases hmem with hmem | hmem
        · rw [hmem]
          exact List.mem_cons_self
        · exact List.mem_cons_of_mem d hmem
      · intro x hx hxnan
        rcases List.mem_cons.mp hx with rfl | hx
        · exact hle
        · exact hall x hx hxnan
    · rw [if_neg hd] at hstep
      obtain ⟨hgreatest, hmem, hle, hall⟩ := ih (hstep ▸ hstate)
      rw [hstep] at hmem hle
      refine ⟨hgreatest, hmem.imp id (List.mem_cons_of_mem d), hle, ?_⟩
      intro x hx hxnan
      rcases List.mem_cons.mp hx with rfl | hx
      · have hnlt := mt (Binary64.lt_iff hstate hxnan).mpr hd
        exact (not_lt.mp hnlt).trans hle
      · exact hall x hx hxnan

/-- An AVG over INT64 adds the doubles of its values. -/
private theorem doubleSum_foldl (ints : List Int64) (state : GlobalAggregateState) :
    ((ints.map ResultValue.int64).foldl (enterValue .avg .double) state).doubleSum =
      ((ints.map ResultValue.int64).map asDouble).foldl Binary64.add state.doubleSum := by
  induction ints generalizing state with
  | nil => rfl
  | cons x ints ih => exact ih (enterValue .avg .double state (.int64 x))

private theorem exists_doubles {values : List ResultValue}
    (h : ∀ v ∈ values, HasStaticType .double (some v)) :
    ∃ ds : List Binary64, values = ds.map ResultValue.double := by
  induction values with
  | nil => exact ⟨[], rfl⟩
  | cons v values ih =>
    obtain ⟨ds, hds⟩ := ih fun w hw => h w (List.mem_cons_of_mem v hw)
    rcases hasStaticType_double (h v List.mem_cons_self) with hnone | ⟨x, hx⟩
    · cases hnone
    · cases hx
      exact ⟨x :: ds, by rw [hds, List.map_cons]⟩

private theorem perm_of_map_int64 {xs ys : List Int64}
    (h : (xs.map ResultValue.int64).Perm (ys.map ResultValue.int64)) : xs.Perm ys :=
  (List.map_perm_map_iff fun _ _ heq => ResultValue.int64.inj heq).mp h

private theorem perm_of_map_double {xs ys : List Binary64}
    (h : (xs.map ResultValue.double).Perm (ys.map ResultValue.double)) : xs.Perm ys :=
  (List.map_perm_map_iff fun _ _ heq => ResultValue.double.inj heq).mp h

private theorem compare_of_eq {v w : NullableResultValue} (h : v = w) :
    compareNullableResultValues v w = .ok .eq := by
  rw [h]
  exact compare_self w

private theorem compare_of_rank {a b : Binary64} (ha : a.isNaN = false) (hb : b.isNaN = false)
    (h : a.rank = b.rank) :
    compareNullableResultValues (some (.double a)) (some (.double b)) = .ok .eq := by
  have hcomparable : Comparable (some (.double a)) (some (.double b)) := Or.inl ⟨ha, hb⟩
  rw [compareNullableResultValues_eq_iff hcomparable, rank, rank, h]

private theorem doubleMin_perm {xs ys : List Binary64} (hperm : xs.Perm ys) :
    compareNullableResultValues
      (some (.double ((xs.map ResultValue.double).foldl (enterValue .min .double) {}).doubleMin))
      (some (.double ((ys.map ResultValue.double).foldl (enterValue .min .double) {}).doubleMin)) =
      .ok .eq := by
  have hstart : ({} : GlobalAggregateState).doubleMin.isNaN = false := by decide
  obtain ⟨hxn, hx, hxle, hxall⟩ := doubleMin_foldl xs hstart
  obtain ⟨hyn, hy, hyle, hyall⟩ := doubleMin_foldl ys hstart
  apply compare_of_rank hxn hyn
  apply le_antisymm
  · rcases hy with hy | hy
    · rw [hy]
      exact hxle
    · exact hxall _ (hperm.mem_iff.mpr hy) hyn
  · rcases hx with hx | hx
    · rw [hx]
      exact hyle
    · exact hyall _ (hperm.mem_iff.mp hx) hxn

private theorem doubleMax_perm {xs ys : List Binary64} (hperm : xs.Perm ys) :
    compareNullableResultValues
      (some (.double ((xs.map ResultValue.double).foldl (enterValue .max .double) {}).doubleMax))
      (some (.double ((ys.map ResultValue.double).foldl (enterValue .max .double) {}).doubleMax)) =
      .ok .eq := by
  have hstart : ({} : GlobalAggregateState).doubleMax.isNaN = false := by decide
  obtain ⟨hxn, hx, hxle, hxall⟩ := doubleMax_foldl xs hstart
  obtain ⟨hyn, hy, hyle, hyall⟩ := doubleMax_foldl ys hstart
  apply compare_of_rank hxn hyn
  apply le_antisymm
  · rcases hx with hx | hx
    · rw [hx]
      exact hyle
    · exact hyall _ (hperm.mem_iff.mp hx) hxn
  · rcases hy with hy | hy
    · rw [hy]
      exact hxle
    · exact hxall _ (hperm.mem_iff.mpr hy) hyn

/-- Sums that are exact, whichever values are added, are exact in every order. -/
theorem addsAlike_of_exact {vs ws : List ResultValue} (hperm : vs.Perm ws)
    (hvs : ∀ v ∈ vs, HasStaticType .int64 (some v))
    (hexact : ∀ ints : List Int64, (ints.map ResultValue.int64).Subperm vs →
      Binary64.Exact (ints.map Int64.toInt).sum) :
    Binary64.AddsAlike Binary64.zero (vs.map asDouble) (ws.map asDouble) := by
  have hrun : ∀ us : List ResultValue, us.Perm vs →
      Binary64.RunsExactly Binary64.zero (us.map asDouble) := by
    intro us hus
    obtain ⟨ints, rfl⟩ := exists_ints fun u hu => hvs u (hus.mem_iff.mp hu)
    have hsub : ∀ part : List Int64, part.Subperm ints →
        Binary64.Exact (part.map Int64.toInt).sum := by
      intro part hpart
      obtain ⟨picked, hpicked, hsublist⟩ := hpart
      exact hexact part (.trans ⟨_, hpicked.map ResultValue.int64, hsublist.map ResultValue.int64⟩
        hus.subperm)
    have hzero : Binary64.Exact 0 := hsub [] List.nil_subperm
    have hints : (ints.map ResultValue.int64).map asDouble = ints.map Binary64.ofInt64 := by
      rw [List.map_map]
      rfl
    rw [hints]
    apply Binary64.runsExactly_of_exact hzero
    · intro x hx
      have hone := hsub [x] (List.singleton_subperm_iff.mpr hx)
      simpa using hone
    · intro n
      rw [zero_add]
      exact hsub _ (List.take_sublist n ints).subperm
  have halike := Binary64.AddsAlike.reordered (hperm.map asDouble) (hrun vs (List.Perm.refl vs))
    (hrun ws hperm.symm) (.nil _)
  rwa [List.append_nil, List.append_nil] at halike

/-- Averages of doubles that are added alike compare equal. -/
private theorem average_alike {xs ys : List Int64} {n : Int64}
    (h : Binary64.AddsAlike Binary64.zero ((xs.map ResultValue.int64).map asDouble)
      ((ys.map ResultValue.int64).map asDouble)) :
    compareNullableResultValues
      (some (.double (Binary64.div ((xs.map ResultValue.int64).foldl (enterValue .avg .double)
        {}).doubleSum (Binary64.ofInt64 n))))
      (some (.double (Binary64.div ((ys.map ResultValue.int64).foldl (enterValue .avg .double)
        {}).doubleSum (Binary64.ofInt64 n)))) = .ok .eq := by
  rw [doubleSum_foldl, doubleSum_foldl]
  rcases h.sameNumber.div (Binary64.ofInt64 n) with heq | ⟨hnan, hnan', hrank⟩
  · exact compare_of_eq (congrArg (fun d => some (ResultValue.double d)) heq)
  · exact compare_of_rank hnan hnan' hrank

/-- The result of an aggregate does not depend on the order of its values. -/
theorem finalize_perm {kind : AggregateKind} {argument resultType : ExpressionType}
    {vs ws : List ResultValue} {v w : NullableResultValue} (hperm : vs.Perm ws)
    (hvs : ∀ v ∈ vs, HasStaticType argument (some v))
    (hresult : getAggregateResultType kind argument = .ok resultType)
    (hsums : kind = .sum ∨ kind = .avg → argument ≠ .double)
    (halike : kind = .avg →
      Binary64.AddsAlike Binary64.zero (vs.map asDouble) (ws.map asDouble))
    (hv : finalizeAggregateState kind resultType (vs.foldl (enterValue kind resultType) {}) =
      .ok v)
    (hw : finalizeAggregateState kind resultType (ws.foldl (enterValue kind resultType) {}) =
      .ok w) : compareNullableResultValues v w = .ok .eq := by
  have hcount := foldl_count_perm hperm hvs hresult
  have hws : ∀ u ∈ ws, HasStaticType argument (some u) :=
    fun u hu => hvs u (hperm.mem_iff.mpr hu)
  cases kind with
  | count =>
    cases hv
    cases hw
    rw [hcount]
    exact compare_self _
  | sum =>
    cases argument with
    | int64 =>
      cases hresult
      obtain ⟨xs, rfl⟩ := exists_ints hvs
      obtain ⟨ys, rfl⟩ := exists_ints hws
      have hsum := ((perm_of_map_int64 hperm).map Int64.toInt).sum_eq
      simp only [finalizeAggregateState, hcount, intSum_foldl, hsum] at hv hw
      exact compare_of_eq (Except.ok.inj (hv.symm.trans hw))
    | double => exact absurd rfl (hsums (Or.inl rfl))
    | string | boolean | null => cases hresult
  | avg =>
    cases argument with
    | int64 =>
      cases hresult
      obtain ⟨xs, rfl⟩ := exists_ints hvs
      obtain ⟨ys, rfl⟩ := exists_ints hws
      have haverage := fun n => @average_alike xs ys n (halike rfl)
      simp only [finalizeAggregateState, hcount] at hv hw
      split at hv
      · rename_i hzero
        rw [if_pos hzero] at hw
        exact compare_of_eq (Except.ok.inj (hv.symm.trans hw))
      · rename_i hzero
        rw [if_neg hzero] at hw
        cases hv
        cases hw
        exact haverage _
    | double => exact absurd rfl (hsums (Or.inr rfl))
    | string | boolean | null => cases hresult
  | min =>
    cases argument with
    | int64 =>
      cases hresult
      obtain ⟨xs, rfl⟩ := exists_ints hvs
      obtain ⟨ys, rfl⟩ := exists_ints hws
      simp only [finalizeAggregateState, hcount, intMin_perm (perm_of_map_int64 hperm)] at hv hw
      exact compare_of_eq (Except.ok.inj (hv.symm.trans hw))
    | double =>
      cases hresult
      obtain ⟨xs, rfl⟩ := exists_doubles hvs
      obtain ⟨ys, rfl⟩ := exists_doubles hws
      have hmin := doubleMin_perm (perm_of_map_double hperm)
      simp only [finalizeAggregateState, hcount] at hv hw
      split at hv
      · rename_i hzero
        rw [if_pos hzero] at hw
        exact compare_of_eq (Except.ok.inj (hv.symm.trans hw))
      · rename_i hzero
        rw [if_neg hzero] at hw
        cases hv
        cases hw
        exact hmin
    | string | boolean | null => cases hresult
  | max =>
    cases argument with
    | int64 =>
      cases hresult
      obtain ⟨xs, rfl⟩ := exists_ints hvs
      obtain ⟨ys, rfl⟩ := exists_ints hws
      simp only [finalizeAggregateState, hcount, intMax_perm (perm_of_map_int64 hperm)] at hv hw
      exact compare_of_eq (Except.ok.inj (hv.symm.trans hw))
    | double =>
      cases hresult
      obtain ⟨xs, rfl⟩ := exists_doubles hvs
      obtain ⟨ys, rfl⟩ := exists_doubles hws
      have hmax := doubleMax_perm (perm_of_map_double hperm)
      simp only [finalizeAggregateState, hcount] at hv hw
      split at hv
      · rename_i hzero
        rw [if_pos hzero] at hw
        exact compare_of_eq (Except.ok.inj (hv.symm.trans hw))
      · rename_i hzero
        rw [if_neg hzero] at hw
        cases hv
        cases hw
        exact hmax
    | string | boolean | null => cases hresult

/-! ## Groups -/

variable {α β : Type} [ICursor α] [ICursor β] {std : StdSort Exception}
  {engine : IStorageEngine α} {engine' : IStorageEngine β} {fuel fuel' : Nat}
  {built : Option (α × World)} {built' : Option (β × World)} {xs ys : List Row}
  {names : List Bytes}

private theorem GoodRow.toOrderable {row : Row} (h : GoodRow schema statement row) :
    Orderable statement row := by
  intro item hitem
  apply h.evaluates
  unfold BoundSelectStatement.expressions
  exact List.mem_append_right _ (List.mem_map_of_mem hitem)

private theorem mem_groupMembers (hbound : Bound schema statement)
    (hxs : ∀ r ∈ xs, GoodRow schema statement r) {r s : Row} (hr : r ∈ passing statement xs)
    (hs : s ∈ passing statement xs) (hkey : groupRank statement s = groupRank statement r) :
    s ∈ groupMembers statement xs r := by
  have hgood : ∀ x ∈ passing statement xs, GoodRow schema statement x :=
    fun x hx => hxs x (List.mem_filter.mp hx).1
  apply List.mem_filter.mpr
  rw [sameKey_eq hbound (hgood r hr) (hgood s hs)]
  exact ⟨hs, decide_eq_true hkey⟩

private theorem groupMembers_eq (hbound : Bound schema statement)
    (hxs : ∀ r ∈ xs, GoodRow schema statement r) {g : Gathered Row}
    (hg : g ∈ groupsOf statement xs) {r : Row} (hr : GoodRow schema statement r)
    (hkey : groupRank statement r = groupRank statement g.first) :
    groupMembers statement xs r = g.members := by
  have hof := Gathered.of_groups (groupRank statement) (passing statement xs)
  rw [hof.members_eq g hg]
  apply List.filter_congr
  intro s hs
  rw [sameKey_eq hbound hr (hxs s (List.mem_filter.mp hs).1), hkey]
  exact decide_eq_decide.mpr Iff.rfl

private theorem opener_eq (hbound : Bound schema statement)
    (hxs : ∀ r ∈ xs, GoodRow schema statement r) {g : Gathered Row}
    (hg : g ∈ groupsOf statement xs) {r : Row} (hr : GoodRow schema statement r)
    (hkey : groupRank statement r = groupRank statement g.first) :
    opener statement xs r = g.first := by
  rw [opener, groupMembers_eq hbound hxs hg hr hkey]
  rfl

/-- What an aggregate gives for the same rows in another order. -/
theorem aggregateResult_perm (hbound : Bound schema statement) (hsums : NoDoubleSums statement)
    (hxs : ∀ r ∈ xs, GoodRow schema statement r) (hperm : xs.Perm ys) {kind : AggregateKind}
    {e : BoundExpression} {resultType : ExpressionType}
    (hitem : .aggregate kind e resultType ∈ statement.selectItems)
    (halike : kind = .avg → Binary64.AddsAlike Binary64.zero ((arguments e xs).map asDouble)
      ((arguments e ys).map asDouble)) :
    compareNullableResultValues (aggregateResult (.aggregate kind e resultType) xs)
      (aggregateResult (.aggregate kind e resultType) ys) = .ok .eq := by
  obtain ⟨hwell, hresult⟩ := hbound.items _ hitem
  have hvalue : ∀ r ∈ xs, evaluateExpression (rowValue r) e = .ok (valueOn r e) :=
    fun r hr => (hxs r hr).valueOn_eq (GoodRow.item_mem hitem)
  have hvalue' : ∀ r ∈ ys, evaluateExpression (rowValue r) e = .ok (valueOn r e) :=
    fun r hr => hvalue r (hperm.mem_iff.mpr hr)
  have htyped : ∀ v ∈ arguments e xs, HasStaticType e.type (some v) := by
    intro v hv
    obtain ⟨r, hr, hrv⟩ := List.mem_filterMap.mp hv
    rw [← hrv]
    exact hasStaticType_evaluateExpression (hxs r hr).valid hwell (hvalue r hr)
  have hfinal := aggregateResult_eq hbound hitem xs
  have hfinal' := aggregateResult_eq hbound hitem ys
  rw [aggregateState_eq hvalue] at hfinal
  rw [aggregateState_eq hvalue'] at hfinal'
  exact finalize_perm (hperm.filterMap _) htyped hresult (hsums kind e resultType hitem) halike
    hfinal hfinal'

/-- The result rows of one group, opened by different rows. -/
private theorem itemResult_perm (hbound : Bound schema statement)
    (hkeyed : statement.groupByItems ≠ []) (hsums : NoDoubleSums statement)
    (hxs : ∀ r ∈ xs, GoodRow schema statement r) (hys : ∀ r ∈ ys, GoodRow schema statement r)
    (halike : OrderAlike statement xs ys) {g g' : Gathered Row} (hg : g ∈ groupsOf statement xs)
    (hg' : g' ∈ groupsOf statement ys)
    (hkey : groupRank statement g.first = groupRank statement g'.first)
    (hperm : g.members.Perm g'.members) {item : BoundSelectItem}
    (hitem : item ∈ statement.selectItems) :
    compareNullableResultValues (itemResult g item) (itemResult g' item) = .ok .eq := by
  have hof := Gathered.of_groups (groupRank statement) (passing statement xs)
  have hmembers : ∀ r ∈ g.members, GoodRow schema statement r := by
    intro r hr
    exact hxs r (List.mem_filter.mp ((hof.mem_members hg).mp hr).1).1
  have hfirst := hmembers g.first List.mem_cons_self
  have hfirst' := hmembers g'.first (hperm.mem_iff.mpr List.mem_cons_self)
  cases item with
  | expression e =>
    have hlaw : ItemLaw [g'.first] (.expression e) (valueOn g.first e) := by
      apply itemLaw_expression hbound hitem (all_grouped hbound hkeyed _ hitem) hfirst
      intro r hr
      obtain rfl := List.mem_singleton.mp hr
      exact ⟨hfirst', hkey.symm⟩
    obtain ⟨w, hw, hcompare⟩ := hlaw g'.first (List.mem_singleton_self _)
    obtain rfl : valueOn g'.first e = w :=
      Except.ok.inj ((hfirst'.valueOn_eq (GoodRow.item_mem hitem)).symm.trans hw)
    exact hcompare
  | aggregate kind e resultType =>
    apply aggregateResult_perm hbound hsums hmembers hperm hitem
    rintro rfl
    have haverages := halike.averages e resultType hitem g.first (hof.first_mem hg)
    rwa [groupMembers_eq hbound hxs hg hfirst rfl, groupMembers_eq hbound hys hg' hfirst hkey]
      at haverages

/-- A group on both sides: its result rows compare equal. -/
private structure SameGroup (statement : BoundSelectStatement) (xs ys : List Row)
    (g g' : Gathered Row) : Prop where
  passes : g.first ∈ passing statement xs
  left : opener statement xs g.first = g.first
  right : opener statement ys g.first = g'.first
  row : SameRow (groupResult statement g).row (groupResult statement g').row

/-- The place of a row in the order of the ORDER BY items, item by item. -/
private theorem rowOrder_eq {row : Row} (h : GoodRow schema statement row) :
    rowOrder statement row = statement.orderByItems.map fun item =>
      directed item.direction (valueOn row item.expression) := by
  have hvalues : sortValues statement row =
      statement.orderByItems.map fun item => valueOn row item.expression := by
    have hall := Result.mapM_eq_map (g := fun item : BoundOrderByItem =>
      valueOn row item.expression) statement.orderByItems fun item hitem =>
        h.valueOn_eq (by
          unfold BoundSelectStatement.expressions
          exact List.mem_append_right _ (List.mem_map_of_mem hitem))
    exact Except.ok.inj (h.orderable.symm.trans hall)
  rw [rowOrder, orderKey, directions, hvalues, List.zipWith_map]
  exact List.zipWith_self

/-- Rows of one group are in one place when ORDER BY items have one value in it. -/
private theorem rowOrder_of_sameKey (hbound : Bound schema statement)
    (hxs : ∀ r ∈ xs, GoodRow schema statement r) (hfree : OrderFree statement xs) {r s : Row}
    (hr : r ∈ passing statement xs) (hs : s ∈ groupMembers statement xs r) :
    rowOrder statement r = rowOrder statement s := by
  have hgoodr := hxs r (List.mem_filter.mp hr).1
  have hgoods := hxs s (List.mem_filter.mp (List.mem_filter.mp hs).1).1
  rw [rowOrder_eq hgoodr, rowOrder_eq hgoods]
  apply List.map_congr_left
  intro item hitem
  have hmem : item.expression ∈ statement.expressions := by
    unfold BoundSelectStatement.expressions
    exact List.mem_append_right _ (List.mem_map_of_mem hitem)
  have hcomparable := comparable_evaluateExpression hgoodr.valid hgoods.valid hgoodr.noNaN
    hgoods.noNaN (hbound.orderBy item hitem) (hgoodr.valueOn_eq hmem) (hgoods.valueOn_eq hmem)
  have hrank := (compareNullableResultValues_eq_iff hcomparable).mp
    (hfree.orderBy r hr s hs item hitem)
  cases item.direction with
  | asc => simp only [directed, hrank]
  | desc => simp only [directed, hrank]

private theorem sameGroups (hbound : Bound schema statement)
    (hkeyed : statement.groupByItems ≠ []) (hsums : NoDoubleSums statement)
    (hxs : ∀ r ∈ xs, GoodRow schema statement r) (hperm : xs.Perm ys)
    (halike : OrderAlike statement xs ys) :
    List.Forall₂ (SameGroup statement xs ys) (groupsOf statement xs) (groupsOf statement ys) := by
  have hys : ∀ r ∈ ys, GoodRow schema statement r := fun r hr => hxs r (hperm.mem_iff.mpr hr)
  have hpassing : (passing statement xs).Perm (passing statement ys) := hperm.filter _
  have hof := Gathered.of_groups (groupRank statement) (passing statement xs)
  obtain ⟨hlength, hgroups⟩ := List.forall₂_iff_zip.mp
    (@Gathered.groups_perm _ _ _ (groupRank statement) _ _ hpassing)
  refine List.forall₂_iff_zip.mpr ⟨hlength, ?_⟩
  intro g g' hmem
  obtain ⟨hg, hg'⟩ := List.of_mem_zip hmem
  obtain ⟨hkey, hmembers⟩ := hgroups hmem
  have hpasses := hof.first_mem hg
  have hfirst : GoodRow schema statement g.first := hxs _ (List.mem_filter.mp hpasses).1
  refine ⟨hpasses, opener_eq hbound hxs hg hfirst rfl, opener_eq hbound hys hg' hfirst hkey, ?_⟩
  rw [SameRow, groupResult, groupResult, List.forall₂_map_left_iff, List.forall₂_map_right_iff,
    List.forall₂_same]
  intro item hitem
  exact itemResult_perm hbound hkeyed hsums hxs hys halike hg hg' hkey hmembers hitem

/-- The first row of a group is one of the rows. -/
private theorem good_first (hxs : ∀ r ∈ xs, GoodRow schema statement r) :
    ∀ g ∈ groupsOf statement xs, GoodRow schema statement g.first := by
  intro g hg
  have hof := Gathered.of_groups (groupRank statement) (passing statement xs)
  exact hxs g.first (List.mem_filter.mp (hof.first_mem hg)).1

private theorem sortKeysLess_good (hbound : Bound schema statement) {r s : Row}
    (hr : GoodRow schema statement r) (hs : GoodRow schema statement s) :
    sortKeysLess (directions statement) (sortValues statement r) (sortValues statement s) =
      .ok (@decide (rowOrder statement r < rowOrder statement s)
        (LinearOrder.toDecidableLT _ _)) :=
  sortKeysLess_rows hbound hr.valid hs.valid hr.noNaN hs.noNaN (GoodRow.toOrderable hr)
    (GoodRow.toOrderable hs)

/-- Sorting the result rows of the groups raises no error. -/
theorem orderGroups_ok (std : StdSort Exception) (hbound : Bound schema statement)
    (hxs : ∀ r ∈ xs, GoodRow schema statement r) :
    ∃ sorted, orderGroups std statement
        ((groupsOf statement xs).map (groupResult statement)) = .ok sorted ∧
      sorted.Perm ((groupsOf statement xs).map (groupResult statement)) := by
  unfold orderGroups
  split
  · exact ⟨_, rfl, List.Perm.refl _⟩
  · have hdecides : Decides (fun x y : SortRow => sortKeysLess (directions statement) x.sortKeys
        y.sortKeys) (fun x y => @decide (orderKey (directions statement) x.sortKeys <
          orderKey (directions statement) y.sortKeys) (LinearOrder.toDecidableLT _ _))
        ((groupsOf statement xs).map (groupResult statement)) := by
      intro x hx y hy
      obtain ⟨g, hg, rfl⟩ := List.mem_map.mp hx
      obtain ⟨h, hh, rfl⟩ := List.mem_map.mp hy
      exact sortKeysLess_good hbound (good_first hxs g hg) (good_first hxs h hh)
    obtain ⟨sorted, hsorted, hpermuted, -⟩ := std.sorts_key
      (fun x : SortRow => orderKey (directions statement) x.sortKeys) hdecides
    exact ⟨sorted, hsorted, hpermuted⟩

/-- Both sides sort alike. -/
theorem orderGroups_perm (hbound : Bound schema statement)
    (hkeyed : statement.groupByItems ≠ []) (hsums : NoDoubleSums statement)
    (hxs : ∀ r ∈ xs, GoodRow schema statement r) (hperm : xs.Perm ys)
    (halike : OrderAlike statement xs ys) :
    ∃ sorted sorted', orderGroups std statement
        ((groupsOf statement xs).map (groupResult statement)) = .ok sorted ∧
      orderGroups std statement ((groupsOf statement ys).map (groupResult statement)) =
        .ok sorted' ∧
      List.Forall₂ SameRow (sorted.map SortRow.row) (sorted'.map SortRow.row) := by
  have hsame := sameGroups hbound hkeyed hsums hxs hperm halike
  have hys : ∀ r ∈ ys, GoodRow schema statement r := fun r hr => hxs r (hperm.mem_iff.mpr hr)
  let R (x x' : SortRow) : Prop := ∃ g g', SameGroup statement xs ys g g' ∧
    x = groupResult statement g ∧ x' = groupResult statement g'
  have hrows : List.Forall₂ R ((groupsOf statement xs).map (groupResult statement))
      ((groupsOf statement ys).map (groupResult statement)) := by
    rw [List.forall₂_map_left_iff, List.forall₂_map_right_iff]
    exact hsame.imp fun g g' h => ⟨g, g', h, rfl, rfl⟩
  obtain ⟨sorted, hsorted, -⟩ := orderGroups_ok std hbound hxs
  obtain ⟨sorted', hsorted', -⟩ := orderGroups_ok std hbound hys
  refine ⟨sorted, sorted', hsorted, hsorted', ?_⟩
  have hrelated : List.Forall₂ R sorted sorted' := by
    unfold orderGroups at hsorted hsorted'
    split at hsorted
    · cases hsorted
      rw [if_pos (by assumption)] at hsorted'
      cases hsorted'
      exact hrows
    · rw [if_neg (by assumption)] at hsorted'
      have hsorts : RelatedResults (List.Forall₂ R)
          (sortRows std statement ((groupsOf statement xs).map (groupResult statement)))
          (sortRows std statement ((groupsOf statement ys).map (groupResult statement))) := by
        apply std.parametric _ hrows
        rintro x x' y y' ⟨g, g', hg, rfl, rfl⟩ ⟨h, h', hh, rfl, rfl⟩
        have hless := halike.orderBy g.first hg.passes h.first hh.passes
        rwa [hg.left, hg.right, hh.left, hh.right] at hless
      rwa [hsorted, hsorted'] at hsorts
  rw [List.forall₂_map_left_iff, List.forall₂_map_right_iff]
  apply hrelated.imp
  rintro x x' ⟨g, g', hgroup, rfl, rfl⟩
  exact hgroup.row

/-- Sums of values that together stay below `2 ^ 53` are exact. -/
theorem exact_of_small {values : List ResultValue}
    (h : (values.map fun v => (asInt v).natAbs).sum < 2 ^ 53) {ints : List Int64}
    (hints : (ints.map ResultValue.int64).Subperm values) :
    Binary64.Exact (ints.map Int64.toInt).sum := by
  apply Binary64.exact_of_natAbs_lt
  obtain ⟨picked, hpicked, hsublist⟩ := hints
  have hsum : ((ints.map ResultValue.int64).map fun v => (asInt v).natAbs).sum ≤
      (values.map fun v => (asInt v).natAbs).sum := by
    rw [← (hpicked.map _).sum_eq]
    exact (hsublist.map _).sum_le_sum fun _ _ => Nat.zero_le _
  have habs : ∀ zs : List Int64, (zs.map Int64.toInt).sum.natAbs ≤
      ((zs.map ResultValue.int64).map fun v => (asInt v).natAbs).sum := by
    intro zs
    induction zs with
    | nil => exact le_rfl
    | cons z zs ih =>
      simp only [List.map_cons, List.sum_cons]
      exact (Int.natAbs_add_le _ _).trans (Nat.add_le_add_left ih _)
  exact ((habs ints).trans hsum).trans_lt h

/-- The values of an AVG that the binder accepts are INT64 when no double is summed. -/
theorem avg_arguments (hbound : Bound schema statement) (hsums : NoDoubleSums statement)
    (hxs : ∀ r ∈ xs, GoodRow schema statement r) {e : BoundExpression}
    {resultType : ExpressionType} (hitem : .aggregate .avg e resultType ∈ statement.selectItems) :
    ∀ v ∈ arguments e xs, HasStaticType .int64 (some v) := by
  obtain ⟨hwell, hresult⟩ := hbound.items _ hitem
  have htype : e.type = .int64 := by
    have hdouble := hsums .avg e resultType hitem (Or.inr rfl)
    cases htype : e.type with
    | int64 => rfl
    | double => exact absurd htype hdouble
    | string | boolean | null =>
      rw [htype] at hresult
      cases hresult
  intro v hv
  obtain ⟨r, hr, hrv⟩ := List.mem_filterMap.mp hv
  rw [← htype, ← hrv]
  exact hasStaticType_evaluateExpression (hxs r hr).valid hwell
    ((hxs r hr).valueOn_eq (GoodRow.item_mem hitem))

/-- Where the order is irrelevant any two come to the same. -/
theorem OrderFree.alike (hfree : OrderFree statement xs) (hbound : Bound schema statement)
    (hsums : NoDoubleSums statement) (hxs : ∀ r ∈ xs, GoodRow schema statement r)
    (hperm : xs.Perm ys) : OrderAlike statement xs ys := by
  have hpassing : (passing statement xs).Perm (passing statement ys) := hperm.filter _
  have hmembers : ∀ r, (groupMembers statement xs r).Perm (groupMembers statement ys r) :=
    fun r => hpassing.filter _
  have hopener : ∀ r ∈ passing statement xs, opener statement xs r ∈ groupMembers statement xs r ∧
      opener statement ys r ∈ groupMembers statement xs r := by
    intro r hr
    have hself := mem_groupMembers hbound hxs hr hr rfl
    constructor
    · obtain ⟨first, rest, hfirst⟩ := List.exists_cons_of_ne_nil (List.ne_nil_of_mem hself)
      rw [opener, hfirst]
      exact List.mem_cons_self
    · have hself' := (hmembers r).mem_iff.mp hself
      obtain ⟨first, rest, hfirst⟩ := List.exists_cons_of_ne_nil (List.ne_nil_of_mem hself')
      rw [(hmembers r).mem_iff, opener, hfirst]
      exact List.mem_cons_self
  have hgood : ∀ r, ∀ s ∈ groupMembers statement xs r, GoodRow schema statement s :=
    fun r s hs => hxs s (List.mem_filter.mp (List.mem_filter.mp hs).1).1
  constructor
  · intro r hr s hs
    obtain ⟨hrx, hry⟩ := hopener r hr
    obtain ⟨hsx, hsy⟩ := hopener s hs
    rw [sortKeysLess_good hbound (hgood r _ hrx) (hgood s _ hsx),
      sortKeysLess_good hbound (hgood r _ hry) (hgood s _ hsy),
      ← rowOrder_of_sameKey hbound hxs hfree hr hrx, ← rowOrder_of_sameKey hbound hxs hfree hr hry,
      ← rowOrder_of_sameKey hbound hxs hfree hs hsx, ← rowOrder_of_sameKey hbound hxs hfree hs hsy]
  · intro e resultType hitem r hr
    exact addsAlike_of_exact ((hmembers r).filterMap _)
      (avg_arguments hbound hsums (hgood r) hitem) (hfree.averages e resultType hitem r hr)

/-- Two cursors that yield the same rows in different orders give the same result
when the two orders come to the same for ORDER BY and AVG. The schema and the rows are any
that the binder and the expressions accept (`hxs`: no expression raises an error, no NaN);
sums of stored doubles are excluded by `hsums`, and nothing else about the statement is. -/
theorem grouped_select_order_free {source : SelectStatement}
    (hbind : bindSelectOver schema source = .ok statement)
    (hkeyed : statement.groupByItems ≠ []) (hsums : NoDoubleSums statement)
    (hbuilt : buildCursorForSelect engine statement (collectRequiredProjection statement) false =
      .ok built)
    (hreads : ReadsBuilt (collectRequiredProjection statement) built xs)
    (hbuilt' : buildCursorForSelect engine' statement (collectRequiredProjection statement)
      false = .ok built')
    (hreads' : ReadsBuilt (collectRequiredProjection statement) built' ys)
    (hperm : xs.Perm ys) (hxs : ∀ r ∈ xs, GoodRow schema statement r)
    (hfuel : xs.length ≤ fuel) (hfuel' : ys.length ≤ fuel')
    (halike : OrderAlike statement xs ys) :
    ∃ r r', executeGroupedAggregateSelect std engine fuel statement names
        (collectRequiredProjection statement) = .ok r ∧
      executeGroupedAggregateSelect std engine' fuel' statement names
        (collectRequiredProjection statement) = .ok r' ∧
      List.Forall₂ SameRow r.rows r'.rows := by
  have hbound := bound_bindSelectOver hbind
  have hys : ∀ r ∈ ys, GoodRow schema statement r := fun r hr => hxs r (hperm.mem_iff.mpr hr)
  obtain ⟨sorted, sorted', hsorted, hsorted', hrows⟩ :=
    @orderGroups_perm schema statement std xs ys hbound hkeyed hsums hxs hperm halike
  rw [executeGroupedAggregateSelect_eq hbound hbuilt hreads hxs hfuel,
    executeGroupedAggregateSelect_eq hbound hbuilt' hreads' hys hfuel', hsorted, hsorted']
  refine ⟨_, _, rfl, rfl, ?_⟩
  dsimp only
  unfold truncateRows
  split
  · exact hrows
  · rw [← hrows.length_eq]
    split
    · exact List.forall₂_take _ hrows
    · exact hrows

/-! ## On fixed rows -/

/-- `SELECT v, AVG(id) FROM t GROUP BY v ORDER BY v DESC`. -/
def selectAverages : SelectStatement where
  tableName := pairTable
  selectItems := [.expression (.column [118]), .aggregate .avg (.column [105, 100])]
  groupByItems := [.column [118]]
  orderByItems := [⟨.column [118], .desc⟩]

def boundSelectAverages : BoundSelectStatement where
  tableName := pairTable
  schema := pairSchema
  selectItems := [.expression (.column 1 .int64), .aggregate .avg (.column 0 .int64) .double]
  groupByItems := [.column 1 .int64]
  orderByItems := [⟨.column 1 .int64, .desc⟩]

/-- An integer that no double is comes between others. -/
private def unroundRows : List (Int64 × Int64) := [(1, 7), (9007199254740993, 5), (3, 7)]

private theorem unroundRows_alike : OrderAlike boundSelectAverages (unroundRows.map pairRow)
    (unroundRows.reverse.map pairRow) := by
  constructor
  · decide +kernel
  · intro e resultType hitem r hr
    obtain ⟨rfl, -⟩ : e = .column 0 .int64 ∧ resultType = .double := by
      simpa [boundSelectAverages] using hitem
    have hvalues : ∀ r ∈ passing boundSelectAverages (unroundRows.map pairRow),
        let values := arguments (.column 0 .int64)
          (groupMembers boundSelectAverages (unroundRows.map pairRow) r)
        let values' := arguments (.column 0 .int64)
          (groupMembers boundSelectAverages (unroundRows.reverse.map pairRow) r)
        values = values' ∨ values = [.int64 1, .int64 3] ∧ values' = [.int64 3, .int64 1] := by
      decide +kernel
    rcases hvalues r hr with hsame | ⟨hvalues, hvalues'⟩
    · rw [hsame]
      exact .refl _ _
    · rw [hvalues, hvalues']
      apply addsAlike_of_exact (List.Perm.swap _ _ _)
      · intro v hv
        simp only [List.mem_cons, List.not_mem_nil, or_false] at hv
        rcases hv with rfl | rfl <;> trivial
      · intro ints hints
        exact exact_of_small (by decide) hints

theorem grouped_select_order_free_three :
    ∃ r r', executeGroupedAggregateSelect (StdSort.insertion Exception)
        (cursorOver (unroundRows.map pairRow)) 3 boundSelectAverages []
        (collectRequiredProjection boundSelectAverages) = .ok r ∧
      executeGroupedAggregateSelect (StdSort.insertion Exception)
        (cursorOver (unroundRows.reverse.map pairRow)) 3 boundSelectAverages []
        (collectRequiredProjection boundSelectAverages) = .ok r' ∧
      List.Forall₂ SameRow r.rows r'.rows := by
  have hbind : bindSelectOver pairSchema selectAverages = .ok boundSelectAverages := rfl
  have hbuilt : ∀ rows, buildCursorForSelect (cursorOver rows) boundSelectAverages
      (collectRequiredProjection boundSelectAverages) false =
      .ok (some (⟨rows, none⟩, emptyWorld)) := fun _ => rfl
  have hreads := @reads_cursorOver unroundRows
    (collectRequiredProjection boundSelectAverages) (by decide)
  have hreads' := @reads_cursorOver unroundRows.reverse
    (collectRequiredProjection boundSelectAverages) (by decide)
  apply grouped_select_order_free hbind (List.cons_ne_nil _ _) _ (hbuilt _) hreads (hbuilt _)
    hreads' _ _ le_rfl le_rfl unroundRows_alike
  · intro kind e resultType hitem _
    obtain ⟨-, rfl, -⟩ : kind = .avg ∧ e = .column 0 .int64 ∧ resultType = .double := by
      simpa [boundSelectAverages] using hitem
    decide
  · exact unroundRows.reverse_perm.symm.map pairRow
  · intro r hr
    obtain ⟨pair, -, rfl⟩ := List.mem_map.mp hr
    apply goodRow_pairRow
    simp [BoundSelectStatement.expressions, boundSelectAverages, BoundSelectItem.argument]

/-- `SELECT v FROM t GROUP BY v ORDER BY id`. -/
def selectByHidden : SelectStatement where
  tableName := pairTable
  selectItems := [.expression (.column [118])]
  groupByItems := [.column [118]]
  orderByItems := [⟨.column [105, 100], .asc⟩]

def boundSelectByHidden : BoundSelectStatement where
  tableName := pairTable
  schema := pairSchema
  selectItems := [.expression (.column 1 .int64)]
  groupByItems := [.column 1 .int64]
  orderByItems := [⟨.column 0 .int64, .asc⟩]

/-- `SELECT AVG(v) FROM t GROUP BY v IS NULL`. -/
def selectAverage : SelectStatement where
  tableName := pairTable
  selectItems := [.aggregate .avg (.column [118])]
  groupByItems := [.isNull (.column [118]) false]

def boundSelectAverage : BoundSelectStatement where
  tableName := pairTable
  schema := pairSchema
  selectItems := [.aggregate .avg (.column 1 .int64) .double]
  groupByItems := [.isNull (.column 1 .int64) false]

/-- The binder accepts an ORDER BY item that the groups do not determine, and the
row that comes first in a group decides where it goes; and an average of integers
depends on the order of the additions. -/
theorem grouped_select_depends_on_order :
    bindSelectOver pairSchema selectByHidden = .ok boundSelectByHidden ∧
      executeGroupedAggregateSelect (StdSort.insertion Exception)
        (cursorOver ([(1, 7), (2, 5), (3, 7)].map pairRow)) 3 boundSelectByHidden []
        (collectRequiredProjection boundSelectByHidden) =
        .ok ⟨[], [[some (.int64 7)], [some (.int64 5)]]⟩ ∧
      executeGroupedAggregateSelect (StdSort.insertion Exception)
        (cursorOver ([(3, 7), (2, 5), (1, 7)].map pairRow)) 3 boundSelectByHidden []
        (collectRequiredProjection boundSelectByHidden) =
        .ok ⟨[], [[some (.int64 5)], [some (.int64 7)]]⟩ ∧
      bindSelectOver pairSchema selectAverage = .ok boundSelectAverage ∧
      executeGroupedAggregateSelect (StdSort.insertion Exception)
        (cursorOver ([(1, 9007199254740992), (2, 1), (3, 1)].map pairRow)) 3 boundSelectAverage []
        (collectRequiredProjection boundSelectAverage) =
        .ok ⟨[], [[some (.double ⟨0x4325555555555555⟩)]]⟩ ∧
      executeGroupedAggregateSelect (StdSort.insertion Exception)
        (cursorOver ([(2, 1), (3, 1), (1, 9007199254740992)].map pairRow)) 3 boundSelectAverage []
        (collectRequiredProjection boundSelectAverage) =
        .ok ⟨[], [[some (.double ⟨0x4325555555555557⟩)]]⟩ := by
  decide +kernel

end Htap.Properties
