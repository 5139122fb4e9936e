import Htap.Executor.GroupedSelect
import Htap.Executor.PlainSelect
import Htap.Read.Skipping

/-!
The data-skipping filter of a statement. A predicate is made of a comparison that is a
conjunct of WHERE, so every row on which WHERE is true passes the filter, and what a scan
leaves out under it changes nothing for the statement.
-/

namespace Htap.Executor

open Storage Htap.Parser SSTable Read Cursor Words

/-! ## One comparison -/

/-- A comparison operator as the filter has it, on values in an order, either way round. -/
private theorem relates_of_comparisonHolds {κ : Type} [LinearOrder κ] {a b : κ}
    {operation : BinaryOperation} {op : NumericComparisonOp}
    (hop : convertOperation operation = some op)
    (h : comparisonHolds operation (cmp a b) = .ok true) :
    op.relates a b = true ∧ (reverseOperation op).relates b a = true := by
  cases operation with
  | equal =>
    cases hop
    obtain rfl : a = b := by simpa [comparisonHolds, cmp_eq_eq_iff] using h
    constructor <;> simp [NumericComparisonOp.relates, reverseOperation]
  | less =>
    cases hop
    have hlt : a < b := by simpa [comparisonHolds, cmp_eq_lt_iff] using h
    constructor <;> simpa [NumericComparisonOp.relates, reverseOperation] using hlt
  | lessEqual =>
    cases hop
    have hle : a ≤ b := by simpa [comparisonHolds, cmp_eq_gt_iff] using h
    constructor <;> simpa [NumericComparisonOp.relates, reverseOperation] using hle
  | greater =>
    cases hop
    have hlt : b < a := by simpa [comparisonHolds, cmp_eq_gt_iff] using h
    constructor <;> simpa [NumericComparisonOp.relates, reverseOperation] using hlt
  | greaterEqual =>
    cases hop
    have hle : b ≤ a := by simpa [comparisonHolds, cmp_eq_lt_iff] using h
    constructor <;> simpa [NumericComparisonOp.relates, reverseOperation] using hle
  | notEqual | and | or => cases hop

/-- A cell and a literal that compare with each other do so in one linear order, where the
predicate compares them too. -/
private theorem compare_literal {value literal : Value} {number : NumericStatsValue}
    (hnumber : numericLiteral (some literal) = some number)
    (hliteral : (numericValueAsDouble number).isNaN = false)
    (hvalue : ∀ d, value = .double d → d.isNaN = false) :
    (∃ s, value = .string s) ∨
      ∃ (κ : Type) (_ : LinearOrder κ) (a b : κ),
        compareResultValues (resultValue value) (resultValue literal) = .ok (cmp a b) ∧
        compareResultValues (resultValue literal) (resultValue value) = .ok (cmp b a) ∧
        ∀ i op, NumericColumnPredicate.passes ⟨i, op, number⟩ (some value) = op.relates a b := by
  have hdoubles : ∀ {x y : Binary64}, x.isNaN = false → y.isNaN = false →
      compareDoubles x y = cmp x.rank y.rank := fun hx hy => compareDoubles_eq (Or.inl ⟨hx, hy⟩)
  cases value with
  | string s => exact Or.inl ⟨s, rfl⟩
  | int64 v =>
    right
    cases literal with
    | string _ => cases hnumber
    | int64 k =>
      cases hnumber
      exact ⟨Int64, inferInstance, v, k, rfl, rfl, fun _ _ => rfl⟩
    | double k =>
      cases hnumber
      have hv := Binary64.isNaN_ofInt64 v
      have hk : k.isNaN = false := hliteral
      exact ⟨ℤ, inferInstance, (Binary64.ofInt64 v).rank, k.rank,
        congrArg Except.ok (hdoubles hv hk), congrArg Except.ok (hdoubles hk hv), fun _ _ => rfl⟩
  | double d =>
    right
    have hd := hvalue d rfl
    cases literal with
    | string _ => cases hnumber
    | int64 k =>
      cases hnumber
      have hk := Binary64.isNaN_ofInt64 k
      exact ⟨ℤ, inferInstance, d.rank, (Binary64.ofInt64 k).rank,
        congrArg Except.ok (hdoubles hd hk), congrArg Except.ok (hdoubles hk hd), fun _ _ => rfl⟩
    | double k =>
      cases hnumber
      have hk : k.isNaN = false := hliteral
      exact ⟨ℤ, inferInstance, d.rank, k.rank, congrArg Except.ok (hdoubles hd hk),
        congrArg Except.ok (hdoubles hk hd), fun _ _ => rfl⟩

private theorem numericLiteral_string {literal : Value} {number : NumericStatsValue}
    (hnumber : numericLiteral (some literal) = some number) (s : Bytes) (c : Ordering) :
    compareResultValues (.string s) (resultValue literal) ≠ .ok c ∧
      compareResultValues (resultValue literal) (.string s) ≠ .ok c := by
  cases literal with
  | string _ => cases hnumber
  | int64 _ | double _ => constructor <;> (intro h; cases h)

/-- A true comparison of a cell with a literal, the cell on the left. -/
private theorem passes_of_compare {value literal : Value} {number : NumericStatsValue}
    (hnumber : numericLiteral (some literal) = some number)
    (hliteral : (numericValueAsDouble number).isNaN = false)
    (hvalue : ∀ d, value = .double d → d.isNaN = false) {operation : BinaryOperation}
    {op : NumericComparisonOp} (hop : convertOperation operation = some op) {c : Ordering}
    (hc : compareResultValues (resultValue value) (resultValue literal) = .ok c)
    (h : comparisonHolds operation c = .ok true) (i : Nat) :
    NumericColumnPredicate.passes ⟨i, op, number⟩ (some value) = true := by
  rcases compare_literal hnumber hliteral hvalue with ⟨s, rfl⟩ | ⟨κ, order, a, b, hab, -, hpasses⟩
  · exact absurd hc (numericLiteral_string hnumber s c).1
  · rw [hab, Except.ok.injEq] at hc
    rw [hpasses]
    exact (relates_of_comparisonHolds hop (hc ▸ h)).1

/-- A true comparison of a cell with a literal, the cell on the right. -/
private theorem passes_of_compare_reverse {value literal : Value} {number : NumericStatsValue}
    (hnumber : numericLiteral (some literal) = some number)
    (hliteral : (numericValueAsDouble number).isNaN = false)
    (hvalue : ∀ d, value = .double d → d.isNaN = false) {operation : BinaryOperation}
    {op : NumericComparisonOp} (hop : convertOperation operation = some op) {c : Ordering}
    (hc : compareResultValues (resultValue literal) (resultValue value) = .ok c)
    (h : comparisonHolds operation c = .ok true) (i : Nat) :
    NumericColumnPredicate.passes ⟨i, reverseOperation op, number⟩ (some value) = true := by
  rcases compare_literal hnumber hliteral hvalue with ⟨s, rfl⟩ | ⟨κ, order, a, b, -, hba, hpasses⟩
  · exact absurd hc (numericLiteral_string hnumber s c).2
  · rw [hba, Except.ok.injEq] at hc
    rw [hpasses]
    exact (relates_of_comparisonHolds hop (hc ▸ h)).2

/-! ## A conjunct that is a comparison -/

private theorem isNaN_cell {row : Row} (hrow : NoNaN row) {i : Nat} {value : Value}
    (h : cell row i = some value) (d : Binary64) (hd : value = .double d) : d.isNaN = false := by
  subst hd
  apply hrow
  rw [cell, List.getD_eq_getElem?_getD] at h
  cases hget : row[i]? with
  | none => simp [hget] at h
  | some c =>
    rw [hget, Option.getD_some] at h
    exact h ▸ List.mem_of_getElem? hget

/-- What a comparison needs to be true: two values that are not NULL and compare so. -/
private theorem of_evaluateBinary {operation : BinaryOperation} {op : NumericComparisonOp}
    (hop : convertOperation operation = some op) {l r : NullableResultValue}
    (h : (match operation with
      | .and => evaluateAnd l r
      | .or => evaluateOr l r
      | operation => evaluateComparison operation l r) = .ok (some (.bool true))) :
    ∃ x y c, l = some x ∧ r = some y ∧ compareResultValues x y = .ok c ∧
      comparisonHolds operation c = .ok true := by
  have hcomparison : evaluateComparison operation l r = .ok (some (.bool true)) := by
    cases operation with
    | and | or => cases hop
    | equal | notEqual | less | lessEqual | greater | greaterEqual => exact h
  unfold evaluateComparison at hcomparison
  split at hcomparison
  · rename_i x y
    obtain ⟨c, hc, hcomparison⟩ := Result.bind_eq_ok.mp hcomparison
    obtain ⟨b, hb, hcomparison⟩ := Result.bind_eq_ok.mp hcomparison
    cases hcomparison
    exact ⟨x, y, c, rfl, rfl, hc, hb⟩
  · cases hcomparison

/-- The predicate of a conjunct passes on every row on which the conjunct is true. -/
theorem passes_skippingPredicate {schema : Schema} {row : Row} (hnan : NoNaN row)
    {conjunct : BoundExpression} {predicate : NumericColumnPredicate}
    (hpredicate : skippingPredicate schema conjunct = some predicate)
    (hliteral : (numericValueAsDouble predicate.value).isNaN = false)
    (h : HoldsOn row conjunct) :
    predicate.passes (cell row predicate.columnIdx) = true := by
  obtain ⟨⟨operation, i, literal, columnOnLeft⟩, hshape, hrest⟩ :=
    Option.bind_eq_some_iff.mp hpredicate
  obtain ⟨op, hop, hrest⟩ := Option.bind_eq_some_iff.mp hrest
  obtain ⟨number, hnumber, hrest⟩ := Option.bind_eq_some_iff.mp hrest
  obtain ⟨column, -, hrest⟩ := Option.bind_eq_some_iff.mp hrest
  split at hrest
  · cases hrest
  cases hrest
  unfold columnComparison at hshape
  split at hshape
  · cases hshape
    obtain ⟨l, hl, h⟩ := Result.bind_eq_ok.mp h
    obtain ⟨r, hr, h⟩ := Result.bind_eq_ok.mp h
    obtain ⟨v, hv, hl⟩ := Result.bind_eq_ok.mp hl
    cases hr
    cases hv
    cases hl
    obtain ⟨x, y, c, hx, hy, hc, hholds⟩ := of_evaluateBinary hop h
    obtain ⟨value, hvalue, rfl⟩ := Option.map_eq_some_iff.mp hx
    obtain ⟨literal, rfl, rfl⟩ := Option.map_eq_some_iff.mp hy
    rw [if_pos rfl, hvalue]
    exact passes_of_compare hnumber hliteral (isNaN_cell hnan hvalue) hop hc hholds _
  · cases hshape
    obtain ⟨l, hl, h⟩ := Result.bind_eq_ok.mp h
    obtain ⟨r, hr, h⟩ := Result.bind_eq_ok.mp h
    obtain ⟨v, hv, hr⟩ := Result.bind_eq_ok.mp hr
    cases hl
    cases hv
    cases hr
    obtain ⟨x, y, c, hx, hy, hc, hholds⟩ := of_evaluateBinary hop h
    obtain ⟨literal, rfl, rfl⟩ := Option.map_eq_some_iff.mp hx
    obtain ⟨value, hvalue, rfl⟩ := Option.map_eq_some_iff.mp hy
    rw [if_neg Bool.false_ne_true, hvalue]
    exact passes_of_compare_reverse hnumber hliteral (isNaN_cell hnan hvalue) hop hc hholds _
  · cases hshape

/-! ## The filter of a statement -/

variable {statement : BoundSelectStatement}

/-- A row on which WHERE is true passes the filter made from WHERE. -/
theorem passes_buildDataSkippingFilter (hliterals : (buildDataSkippingFilter statement).Ordered)
    {row : Row} (hnan : NoNaN row) (h : holds statement row = true) :
    (buildDataSkippingFilter statement).passes row = true := by
  apply List.all_eq_true.mpr
  intro predicate hmem
  obtain ⟨conjunct, hconjunct, hpredicate⟩ := List.mem_filterMap.mp hmem
  apply passes_skippingPredicate hnan hpredicate (hliterals predicate hmem)
  exact holdsOn_conjuncts (holdsOn_of_holds h) conjunct hconjunct

/-- Rows left out under the filter are rows that WHERE drops. -/
theorem Pruned.holds (hliterals : (buildDataSkippingFilter statement).Ordered)
    {rows found : List Row} (hnan : ∀ row ∈ rows, NoNaN row)
    (h : Pruned (buildDataSkippingFilter statement).passes rows found) :
    Pruned (Executor.holds statement) rows found :=
  h.mono fun row hrow => passes_buildDataSkippingFilter hliterals (hnan row hrow)

/-! ## Loops over pruned rows -/

section Loop

variable {α σ : Type} [ICursor α] {projection : List Nat} {body : Body σ} {test : Row → Bool}

/-- More fuel changes no run that returns. -/
theorem whileValid_mono {fuel more : Nat} (hmore : fuel ≤ more) {c : α} {w : World} {s final : σ}
    (h : whileValid body fuel c w s = .ok final) : whileValid body more c w s = .ok final := by
  induction fuel generalizing more c w s with
  | zero =>
    unfold whileValid at h ⊢
    split at h
    · cases h
    · rename_i hinvalid
      rw [if_neg hinvalid]
      exact h
  | succ fuel ih =>
    obtain ⟨more, rfl⟩ := Nat.exists_eq_add_of_le' (Nat.zero_lt_of_lt hmore)
    unfold whileValid at h ⊢
    split at h
    · rename_i hvalid
      obtain ⟨⟨s', stop⟩, hbody, h⟩ := Result.bind_eq_ok.mp h
      simp only [if_pos hvalid, hbody, Result.ok_bind]
      dsimp only at h
      split at h
      · rename_i hstop
        rw [if_pos hstop]
        exact h
      · rename_i hstop
        obtain ⟨⟨c', w'⟩, hnext, h⟩ := Result.bind_eq_ok.mp h
        simp only [if_neg hstop, hnext, Result.ok_bind]
        exact ih (Nat.succ_le_succ_iff.mp hmore) h
    · rename_i hinvalid
      rw [if_neg hinvalid]
      exact h

/-- Rounds on rows that fail the test change nothing. -/
def Ignores (test : Row → Bool) (body : Body σ) : Prop :=
  ∀ row s next, test row = false → body (rowValue row) s = .ok next → next = (s, false)

/-- A loop that ignores the rows left out runs the same without them. -/
theorem whileValid_pruned (hbody : ReadsOnly projection body) (hignores : Ignores test body)
    {c c' : α} {w w' : World} {all found : List Row} (hall : Reads projection c w all)
    (hfound : Reads projection c' w' found) (hpruned : Pruned test all found) {fuel : Nat}
    {s final : σ} (h : whileValid body fuel c w s = .ok final) :
    whileValid body fuel c' w' s = .ok final := by
  induction hall generalizing c' w' found fuel s with
  | done hinvalid =>
    have hnone : found = [] := List.sublist_nil.mp hpruned.sub
    subst hnone
    cases hfound with
    | done hinvalid' =>
      unfold whileValid at h ⊢
      rw [if_neg (by simp [hinvalid])] at h
      rw [if_neg (by simp [hinvalid'])]
      exact h
  | @row c next w wnext row rest hvalid hvalue hnext _ ih =>
    cases fuel with
    | zero =>
      unfold whileValid at h
      rw [if_pos hvalid] at h
      cases h
    | succ fuel =>
      rw [whileValid, if_pos hvalid, hbody _ _ s hvalue] at h
      obtain ⟨⟨s', stop⟩, hround, h⟩ := Result.bind_eq_ok.mp h
      rcases hpruned.cons_cases with ⟨hfails, hrest⟩ | ⟨found', rfl, hrest⟩
      · -- The row is left out, and its round did nothing.
        cases hignores row s _ hfails hround
        simp only [Bool.false_eq_true, if_false, hnext, Result.ok_bind] at h
        exact whileValid_mono (Nat.le_succ fuel) (ih hfound hrest h)
      · cases hfound with
        | @row _ next' _ wnext' _ _ hvalid' hvalue' hnext' hrest' =>
          rw [whileValid, if_pos hvalid', hbody _ _ s hvalue', hround, Result.ok_bind]
          dsimp only at h ⊢
          split at h
          · rename_i hstop
            rw [if_pos hstop]
            exact h
          · rename_i hstop
            simp only [hnext, Result.ok_bind] at h
            simp only [if_neg hstop, hnext', Result.ok_bind]
            exact ih hrest' hrest h

end Loop

/-! ## The bodies of the three loops -/

private theorem passesWhere_of_fails {row : Row} {passes : Bool}
    (hfails : holds statement row = false)
    (h : passesWhere statement (rowValue row) = .ok passes) : passes = false := by
  rw [holds, h] at hfails
  exact hfails

theorem ignores_plainBody (statement : BoundSelectStatement) (requiresKeyAsc early : Bool) :
    Ignores (holds statement) (plainBody statement requiresKeyAsc early) := by
  intro row s next hfails h
  obtain ⟨passes, hpasses, h⟩ := Result.bind_eq_ok.mp h
  obtain rfl := passesWhere_of_fails hfails hpasses
  cases h
  rfl

theorem ignores_globalBody (statement : BoundSelectStatement)
    (aggregates : List (AggregateKind × BoundExpression × ExpressionType)) :
    Ignores (holds statement) (globalBody statement aggregates) := by
  intro row s next hfails h
  obtain ⟨passes, hpasses, h⟩ := Result.bind_eq_ok.mp h
  obtain rfl := passesWhere_of_fails hfails hpasses
  cases h
  rfl

theorem ignores_groupBody (statement : BoundSelectStatement) :
    Ignores (holds statement) (groupBody statement) := by
  intro row s next hfails h
  obtain ⟨passes, hpasses, h⟩ := Result.bind_eq_ok.mp h
  obtain rfl := passesWhere_of_fails hfails hpasses
  cases h
  rfl

/-! ## Engines that skip -/

section Engine

variable {α : Type} [ICursor α]

/-- The engine when every scan ignores its filter. -/
def IStorageEngine.unfiltered (engine : IStorageEngine α) : IStorageEngine α :=
  { engine with
    scan := fun tableName fromKey toKey projection order _ =>
      engine.scan tableName fromKey toKey projection order {} }

/-- The engine serves the table `rows`, and a scan under a filter leaves out only rows
that fail it. -/
structure SkipsRows (engine : IStorageEngine α) (tableName : Bytes) (schema : Schema)
    (rows : List Row) : Prop where
  get : ∀ key projection, validateProjection schema projection = .ok () →
    ∃ c w found, engine.get tableName key projection = .ok (c, w) ∧
      Reads projection c w found ∧ found.Perm (rows.filter fun r => rowKey r == key)
  scan : ∀ fromKey toKey projection order filter, DataSkippingFilter.Ordered filter →
    KeyRange.Ordered ⟨fromKey, toKey⟩ → validateProjection schema projection = .ok () →
    ∃ c w c' w' all found,
      engine.scan tableName fromKey toKey projection order {} = .ok (c, w) ∧
      Reads projection c w all ∧
      all.Perm (rows.filter fun r => KeyRange.contains ⟨fromKey, toKey⟩ (rowKey r)) ∧
      (order = .keyAscending → SortedRows all) ∧
      engine.scan tableName fromKey toKey projection order filter = .ok (c', w') ∧
      Reads projection c' w' found ∧ Pruned filter.passes all found

variable {engine : IStorageEngine α} {schema : Schema} {rows : List Row} {std : StdSort Exception}
  {fuel : Nat}

/-- The cursor that a statement gets, beside the one it would get without skipping. -/
structure Replaces (statement : BoundSelectStatement) (built built' : Option (α × World))
    (all found : List Row) : Prop where
  some : built.isSome = built'.isSome
  reads : ReadsBuilt (collectRequiredProjection statement) built all
  reads' : ReadsBuilt (collectRequiredProjection statement) built' found
  pruned : Pruned (holds statement) all found

theorem SkipsRows.build (h : SkipsRows engine statement.tableName schema rows)
    (hbound : Bound schema statement) (hliterals : (buildDataSkippingFilter statement).Ordered)
    (hnan : ∀ row ∈ rows, NoNaN row) {plan : KeyPlan}
    (hplan : planConjuncts statement.schema {} (conjuncts statement) = .ok plan)
    (requiresKeyAsc : Bool) :
    ∃ built built' all found,
      buildCursorForSelect engine.unfiltered statement (collectRequiredProjection statement)
        requiresKeyAsc = .ok built ∧
      buildCursorForSelect engine statement (collectRequiredProjection statement)
        requiresKeyAsc = .ok built' ∧
      Replaces statement built built' all found ∧
      all.Perm (rows.filter fun r => plan.access.reaches (rowKey r)) ∧
      (requiresKeyAsc = true → SortedRows all) := by
  have hprojection := hbound.validateProjection_ok
  unfold buildCursorForSelect
  simp only [hplan, Result.ok_bind]
  cases haccess : plan.access with
  | empty =>
    refine ⟨none, none, [], [], rfl, rfl, ⟨rfl, rfl, rfl, Pruned.refl _ _⟩, ?_,
      fun _ => List.Pairwise.nil⟩
    simp [Access.reaches]
  | point key =>
    obtain ⟨c, w, found, hget, hreads, hperm⟩ := h.get key _ hprojection
    have hget' : engine.unfiltered.get statement.tableName key
        (collectRequiredProjection statement) = .ok (c, w) := hget
    refine ⟨some (c, w), some (c, w), found, found, by simp [hget'], by simp [hget],
      ⟨rfl, hreads, hreads, Pruned.refl _ _⟩, hperm, fun _ => ?_⟩
    have hsame : ∀ r ∈ found, rowKey r = key := by
      intro r hr
      simpa using (List.mem_filter.mp (hperm.mem_iff.mp hr)).2
    apply List.pairwise_of_forall_mem_list
    intro a ha b hb
    exact ((hsame a ha).trans (hsame b hb).symm).le
  | range fromKey toKey =>
    obtain ⟨c, w, c', w', all, found, hscan, hreads, hperm, hsorted, hscan', hreads', hpruned⟩ :=
      h.scan fromKey toKey _ (if requiresKeyAsc then .keyAscending else .unordered)
        (buildDataSkippingFilter statement) hliterals (ordered_access haccess) hprojection
    have hall : ∀ row ∈ all, NoNaN row := by
      intro row hrow
      exact hnan row (List.mem_filter.mp (hperm.mem_iff.mp hrow)).1
    refine ⟨some (c, w), some (c', w'), all, found, ?_, by simp [hscan'],
      ⟨rfl, hreads, hreads', Pruned.holds hliterals hall hpruned⟩, hperm, ?_⟩
    · simp only [IStorageEngine.unfiltered, hscan, Result.ok_bind]
      rfl
    · intro hasc
      exact hsorted (if_pos hasc)

/-! ## SELECT -/

variable {built built' : Option (α × World)} {all found : List Row}

private theorem overCursor_replaces {σ : Type} {body : Body σ}
    (hbody : ReadsOnly (collectRequiredProjection statement) body)
    (hignores : Ignores (holds statement) body)
    (h : Replaces statement built built' all found) {s final : σ}
    (hrun : overCursor body fuel s built = .ok final) :
    overCursor body fuel s built' = .ok final := by
  obtain ⟨hsome, hreads, hreads', hpruned⟩ := h
  cases built with
  | none =>
    cases built' with
    | none => exact hrun
    | some _ => cases hsome
  | some cursor =>
    cases built' with
    | none => cases hsome
    | some cursor' => exact whileValid_pruned hbody hignores hreads hreads' hpruned hrun

/-- `ExecutePlainSelect` on a cursor that skips. -/
private theorem executePlainSelect_replaces {names : List Bytes} {early : Bool}
    {result : SelectResult}
    (hbuilt : buildCursorForSelect engine.unfiltered statement
      (collectRequiredProjection statement) (isRequiredKeyAsc statement) = .ok built)
    (hbuilt' : buildCursorForSelect engine statement (collectRequiredProjection statement)
      (isRequiredKeyAsc statement) = .ok built')
    (h : Replaces statement built built' all found)
    (hrun : executePlainSelect std engine.unfiltered fuel statement names
      (collectRequiredProjection statement) early = .ok result) :
    executePlainSelect std engine fuel statement names (collectRequiredProjection statement)
      early = .ok result := by
  unfold executePlainSelect at hrun ⊢
  simp only [hbuilt, Result.ok_bind] at hrun
  simp only [hbuilt', Result.ok_bind]
  obtain ⟨hsome, hreads, hreads', hpruned⟩ := h
  cases built with
  | none =>
    cases built' with
    | none => exact hrun
    | some _ => cases hsome
  | some cursor =>
    cases built' with
    | none => cases hsome
    | some cursor' =>
      obtain ⟨state, hstate, hrun⟩ := Result.bind_eq_ok.mp hrun
      have hstate' := whileValid_pruned (readsOnly_plainBody statement _ _)
        (ignores_plainBody statement _ _) hreads hreads' hpruned hstate
      dsimp only
      rw [hstate', Result.ok_bind]
      exact hrun

private theorem executeGlobalAggregateSelect_replaces {names : List Bytes} {result : SelectResult}
    (hbuilt : buildCursorForSelect engine.unfiltered statement
      (collectRequiredProjection statement) false = .ok built)
    (hbuilt' : buildCursorForSelect engine statement (collectRequiredProjection statement)
      false = .ok built')
    (h : Replaces statement built built' all found)
    (hrun : executeGlobalAggregateSelect engine.unfiltered fuel statement names
      (collectRequiredProjection statement) = .ok result) :
    executeGlobalAggregateSelect engine fuel statement names
      (collectRequiredProjection statement) = .ok result := by
  obtain ⟨aggregates, haggregates, hrun⟩ := Result.bind_eq_ok.mp hrun
  obtain ⟨opened, hopened, hrun⟩ := Result.bind_eq_ok.mp hrun
  rw [hbuilt, Except.ok.injEq] at hopened
  subst hopened
  obtain ⟨states, hstates, hrun⟩ := Result.bind_eq_ok.mp hrun
  have hstates' := overCursor_replaces (readsOnly_aggregates haggregates)
    (ignores_globalBody statement aggregates) h hstates
  unfold executeGlobalAggregateSelect
  simp only [haggregates, hbuilt', hstates', Result.ok_bind]
  exact hrun

private theorem executeGroupedAggregateSelect_replaces {names : List Bytes} {result : SelectResult}
    (hbuilt : buildCursorForSelect engine.unfiltered statement
      (collectRequiredProjection statement) false = .ok built)
    (hbuilt' : buildCursorForSelect engine statement (collectRequiredProjection statement)
      false = .ok built')
    (h : Replaces statement built built' all found)
    (hrun : executeGroupedAggregateSelect std engine.unfiltered fuel statement names
      (collectRequiredProjection statement) = .ok result) :
    executeGroupedAggregateSelect std engine fuel statement names
      (collectRequiredProjection statement) = .ok result := by
  obtain ⟨opened, hopened, hrun⟩ := Result.bind_eq_ok.mp hrun
  rw [hbuilt, Except.ok.injEq] at hopened
  subst hopened
  obtain ⟨groups, hgroups, hrun⟩ := Result.bind_eq_ok.mp hrun
  have hgroups' := overCursor_replaces (readsOnly_groupBody statement)
    (ignores_groupBody statement) h hgroups
  unfold executeGroupedAggregateSelect
  simp only [hbuilt', hgroups', Result.ok_bind]
  exact hrun

/-- A SELECT whose cursors, with and without skipping, read the same passing rows. -/
private theorem executeSelect_replaces {result : SelectResult}
    (hbuild : ∀ requiresKeyAsc, ∃ built built' all found,
      buildCursorForSelect engine.unfiltered statement (collectRequiredProjection statement)
        requiresKeyAsc = .ok built ∧
      buildCursorForSelect engine statement (collectRequiredProjection statement)
        requiresKeyAsc = .ok built' ∧ Replaces statement built built' all found)
    (hrun : executeSelect std engine.unfiltered fuel statement = .ok result) :
    executeSelect std engine fuel statement = .ok result := by
  obtain ⟨names, hnames, hrun⟩ := Result.bind_eq_ok.mp hrun
  unfold executeSelect
  simp only [hnames, Result.ok_bind]
  dsimp only at hrun
  split at hrun
  · rename_i hkind
    rw [if_pos hkind]
    obtain ⟨built, built', all, found, hbuilt, hbuilt', h⟩ := hbuild (isRequiredKeyAsc statement)
    exact executePlainSelect_replaces hbuilt hbuilt' h hrun
  · rename_i hnotPlain
    rw [if_neg hnotPlain]
    obtain ⟨built, built', all, found, hbuilt, hbuilt', h⟩ := hbuild false
    split at hrun
    · rename_i hkind
      rw [if_pos hkind]
      exact executeGlobalAggregateSelect_replaces hbuilt hbuilt' h hrun
    · rename_i hkind
      rw [if_neg hkind]
      exact executeGroupedAggregateSelect_replaces hbuilt hbuilt' h hrun

/-- A statement that returns has a plan. -/
theorem exists_plan_of_executeSelect {engine : IStorageEngine α} {result : SelectResult}
    (hrun : executeSelect std engine fuel statement = .ok result) :
    ∃ plan, planConjuncts statement.schema {} (conjuncts statement) = .ok plan := by
  obtain ⟨names, -, hrun⟩ := Result.bind_eq_ok.mp hrun
  dsimp only at hrun
  split at hrun
  · obtain ⟨built, hbuilt, -⟩ := Result.bind_eq_ok.mp hrun
    obtain ⟨plan, hplan, -⟩ := Result.bind_eq_ok.mp hbuilt
    exact ⟨plan, hplan⟩
  · split at hrun
    · obtain ⟨aggregates, -, hrun⟩ := Result.bind_eq_ok.mp hrun
      obtain ⟨built, hbuilt, -⟩ := Result.bind_eq_ok.mp hrun
      obtain ⟨plan, hplan, -⟩ := Result.bind_eq_ok.mp hbuilt
      exact ⟨plan, hplan⟩
    · obtain ⟨built, hbuilt, -⟩ := Result.bind_eq_ok.mp hrun
      obtain ⟨plan, hplan, -⟩ := Result.bind_eq_ok.mp hbuilt
      exact ⟨plan, hplan⟩

/-- What a SELECT returns when no block is skipped, it returns when blocks are. -/
theorem executeSelect_of_unfiltered (h : SkipsRows engine statement.tableName schema rows)
    (hbound : Bound schema statement) (hliterals : (buildDataSkippingFilter statement).Ordered)
    (hnan : ∀ row ∈ rows, NoNaN row) {result : SelectResult}
    (hrun : executeSelect std engine.unfiltered fuel statement = .ok result) :
    executeSelect std engine fuel statement = .ok result := by
  obtain ⟨plan, hplan⟩ := exists_plan_of_executeSelect hrun
  apply executeSelect_replaces _ hrun
  intro requiresKeyAsc
  obtain ⟨built, built', all, found, hbuilt, hbuilt', hreplaces, -⟩ :=
    h.build hbound hliterals hnan hplan requiresKeyAsc
  exact ⟨built, built', all, found, hbuilt, hbuilt', hreplaces⟩

end Engine

end Htap.Executor
