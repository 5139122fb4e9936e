import Htap.Executor.GroupedSelect
import Htap.Executor.Pushdown

/-!
Two engines whose cursors read the same, call for call. A SELECT over one of them ends as it
does over the other, errors included.
-/

namespace Htap.Executor

open Storage SSTable Read Cursor Htap.Parser

/-- Both fail for the same reason, or both open a cursor, and the two yield the same. -/
inductive OpenAlike {α β : Type} [ICursor α] [ICursor β] (projection : List Nat) :
    Result (α × World) → Result (β × World) → Prop
  | fails (e : Exception) : OpenAlike projection (.error e) (.error e)
  | opens {c : α} {w : World} {c' : β} {w' : World} {views : List RowView}
    (h : Yields projection c w views) (h' : Yields projection c' w' views) :
    OpenAlike projection (.ok (c, w)) (.ok (c', w'))

/-- The same with the cursor that a plan may do without. -/
inductive BuildAlike {α β : Type} [ICursor α] [ICursor β] (projection : List Nat) :
    Result (Option (α × World)) → Result (Option (β × World)) → Prop
  | fails (e : Exception) : BuildAlike projection (.error e) (.error e)
  | nothing : BuildAlike projection (.ok none) (.ok none)
  | opens {c : α} {w : World} {c' : β} {w' : World} {views : List RowView}
    (h : Yields projection c w views) (h' : Yields projection c' w' views) :
    BuildAlike projection (.ok (some (c, w))) (.ok (some (c', w')))

/-- The two engines read one table alike. -/
structure ServesAlike {α β : Type} [ICursor α] [ICursor β] (engine : IStorageEngine α)
    (engine' : IStorageEngine β) (tableName : Bytes) : Prop where
  get : ∀ key projection, OpenAlike projection (engine.get tableName key projection)
    (engine'.get tableName key projection)
  scan : ∀ fromKey toKey projection order filter, KeyRange.Ordered ⟨fromKey, toKey⟩ →
    OpenAlike projection (engine.scan tableName fromKey toKey projection order filter)
      (engine'.scan tableName fromKey toKey projection order filter)

variable {α β : Type} [ICursor α] [ICursor β] {engine : IStorageEngine α}
  {engine' : IStorageEngine β} {statement : BoundSelectStatement} {projection : List Nat}
  {fuel : Nat}

/-! ## Loops -/

/-- Readers that give the same cells give the same values. -/
theorem values_eq {f g : Nat → Result NullableValue} {cells : List NullableValue}
    (hf : projection.mapM f = .ok cells) (hg : projection.mapM g = .ok cells) :
    ∀ i ∈ projection, f i = g i := by
  have hboth := Result.mapM_eq_ok.mp hf
  have hboth' := Result.mapM_eq_ok.mp hg
  clear hf hg
  induction hboth with
  | nil => exact fun i hi => absurd hi List.not_mem_nil
  | cons hhead _ ih =>
    cases hboth' with
    | cons hhead' htail' =>
      intro i hi
      rcases List.mem_cons.mp hi with rfl | hi
      · exact hhead.trans hhead'.symm
      · exact ih htail' i hi

/-- A loop that reads projected columns does the same over both cursors. -/
theorem whileValid_alike {σ : Type} {body : Body σ} (hbody : ReadsOnly projection body) {c : α}
    {w : World} {c' : β} {w' : World} {views : List RowView} (h : Yields projection c w views)
    (h' : Yields projection c' w' views) (s : σ) :
    whileValid body fuel c w s = whileValid body fuel c' w' s := by
  induction h generalizing c' w' fuel s with
  | done hinvalid =>
    cases h' with
    | done hinvalid' =>
      unfold whileValid
      simp only [hinvalid, hinvalid', Bool.false_eq_true, if_false]
  | row hvalid _ hcells hnext _ ih =>
    cases h' with
    | row hvalid' _ hcells' hnext' hrest' =>
      unfold whileValid
      rw [if_pos hvalid, if_pos hvalid']
      cases fuel with
      | zero => rfl
      | succ fuel =>
        dsimp only
        rw [hbody _ _ s (values_eq hcells hcells')]
        cases body _ s with
        | error e => rfl
        | ok next =>
          obtain ⟨s', stop⟩ := next
          cases stop with
          | true => rfl
          | false =>
            simp only [Result.ok_bind, hnext, hnext', Bool.false_eq_true, if_false]
            exact ih hrest' s'

theorem OpenAlike.some {x : Result (α × World)} {y : Result (β × World)}
    (h : OpenAlike projection x y) :
    BuildAlike projection (x >>= fun opened => pure (some opened))
      (y >>= fun opened => pure (some opened)) := by
  cases h with
  | fails e => exact .fails e
  | opens hyields hyields' => exact .opens hyields hyields'

/-- What goes on alike with cursors that yield the same. -/
theorem BuildAlike.bind_eq {γ : Type} {x : Result (Option (α × World))}
    {y : Result (Option (β × World))} (h : BuildAlike projection x y)
    {f : Option (α × World) → Result γ} {g : Option (β × World) → Result γ}
    (hnothing : f none = g none)
    (hopens : ∀ {c w c' w' views}, Yields projection c w views → Yields projection c' w' views →
      f (Option.some (c, w)) = g (Option.some (c', w'))) : (x >>= f) = y >>= g := by
  cases h with
  | fails e => rfl
  | nothing => exact hnothing
  | opens hyields hyields' => exact hopens hyields hyields'

/-! ## SELECT -/

theorem ServesAlike.build (h : ServesAlike engine engine' statement.tableName)
    (projection : List Nat) (requiresKeyAsc : Bool) :
    BuildAlike projection (buildCursorForSelect engine statement projection requiresKeyAsc)
      (buildCursorForSelect engine' statement projection requiresKeyAsc) := by
  unfold buildCursorForSelect
  cases planConjuncts statement.schema {} (conjuncts statement) with
  | error e => exact .fails e
  | ok plan =>
    simp only [Result.ok_bind]
    cases haccess : plan.access with
    | empty => exact .nothing
    | point key => exact (h.get key projection).some
    | range fromKey toKey =>
      exact (h.scan fromKey toKey projection _ (buildDataSkippingFilter statement)
        (ordered_access haccess)).some

private theorem executePlainSelect_alike (std : StdSort Exception)
    (h : ServesAlike engine engine' statement.tableName) (names : List Bytes) (early : Bool) :
    executePlainSelect std engine fuel statement names (collectRequiredProjection statement)
        early =
      executePlainSelect std engine' fuel statement names (collectRequiredProjection statement)
        early := by
  unfold executePlainSelect
  dsimp only
  apply (h.build (collectRequiredProjection statement) (isRequiredKeyAsc statement)).bind_eq
  · rfl
  · intro c w c' w' views hyields hyields'
    dsimp only
    rw [whileValid_alike (readsOnly_plainBody statement _ _) hyields hyields']

private theorem executeGlobalAggregateSelect_alike
    (h : ServesAlike engine engine' statement.tableName) (names : List Bytes) :
    executeGlobalAggregateSelect engine fuel statement names
        (collectRequiredProjection statement) =
      executeGlobalAggregateSelect engine' fuel statement names
        (collectRequiredProjection statement) := by
  unfold executeGlobalAggregateSelect
  cases haggregates : statement.selectItems.mapM globalAggregate with
  | error e => rfl
  | ok aggregates =>
    simp only [Result.ok_bind]
    apply (h.build (collectRequiredProjection statement) false).bind_eq
    · rfl
    · intro c w c' w' views hyields hyields'
      rw [overCursor, overCursor,
        whileValid_alike (readsOnly_aggregates haggregates) hyields hyields']

private theorem executeGroupedAggregateSelect_alike (std : StdSort Exception)
    (h : ServesAlike engine engine' statement.tableName) (names : List Bytes) :
    executeGroupedAggregateSelect std engine fuel statement names
        (collectRequiredProjection statement) =
      executeGroupedAggregateSelect std engine' fuel statement names
        (collectRequiredProjection statement) := by
  unfold executeGroupedAggregateSelect
  apply (h.build (collectRequiredProjection statement) false).bind_eq
  · rfl
  · intro c w c' w' views hyields hyields'
    rw [overCursor, overCursor, whileValid_alike (readsOnly_groupBody statement) hyields hyields']

/-- A SELECT ends alike over both engines. -/
theorem executeSelect_alike (std : StdSort Exception)
    (h : ServesAlike engine engine' statement.tableName) :
    executeSelect std engine fuel statement = executeSelect std engine' fuel statement := by
  unfold executeSelect
  simp only [executePlainSelect_alike std h, executeGlobalAggregateSelect_alike h,
    executeGroupedAggregateSelect_alike std h]

end Htap.Executor
