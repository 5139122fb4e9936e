import Htap.Properties.Grouping

/-!
Static types are sound, so nothing behind the evaluation of an expression can
fail on a value of a wrong type: the only errors of the executor's loops are
those of evaluating an expression.
-/

namespace Htap.Properties

open Storage Htap.Parser SSTable Read Cursor Executor

variable {σ : Type} {schema : Schema} {statement : BoundSelectStatement} {row : Row}
  {rows : List Row} {x : Exception}

/-- Every cell is NULL or of the type of its column. -/
abbrev TypedRow (schema : Schema) (row : Row) : Prop :=
  List.Forall₂ HasType schema.types row

/-- On typed rows, the aggregates of a statement and its WHERE take every value that
their expressions have, in every state. -/
structure ValuesTaken (schema : Schema) (statement : BoundSelectStatement) : Prop where
  update : ∀ kind e resultType, .aggregate kind e resultType ∈ statement.selectItems →
    ∀ row, TypedRow schema row → ∀ v, evaluateExpression (rowValue row) e = .ok v →
      ∀ state, ∃ state', updateGlobalAggregateState kind resultType v state = .ok state'
  finalize : ∀ kind e resultType, .aggregate kind e resultType ∈ statement.selectItems →
    ∀ state, ∃ v, finalizeAggregateState kind resultType state = .ok v
  predicate : ∀ e ∈ statement.whereExpression, ∀ row, TypedRow schema row →
    ∀ v, evaluateExpression (rowValue row) e = .ok v →
      ∃ b, evaluatePredicate (rowValue row) e = .ok b

/-- Some expression of the statement raises `x` on some row. -/
def EvaluationRaises (statement : BoundSelectStatement) (rows : List Row) (x : Exception) : Prop :=
  ∃ row ∈ rows, ∃ e ∈ statement.expressions, evaluateExpression (rowValue row) e = .error x

/-- The loops of the three paths over a cursor raise what some expression raises. -/
structure LoopsRaise {α : Type} [ICursor α] (statement : BoundSelectStatement) (fuel : Nat) (c : α)
    (w : World) (rows : List Row) (x : Exception) : Prop where
  plain : hasAggregateSelectItems statement = false → ∀ requiresKeyAsc earlyLimit,
    whileValid (plainBody statement requiresKeyAsc earlyLimit) fuel c w {} = .error x →
      EvaluationRaises statement rows x
  global : ∀ aggregates, statement.selectItems.mapM globalAggregate = .ok aggregates →
    whileValid (globalBody statement aggregates) fuel c w (aggregates.map fun _ => {}) =
      .error x → EvaluationRaises statement rows x
  grouped : whileValid (groupBody statement) fuel c w [] = .error x →
    EvaluationRaises statement rows x

/-! ## Values are taken -/

theorem valuesTaken (hbound : Bound schema statement) : ValuesTaken schema statement := by
  constructor
  · intro kind e resultType hitem row hrow v hv state
    obtain ⟨hwell, hresult⟩ := hbound.items _ hitem
    have htype := hasStaticType_of_typed hrow hwell hv
    cases v with
    | none => exact ⟨state, rfl⟩
    | some value => exact updateNonNull_ok htype hresult state
  · intro kind e resultType hitem state
    obtain ⟨-, hresult⟩ := hbound.items _ hitem
    exact finalizeAggregateState_ok hresult state
  · intro e he row hrow v hv
    obtain ⟨hwell, hboolean⟩ := hbound.whereTyped e he
    have htype := hasStaticType_of_typed hrow hwell hv
    rw [hboolean] at htype
    rcases hasStaticType_bool htype with rfl | ⟨b, rfl⟩
    · exact ⟨false, by simp [evaluatePredicate, hv]⟩
    · exact ⟨b, by simp [evaluatePredicate, hv]⟩

/-! ## Errors of one round -/

/-- Some expression of the statement raises `x` on the row. -/
private def Raises (statement : BoundSelectStatement) (row : Row) (x : Exception) : Prop :=
  ∃ e ∈ statement.expressions, evaluateExpression (rowValue row) e = .error x

private theorem raises_passesWhere (hbound : Bound schema statement) (hrow : TypedRow schema row)
    (h : passesWhere statement (rowValue row) = .error x) : Raises statement row x := by
  unfold passesWhere at h
  split at h
  · cases h
  · rename_i e he
    cases hv : evaluateExpression (rowValue row) e with
    | error y =>
      rw [evaluatePredicate, hv, Result.error_bind] at h
      cases h
      exact ⟨e, by simp [BoundSelectStatement.expressions, he], hv⟩
    | ok v =>
      obtain ⟨b, hb⟩ := (valuesTaken hbound).predicate e he row hrow v hv
      rw [hb] at h
      cases h

private theorem raises_item {item : BoundSelectItem} (hitem : item ∈ statement.selectItems)
    (h : evaluateExpression (rowValue row) item.argument = .error x) : Raises statement row x :=
  ⟨item.argument, GoodRow.item_mem hitem, h⟩

private theorem raises_orderByValues (h : orderByValues statement (rowValue row) = .error x) :
    Raises statement row x := by
  obtain ⟨item, hitem, herror⟩ := Result.exists_of_mapM_error h
  refine ⟨item.expression, ?_, herror⟩
  unfold BoundSelectStatement.expressions
  exact List.mem_append_right _ (List.mem_map_of_mem hitem)

private theorem raises_plainBody (hbound : Bound schema statement)
    (hplain : hasAggregateSelectItems statement = false) (hrow : TypedRow schema row)
    {requiresKeyAsc earlyLimit : Bool} {s : PlainState}
    (h : plainBody statement requiresKeyAsc earlyLimit (rowValue row) s = .error x) :
    Raises statement row x := by
  rcases Result.bind_eq_error.mp h with hwhere | ⟨passes, -, h⟩
  · exact raises_passesWhere hbound hrow hwhere
  · cases passes with
    | false => cases h
    | true =>
      rcases Result.bind_eq_error.mp h with hitems | ⟨values, -, h⟩
      · obtain ⟨item, hitem, herror⟩ := Result.exists_of_mapM_error hitems
        cases item with
        | expression e => exact raises_item hitem herror
        | aggregate kind e resultType =>
          have hany : hasAggregateSelectItems statement = true :=
            List.any_eq_true.mpr ⟨_, hitem, rfl⟩
          rw [hplain] at hany
          cases hany
      · split at h
        · cases h
        · rcases Result.bind_eq_error.mp h with hkeys | ⟨keys, -, h⟩
          · exact raises_orderByValues hkeys
          · cases h

private theorem raises_updateAggregate (hbound : Bound schema statement)
    (hrow : TypedRow schema row) {kind : AggregateKind} {e : BoundExpression}
    {resultType : ExpressionType} (hitem : .aggregate kind e resultType ∈ statement.selectItems)
    {state : GlobalAggregateState}
    (h : updateAggregate (rowValue row) (kind, e, resultType) state = .error x) :
    Raises statement row x := by
  rcases Result.bind_eq_error.mp h with hvalue | ⟨v, hv, h⟩
  · exact raises_item hitem hvalue
  · obtain ⟨state', hstate'⟩ := (valuesTaken hbound).update kind e resultType hitem row hrow v hv
      state
    rw [hstate'] at h
    cases h

private theorem raises_globalBody (hbound : Bound schema statement) (hrow : TypedRow schema row)
    {aggregates : List (AggregateKind × BoundExpression × ExpressionType)}
    (haggregates : statement.selectItems.mapM globalAggregate = .ok aggregates)
    {states : List GlobalAggregateState}
    (h : globalBody statement aggregates (rowValue row) states = .error x) :
    Raises statement row x := by
  rcases Result.bind_eq_error.mp h with hwhere | ⟨passes, -, h⟩
  · exact raises_passesWhere hbound hrow hwhere
  · cases passes with
    | false => cases h
    | true =>
      rcases Result.bind_eq_error.mp h with hupdates | ⟨states', -, h⟩
      · obtain ⟨⟨⟨kind, e, resultType⟩, state⟩, hentry, herror⟩ :=
          Result.exists_of_mapM_error hupdates
        obtain ⟨item, hitem, haggregate⟩ :=
          Result.exists_of_mem_mapM haggregates (List.of_mem_zip hentry).1
        cases item with
        | expression e => cases haggregate
        | aggregate kind' e' resultType' =>
          cases haggregate
          exact raises_updateAggregate hbound hrow hitem herror
      · cases h

/-! ## Groups -/

/-- A key has the static types of the GROUP BY items. -/
private def TypedKey (statement : BoundSelectStatement) (key : GroupKey) : Prop :=
  List.Forall₂ (fun e v => HasStaticType e.type v) statement.groupByItems key

private theorem compare_ok {type : ExpressionType} {a b : NullableResultValue}
    (ha : HasStaticType type a) (hb : HasStaticType type b) :
    ∃ o, compareNullableResultValues a b = .ok o := by
  cases a with
  | none => cases b <;> exact ⟨_, rfl⟩
  | some l =>
    cases b with
    | none => exact ⟨_, rfl⟩
    | some r =>
      cases type <;> cases l <;> first | exact ha.elim | (cases r <;> first | exact hb.elim |
        exact ⟨_, rfl⟩)

private theorem groupKeyLess_ok {items : List BoundExpression} {a b : GroupKey}
    (ha : List.Forall₂ (fun e v => HasStaticType e.type v) items a)
    (hb : List.Forall₂ (fun e v => HasStaticType e.type v) items b) :
    ∃ less, groupKeyLess a b = .ok less := by
  induction ha generalizing b with
  | nil => exact ⟨_, rfl⟩
  | @cons e l items left hl _ ih =>
    cases hb with
    | @cons _ r _ right hr hright =>
      obtain ⟨o, ho⟩ := compare_ok hl hr
      obtain ⟨less, hless⟩ := ih hright
      rw [groupKeyLess, ho, Result.ok_bind]
      cases o with
      | lt | gt => exact ⟨_, rfl⟩
      | eq => exact ⟨less, hless⟩

/-- Entering a key among keys of the same types fails only where a group is made or
updated, and leaves such keys. -/
private theorem enterGroup_typed {key : GroupKey} (hkey : TypedKey statement key)
    {fresh : Result GroupState} {update : GroupState → Result GroupState} {groups : Groups}
    (hgroups : ∀ entry ∈ groups, TypedKey statement entry.1) :
    (∀ groups', enterGroup key fresh update groups = .ok groups' →
        ∀ entry ∈ groups', TypedKey statement entry.1) ∧
      (enterGroup key fresh update groups = .error x →
        fresh = .error x ∨ ∃ group, update group = .error x) := by
  induction groups with
  | nil =>
    rw [enterGroup]
    constructor
    · intro groups' h
      obtain ⟨group, -, h⟩ := Result.bind_eq_ok.mp h
      obtain ⟨group', -, h⟩ := Result.bind_eq_ok.mp h
      cases h
      intro entry hentry
      rw [List.mem_singleton.mp hentry]
      exact hkey
    · intro h
      rcases Result.bind_eq_error.mp h with hfresh | ⟨group, -, h⟩
      · exact Or.inl hfresh
      · rcases Result.bind_eq_error.mp h with hupdate | ⟨group', -, h⟩
        · exact Or.inr ⟨group, hupdate⟩
        · cases h
  | cons head rest ih =>
    obtain ⟨other, group⟩ := head
    have hother : TypedKey statement other := hgroups _ List.mem_cons_self
    obtain ⟨hkept, hfails⟩ := ih fun entry hentry => hgroups entry (List.mem_cons_of_mem _ hentry)
    obtain ⟨before, hbefore⟩ := groupKeyLess_ok hkey hother
    obtain ⟨after, hafter⟩ := groupKeyLess_ok hother hkey
    rw [enterGroup, hbefore, Result.ok_bind]
    cases before with
    | true =>
      rw [if_pos rfl]
      constructor
      · intro groups' h
        obtain ⟨new, -, h⟩ := Result.bind_eq_ok.mp h
        obtain ⟨new', -, h⟩ := Result.bind_eq_ok.mp h
        cases h
        intro entry hentry
        rcases List.mem_cons.mp hentry with rfl | hentry
        · exact hkey
        · exact hgroups entry hentry
      · intro h
        rcases Result.bind_eq_error.mp h with hfresh | ⟨new, -, h⟩
        · exact Or.inl hfresh
        · rcases Result.bind_eq_error.mp h with hupdate | ⟨new', -, h⟩
          · exact Or.inr ⟨new, hupdate⟩
          · cases h
    | false =>
      rw [if_neg Bool.false_ne_true, hafter, Result.ok_bind]
      cases after with
      | true =>
        rw [if_pos rfl]
        constructor
        · intro groups' h
          obtain ⟨rest', hrest', h⟩ := Result.bind_eq_ok.mp h
          cases h
          intro entry hentry
          rcases List.mem_cons.mp hentry with rfl | hentry
          · exact hother
          · exact hkept rest' hrest' entry hentry
        · intro h
          rcases Result.bind_eq_error.mp h with hrest | ⟨rest', -, h⟩
          · exact hfails hrest
          · cases h
      | false =>
        rw [if_neg Bool.false_ne_true]
        constructor
        · intro groups' h
          obtain ⟨group', -, h⟩ := Result.bind_eq_ok.mp h
          cases h
          intro entry hentry
          rcases List.mem_cons.mp hentry with rfl | hentry
          · exact hother
          · exact hgroups entry (List.mem_cons_of_mem _ hentry)
        · intro h
          rcases Result.bind_eq_error.mp h with hupdate | ⟨group', -, h⟩
          · exact Or.inr ⟨group, hupdate⟩
          · cases h

private theorem raises_newGroup (h : newGroup statement (rowValue row) = .error x) :
    Raises statement row x := by
  rcases Result.bind_eq_error.mp h with hitems | ⟨values, -, h⟩
  · obtain ⟨item, hitem, herror⟩ := Result.exists_of_mapM_error hitems
    cases item with
    | expression e => exact raises_item hitem herror
    | aggregate kind e resultType => cases herror
  · rcases Result.bind_eq_error.mp h with hkeys | ⟨keys, -, h⟩
    · exact raises_orderByValues hkeys
    · cases h

private theorem raises_updateGroup (hbound : Bound schema statement) (hrow : TypedRow schema row)
    {group : GroupState} (h : updateGroup statement (rowValue row) group = .error x) :
    Raises statement row x := by
  rcases Result.bind_eq_error.mp h with hupdates | ⟨states, -, h⟩
  · obtain ⟨⟨item, state⟩, hentry, herror⟩ := Result.exists_of_mapM_error hupdates
    have hitem := (List.of_mem_zip hentry).1
    cases item with
    | expression e => cases herror
    | aggregate kind e resultType => exact raises_updateAggregate hbound hrow hitem herror
  · cases h

/-- The key of a row has the types of the GROUP BY items. -/
private theorem typedKey_of_row (hbound : Bound schema statement) (hrow : TypedRow schema row)
    {key : GroupKey}
    (h : statement.groupByItems.mapM (evaluateExpression (rowValue row)) = .ok key) :
    TypedKey statement key := by
  have hall := Result.mapM_eq_ok.mp h
  obtain ⟨hlength, hpairs⟩ := List.forall₂_iff_zip.mp hall
  refine List.forall₂_iff_zip.mpr ⟨hlength, ?_⟩
  intro e v hpair
  exact hasStaticType_of_typed hrow (hbound.groupBy e (List.of_mem_zip hpair).1) (hpairs hpair)

private theorem groupBody_typed (hbound : Bound schema statement) (hrow : TypedRow schema row)
    {groups : Groups} (hgroups : ∀ entry ∈ groups, TypedKey statement entry.1) :
    (∀ groups' stop, groupBody statement (rowValue row) groups = .ok (groups', stop) →
        ∀ entry ∈ groups', TypedKey statement entry.1) ∧
      (groupBody statement (rowValue row) groups = .error x → Raises statement row x) := by
  constructor
  · intro groups' stop h
    obtain ⟨passes, -, h⟩ := Result.bind_eq_ok.mp h
    cases passes with
    | false =>
      cases h
      exact hgroups
    | true =>
      obtain ⟨key, hkey, h⟩ := Result.bind_eq_ok.mp h
      obtain ⟨entered, hentered, h⟩ := Result.bind_eq_ok.mp h
      cases h
      exact (@enterGroup_typed _ x _ (typedKey_of_row hbound hrow hkey) _ _ _ hgroups).1 _ hentered
  · intro h
    rcases Result.bind_eq_error.mp h with hwhere | ⟨passes, -, h⟩
    · exact raises_passesWhere hbound hrow hwhere
    · cases passes with
      | false => cases h
      | true =>
        rcases Result.bind_eq_error.mp h with hkey | ⟨key, hkey, h⟩
        · obtain ⟨e, he, herror⟩ := Result.exists_of_mapM_error hkey
          exact ⟨e, GoodRow.groupBy_mem he, herror⟩
        · rcases Result.bind_eq_error.mp h with hentered | ⟨entered, -, h⟩
          · rcases (enterGroup_typed (typedKey_of_row hbound hrow hkey) hgroups).2 hentered with
              hfresh | ⟨group, hupdate⟩
            · exact raises_newGroup hfresh
            · exact raises_updateGroup hbound hrow hupdate
          · cases h

/-! ## Errors of the loops -/

/-- A loop over rows fails in a round from a state that every round keeps good. -/
private theorem exists_of_foldRows_error {body : Body σ} {Good : σ → Prop}
    (hstep : ∀ row ∈ rows, ∀ s, Good s →
      (∀ s' stop, body (rowValue row) s = .ok (s', stop) → Good s') ∧
        (body (rowValue row) s = .error x → Raises statement row x))
    {s : σ} (hs : Good s) (h : foldRows body rows s = .error x) :
    EvaluationRaises statement rows x := by
  induction rows generalizing s with
  | nil => cases h
  | cons row rest ih =>
    obtain ⟨hkeeps, hfails⟩ := hstep row List.mem_cons_self s hs
    rcases Result.bind_eq_error.mp h with hbody | ⟨⟨s', stop⟩, hbody, h⟩
    · exact ⟨row, List.mem_cons_self, hfails hbody⟩
    · cases stop with
      | true => cases h
      | false =>
        obtain ⟨r, hr, hraises⟩ := ih (fun r hr => hstep r (List.mem_cons_of_mem row hr))
          (hkeeps s' false hbody) h
        exact ⟨r, List.mem_cons_of_mem row hr, hraises⟩

theorem loopsRaise {α : Type} [ICursor α] (hbound : Bound schema statement) {fuel : Nat} {c : α}
    {w : World} (hreads : Reads (collectRequiredProjection statement) c w rows)
    (hrows : ∀ row ∈ rows, TypedRow schema row) (hfuel : rows.length ≤ fuel) (x : Exception) :
    LoopsRaise statement fuel c w rows x := by
  constructor
  · intro hplain requiresKeyAsc earlyLimit h
    rw [whileValid_eq (readsOnly_plainBody statement _ _) hreads hfuel] at h
    refine @exists_of_foldRows_error _ _ _ _ _ (fun _ => True) ?_ _ trivial h
    intro row hrow s _
    exact ⟨fun _ _ _ => trivial, raises_plainBody hbound hplain (hrows row hrow)⟩
  · intro aggregates haggregates h
    rw [whileValid_eq (readsOnly_aggregates haggregates) hreads hfuel] at h
    refine @exists_of_foldRows_error _ _ _ _ _ (fun _ => True) ?_ _ trivial h
    intro row hrow s _
    exact ⟨fun _ _ _ => trivial, raises_globalBody hbound (hrows row hrow) haggregates⟩
  · intro h
    rw [whileValid_eq (readsOnly_groupBody statement) hreads hfuel] at h
    refine @exists_of_foldRows_error _ _ _ _ _
      (fun groups : Groups => ∀ entry ∈ groups, TypedKey statement entry.1) ?_ _ ?_ h
    · intro row hrow groups hgroups
      exact groupBody_typed hbound (hrows row hrow) hgroups
    · intro entry hentry
      cases hentry

/-- What the binder types statically has that type at run time, and no value of a wrong type
reaches an aggregate or WHERE: an error of a loop is one that an expression raises on a row.
Only the types of the cells are assumed, with NULL anywhere. -/
theorem static_types_sound {α : Type} [ICursor α] (schema : Schema) :
    (∀ source e, bindExpression schema source = .ok e → ∀ row, TypedRow schema row →
        ∀ v, evaluateExpression (rowValue row) e = .ok v → HasStaticType e.type v) ∧
      ∀ source statement, bindSelectOver schema source = .ok statement →
        ValuesTaken schema statement ∧
          ∀ (c : α) w rows fuel, Reads (collectRequiredProjection statement) c w rows →
            (∀ row ∈ rows, TypedRow schema row) → rows.length ≤ fuel →
              ∀ x, LoopsRaise statement fuel c w rows x := by
  constructor
  · intro source e hbind row hrow v hv
    exact hasStaticType_of_typed hrow (wellTyped_bindExpression hbind) hv
  · intro source statement hbind
    have hbound := bound_bindSelectOver hbind
    refine ⟨valuesTaken hbound, ?_⟩
    intro c w rows fuel hreads hrows hfuel x
    exact loopsRaise hbound hreads hrows hfuel x

theorem static_types_sound_groups :
    ValuesTaken pairSchema boundSelectGroups ∧
      ∀ x, LoopsRaise boundSelectGroups 2 (⟨[(1, 7), (2, 5)].map pairRow, none⟩ : MockCursor)
        emptyWorld ([(1, 7), (2, 5)].map pairRow) x := by
  obtain ⟨-, hselect⟩ := @static_types_sound MockCursor _ pairSchema
  obtain ⟨htaken, hloops⟩ := hselect selectGroups boundSelectGroups rfl
  refine ⟨htaken, hloops _ _ _ _ ?_ ?_ le_rfl⟩
  · exact @reads_cursorOver [(1, 7), (2, 5)] (collectRequiredProjection boundSelectGroups)
      (by decide)
  · intro row hrow
    obtain ⟨pair, -, rfl⟩ := List.mem_map.mp hrow
    exact (validRow_pairRow pair).typed

end Htap.Properties
