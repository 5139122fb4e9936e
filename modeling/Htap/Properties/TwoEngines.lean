import Htap.Executor.Databases
import Htap.Properties.SameAnswers

/-!
The LSM engine behind SQL is the mock engine behind SQL. Statement by statement the two give
the same results and raise the same errors, whatever the trees do in the background.
-/

namespace Htap.Properties

open Storage SSTable Read Cursor Words Executor Htap.Tree Htap.Tree.Session Htap.Parser

/-- The same result of a statement. -/
inductive SameResult : BoundStatement → ExecutionResult → ExecutionResult → Prop
  | createTable (statement : BoundCreateTableStatement) :
    SameResult (.createTable statement) .createTable .createTable
  | insert (statement : BoundInsertStatement) (insertedRows : Nat) :
    SameResult (.insert statement) (.insert insertedRows) (.insert insertedRows)
  | select {statement : BoundSelectStatement} {result result' : SelectResult}
    (h : SameAnswer statement result result') :
    SameResult (.select statement) (.select result) (.select result')

/-- Both fail for the same reason, or both succeed with the same result. -/
inductive SameEffect {σ τ : Type} (bound : Result BoundStatement) :
    Result (ExecutionResult × σ) → Result (ExecutionResult × τ) → Prop
  | fails (e : Exception) : SameEffect bound (.error e) (.error e)
  | succeeds {statement : BoundStatement} {result result' : ExecutionResult}
    (hbound : bound = .ok statement) (s : σ) (t : τ) (h : SameResult statement result result') :
    SameEffect bound (.ok (result, s)) (.ok (result', t))

/-- A SELECT whose result the rows of the table determine. -/
structure Comparable (fuel : Nat) (statement : BoundSelectStatement) (table : MockTable) :
    Prop where
  literals : (buildDataSkippingFilter statement).Ordered
  determined : Determined table.schema statement table.data.rows
  fuel : table.data.rows.length ≤ fuel

section

variable {std : StdSort Exception} {fuel : Nat} {config : StorageConfig} {db : LSMTables}
  {mock : MockStorageEngine.Tables} {statement : Statement}

/-- The configuration is one that trees accept. -/
def AcceptedConfig (config : StorageConfig) : Prop :=
  ∃ tree, LSMTree.create keyOnlySchema config ⟨fun _ => none, none⟩ = .ok tree

/-- Such a configuration creates every table. -/
theorem exists_create (h : AcceptedConfig config) (schema : Schema) (rootPath : Bytes) :
    ∃ tree, LSMTree.create schema { config with rootPath := rootPath } ⟨fun _ => none, none⟩ =
      .ok tree := by
  obtain ⟨tree, hcreate⟩ := h
  unfold LSMTree.create at hcreate ⊢
  split_ifs at hcreate ⊢
  exact ⟨_, rfl⟩

/-- A comparable SELECT over two tables that correspond. -/
private theorem select_agrees (std : StdSort Exception) {s : Session} {table : MockTable}
    {bound : BoundSelectStatement} (hs : db.tables bound.tableName = some s)
    (htable : mock bound.tableName = some table) (hcorresponds : Corresponds s table)
    (hbound : Bound s.tree.schema bound) (h : Comparable fuel bound table) :
    SameOutcome bound (executeSelect std (lsmDatabase.reads db) fuel bound)
      (executeSelect std (mockDatabase.reads mock) fuel bound) := by
  obtain ⟨rows, hkeyed, hstores, hrows⟩ := hcorresponds.exists_rows
  have hperm : table.data.rows.Perm rows := hcorresponds.rows.trans hrows.symm
  have hnumbers : Numbers rows := hcorresponds.admissible.numbers.sub hrows.subset
  have htree : (db.tables bound.tableName).map Session.tree = some s.tree := by
    rw [hs, Option.map_some]
  have hreads : SkipsRows (lsmDatabase.reads db) bound.tableName s.tree.schema rows :=
    skipsRows_lsm hstores hnumbers htree
  have hvalid := hcorresponds.valid
  have hserves := skipsRows_mock htable (fun row hrow => (hvalid row hrow).length)
    fun row hrow => hcorresponds.admissible.below row (hcorresponds.rows.mem_iff.mp hrow)
  have hdetermined := h.determined
  rw [hcorresponds.schema] at hserves hdetermined
  apply sameOutcome_of_skipsRows std hreads hserves hbound hkeyed h.literals hstores.valid hnumbers
    _ hperm.symm (hdetermined.perm hperm) (hperm.length_eq.symm.le.trans h.fuel)
  exact (hrows.map rowKey).nodup_iff.mpr hcorresponds.admissible.keys

/-- In every state that the two engines reach together, a statement does the same on both.
Of a SELECT `hselect` asks that no expression fails on the rows and that they determine its
result; CREATE TABLE and INSERT have no condition. -/
theorem engines_agree (h : Together std fuel config db mock) (hconfig : AcceptedConfig config)
    (hselect : ∀ bound table, bind (mockDatabase.reads mock) statement = .ok (.select bound) →
      mock bound.tableName = some table → Comparable fuel bound table) :
    SameEffect (bind (mockDatabase.reads mock) statement)
      (runStatement std lsmDatabase fuel db statement)
      (runStatement std mockDatabase fuel mock statement) := by
  obtain ⟨rfl, hsame⟩ := h.sameTables
  unfold runStatement
  rw [bind_eq hsame] at hselect ⊢
  cases hbound : bind (lsmDatabase.reads db) statement with
  | error e => exact .fails e
  | ok bound =>
    rw [Result.ok_bind, Result.ok_bind]
    cases bound with
    | createTable create =>
      rcases createTable_cases hsame create.tableName create.schema with
        ⟨hlsm, hmock⟩ | ⟨hlsm, hmock⟩
      · simp only [execute, lsmDatabase, mockDatabase, hlsm, hmock]
        exact .fails tableAlreadyExists
      · obtain ⟨tree, hcreate⟩ := exists_create hconfig create.schema
          (joinPath db.config.rootPath create.tableName)
        rw [hcreate] at hlsm
        simp only [execute, lsmDatabase, mockDatabase, hlsm, hmock]
        exact .succeeds rfl _ _ (.createTable create)
    | insert insert =>
      rcases insert_cases hsame insert.tableName insert.rowValues with
        ⟨e, hlsm, hmock⟩ | ⟨s, table, tree, -, -, hlsm, hmock⟩
      · simp only [execute, lsmDatabase, mockDatabase, hlsm, hmock]
        exact .fails e
      · simp only [execute, lsmDatabase, mockDatabase, hlsm, hmock]
        exact .succeeds rfl _ _ (.insert insert 1)
    | select select =>
      obtain ⟨s, table, hs, htable, hcorresponds, hboundTo⟩ := exists_table_of_select hsame hbound
      have houtcome := select_agrees std hs htable hcorresponds hboundTo
        (hselect select table hbound htable)
      simp only [execute]
      generalize executeSelect std (lsmDatabase.reads db) fuel select = outcome at houtcome
      generalize executeSelect std (mockDatabase.reads mock) fuel select = outcome' at houtcome
      cases houtcome with
      | fails e => exact .fails e
      | returns hanswer => exact .succeeds rfl _ _ (.select hanswer)

end

/-! ## A table of pairs in both engines -/

/-- `CREATE TABLE t (id INT64 KEY, v INT64 NULL)`. -/
def createPairs : Statement :=
  .createTable ⟨pairTable, [⟨[105, 100], .int64, false, true⟩, ⟨[118], .int64, true, false⟩]⟩

/-- `INSERT INTO t (id, v) VALUES (2, 20)`. -/
def insertTwo : Statement :=
  .insert ⟨pairTable, [[105, 100], [118]], [.intLiteral 2, .intLiteral 20]⟩

def pairConfig : StorageConfig :=
  { freezingPairs with rootPath := joinPath freezingPairs.rootPath pairTable }

private theorem admissible_pairs {pairs : List (Int64 × Int64)}
    (hkeys : (pairs.map Prod.fst).Nodup) (hfew : pairs.length + 7 < 2 ^ 32)
    (hbelow : ∀ pair ∈ pairs, pair.1 ≠ Int64.maxValue) :
    Admissible (pairSession pairConfig pairs) := by
  constructor
  · exact alone_pairSession
  · exact bounded_pairSession hfew
  · exact keys_pairSession hkeys
  · rw [inserted_pairSession]
    exact numbers_pairs pairs
  · intro row hrow
    rw [inserted_pairSession] at hrow
    obtain ⟨pair, hpair, rfl⟩ := List.mem_map.mp hrow
    exact hbelow pair hpair

private theorem together_pairs : ∃ db mock,
    Together (.insertion Exception) 2 freezingPairs db mock ∧
      db.tables pairTable = some (pairSession pairConfig [(2, 20)]) ∧
      mock pairTable = some ⟨pairSchema, pairData [(2, 20)]⟩ := by
  have hnone : ∀ (tableName : Bytes) (s : Session),
      ({ config := freezingPairs } : LSMTables).tables tableName = some s → Admissible s := by
    intro tableName s hs
    cases hs
  have hnew : Admissible (pairSession pairConfig []) :=
    admissible_pairs (by simp) (by norm_num) (by simp)
  have hone : Admissible (pairSession pairConfig [(2, 20)]) :=
    admissible_pairs (by simp) (by norm_num) (by simp; decide)
  have hcreated := @Together.statement _ _ _ _ _ _ _ createPairs _ _
    (.start : Together (.insertion Exception) 2 freezingPairs _ _) rfl rfl
    (LSMTables.forall_setTable hnone hnew pairTable)
  have hinserted := @Together.statement _ _ _ _ _ _ _ insertTwo _ _ hcreated rfl rfl
    (LSMTables.forall_setTable (LSMTables.forall_setTable hnone hnew pairTable) hone pairTable)
  exact ⟨_, _, hinserted, rfl, rfl⟩

private theorem comparable_selectIdAbove {pairs : List (Int64 × Int64)} {fuel : Nat}
    (hrows : (pairData pairs).rows = pairs.map pairRow) (hfuel : pairs.length ≤ fuel) :
    Comparable fuel boundSelectIdAbove ⟨pairSchema, pairData pairs⟩ := by
  have hbound : Bound pairSchema boundSelectIdAbove := bound_bindSelectOver bind_selectIdAbove
  constructor
  · exact ordered_selectIdAbove
  · apply Determined.plain ⟨rfl, rfl⟩ (Or.inl rfl)
    intro row hrow
    rw [hrows] at hrow
    obtain ⟨pair, -, hpair⟩ := List.mem_map.mp hrow
    have hgood : GoodRow pairSchema boundSelectIdAbove row :=
      ⟨hpair ▸ validRow_pairRow pair, numbers_pairs pairs row hrow,
        evaluates_selectIdAbove pairs row hrow⟩
    exact evaluates_of_goodRow hbound rfl hgood
  · rw [hrows, List.length_map]
    exact hfuel

theorem engines_agree_pairs : ∃ db mock,
    Together (.insertion Exception) 2 freezingPairs db mock ∧ (mock pairTable).isSome ∧
      SameEffect (bind (mockDatabase.reads mock) (.select selectIdAbove))
        (runStatement (.insertion Exception) lsmDatabase 2 db (.select selectIdAbove))
        (runStatement (.insertion Exception) mockDatabase 2 mock (.select selectIdAbove)) := by
  obtain ⟨db, mock, htogether, -, hmock⟩ := together_pairs
  refine ⟨db, mock, htogether, by rw [hmock]; rfl, ?_⟩
  apply engines_agree htogether ⟨_, rfl⟩
  intro bound table hbind htable
  have hschema : getSchema (mockDatabase.reads mock) pairTable = .ok pairSchema := by
    simp [getSchema, mockDatabase, mockStorageEngine, hmock]
  obtain ⟨select, hselect, hbind⟩ := Result.bind_eq_ok.mp hbind
  cases hbind
  obtain ⟨schema, hfound, hover⟩ := Result.bind_eq_ok.mp hselect
  obtain rfl : pairSchema = schema := Except.ok.inj (hschema.symm.trans hfound)
  rw [bind_selectIdAbove] at hover
  cases hover
  obtain rfl : _ = table := Option.some.inj (hmock.symm.trans htable)
  exact comparable_selectIdAbove rfl (by simp)

end Htap.Properties
