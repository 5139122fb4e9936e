import Htap.Executor.Literals
import Htap.Executor.Star
import Htap.Properties.InsertOrder
import Htap.Properties.SelectErrors
import Htap.Properties.TwoEngines

/-!
SQL texts on the LSM engine. Whatever texts ran before and whatever the trees do in the
background, the statement of a text is refused by the binder or by a table of that name, or
it does what it says; only a SELECT can fail later, and for a reason of its own.
-/

namespace Htap.Properties

open Storage SSTable Read Cursor Words Executor Htap.Tree Htap.Tree.Session Htap.Parser

/-- What the trees and their formats ask of a table, and the loops of a SELECT. -/
structure Regular (fuel : Nat) (s : Session) : Prop where
  alone : s.Alone
  bounded : s.Bounded
  keys : (s.inserted.map rowKey).Nodup
  fuel : s.inserted.length ≤ fuel

/-- What happens to the engine of a process: texts that are parsed and run, and background work
of the trees at any time. Every table stays regular. -/
inductive Ran (std : StdSort Exception) (fuel : Nat) (config : StorageConfig) : LSMTables → Prop
  | start : Ran std fuel config { config := config }
  | text {db db' : LSMTables} {input : Bytes} {statement : Statement} {result : ExecutionResult}
    (h : Ran std fuel config db) (hparse : parse input = .ok statement)
    (hrun : runStatement std lsmDatabase fuel db statement = .ok (result, db'))
    (hregular : ∀ tableName s, db'.tables tableName = some s → Regular fuel s) :
    Ran std fuel config db'
  | work {db : LSMTables} {tableName : Bytes} {s s' : Session} (h : Ran std fuel config db)
    (htable : db.tables tableName = some s) (hstep : Session.Step s s')
    (hquiet : s'.inserted = s.inserted) (hregular : Regular fuel s') :
    Ran std fuel config (db.setTable tableName s')

/-- A SELECT without aggregates, GROUP BY and LIMIT returns what these rows give: the outputs of
those on which WHERE is true, each once, in the order of ORDER BY. -/
def AnswersPlain (select : BoundSelectStatement) (rows : List Row)
    (outcome : Result SelectResult) : Prop :=
  hasAggregateSelectItems select = false → select.groupByItems = [] → select.limit = none →
    ∀ result, outcome = .ok result → Answers select rows result

/-- How the statement of a text ends. -/
inductive StatementEnding (db : LSMTables) (statement : Statement) :
    Result (ExecutionResult × LSMTables) → Prop
  | refused {e : Exception} (hbind : bind (lsmDatabase.reads db) statement = .error e) :
    StatementEnding db statement (.error e)
  | taken {create : BoundCreateTableStatement}
    (hbind : bind (lsmDatabase.reads db) statement = .ok (.createTable create))
    (htable : (db.tables create.tableName).isSome) :
    StatementEnding db statement (.error tableAlreadyExists)
  | created {create : BoundCreateTableStatement} {tree : LSMTree}
    (hbind : bind (lsmDatabase.reads db) statement = .ok (.createTable create))
    (htable : db.tables create.tableName = none)
    (hcreate : LSMTree.create create.schema
      { db.config with rootPath := joinPath db.config.rootPath create.tableName }
      ⟨fun _ => none, none⟩ = .ok tree) :
    StatementEnding db statement
      (.ok (.createTable, db.setTable create.tableName { tree := tree }))
  | inserted {insert : BoundInsertStatement} {s : Session} {tree : LSMTree}
    (hbind : bind (lsmDatabase.reads db) statement = .ok (.insert insert))
    (htable : db.tables insert.tableName = some s)
    (hinsert : LSMStorageEngine.insert s.tree insert.rowValues = .ok tree) :
    StatementEnding db statement (.ok (.insert 1, db.setTable insert.tableName
      { s with tree := tree, inserted := s.inserted ++ [insert.rowValues] }))
  | selected {select : BoundSelectStatement} {s : Session} {rows : List Row}
    {outcome : Result SelectResult}
    (hbind : bind (lsmDatabase.reads db) statement = .ok (.select select))
    (htable : db.tables select.tableName = some s) (hrows : rows.Perm s.inserted)
    (h : Ending select rows outcome) (hanswers : AnswersPlain select rows outcome) :
    StatementEnding db statement (outcome.map fun result => (.select result, db))

section

variable {std : StdSort Exception} {fuel : Nat} {config : StorageConfig} {db : LSMTables}
  {input : Bytes} {statement : Statement} {s : Session}

/-! ## Tables that texts made -/

/-- A table that was created by a text and filled by texts. -/
structure Written (fuel : Nat) (s : Session) : Prop where
  schema : s.tree.schema.FromBuilder
  run : ∃ start, Starts start ∧ Run (fun _ _ => True) start s
  regular : Regular fuel s
  numbers : Numbers s.inserted

/-- The rows of the table are those inserted. -/
theorem Written.exists_rows (h : Written fuel s) : ∃ rows, Executor.Holds s rows := by
  obtain ⟨start, hstart, hrun⟩ := h.run
  exact exists_holds hstart hrun h.regular.keys

private theorem written_new {schema : Schema} {tree : LSMTree} (hschema : schema.FromBuilder)
    (hcreate : LSMTree.create schema config ⟨fun _ => none, none⟩ = .ok tree)
    (hregular : Regular fuel { tree := tree }) : Written fuel { tree := tree } := by
  obtain ⟨-, -, registry, nextSstId, -, htree⟩ := tree_of_create hcreate
  constructor
  · rw [htree]
    exact hschema
  · exact ⟨_, .create hschema.wellFormed hcreate, .start hregular.bounded⟩
  · exact hregular
  · intro row hrow
    cases hrow

/-- A step of the tree, after which the table holds numbers only. -/
private theorem Written.step {s' : Session} (h : Written fuel s) (hstep : Session.Step s s')
    (hregular : Regular fuel s') (hnumbers : Numbers s'.inserted) : Written fuel s' := by
  obtain ⟨start, hstart, hrun⟩ := h.run
  have hrun' := hrun.step hstep trivial hregular.alone hregular.bounded
  have hschema : s'.tree.schema = s.tree.schema := hrun'.schema_eq.trans hrun.schema_eq.symm
  exact ⟨hschema ▸ h.schema, ⟨start, hstart, hrun'⟩, hregular, hnumbers⟩

/-! ## One statement -/

/-- A row that was bound is one the tree takes. -/
private theorem Written.insert_ok (h : Written fuel s) {source : InsertStatement}
    {bound : BoundInsertStatement} (hover : bindInsertOver s.tree.schema source = .ok bound) :
    ∃ tree, LSMStorageEngine.insert s.tree bound.rowValues = .ok tree := by
  obtain ⟨-, hinsertable, -, -, hrow⟩ := of_bindInsertOver h.schema.nodup_names hover
  have hvalid := validateRow_of_insertable h.schema.wellFormed hinsertable hrow
  exact ⟨s.tree.insertRow bound.rowValues, by rw [LSMStorageEngine.insert, hvalid]; rfl⟩

/-- The engine serves the rows that were inserted. -/
private theorem Written.exists_serves (h : Written fuel s) {tableName : Bytes}
    (htable : db.tables tableName = some s) : ∃ rows, Executor.Holds s rows ∧ Numbers rows ∧
      SkipsRows (lsmDatabase.reads db) tableName s.tree.schema rows := by
  obtain ⟨rows, hholds⟩ := h.exists_rows
  have hcells : Numbers rows := h.numbers.sub hholds.rows.subset
  have htree : (db.tables tableName).map Session.tree = some s.tree := by
    rw [htable, Option.map_some]
  exact ⟨rows, hholds, hcells, skipsRows_lsm hholds.stores hcells htree⟩

/-- A SELECT from a table that texts made reads what was inserted. -/
private theorem Written.select_ends (std : StdSort Exception) (h : Written fuel s)
    {source : SelectStatement} {select : BoundSelectStatement}
    (htable : db.tables select.tableName = some s)
    (hover : bindSelectOver s.tree.schema source = .ok select)
    (hnumbers : ∀ e ∈ source.whereExpression, e.Numbers) :
    ∃ rows, rows.Perm s.inserted ∧
      Ending select rows (executeSelect std (lsmDatabase.reads db) fuel select) ∧
      AnswersPlain select rows (executeSelect std (lsmDatabase.reads db) fuel select) := by
  obtain ⟨rows, ⟨hschema, hstores, hrows⟩, hcells, hserves⟩ := h.exists_serves htable
  have hbound := bound_bindSelectOver hover
  have hliterals := ordered_bindSelectOver hover hnumbers
  refine ⟨rows, hrows, ?_, ?_⟩
  · exact ending_of_skipsRows std hserves hbound hschema hliterals hstores.valid hcells
      (hrows.length_eq.le.trans h.regular.fuel)
  · intro hplain hgrouped hlimit result hrun
    exact (hserves.answersFrom hbound hschema ⟨hplain, hgrouped⟩ hlimit hliterals hstores.valid
      hcells).answers std fuel result hrun

/-- The cases are those of the binder. -/
private theorem statement_ends (std : StdSort Exception)
    (hwritten : ∀ tableName s, db.tables tableName = some s → Written fuel s)
    (hconfig : AcceptedConfig db.config) (hnumbers : statement.Numbers) :
    StatementEnding db statement (runStatement std lsmDatabase fuel db statement) := by
  cases hbind : bind (lsmDatabase.reads db) statement with
  | error e =>
    rw [runStatement, hbind]
    exact .refused hbind
  | ok bound =>
    rw [runStatement, hbind, Result.ok_bind]
    cases bound with
    | createTable create =>
      have hrun : (lsmDatabase.createTable db create.tableName create.schema) =
        db.createTable create.tableName create.schema := rfl
      rw [execute, hrun, LSMTables.createTable]
      cases htable : db.tables create.tableName with
      | some s =>
        rw [Option.isSome_some, if_pos rfl]
        exact .taken hbind (by rw [htable]; rfl)
      | none =>
        obtain ⟨tree, hcreate⟩ := exists_create hconfig create.schema
          (joinPath db.config.rootPath create.tableName)
        rw [Option.isSome_none, if_neg Bool.false_ne_true]
        dsimp only
        rw [hcreate]
        exact .created hbind htable hcreate
    | insert insert =>
      obtain ⟨source, schema, -, hschema, hover⟩ := insert_of_bind hbind
      obtain ⟨s, hs, rfl⟩ := exists_of_getSchema hschema
      have htables := hwritten _ s hs
      obtain ⟨tree, hinsert⟩ := htables.insert_ok hover
      obtain ⟨-, -, hname, -⟩ := of_bindInsertOver htables.schema.nodup_names hover
      rw [← hname] at hs
      have hrun : lsmDatabase.insert db insert.tableName insert.rowValues =
          .ok (db.setTable insert.tableName
            { s with tree := tree, inserted := s.inserted ++ [insert.rowValues] }) := by
        change db.insert _ _ = _
        rw [LSMTables.insert, hs]
        dsimp only
        rw [hinsert]
        rfl
      rw [execute, hrun]
      exact .inserted hbind hs hinsert
    | select select =>
      obtain ⟨source, schema, rfl, hschema, hover⟩ := select_of_bind hbind
      obtain ⟨s, hs, rfl⟩ := exists_of_getSchema hschema
      rw [← tableName_bindSelectOver hover] at hs
      obtain ⟨rows, hrows, hending, hanswers⟩ :=
        (hwritten _ s hs).select_ends std hs hover hnumbers
      have hselected := StatementEnding.selected hbind hs hrows hending hanswers
      rw [execute]
      generalize executeSelect std (lsmDatabase.reads db) fuel select = outcome at hselected ⊢
      cases outcome with
      | error e => exact hselected
      | ok result => exact hselected

/-! ## Runs -/

/-- A statement keeps the tables written. -/
private theorem StatementEnding.written {db' : LSMTables} {result : ExecutionResult}
    (h : StatementEnding db statement (.ok (result, db'))) (hnumbers : statement.Numbers)
    (hwritten : ∀ tableName s, db.tables tableName = some s → Written fuel s)
    (hregular : ∀ tableName s, db'.tables tableName = some s → Regular fuel s) :
    db'.config = db.config ∧ ∀ tableName s, db'.tables tableName = some s → Written fuel s := by
  generalize houtcome : Except.ok (result, db') = outcome at h
  cases h with
  | refused | taken => cases houtcome
  | created hbind htable hcreate =>
    cases houtcome
    refine ⟨rfl, LSMTables.forall_setTable hwritten ?_ _⟩
    exact written_new (fromBuilder_of_bind hbind) hcreate
      (hregular _ _ (Function.update_self _ _ _))
  | @inserted insert s tree hbind htable hinsert =>
    cases houtcome
    obtain ⟨source, schema, rfl, -, hover⟩ := insert_of_bind hbind
    refine ⟨rfl, LSMTables.forall_setTable hwritten ?_ _⟩
    have hold := hwritten _ s htable
    apply hold.step (.insert hinsert) (hregular _ _ (Function.update_self _ _ _))
    exact List.forall_mem_append.mpr ⟨hold.numbers,
      List.forall_mem_singleton.mpr (noNaN_bindInsertOver hover hnumbers)⟩
  | @selected select s rows outcome hbind htable hrows h hanswers =>
    cases outcome with
    | error e => cases houtcome
    | ok result =>
      cases houtcome
      exact ⟨rfl, hwritten⟩

/-- Texts and background work make written tables only. -/
theorem Ran.written (h : Ran std fuel config db) (hconfig : AcceptedConfig config) :
    db.config = config ∧ ∀ tableName s, db.tables tableName = some s → Written fuel s := by
  induction h with
  | start =>
    refine ⟨rfl, ?_⟩
    intro tableName s hs
    cases hs
  | @text db db' input statement result _ hparse hrun hregular ih =>
    obtain ⟨rfl, hwritten⟩ := ih
    have hnumbers := numbers_parse hparse
    have hending := statement_ends std hwritten hconfig hnumbers
    rw [hrun] at hending
    exact hending.written hnumbers hwritten hregular
  | @work db tableName s s' _ htable hstep hquiet hregular ih =>
    obtain ⟨hkept, hwritten⟩ := ih
    refine ⟨hkept, LSMTables.forall_setTable hwritten ?_ _⟩
    have hold := hwritten _ s htable
    exact hold.step hstep hregular (hquiet ▸ hold.numbers)

/-- In every state that texts and background work reach, the next text ends as it should. A plain
SELECT without LIMIT that returns gives what the inserted rows require; of another SELECT it is
said how it can fail. The configuration is one the tree accepts, and every table has stayed within
the counters of the formats, with distinct keys; nothing is assumed about NaN. -/
theorem texts_end_well (h : Ran std fuel config db) (hconfig : AcceptedConfig config)
    (hparse : parse input = .ok statement) :
    StatementEnding db statement (runStatement std lsmDatabase fuel db statement) := by
  obtain ⟨rfl, hwritten⟩ := h.written hconfig
  exact statement_ends std hwritten hconfig (numbers_parse hparse)

/-- Whatever the trees have done since, `SELECT *` returns the rows that texts inserted,
each once and cell by cell. The root directory is empty at the start, so that the tables
hold nothing the texts did not insert. -/
theorem star_returns_insertions (h : Ran std fuel config db) (hconfig : AcceptedConfig config)
    {tableName : Bytes} (htable : db.tables tableName = some s) :
    ∃ rows, runStatement std lsmDatabase fuel db (.select (everythingFrom tableName)) =
        .ok (.select ⟨s.tree.schema.columns.map Column.name, rows⟩, db) ∧
      rows.Perm (s.inserted.map resultRow) := by
  obtain ⟨rfl, hwritten⟩ := h.written hconfig
  have htables := hwritten tableName s htable
  obtain ⟨rows, ⟨hschema, hstores, hrows⟩, hcells, hserves⟩ := htables.exists_serves htable
  have hover : bindSelectOver s.tree.schema (everythingFrom tableName) =
      .ok (boundEverythingFrom tableName s.tree.schema) := bind_everything
  have hbound := bound_bindSelectOver hover
  have hliterals : (buildDataSkippingFilter
      (boundEverythingFrom tableName s.tree.schema)).Ordered := by
    intro predicate hpredicate
    cases hpredicate
  have hanswers := hserves.answersFrom hbound hschema ⟨plain_everything, rfl⟩ rfl hliterals
    hstores.valid hcells
  have hevaluates : ∀ row ∈ rows, Evaluates (boundEverythingFrom tableName s.tree.schema) row := by
    intro row hrow
    exact evaluates_of_goodRow hbound plain_everything
      (goodRow_everything (hstores.valid row hrow) (hcells row hrow))
  obtain ⟨⟨names, found⟩, hrun⟩ := hanswers.returns std fuel {} rfl hevaluates
    (hrows.length_eq.le.trans htables.regular.fuel)
  have hanswer := hanswers.answers std fuel _ hrun
  have hnames := hanswer.names
  rw [names_everything, Except.ok.injEq] at hnames
  have hfound := hanswer.perm
  rw [outputs_everything hstores.valid] at hfound
  have hbind : bind (lsmDatabase.reads db) (.select (everythingFrom tableName)) =
      .ok (.select (boundEverythingFrom tableName s.tree.schema)) := by
    have hfind : getSchema (lsmDatabase.reads db) tableName = .ok s.tree.schema := by
      simp [getSchema, lsmDatabase, lsmStorageEngine, htable]
    have hselect : bindSelect (lsmDatabase.reads db) (everythingFrom tableName) =
        bindSelectOver s.tree.schema (everythingFrom tableName) := by
      rw [bindSelect, everythingFrom, hfind]
      rfl
    rw [Executor.bind, hselect, hover]
    rfl
  refine ⟨found, ?_, hfound.trans (hrows.map resultRow)⟩
  rw [runStatement, hbind, Result.ok_bind, execute, hrun, hnames]
  rfl

end

/-! ## Three texts -/

private theorem regular_pairs {pairs : List (Int64 × Int64)} {fuel : Nat}
    (hkeys : (pairs.map Prod.fst).Nodup) (hfew : pairs.length + 7 < 2 ^ 32)
    (hfuel : pairs.length ≤ fuel) : Regular fuel (pairSession pairConfig pairs) := by
  constructor
  · exact alone_pairSession
  · exact bounded_pairSession hfew
  · exact keys_pairSession hkeys
  · rw [inserted_pairSession, List.length_map]
    exact hfuel

private theorem ran_texts : ∃ db, Ran (.insertion Exception) 2 freezingPairs db ∧
    db.tables pairTable = some (pairSession pairConfig [(2, 20)]) := by
  have hcreate : parse (ascii "CREATE TABLE t (id INT64 KEY, v INT64 NULL);") =
      .ok createPairs := by decide +kernel
  have hinsert : parse (ascii "INSERT INTO t (id, v) VALUES (2, 20);") = .ok insertTwo := by
    decide +kernel
  have hnone : ∀ (tableName : Bytes) (s : Session),
      ({ config := freezingPairs } : LSMTables).tables tableName = some s → Regular 2 s := by
    intro tableName s hs
    cases hs
  have hnew : Regular 2 (pairSession pairConfig []) :=
    regular_pairs (by simp) (by norm_num) (by simp)
  have hone : Regular 2 (pairSession pairConfig [(2, 20)]) :=
    regular_pairs (by simp) (by norm_num) (by simp)
  have hcreated := @Ran.text _ _ _ _ _ _ _ _
    (.start : Ran (.insertion Exception) 2 freezingPairs _) hcreate rfl
    (LSMTables.forall_setTable hnone hnew pairTable)
  have hinserted := @Ran.text _ _ _ _ _ _ _ _ hcreated hinsert rfl
    (LSMTables.forall_setTable (LSMTables.forall_setTable hnone hnew pairTable) hone pairTable)
  exact ⟨_, hinserted, rfl⟩

theorem texts_end_well_pairs : ∃ db, Ran (.insertion Exception) 2 freezingPairs db ∧
    (db.tables pairTable).isSome ∧ StatementEnding db (.select selectIdAbove)
      (runStatement (.insertion Exception) lsmDatabase 2 db (.select selectIdAbove)) := by
  obtain ⟨db, hran, htable⟩ := ran_texts
  have hparse : parse (ascii "SELECT id FROM t WHERE v > 15;") = .ok (.select selectIdAbove) := by
    decide +kernel
  exact ⟨db, hran, by rw [htable]; rfl, texts_end_well hran ⟨_, rfl⟩ hparse⟩

theorem star_returns_insertions_pairs : ∃ db, Ran (.insertion Exception) 2 freezingPairs db ∧
    ∃ rows, runStatement (.insertion Exception) lsmDatabase 2 db
        (.select (everythingFrom pairTable)) =
        .ok (.select ⟨[[105, 100], [118]], rows⟩, db) ∧
      rows.Perm [[some (.int64 2), some (.int64 20)]] := by
  obtain ⟨db, hran, htable⟩ := ran_texts
  exact ⟨db, hran, star_returns_insertions hran ⟨_, rfl⟩ htable⟩

end Htap.Properties
