import Htap.Executor.MockEngine
import Htap.Executor.Skipping
import Htap.Tree.Durability

/-!
The LSM storage engine under the executor. Its trees are found by the name of the table;
what a statement reads is the rows of the tree, in memory or in SSTables.
-/

namespace Htap.Executor

open Storage SSTable Read Cursor Words Htap.Tree

/-- `LSMStorageEngine` as the executor uses it, with its trees by name. -/
def lsmStorageEngine (tables : Bytes → Option LSMTree) :
    IStorageEngine (ComposedCursor ScanCursor) where
  tableExists tableName := (tables tableName).isSome
  getTableSchema tableName :=
    match tables tableName with
    | none => .error tableDoesNotExist
    | some tree => .ok tree.schema
  get tableName key projection :=
    match tables tableName with
    | none => .error tableDoesNotExist
    | some tree => do
      let (cursor, tree) ← LSMStorageEngine.get tree key projection
      return (cursor, tree.world)
  scan tableName fromKey toKey projection order filter :=
    match tables tableName with
    | none => .error tableDoesNotExist
    | some tree => do
      let (cursor, tree) ← LSMStorageEngine.scan tree fromKey toKey projection order filter
      return (cursor, tree.world)

/-! ## What a statement reads -/

/-- A cursor that yields views of rows reads the rows. -/
theorem reads_of_yields {α : Type} [ICursor α] {projection : List Nat} {c : α} {w : World}
    {rows : List Row} (h : Yields projection c w (rows.map (viewRow projection))) :
    Reads projection c w rows := by
  induction rows generalizing c w with
  | nil =>
    cases h with
    | done hinvalid => exact Reads.done hinvalid
  | cons row rest ih =>
    cases h with
    | row hvalid _ hcells hnext hrest =>
      refine Reads.row hvalid ?_ hnext (ih hrest)
      have hall := List.forall₂_map_right_iff.mp (Result.mapM_eq_ok.mp hcells)
      exact List.forall₂_same.mp hall

section

variable {tree : LSMTree} {tables : Bytes → Option LSMTree} {tableName : Bytes} {rows : List Row}

private theorem scan_lsm (htable : tables tableName = some tree) {range : KeyRange}
    {projection : List Nat} {order : ScanOrder} {filter : DataSkippingFilter} {found : List Row}
    (h : ScanReads tree range projection order filter found) :
    ∃ c w, (lsmStorageEngine tables).scan tableName range.fromKey range.toKey projection order
        filter = .ok (c, w) ∧ Reads projection c w found := by
  obtain ⟨cursor, tree', hscan, hyields⟩ := h
  refine ⟨cursor, tree'.world, ?_, reads_of_yields hyields⟩
  simp only [lsmStorageEngine, htable, hscan, Result.ok_bind, Result.pure_eq]

/-- A table of the engine serves the rows that its tree stores. -/
theorem skipsRows_lsm (h : Stores tree rows) (hnumbers : Numbers rows)
    (htable : tables tableName = some tree) :
    SkipsRows (lsmStorageEngine tables) tableName tree.schema rows := by
  constructor
  · intro key projection hprojection
    obtain ⟨cursor, tree', hget, hyields⟩ := h.get key projection hprojection
    refine ⟨cursor, tree'.world, _, ?_, reads_of_yields hyields, List.Perm.refl _⟩
    simp only [lsmStorageEngine, htable, hget, Result.ok_bind, Result.pure_eq]
  · intro fromKey toKey projection order filter hfilter hordered hprojection
    obtain ⟨found, hpruned, hfound⟩ := h.skipping ⟨fromKey, toKey⟩ projection order filter hordered
      hfilter hnumbers hprojection
    obtain ⟨c, w, hscan, hreads⟩ := scan_lsm htable (h.scan ⟨fromKey, toKey⟩ projection order
      hordered hprojection)
    obtain ⟨c', w', hscan', hreads'⟩ := scan_lsm htable hfound
    refine ⟨c, w, c', w', _, found, hscan, hreads, arrange_perm order _, ?_, hscan', hreads',
      hpruned⟩
    rintro rfl
    exact Merging.sortedBy_stableSort rowKey _

end

/-! ## Tables in use -/

section

open Htap.Tree.Session Htap.Parser

variable {tables : Bytes → Option LSMTree} {tableName : Bytes} {start s : Session}
  {source : SelectStatement} {statement : BoundSelectStatement}

/-- A table of the engine, in a state that some history of it reaches. No key was inserted
twice, and no NaN at all. -/
structure Reached (tables : Bytes → Option LSMTree) (tableName : Bytes) (start s : Session) :
    Prop where
  starts : Starts start
  history : History start s
  table : tables tableName = some s.tree
  keys : (s.inserted.map rowKey).Nodup
  numbers : Numbers s.inserted

/-- The rows of the table in that state. -/
structure RowsOf (s : Session) (rows : List Row) : Prop where
  stores : Stores s.tree rows
  inserted : rows.Subperm s.inserted
  keys : (rows.map rowKey).Nodup

theorem Reached.exists_rows (h : Reached tables tableName start s) :
    s.tree.schema.WellFormed ∧ ∃ rows, RowsOf s rows ∧ Numbers rows := by
  obtain ⟨built, -, -, hsound, -, -, -, hsub⟩ := h.history.exists_store h.starts h.keys
  obtain ⟨hstores, hkeys⟩ := hsound.stores hsub h.keys
  exact ⟨hsound.invariant.keyed, rowsOf built s.tree, ⟨hstores, hsub, hkeys⟩,
    h.numbers.sub hsub.subset⟩

theorem Reached.bindSelect_eq (h : Reached tables source.tableName start s) :
    bindSelect (lsmStorageEngine tables) source = bindSelectOver s.tree.schema source := by
  have hschema : getSchema (lsmStorageEngine tables) source.tableName = .ok s.tree.schema := by
    simp [getSchema, lsmStorageEngine, h.table]
  rw [bindSelect, hschema, Result.ok_bind]

/-- The binder keeps the name of the table. -/
theorem tableName_bindSelectOver {schema : Schema}
    (hbind : bindSelectOver schema source = .ok statement) :
    statement.tableName = source.tableName := by
  obtain ⟨items, -, hbind⟩ := Result.bind_eq_ok.mp hbind
  obtain ⟨whereExpression, -, hbind⟩ := Result.bind_eq_ok.mp hbind
  obtain ⟨groupBy, -, hbind⟩ := Result.bind_eq_ok.mp hbind
  obtain ⟨orderBy, -, hbind⟩ := Result.bind_eq_ok.mp hbind
  obtain ⟨_, -, hbind⟩ := Result.bind_eq_ok.mp hbind
  obtain ⟨_, -, hbind⟩ := Result.bind_eq_ok.mp hbind
  cases hbind
  rfl

/-- What the binder makes of a SELECT from the table. -/
theorem Reached.bound (h : Reached tables source.tableName start s)
    (hbind : bindSelect (lsmStorageEngine tables) source = .ok statement) :
    Bound s.tree.schema statement ∧ statement.tableName = source.tableName := by
  rw [h.bindSelect_eq] at hbind
  exact ⟨bound_bindSelectOver hbind, tableName_bindSelectOver hbind⟩

/-- The rows of the table serve what was bound. -/
theorem Reached.skipsRows (h : Reached tables source.tableName start s)
    (hbind : bindSelect (lsmStorageEngine tables) source = .ok statement) {rows : List Row}
    (hrows : RowsOf s rows) :
    SkipsRows (lsmStorageEngine tables) statement.tableName s.tree.schema rows := by
  obtain ⟨-, hname⟩ := h.bound hbind
  rw [hname]
  exact skipsRows_lsm hrows.stores (h.numbers.sub hrows.inserted.subset) h.table

end

end Htap.Executor
