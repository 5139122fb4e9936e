import Htap.Tree.OpenCursors

/-!
The background jobs of a tree that keeps the invariant. A job takes the next id
while it holds the mutex, writes its SSTable, and registers it when it has the
mutex again: a flush in place of the memtable at the front of the queue, a
compaction in place of the SSTables it merged.
-/

namespace Htap.Tree

open Storage SSTable Read Cursor Words

/-- The registry entry of `t` as an SSTable of a level. -/
def tableInfo (tree : LSMTree) (id level : Nat) (t : Table) : SSTableInfo :=
  builtInfo tree.config id level t.layout (buildResult t.blocks)
    (t.files tree.schema (sparseIndexOptions tree.config))

theorem describes_tableInfo (tree : LSMTree) (id level : Nat) (t : Table) :
    t.Describes (tableInfo tree id level t) := ⟨rfl, rfl, rfl, rfl⟩

/-- The SSTable a memtable is written to. -/
def flushTable (tree : LSMTree) (imm : ImmutableMemTable) : Table :=
  tableOf .row tree.schema (blockTargets tree.config) imm.data

/-- The SSTable that others are merged to. -/
def mergeTable (tree : LSMTree) (layout : SSTLayout) (tables : List Table) : Table :=
  tableOf layout tree.schema (blockTargets tree.config) (CompactionJob.mergedRows tables)

@[simp] theorem flushTable_rows (tree : LSMTree) (imm : ImmutableMemTable) :
    (flushTable tree imm).rows = imm.data := tableOf_rows _ _ _ _

@[simp] theorem mergeTable_rows (tree : LSMTree) (layout : SSTLayout) (tables : List Table) :
    (mergeTable tree layout tables).rows = CompactionJob.mergedRows tables := tableOf_rows _ _ _ _

section

variable {built : Nat → Option Table} {tree tree' : LSMTree}

/-- Every SSTable has a row. -/
theorem Invariant.length_entries_le (h : Invariant built tree) :
    tree.registry.entries.length ≤ (rowsOf built tree).length := by
  have hpos : ∀ info ∈ tree.registry.entries, 1 ≤ (builtRows built info).length := by
    intro info hinfo
    obtain ⟨t, -, hstored, hrows⟩ := h.exists_built hinfo
    rw [hrows]
    exact List.length_pos_of_ne_nil hstored.wellFormed.nonempty
  have hsum : tree.registry.entries.length ≤
      (tree.registry.entries.flatMap (builtRows built)).length := by
    rw [List.length_flatMap]
    have hall := List.card_nsmul_le_sum
      (tree.registry.entries.map fun info => (builtRows built info).length) 1 (by
        intro n hn
        obtain ⟨info, hinfo, rfl⟩ := List.mem_map.mp hn
        exact hpos info hinfo)
    simpa using hall
  rw [rowsOf, List.length_append]
  omega

/-! ## Flushing -/

/-- The three things `flush_one_locked` starts with. -/
theorem beginFlush_cases (tree : LSMTree) :
    (tree.memoryLayer.immutables = [] ∧ tree.beginFlush = (.nothing, tree)) ∨
    (∃ imm rest, tree.memoryLayer.immutables = imm :: rest ∧ imm.data = [] ∧
      tree.beginFlush =
        (.dropped, { tree with memoryLayer := tree.memoryLayer.popFrontImmutable })) ∨
    (∃ imm rest, tree.memoryLayer.immutables = imm :: rest ∧ imm.data ≠ [] ∧
      tree.beginFlush =
        (.writing ⟨imm, tree.nextSstId⟩, { tree with nextSstId := u64 (tree.nextSstId + 1) })) := by
  unfold LSMTree.beginFlush MemoryLayer.frontImmutable
  cases hfront : tree.memoryLayer.immutables with
  | nil => exact Or.inl ⟨rfl, rfl⟩
  | cons imm rest =>
    rw [List.head?_cons]
    dsimp only
    by_cases hsize : imm.size = 0
    · refine Or.inr (Or.inl ⟨imm, rest, rfl, List.length_eq_zero_iff.mp hsize, ?_⟩)
      rw [if_pos hsize]
    · refine Or.inr (Or.inr ⟨imm, rest, rfl, ?_, ?_⟩)
      · intro hnil
        exact hsize (List.length_eq_zero_iff.mpr hnil)
      · rw [if_neg hsize]

/-- Writing an SSTable changes nothing but the directory. -/
theorem exists_perform_of_writeFlush {task : LSMTree.FlushTask} {info : SSTableInfo}
    (h : tree.writeFlush task = .ok (info, tree')) : ∃ ops, tree' = tree.perform ops := by
  obtain ⟨⟨result, files⟩, -, h⟩ := Result.bind_eq_ok.mp h
  cases h
  exact ⟨_, rfl⟩

theorem exists_perform_of_writeCompact {job : LSMTree.CompactTask} {info : SSTableInfo}
    (h : tree.writeCompact job = .ok (info, tree')) : ∃ ops, tree' = tree.perform ops := by
  obtain ⟨⟨written, files⟩, -, h⟩ := Result.bind_eq_ok.mp h
  cases h
  exact ⟨_, rfl⟩

/-- A flush on its way. -/
structure FlushGood (built : Nat → Option Table) (tree : LSMTree) (task : LSMTree.FlushTask) :
    Prop where
  id : Invariant.Unregistered tree task.sstId
  front : ∃ rest, tree.memoryLayer.immutables = task.imm :: rest
  nonempty : task.imm.data ≠ []
  table : built task.sstId = some (flushTable tree task.imm)

theorem Invariant.buildable_front (h : Invariant built tree)
    (hfew : (rowsOf built tree).length + 7 < 2 ^ 32) {imm : ImmutableMemTable}
    {rest : List ImmutableMemTable} (hfront : tree.memoryLayer.immutables = imm :: rest)
    (hne : imm.data ≠ []) :
    Buildable .row tree.schema (blockTargets tree.config) imm.data := by
  have hmem : ∀ row ∈ imm.data, row ∈ tree.memoryLayer.rows := by
    intro row hrow
    rw [MemoryLayer.rows, hfront]
    exact List.mem_append_right _ (List.mem_flatMap.mpr ⟨imm, List.mem_cons_self, hrow⟩)
  have hlength : imm.data.length ≤ (rowsOf built tree).length := by
    rw [rowsOf, MemoryLayer.rows, hfront, List.flatMap_cons]
    simp only [List.length_append]
    omega
  constructor
  · exact h.keyed
  · intro hlayout
    cases hlayout
  · exact hne
  · exact fun row hrow => h.valid row (hmem row hrow)
  · exact fun row hrow => h.storable row (hmem row hrow)
  · exact imm.sorted.imp fun hab => hab.le
  · apply counted_tableOf
    omega

/-- The tree with the files of `t` written under an id. -/
def writtenTable (tree : LSMTree) (id : Nat) (t : Table) : LSMTree :=
  tree.perform [.writeSSTable (sstPath tree.config.rootPath id)
    (t.files tree.schema (sparseIndexOptions tree.config))]

theorem Invariant.writeFlush_returns (h : Invariant built tree)
    (hfew : (rowsOf built tree).length + 7 < 2 ^ 32) {task : LSMTree.FlushTask}
    (htask : FlushGood built tree task) :
    Result.Returns (tree.writeFlush task)
      (tableInfo tree task.sstId 0 (flushTable tree task.imm),
        writtenTable tree task.sstId (flushTable tree task.imm)) := by
  obtain ⟨rest, hfront⟩ := htask.front
  have hbuildable := h.buildable_front hfew hfront htask.nonempty
  exact (buildSSTable_returns hbuildable h.options h.targets).bind (Result.ReturnsIf.of_ok _)

/-- What a flush wrote. -/
theorem Invariant.of_writeFlush (h : Invariant built tree)
    (hfew : (rowsOf built tree).length + 7 < 2 ^ 32) {task : LSMTree.FlushTask}
    (htask : FlushGood built tree task) {info : SSTableInfo}
    (hwrite : tree.writeFlush task = .ok (info, tree')) :
    info = tableInfo tree task.sstId 0 (flushTable tree task.imm) ∧
      tree' = writtenTable tree task.sstId (flushTable tree task.imm) ∧
      (flushTable tree task.imm).WellFormed tree.schema (sparseIndexOptions tree.config) := by
  obtain ⟨rest, hfront⟩ := htask.front
  have hbuildable := h.buildable_front hfew hfront htask.nonempty
  obtain ⟨⟨result, files⟩, hbuild, hwrite⟩ := Result.bind_eq_ok.mp hwrite
  cases hwrite
  have hbuild : buildSSTable .row tree.schema (sparseIndexOptions tree.config)
      (blockTargets tree.config) task.imm.data = .ok (result, files) := hbuild
  obtain ⟨rfl, rfl, hwf⟩ := of_buildSSTable hbuildable h.options h.targets hbuild
  exact ⟨rfl, rfl, hwf⟩

/-! ## Registering what was written -/

theorem sstables_writtenTable (tree : LSMTree) (id : Nat) (t : Table) :
    (writtenTable tree id t).disk.sstables (sstPath tree.config.rootPath id) =
      some (t.files tree.schema (sparseIndexOptions tree.config)) := by
  rw [writtenTable, Invariant.disk_perform]
  exact if_pos rfl

theorem stored_writtenTable {id : Nat} (level : Nat) {t : Table}
    (hwf : t.WellFormed tree.schema (sparseIndexOptions tree.config)) :
    Stored tree.schema (sparseIndexOptions tree.config) (writtenTable tree id t).disk
      (tableInfo tree id level t) t := by
  exact ⟨hwf, describes_tableInfo tree id level t, sstables_writtenTable tree id t⟩

/-- The tree with its manifest written. -/
def manifested (tree : LSMTree) : LSMTree :=
  tree.perform [.writeManifest (encodeManifest tree.registry tree.nextSstId)]

theorem saveManifest_ok (hcount : tree.registry.entries.length < 2 ^ 32) :
    tree.saveManifest = .ok (manifested tree) := by
  rw [LSMTree.saveManifest, saveManifest_eq hcount, Result.ok_bind]
  rfl

theorem Invariant.manifested (h : Invariant built tree) : Invariant built (manifested tree) :=
  h.writeManifest _

@[simp] theorem rowsOf_manifested (built : Nat → Option Table) (tree : LSMTree) :
    rowsOf built (manifested tree) = rowsOf built tree := rfl

theorem builtRows_of_built {info : SSTableInfo} {t : Table} (h : built info.id = some t) :
    builtRows built info = t.rows := by
  rw [builtRows, h]
  rfl

/-- The tree with an SSTable in place of the memtable at the front. -/
def flushedTree (tree : LSMTree) (info : SSTableInfo) : LSMTree :=
  { tree with
    registry := tree.registry.add info
    memoryLayer := tree.memoryLayer.popFrontImmutable }

/-- What a flush registers holds the rows of the memtable it removes. -/
theorem Invariant.flushedTree (h : Invariant built tree) {task : LSMTree.FlushTask}
    (htask : FlushGood built tree task)
    (hstored : Stored tree.schema (sparseIndexOptions tree.config) tree.disk
      (tableInfo tree task.sstId 0 (flushTable tree task.imm)) (flushTable tree task.imm)) :
    Invariant built
        (flushedTree tree (tableInfo tree task.sstId 0 (flushTable tree task.imm))) ∧
      (rowsOf built
        (flushedTree tree (tableInfo tree task.sstId 0 (flushTable tree task.imm)))).Perm
        (rowsOf built tree) := by
  have hlevel : (tableInfo tree task.sstId 0 (flushTable tree task.imm)).level + 1 < 2 ^ 32 :=
    (by norm_num : 0 + 1 < 2 ^ 32)
  obtain ⟨rest, hfront⟩ := htask.front
  have hadded : Invariant built { tree with
      registry := tree.registry.add (tableInfo tree task.sstId 0 (flushTable tree task.imm)) } :=
    h.addSSTable htask.id hlevel rfl htask.table hstored
  have hpop : tree.memoryLayer.popFrontImmutable.rows =
      tree.memoryLayer.active.rows ++ rest.flatMap ImmutableMemTable.data := by
    rw [MemoryLayer.rows, MemoryLayer.popFrontImmutable, hfront]
    rfl
  have hrows : tree.memoryLayer.rows =
      tree.memoryLayer.active.rows ++ (task.imm.data ++ rest.flatMap ImmutableMemTable.data) := by
    rw [MemoryLayer.rows, hfront, List.flatMap_cons]
  constructor
  · apply hadded.setMemory
    intro row hrow
    rw [hpop, List.mem_append] at hrow
    change row ∈ tree.memoryLayer.rows
    rw [hrows, List.mem_append, List.mem_append]
    exact hrow.imp_right Or.inr
  · have hnew : builtRows built (tableInfo tree task.sstId 0 (flushTable tree task.imm)) =
        task.imm.data := (builtRows_of_built htask.table).trans (flushTable_rows _ _)
    have hentries := (tree.registry.entries_add hlevel).flatMap_right (builtRows built)
    rw [List.flatMap_cons, hnew] at hentries
    change (tree.memoryLayer.popFrontImmutable.rows ++
      (tree.registry.add _).entries.flatMap (builtRows built)).Perm _
    rw [rowsOf, hpop, hrows]
    refine (hentries.append_left _).trans ?_
    simp only [List.append_assoc]
    exact List.Perm.append_left _ (List.perm_append_comm_assoc _ _ _)

theorem Invariant.endFlush (h : Invariant built tree) (hfew : (rowsOf built tree).length < 2 ^ 32)
    {task : LSMTree.FlushTask} (htask : FlushGood built tree task)
    (hstored : Stored tree.schema (sparseIndexOptions tree.config) tree.disk
      (tableInfo tree task.sstId 0 (flushTable tree task.imm)) (flushTable tree task.imm)) :
    tree.endFlush (tableInfo tree task.sstId 0 (flushTable tree task.imm)) =
      .ok (Tree.manifested
        (Tree.flushedTree tree (tableInfo tree task.sstId 0 (flushTable tree task.imm)))) := by
  obtain ⟨hinvariant, hperm⟩ := h.flushedTree htask hstored
  apply saveManifest_ok
  have hle := hinvariant.length_entries_le
  rw [hperm.length_eq] at hle
  exact hle.trans_lt hfew

end

end Htap.Tree
