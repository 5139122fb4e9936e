import Htap.Tree.Compacting

/-!
Runs of a table. Its steps are the sections of the source that hold the mutex, the disk
writes between them, and reading on through the cursors of earlier scans. A session that
never has more than one background job on its way keeps the invariant.
-/

namespace Htap.Tree

open Storage SSTable Read Cursor Words

/-- The tree the constructor makes, where it accepts the configuration. -/
theorem tree_of_create {schema : Schema} {config : StorageConfig} {disk : Disk}
    {tree : LSMTree} (h : LSMTree.create schema config disk = .ok tree) :
    (sparseIndexOptions config).Accepted ∧ (blockTargets config).Positive ∧
      ∃ registry nextSstId, loadManifest disk = .ok (registry, nextSstId) ∧
        tree = {
          schema := schema
          config := config
          memoryLayer := { threshold := config.memtableThreshold }
          registry := registry
          nextSstId := nextSstId
          opened := disk } := by
  unfold LSMTree.create at h
  split at h
  · cases h
  rename_i hmin
  split at h
  · cases h
  rename_i hmax
  split at h
  · cases h
  split at h
  · cases h
  rename_i hrow
  split at h
  · cases h
  rename_i hrows
  split at h
  · cases h
  rename_i hbytes
  obtain ⟨⟨registry, nextSstId⟩, hload, h⟩ := Result.bind_eq_ok.mp h
  cases h
  exact ⟨⟨Nat.pos_of_ne_zero hmin, not_lt.mp hmax⟩,
    ⟨Nat.pos_of_ne_zero hrow, Nat.pos_of_ne_zero hrows, Nat.pos_of_ne_zero hbytes⟩,
    registry, nextSstId, hload, rfl⟩

/-- A background job that has released the mutex. -/
inductive Job where
  | flush (task : LSMTree.FlushTask)
  | flushed (task : LSMTree.FlushTask) (info : SSTableInfo)
  | compact (job : LSMTree.CompactTask)
  | compacted (job : LSMTree.CompactTask) (info : SSTableInfo)

/-- The table, the jobs on their way and the open cursors; also the rows inserted and the
ids given out since the process started. -/
structure Session where
  tree : LSMTree
  jobs : List Job := []
  cursors : List (ComposedCursor ScanCursor) := []
  inserted : List Row := []
  issued : List Nat := []

namespace Session

inductive Step : Session → Session → Prop
  | insert {s : Session} {row : Row} {tree : LSMTree}
    (h : LSMStorageEngine.insert s.tree row = .ok tree) :
    Step s { s with tree := tree, inserted := s.inserted ++ [row] }
  | scan {s : Session} {fromKey toKey : Option Key} {projection : List Nat} {order : ScanOrder}
    {filter : DataSkippingFilter} {cursor : ComposedCursor ScanCursor} {tree : LSMTree}
    (h : LSMStorageEngine.scan s.tree fromKey toKey projection order filter = .ok (cursor, tree)) :
    Step s { s with tree := tree, cursors := cursor :: s.cursors }
  | next {s : Session} {before after : List (ComposedCursor ScanCursor)}
    {cursor moved : ComposedCursor ScanCursor} {w : World}
    (hcursors : s.cursors = before ++ cursor :: after)
    (h : ICursor.next cursor s.tree.world = .ok (moved, w)) :
    Step s { s with
      tree := { s.tree with blockCache := w.blockCache }
      cursors := before ++ moved :: after }
  | dropEmpty {s : Session} {tree : LSMTree} (h : s.tree.beginFlush = (.dropped, tree)) :
    Step s { s with tree := tree }
  | beginFlush {s : Session} {task : LSMTree.FlushTask} {tree : LSMTree}
    (h : s.tree.beginFlush = (.writing task, tree)) :
    Step s { s with
      tree := tree
      jobs := .flush task :: s.jobs
      issued := task.sstId :: s.issued }
  | writeFlush {s : Session} {before after : List Job} {task : LSMTree.FlushTask}
    {info : SSTableInfo} {tree : LSMTree} (hjobs : s.jobs = before ++ .flush task :: after)
    (h : s.tree.writeFlush task = .ok (info, tree)) :
    Step s { s with tree := tree, jobs := before ++ .flushed task info :: after }
  | endFlush {s : Session} {before after : List Job} {task : LSMTree.FlushTask}
    {info : SSTableInfo} {tree : LSMTree} (hjobs : s.jobs = before ++ .flushed task info :: after)
    (h : s.tree.endFlush info = .ok tree) :
    Step s { s with tree := tree, jobs := before ++ after }
  | beginCompact {s : Session} {job : LSMTree.CompactTask} {tree : LSMTree}
    (h : s.tree.beginCompact = .ok (some job, tree)) :
    Step s { s with
      tree := tree
      jobs := .compact job :: s.jobs
      issued := job.newId :: s.issued }
  | writeCompact {s : Session} {before after : List Job} {job : LSMTree.CompactTask}
    {info : SSTableInfo} {tree : LSMTree} (hjobs : s.jobs = before ++ .compact job :: after)
    (h : s.tree.writeCompact job = .ok (info, tree)) :
    Step s { s with tree := tree, jobs := before ++ .compacted job info :: after }
  | endCompact {s : Session} {before after : List Job} {job : LSMTree.CompactTask}
    {info : SSTableInfo} {tree : LSMTree}
    (hjobs : s.jobs = before ++ .compacted job info :: after)
    (h : s.tree.endCompact job info = .ok tree) :
    Step s { s with tree := tree, jobs := before ++ after }

/-- A restart of the process, once no job is on its way. What was in memory is gone. -/
inductive Restart : Session → Session → Prop
  | reopen {s : Session} {tree : LSMTree} (hidle : s.jobs = [])
    (h : LSMTree.create s.tree.schema s.tree.config s.tree.disk = .ok tree) :
    Restart s { tree := tree, inserted := s.inserted }

/-- A new table on an empty directory. -/
inductive Starts : Session → Prop
  | create {schema : Schema} {config : StorageConfig} {tree : LSMTree}
    (hschema : schema.WellFormed)
    (h : LSMTree.create schema config ⟨fun _ => none, none⟩ = .ok tree) : Starts { tree := tree }

/-- At most one job is on its way. -/
def Alone (s : Session) : Prop := s.jobs.length ≤ 1

/-- No counter of the file formats has been exceeded. -/
structure Bounded (s : Session) : Prop where
  columns : s.tree.schema.size ≤ 65535
  strings : ∀ row ∈ s.inserted, StorableRow row
  rows : s.inserted.length + 7 < 2 ^ 32
  ids : s.tree.nextSstId + 1 < 2 ^ 32

/-- The fields of the manifest that depend on the directory. -/
structure FitsManifest (s : Session) : Prop where
  path : s.tree.config.rootPath.length + 29 ≤ 65535
  sizes : ∀ info ∈ s.tree.registry.entries, info.fileSizeBytes < 2 ^ 64

/-- What happens in one process, with one job at a time, within the counters, and by
steps that are allowed. -/
inductive Run (Allowed : Session → Session → Prop) (start : Session) : Session → Prop
  | start (hbounded : start.Bounded) : Run Allowed start start
  | step {s s' : Session} (hrun : Run Allowed start s) (hstep : Step s s')
    (hallowed : Allowed s s') (halone : s'.Alone) (hbounded : s'.Bounded) : Run Allowed start s'

/-- The same over any number of processes, one after another, by any steps. -/
inductive Life (start : Session) : Session → Prop
  | start (hbounded : start.Bounded) : Life start start
  | step {s s' : Session} (hlife : Life start s) (hstep : Step s s') (halone : s'.Alone)
    (hbounded : s'.Bounded) : Life start s'
  | restart {s s' : Session} (hlife : Life start s) (hrestart : Restart s s')
    (hfits : s.FitsManifest) : Life start s'

section

variable {Allowed : Session → Session → Prop} {start s : Session}

theorem Run.life (h : Run Allowed start s) : Life start s := by
  induction h with
  | start hbounded => exact .start hbounded
  | step _ hstep _ halone hbounded ih => exact .step ih hstep halone hbounded

theorem Run.trans {s' : Session} (h : Run Allowed start s) (h' : Run Allowed s s') :
    Run Allowed start s' := by
  induction h' with
  | start _ => exact h
  | step _ hstep hallowed halone hbounded ih => exact .step ih hstep hallowed halone hbounded

theorem Life.trans {s' : Session} (h : Life start s) (h' : Life s s') : Life start s' := by
  induction h' with
  | start _ => exact h
  | step _ hstep halone hbounded ih => exact .step ih hstep halone hbounded
  | restart _ hrestart hfits ih => exact .restart ih hrestart hfits

theorem Life.bounded_start (h : Life start s) : start.Bounded := by
  induction h with
  | start hbounded => exact hbounded
  | step _ _ _ _ ih => exact ih
  | restart _ _ _ ih => exact ih

end

/-! ## Jobs on their way -/

/-- An insertion leaves the queue, or freezes the active memtable at its end. -/
theorem queue_insert (layer : MemoryLayer) (row : Row) :
    ((layer.insert row).immutables = layer.immutables ∧
      (layer.insert row).generation = layer.generation) ∨
    ∃ imm : ImmutableMemTable, imm.data ≠ [] ∧ imm.ident = layer.generation ∧
      (layer.insert row).immutables = layer.immutables ++ [imm] ∧
      (layer.insert row).generation = layer.generation + 1 := by
  unfold MemoryLayer.insert
  dsimp only
  split
  · exact Or.inl ⟨rfl, rfl⟩
  · refine Or.inr ⟨_, ?_, rfl, rfl, rfl⟩
    intro hnil
    have hmem : row ∈ (layer.active.insert row).rows := MemTable.mem_rows_insert.mpr (Or.inl rfl)
    have hrows : (layer.active.insert row).rows = [] := hnil
    rw [hrows] at hmem
    cases hmem

/-- What a job relies on. -/
def JobGood (built : Nat → Option Table) (tree : LSMTree) : Job → Prop
  | .flush task => FlushGood built tree task
  | .flushed task info => FlushGood built tree task ∧
      info = tableInfo tree task.sstId 0 (flushTable tree task.imm) ∧
      Stored tree.schema (sparseIndexOptions tree.config) tree.disk info
        (flushTable tree task.imm)
  | .compact job => CompactGood built tree job ∧ job.task.dstLevel ≤ tree.nextSstId
  | .compacted job info => CompactGood built tree job ∧ job.task.dstLevel ≤ tree.nextSstId ∧
      info = compactedInfo built tree job ∧
      Stored tree.schema (sparseIndexOptions tree.config) tree.disk info
        (compactedTable built tree job)

/-- What reads and insertions leave to a job. -/
structure Undisturbed (tree tree' : LSMTree) : Prop where
  schema : tree'.schema = tree.schema
  config : tree'.config = tree.config
  registry : tree'.registry = tree.registry
  nextSstId : tree'.nextSstId = tree.nextSstId
  disk : tree'.disk = tree.disk
  queue : ∀ imm rest, tree.memoryLayer.immutables = imm :: rest →
    ∃ rest', tree'.memoryLayer.immutables = imm :: rest'
  known : CachesKnown tree tree'

section

variable {built : Nat → Option Table} {tree tree' : LSMTree}

private theorem unregistered_of_undisturbed (h : Undisturbed tree tree') {id : Nat}
    (hid : Invariant.Unregistered tree id) : Invariant.Unregistered tree' id := by
  constructor
  · rw [h.nextSstId]
    exact hid.issued
  · rw [h.registry]
    exact hid.fresh
  · intro e he
    rcases h.known e he with ⟨old, hold, heq⟩ | ⟨info, hinfo, heq⟩
    · rw [← heq]
      exact hid.unread old hold
    · rw [← heq]
      exact hid.fresh info hinfo

theorem JobGood.undisturbed {job : Job} (hjob : JobGood built tree job)
    (h : Undisturbed tree tree') : JobGood built tree' job := by
  have hflushTable : flushTable tree' = flushTable tree := by
    funext imm
    rw [flushTable, flushTable, h.schema, h.config]
  have hmergeTable : mergeTable tree' = mergeTable tree := by
    funext layout tables
    rw [mergeTable, mergeTable, h.schema, h.config]
  have htableInfo : tableInfo tree' = tableInfo tree := by
    funext id level t
    rw [tableInfo, tableInfo, h.schema, h.config]
  have hflush : ∀ task, FlushGood built tree task → FlushGood built tree' task := by
    intro task htask
    obtain ⟨rest, hfront⟩ := htask.front
    exact ⟨unregistered_of_undisturbed h htask.id, h.queue _ _ hfront, htask.nonempty,
      by rw [hflushTable]; exact htask.table⟩
  have hcompact : ∀ job, CompactGood built tree job → CompactGood built tree' job := by
    intro job hjob
    exact ⟨unregistered_of_undisturbed h hjob.id, hjob.nonempty,
      ⟨by rw [h.registry]; exact hjob.chosen.known, hjob.chosen.distinct⟩, hjob.level,
      by rw [hmergeTable]; exact hjob.table⟩
  cases job with
  | flush task => exact hflush task hjob
  | flushed task info =>
    obtain ⟨htask, hinfo, hstored⟩ := hjob
    refine ⟨hflush task htask, ?_, ?_⟩
    · rw [htableInfo, hflushTable]
      exact hinfo
    · rw [h.schema, h.config, h.disk, hflushTable]
      exact hstored
  | compact job =>
    obtain ⟨htask, hlevel⟩ := hjob
    refine ⟨hcompact job htask, ?_⟩
    rw [h.nextSstId]
    exact hlevel
  | compacted job info =>
    obtain ⟨htask, hlevel, hinfo, hstored⟩ := hjob
    refine ⟨hcompact job htask, ?_, ?_, ?_⟩
    · rw [h.nextSstId]
      exact hlevel
    · rw [hinfo, compactedInfo, compactedInfo, htableInfo, compactedTable, compactedTable,
        hmergeTable]
    · rw [h.schema, h.config, h.disk, compactedTable, hmergeTable]
      exact hstored

end

/-! ## The invariant of a session -/

/-- The manifest on disk is that of the registry. -/
def Saved (tree : LSMTree) : Prop :=
  tree.disk.manifest = some (encodeManifest tree.registry tree.nextSstId) ∨
    tree.disk.manifest = none ∧ tree.registry = {} ∧ tree.nextSstId = 0

structure Working (built : Nat → Option Table) (s : Session) : Prop where
  invariant : Invariant built s.tree
  alone : s.Alone
  bounded : s.Bounded
  jobs : ∀ job ∈ s.jobs, JobGood built s.tree job
  cursors : ∀ c ∈ s.cursors, ∀ leaf ∈ c.leaves, Lasting built s.tree.nextSstId leaf
  levels : s.tree.registry.levelCount ≤ s.tree.nextSstId + 1
  frozen : ∀ imm ∈ s.tree.memoryLayer.immutables, imm.data ≠ []
  rows : (rowsOf built s.tree).length ≤ s.inserted.length

/-- A session that could be restarted when no job is on its way. -/
structure Sound (built : Nat → Option Table) (s : Session) : Prop extends Working built s where
  saved : s.jobs = [] → Saved s.tree

/-- What a step makes of the rows: an insertion adds one and drops what the active
memtable held under its key, anything else only moves them. -/
inductive RowsAfter (built built' : Nat → Option Table) (s s' : Session) : Prop
  | insert (row : Row) (hvalid : ValidRow s.tree.schema row)
    (htree : s'.tree = s.tree.insertRow row) (hinserted : s'.inserted = s.inserted ++ [row])
    (hbuilt : built' = built)
  | same (hrows : (rowsOf built' s'.tree).Perm (rowsOf built s.tree))
    (hinserted : s'.inserted = s.inserted)

end Session

end Htap.Tree
