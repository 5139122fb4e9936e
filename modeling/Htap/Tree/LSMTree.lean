import Htap.Storage.Memory
import Htap.Tree.CompactionJob

/-!
`LSMTree` and, over it, the operations of `LSMStorageEngine` on one table.

Every function of the tree is what one thread does while it holds the mutex.
A flush and a compaction release it around their disk write, so each is three
functions: up to the release, the write, and from taking the mutex again.
-/

namespace Htap.Tree

open Storage SSTable Read Cursor Words

structure LSMTree where
  schema : Schema
  config : StorageConfig
  memoryLayer : MemoryLayer
  registry : SSTableRegistry := {}
  nextSstId : Nat := 0
  metadataCaches : List (Nat × SSTableMetadataCache) := []
  blockCache : Option SSTableBlockCache := none
  /-- The directory the table was opened on. -/
  opened : Disk
  /-- What was done to the directory since, in order. -/
  diskOps : List DiskOp := []

namespace LSMTree

/-- The directory as it is now. -/
def disk (tree : LSMTree) : Disk := replay tree.opened tree.diskOps

def perform (tree : LSMTree) (ops : List DiskOp) : LSMTree :=
  { tree with diskOps := tree.diskOps ++ ops }

/-- What the cursors of a scan read outside of themselves. -/
def world (tree : LSMTree) : World :=
  ⟨tree.memoryLayer.generation, tree.memoryLayer.active, tree.blockCache⟩

/-- The constructor, on a directory that may hold the manifest of an earlier
run. -/
def create (schema : Schema) (config : StorageConfig) (disk : Disk) : Result LSMTree :=
  if config.sparseIndexMinStep = 0 then
    .error (.runtimeError "LSMTree: sparse index min step must be positive")
  else if config.sparseIndexMaxStep < config.sparseIndexMinStep then
    .error (.runtimeError "LSMTree: sparse index max step must be >= min step")
  else if config.sparseIndexTargetBytes = 0 ∧ config.sparseIndexStep = 0 then
    .error (.runtimeError "LSMTree: adaptive sparse index target bytes must be positive")
  else if config.rowBlockTargetBytes = 0 then
    .error (.runtimeError "LSMTree: row block target bytes must be positive")
  else if config.columnBlockTargetRows = 0 then
    .error (.runtimeError "LSMTree: column block target rows must be positive")
  else if config.columnBlockTargetBytes = 0 then
    .error (.runtimeError "LSMTree: column block target bytes must be positive")
  else do
    let (registry, nextSstId) ← loadManifest disk
    return {
      schema := schema
      config := config
      memoryLayer := { threshold := config.memtableThreshold }
      registry := registry
      nextSstId := nextSstId
      opened := disk }

/-- `memory_layer_.insert(row)`, the part of `LSMTree::insert` that is not
background work. -/
def insertRow (tree : LSMTree) (row : Row) : LSMTree :=
  { tree with memoryLayer := tree.memoryLayer.insert row }

def hasPendingWork (tree : LSMTree) : Bool :=
  decide (0 < tree.memoryLayer.immutableCount) ||
    (CompactionPolicy.pick tree.config tree.registry).isSome

/-- `save_manifest_locked`. -/
def saveManifest (tree : LSMTree) : Result LSMTree := do
  let contents ← Tree.saveManifest tree.registry tree.nextSstId
  return tree.perform [.writeManifest contents]

/-! ## Flushing -/

structure FlushTask where
  imm : ImmutableMemTable
  sstId : Nat

inductive FlushStart where
  /-- The queue is empty. -/
  | nothing
  /-- The front memtable had no rows and is gone. -/
  | dropped
  /-- The front memtable is to be written. -/
  | writing (task : FlushTask)

/-- `flush_one_locked` up to releasing the mutex. -/
def beginFlush (tree : LSMTree) : FlushStart × LSMTree :=
  match tree.memoryLayer.frontImmutable with
  | none => (.nothing, tree)
  | some imm =>
    if imm.size = 0 then
      (.dropped, { tree with memoryLayer := tree.memoryLayer.popFrontImmutable })
    else (.writing ⟨imm, tree.nextSstId⟩, { tree with nextSstId := u64 (tree.nextSstId + 1) })

def writeFlush (tree : LSMTree) (task : FlushTask) : Result (SSTableInfo × LSMTree) := do
  let (result, files) ← buildRowSSTable tree.schema (sparseIndexOptions tree.config)
    tree.config.rowBlockTargetBytes task.imm.data
  let info := builtInfo tree.config task.sstId 0 .row result files
  return (info, tree.perform [.writeSSTable info.path files])

def endFlush (tree : LSMTree) (info : SSTableInfo) : Result LSMTree :=
  { tree with
    registry := tree.registry.add info
    memoryLayer := tree.memoryLayer.popFrontImmutable }.saveManifest

/-- `flush_one_locked`. -/
def flushOne (tree : LSMTree) : Result (Bool × LSMTree) :=
  match tree.beginFlush with
  | (.nothing, tree) => .ok (false, tree)
  | (.dropped, tree) => .ok (true, tree)
  | (.writing task, tree) => do
    let (info, tree) ← tree.writeFlush task
    let tree ← tree.endFlush info
    return (true, tree)

/-! ## Compacting -/

structure CompactTask where
  task : CompactionTask
  candidates : List SSTableInfo
  newId : Nat

/-- `compact_one_locked` up to releasing the mutex. -/
def beginCompact (tree : LSMTree) : Result (Option CompactTask × LSMTree) :=
  match CompactionPolicy.pick tree.config tree.registry with
  | none => .ok (none, tree)
  | some task => do
    let candidates ← tree.registry.sstablesAtLevel task.srcLevel
    if candidates.isEmpty then return (none, tree)
    else
      return (some ⟨task, candidates, tree.nextSstId⟩,
        { tree with nextSstId := u64 (tree.nextSstId + 1) })

def writeCompact (tree : LSMTree) (job : CompactTask) : Result (SSTableInfo × LSMTree) := do
  let (info, files) ← CompactionJob.run tree.disk tree.schema tree.config job.candidates job.task
    job.newId
  return (info, tree.perform [.writeSSTable info.path files])

/-- Unregister an old SSTable and delete its directory. -/
def dropSstable (tree : LSMTree) (old : SSTableInfo) : LSMTree :=
  { tree with registry := tree.registry.remove old.id }.perform
    (deleteSstFiles tree.disk tree.config.rootPath old.id)

def endCompact (tree : LSMTree) (job : CompactTask) (info : SSTableInfo) : Result LSMTree :=
  (job.candidates.foldl dropSstable
    { tree with registry := tree.registry.add info }).saveManifest

/-- `compact_one_locked`. -/
def compactOne (tree : LSMTree) : Result (Bool × LSMTree) := do
  let (job, tree) ← tree.beginCompact
  match job with
  | none => return (false, tree)
  | some job => do
    let (info, tree) ← tree.writeCompact job
    let tree ← tree.endCompact job info
    return (true, tree)

/-! ## Draining -/

/-- `drain_work_locked` on a thread that is alone. -/
def drainWork : Nat → LSMTree → Result LSMTree
  | 0, _ => .error .outOfFuel
  | rounds + 1, tree =>
    if !tree.hasPendingWork then .ok tree
    else do
      let (flushed, tree) ← tree.flushOne
      if flushed then drainWork rounds tree
      else do
        let (compacted, tree) ← tree.compactOne
        if compacted then drainWork rounds tree else return tree

/-- `LSMTree::insert`: the background worker is left to work on its own time. -/
def insert (rounds : Nat) (tree : LSMTree) (row : Row) : Result LSMTree :=
  if tree.config.isCompactionBackground then .ok (tree.insertRow row)
  else drainWork rounds (tree.insertRow row)

/-! ## Scanning -/

def getOrCreateMetadataCache (tree : LSMTree) (info : SSTableInfo) :
    Result SSTableMetadataCache :=
  match (tree.metadataCaches.find? fun e => e.1 = info.id) with
  | some e => .ok e.2
  | none => SSTableMetadataCache.create tree.disk info (u32 tree.schema.size)

def setMetadataCache (tree : LSMTree) (id : Nat) (cache : SSTableMetadataCache) : LSMTree :=
  { tree with metadataCaches := (id, cache) :: tree.metadataCaches.filter fun e => e.1 ≠ id }

def getOrCreateBlockCache (tree : LSMTree) : SSTableBlockCache :=
  tree.blockCache.getD SSTableBlockCache.create

/-- The cursor over the active memtable, if the range is not empty there. -/
def scanActive (tree : LSMTree) (range : KeyRange) : List ScanCursor :=
  let active := tree.memoryLayer.active
  let activeBegin := active.data.start range.fromKey
  let activeEnd := active.data.stop range.toKey
  if activeBegin ≠ activeEnd then
    [.activeMemTable ⟨tree.memoryLayer.generation, activeBegin, activeEnd⟩]
  else []

def scanImmutable (range : KeyRange) (immutable : ImmutableMemTable) : List ScanCursor :=
  let immBegin := immutable.rangeBegin range.fromKey
  let immEnd := immutable.rangeEnd range.toKey
  if immBegin ≠ immEnd then [.immutableMemTable ⟨immutable.data, immBegin, immEnd⟩] else []

/-- A cursor over one SSTable, through the caches the tree keeps. -/
def openSSTable (tree : LSMTree) (range : KeyRange) (projection : List Nat)
    (filter : DataSkippingFilter) (info : SSTableInfo) : Result (Option ScanCursor × LSMTree) := do
  let metadataCache ← tree.getOrCreateMetadataCache info
  let w := { tree.world with blockCache := some tree.getOrCreateBlockCache }
  let (cursor, metadataCache, w) ← makeSSTableCursor tree.disk info metadataCache range
    tree.schema.types projection filter w
  return (cursor, { tree.setMetadataCache info.id metadataCache with blockCache := w.blockCache })

/-- The cursor over one SSTable is appended to those there are. -/
def scanSSTable (range : KeyRange) (projection : List Nat) (filter : DataSkippingFilter) :
    List ScanCursor × LSMTree → SSTableInfo → Result (List ScanCursor × LSMTree)
  | (cursors, tree), info => do
    let (cursor, tree) ← tree.openSSTable range projection filter info
    match cursor with
    | none => return (cursors, tree)
    | some cursor => return (if ICursor.valid cursor then cursors ++ [cursor] else cursors, tree)

/-- The SSTables a scan reads, level by level. -/
def scannedSSTables (tree : LSMTree) (range : KeyRange) : List SSTableInfo :=
  (List.range tree.registry.levelCount).flatMap fun level =>
    tree.registry.overlapping (u32 level) range.fromKey range.toKey

def scan (tree : LSMTree) (range : KeyRange) (projection : List Nat) (order : ScanOrder)
    (filter : DataSkippingFilter) : Result (ComposedCursor ScanCursor × LSMTree) := do
  let cursors := tree.scanActive range ++ tree.memoryLayer.immutables.flatMap (scanImmutable range)
  let (cursors, tree) ← (tree.scannedSSTables range).foldlM (scanSSTable range projection filter)
    (cursors, tree)
  let cursor ← composeCursors cursors order tree.world
  return (cursor, tree)

end LSMTree

/-! ## The engine's operations on a table -/

namespace LSMStorageEngine

/-- `insert`, up to the background work. -/
def insert (tree : LSMTree) (values : Row) : Result LSMTree := do
  validateRow tree.schema values
  return tree.insertRow values

/-- The range `get` scans; there is no key after the greatest. -/
def keyRange (key : Key) : KeyRange where
  fromKey := some key
  toKey := if key ≠ Int64.maxValue then some (key + 1) else none

def get (tree : LSMTree) (key : Key) (projection : List Nat) :
    Result (ComposedCursor ScanCursor × LSMTree) := do
  validateProjection tree.schema projection
  tree.scan (keyRange key) projection .unordered {}

def scan (tree : LSMTree) (fromKey toKey : Option Key) (projection : List Nat) (order : ScanOrder)
    (filter : DataSkippingFilter) : Result (ComposedCursor ScanCursor × LSMTree) := do
  validateProjection tree.schema projection
  tree.scan ⟨fromKey, toKey⟩ projection order filter

end LSMStorageEngine

end Htap.Tree
