import Htap.Tree.Session

/-!
The threads that work on one table. A step is what one thread does while it holds the
mutex, from taking it to releasing it, or the disk write of a job in between. In the
background mode one worker drains the table; otherwise every thread that inserts a row or
waits for compaction drains it itself.
-/

namespace Htap.Tree

open Storage SSTable Read Words

namespace LSMTree

/-- The loop of `drain_work_locked` from its head to the next release of the mutex, or to
its end. -/
def drainHeld : Nat → LSMTree → Result (Option Job × LSMTree)
  | 0, _ => .error .outOfFuel
  | rounds + 1, tree =>
    if !tree.hasPendingWork then .ok (none, tree)
    else
      match tree.beginFlush with
      | (.writing task, tree) => .ok (some (.flush task), tree)
      | (.dropped, tree) => drainHeld rounds tree
      | (.nothing, tree) => do
        let (job, tree) ← tree.beginCompact
        return (job.map .compact, tree)

/-- Each round drops a memtable of the queue or is the last. -/
def drainLocked (tree : LSMTree) : Result (Option Job × LSMTree) :=
  tree.drainHeld (tree.memoryLayer.immutableCount + 1)

end LSMTree

/-- What a job takes from: the queue of memtables, or a level. -/
def Job.source : Job → Option Nat
  | .flush _ | .flushed _ _ => none
  | .compact task | .compacted task _ => some task.task.srcLevel

inductive Thread where
  /-- `compaction_worker_loop`. -/
  | worker
  /-- A caller of `insert` or `wait_for_compaction`. -/
  | client (n : Nat)
  deriving DecidableEq

/-- What a flush did when it had the mutex again. -/
structure FlushRecord where
  written : ImmutableMemTable
  removed : Option ImmutableMemTable
  info : SSTableInfo

/-- The table and the job each thread is at; also the flushes that ended, in order, and
the ids of the SSTables that compactions took away. -/
structure Threads where
  tree : LSMTree
  job : Thread → Option Job := fun _ => none
  flushes : List FlushRecord := []
  consumed : List Nat := []

namespace Threads

/-- The thread goes on with `job`, or is done. -/
def resume (s : Threads) (thread : Thread) (job : Option Job) (tree : LSMTree) : Threads :=
  { s with tree := tree, job := Function.update s.job thread job }

inductive Step : Threads → Threads → Prop
  | insert {s : Threads} {n : Nat} {row : Row}
    (hmode : s.tree.config.isCompactionBackground = true) (hidle : s.job (.client n) = none) :
    Step s { s with tree := s.tree.insertRow row }
  | insertDrain {s : Threads} {n : Nat} {row : Row} {job : Option Job} {tree : LSMTree}
    (hmode : s.tree.config.isCompactionBackground = false) (hidle : s.job (.client n) = none)
    (h : (s.tree.insertRow row).drainLocked = .ok (job, tree)) :
    Step s (s.resume (.client n) job tree)
  /-- `wait_for_compaction`; in the background mode it only waits. -/
  | wait {s : Threads} {n : Nat} {job : Option Job} {tree : LSMTree}
    (hmode : s.tree.config.isCompactionBackground = false) (hidle : s.job (.client n) = none)
    (h : s.tree.drainLocked = .ok (job, tree)) : Step s (s.resume (.client n) job tree)
  | wake {s : Threads} {job : Option Job} {tree : LSMTree}
    (hmode : s.tree.config.isCompactionBackground = true) (hidle : s.job .worker = none)
    (h : s.tree.drainLocked = .ok (job, tree)) : Step s (s.resume .worker job tree)
  | writeFlush {s : Threads} {thread : Thread} {task : LSMTree.FlushTask} {info : SSTableInfo}
    {tree : LSMTree} (hjob : s.job thread = some (.flush task))
    (h : s.tree.writeFlush task = .ok (info, tree)) :
    Step s (s.resume thread (some (.flushed task info)) tree)
  | endFlush {s : Threads} {thread : Thread} {task : LSMTree.FlushTask} {info : SSTableInfo}
    {ended tree : LSMTree} {job : Option Job} (hjob : s.job thread = some (.flushed task info))
    (hend : s.tree.endFlush info = .ok ended) (h : ended.drainLocked = .ok (job, tree)) :
    Step s { s.resume thread job tree with
      flushes := s.flushes ++ [⟨task.imm, s.tree.memoryLayer.frontImmutable, info⟩] }
  | writeCompact {s : Threads} {thread : Thread} {task : LSMTree.CompactTask} {info : SSTableInfo}
    {tree : LSMTree} (hjob : s.job thread = some (.compact task))
    (h : s.tree.writeCompact task = .ok (info, tree)) :
    Step s (s.resume thread (some (.compacted task info)) tree)
  | endCompact {s : Threads} {thread : Thread} {task : LSMTree.CompactTask} {info : SSTableInfo}
    {ended tree : LSMTree} {job : Option Job} (hjob : s.job thread = some (.compacted task info))
    (hend : s.tree.endCompact task info = .ok ended) (h : ended.drainLocked = .ok (job, tree)) :
    Step s { s.resume thread job tree with
      consumed := s.consumed ++ task.candidates.map SSTableInfo.id }

/-- No two threads take their input from the same place. -/
def Separate (s : Threads) : Prop :=
  ∀ a b job job', s.job a = some job → s.job b = some job' → job.source = job'.source → a = b

/-- Ids are given out once, and the levels are not more than the ids. -/
structure Numbered (tree : LSMTree) : Prop where
  distinct : (tree.registry.entries.map SSTableInfo.id).Nodup
  issued : ∀ info ∈ tree.registry.entries, info.id < tree.nextSstId
  levels : tree.registry.levelCount ≤ tree.nextSstId + 1
  filed : tree.registry.Filed

/-- The constructor has run, on an empty directory or one that a table has left. -/
inductive Starts : Threads → Prop
  | create {schema : Schema} {config : StorageConfig} {disk : Disk} {tree : LSMTree}
    (h : LSMTree.create schema config disk = .ok tree) (hnumbered : Numbered tree) :
    Starts { tree := tree }

end Threads

/-! ## Draining while the mutex is held -/

theorem LSMTree.drainHeld_cases {rounds : Nat} {tree tree' : LSMTree} {job : Option Job}
    (hfrozen : ∀ imm ∈ tree.memoryLayer.immutables, imm.data ≠ [])
    (h : tree.drainHeld rounds = .ok (job, tree')) :
    (job = none ∧ tree' = tree) ∨
    (∃ imm rest, tree.memoryLayer.immutables = imm :: rest ∧
      job = some (.flush ⟨imm, tree.nextSstId⟩) ∧
      tree' = { tree with nextSstId := u64 (tree.nextSstId + 1) }) ∨
    (∃ task candidates, CompactionPolicy.pick tree.config tree.registry = some task ∧
      tree.registry.sstablesAtLevel task.srcLevel = .ok candidates ∧ candidates ≠ [] ∧
      job = some (.compact ⟨task, candidates, tree.nextSstId⟩) ∧
      tree' = { tree with nextSstId := u64 (tree.nextSstId + 1) }) := by
  cases rounds with
  | zero => cases h
  | succ rounds =>
    rw [LSMTree.drainHeld] at h
    split at h
    · cases h
      exact Or.inl ⟨rfl, rfl⟩
    rcases beginFlush_cases tree with
      ⟨-, heq⟩ | ⟨imm, rest, hfront, hempty, -⟩ | ⟨imm, rest, hfront, -, heq⟩
    · rw [heq] at h
      obtain ⟨⟨started, begun⟩, hbegin, h⟩ := Result.bind_eq_ok.mp h
      cases h
      rcases beginCompact_cases hbegin with
        ⟨rfl, rfl⟩ | ⟨task, candidates, hpick, hlevel, hne, rfl, rfl⟩
      · exact Or.inl ⟨rfl, rfl⟩
      · exact Or.inr (Or.inr ⟨task, candidates, hpick, hlevel, hne, rfl, rfl⟩)
    · exact absurd hempty (hfrozen imm (hfront ▸ List.mem_cons_self))
    · rw [heq] at h
      cases h
      exact Or.inr (Or.inl ⟨imm, rest, hfront, rfl, rfl⟩)

end Htap.Tree
