import Htap.Tree.WholeSteps

/-!
Flushes and compactions that a filesystem operation interrupts. The exception leaves the
registry and the queue as they are at that moment; nothing is undone.
-/

namespace Htap.Properties

open Storage SSTable Read Cursor Words Htap.Tree Htap.Tree.Session

/-- The operation that fails. -/
inductive Fault where
  | building
  | saving
  /-- One of the old directories; so many SSTables of the compaction come after it. -/
  | deleting (later : Nat)
  deriving DecidableEq

/-- Every old SSTable has left the registry, or none has. -/
def Fault.Whole : Fault → Prop
  | .deleting later => later = 0
  | .building | .saving => True

instance (fault : Fault) : Decidable fault.Whole := by
  cases fault with
  | building => exact isTrue trivial
  | saving => exact isTrue trivial
  | deleting later => exact inferInstanceAs (Decidable (later = 0))

/-- The tree that `flush_one_locked` or `compact_one_locked` leaves behind when it throws.
What became of the directory that was being written or deleted is open. -/
inductive Fails (tree : LSMTree) : Fault → LSMTree → Prop
  | buildFlush {task : LSMTree.FlushTask} {begun : LSMTree} {ops : List DiskOp}
    (hbegin : tree.beginFlush = (.writing task, begun))
    (hops : ∀ op ∈ ops, op.At (sstPath tree.config.rootPath task.sstId)) :
    Fails tree .building (begun.perform ops)
  | saveFlush {task : LSMTree.FlushTask} {info : SSTableInfo} {begun written : LSMTree}
    (hbegin : tree.beginFlush = (.writing task, begun))
    (hwrite : begun.writeFlush task = .ok (info, written)) :
    Fails tree .saving (flushedTree written info)
  | buildCompact {job : LSMTree.CompactTask} {begun : LSMTree} {ops : List DiskOp}
    (hbegin : tree.beginCompact = .ok (some job, begun))
    (hops : ∀ op ∈ ops, op.At (sstPath tree.config.rootPath job.newId)) :
    Fails tree .building (begun.perform ops)
  | delete {job : LSMTree.CompactTask} {info old : SSTableInfo} {begun written dropped : LSMTree}
    {before after : List SSTableInfo} {ops : List DiskOp}
    (hbegin : tree.beginCompact = .ok (some job, begun))
    (hwrite : begun.writeCompact job = .ok (info, written))
    (hcandidates : job.candidates = before ++ old :: after)
    (hdropped : dropped = before.foldl LSMTree.dropSstable
      { written with registry := written.registry.add info })
    (hops : ∀ op ∈ ops, op.At (sstPath tree.config.rootPath old.id)) :
    Fails tree (.deleting after.length)
      ({ dropped with registry := dropped.registry.remove old.id }.perform ops)
  | saveCompact {job : LSMTree.CompactTask} {info : SSTableInfo} {begun written : LSMTree}
    (hbegin : tree.beginCompact = .ok (some job, begun))
    (hwrite : begun.writeCompact job = .ok (info, written)) :
    Fails tree .saving (compactedTree written job info)

/-- What a session can come to when failed steps that keep the rows are caught. -/
inductive Attempts (start : Session) : Session → Prop
  | life {s : Session} (h : Life start s) : Attempts start s
  | step {s s' : Session} (h : Attempts start s) (hstep : Step s s') (halone : s'.Alone)
    (hbounded : s'.Bounded) : Attempts start s'
  | fail {s : Session} {fault : Fault} {left : LSMTree} (h : Attempts start s)
    (hidle : s.jobs = []) (hfails : Fails s.tree fault left) (hwhole : fault.Whole)
    (hids : s.tree.nextSstId + 2 < 2 ^ 32) : Attempts start { s with tree := left }

/-- The tree left behind, against the one before the step. -/
structure Leaves (built built' : Nat → Option Table) (tree left : LSMTree)
    (extra : List Row) : Prop where
  invariant : Invariant built' left
  schema : left.schema = tree.schema
  config : left.config = tree.config
  next : left.nextSstId = tree.nextSstId + 1
  later : Extends built tree.nextSstId built' left.nextSstId
  levels : left.registry.levelCount ≤ left.nextSstId + 1
  queue : ∀ imm ∈ left.memoryLayer.immutables, imm ∈ tree.memoryLayer.immutables
  rows : (rowsOf built' left).Perm (rowsOf built tree ++ extra)

section

variable {built : Nat → Option Table} {s : Session}

/-! ## What a failed step leaves -/

/-- A job took the next id. -/
private theorem begun_job (h : Working built s) (hidle : s.jobs = [])
    (hids : s.tree.nextSstId + 2 < 2 ^ 32) {job : Job} {id : Nat} {begun : LSMTree}
    (htree : begun = { s.tree with nextSstId := s.tree.nextSstId + 1 })
    (hstarted : Alone { s with tree := begun, jobs := job :: s.jobs, issued := id :: s.issued } →
      Bounded { s with tree := begun, jobs := job :: s.jobs, issued := id :: s.issued } →
      ∃ built', Extends built s.tree.nextSstId built' begun.nextSstId ∧
        Working built' { s with
          tree := begun, jobs := job :: s.jobs, issued := id :: s.issued } ∧
        rowsOf built' begun = rowsOf built s.tree ∧ id = s.tree.nextSstId ∧
        begun = { s.tree with nextSstId := s.tree.nextSstId + 1 }) :
    ∃ built', Working built' { s with tree := begun, jobs := [job], issued := id :: s.issued } ∧
      Leaves built built' s.tree begun [] := by
  have halone : Alone { s with
      tree := begun, jobs := job :: s.jobs, issued := id :: s.issued } := by
    rw [Alone, hidle]
    exact le_rfl
  have hbounded : Bounded { s with
      tree := begun, jobs := job :: s.jobs, issued := id :: s.issued } := by
    rw [htree]
    exact ⟨h.bounded.columns, h.bounded.strings, h.bounded.rows, hids⟩
  obtain ⟨built', hextends, hworking, hrows, -, -⟩ := hstarted halone hbounded
  rw [hidle] at hworking
  refine ⟨built', hworking, hworking.invariant, ?_, ?_, ?_, hextends, hworking.levels, ?_, ?_⟩
  · rw [htree]
  · rw [htree]
  · rw [htree]
  · rw [htree]
    exact fun imm himm => himm
  · rw [hrows, List.append_nil]

private theorem begun_flush (h : Working built s) (hidle : s.jobs = [])
    (hids : s.tree.nextSstId + 2 < 2 ^ 32) {task : LSMTree.FlushTask} {begun : LSMTree}
    (hbegin : s.tree.beginFlush = (.writing task, begun)) :
    ∃ built', Working built' { s with
        tree := begun, jobs := [.flush task], issued := task.sstId :: s.issued } ∧
      Leaves built built' s.tree begun [] := by
  refine begun_job h hidle hids ?_ (h.beginFlush hbegin)
  have hnext : u64 (s.tree.nextSstId + 1) = s.tree.nextSstId + 1 := u64_of_lt (by omega)
  rcases beginFlush_cases s.tree with
    ⟨-, heq⟩ | ⟨imm, rest, -, -, heq⟩ | ⟨imm, rest, -, -, heq⟩
  all_goals
    rw [heq] at hbegin
    cases hbegin
  rw [hnext]

private theorem begun_compact (h : Working built s) (hidle : s.jobs = [])
    (hids : s.tree.nextSstId + 2 < 2 ^ 32) {job : LSMTree.CompactTask} {begun : LSMTree}
    (hbegin : s.tree.beginCompact = .ok (some job, begun)) :
    ∃ built', Working built' { s with
        tree := begun, jobs := [.compact job], issued := job.newId :: s.issued } ∧
      Leaves built built' s.tree begun [] := by
  refine begun_job h hidle hids ?_ (h.beginCompact hbegin)
  have hnext : u64 (s.tree.nextSstId + 1) = s.tree.nextSstId + 1 := u64_of_lt (by omega)
  rcases beginCompact_cases hbegin with ⟨hnone, -⟩ | ⟨task, candidates, -, -, -, -, heq⟩
  · cases hnone
  · rw [heq, hnext]

/-- Whatever directory was touched, the rows are those in memory and in the registry. -/
private theorem leaves_touched {built' : Nat → Option Table} {tree begun : LSMTree} {id : Nat}
    (h : Leaves built built' tree begun []) (hid : Invariant.Unregistered begun id)
    {ops : List DiskOp}
    (hops : ∀ op ∈ ops, op.At (sstPath tree.config.rootPath id)) :
    Leaves built built' tree (begun.perform ops) [] :=
  ⟨h.invariant.touch hid (h.config ▸ hops), h.schema, h.config, h.next, h.later, h.levels, h.queue,
    h.rows⟩

/-- A flush that registered its SSTable. -/
private theorem leaves_saveFlush (h : Working built s) (hidle : s.jobs = [])
    (hids : s.tree.nextSstId + 2 < 2 ^ 32) {task : LSMTree.FlushTask} {info : SSTableInfo}
    {begun written : LSMTree} (hbegin : s.tree.beginFlush = (.writing task, begun))
    (hwrite : begun.writeFlush task = .ok (info, written)) :
    ∃ built', Leaves built built' s.tree (flushedTree written info) [] := by
  obtain ⟨built', hworking, hleaves⟩ := begun_flush h hidle hids hbegin
  have hjobs : [Job.flush task] = [] ++ Job.flush task :: [] := rfl
  obtain ⟨hwritten, hrows, hnext⟩ := hworking.writeFlush hjobs hwrite
  have hjob : JobGood built' written (.flushed task info) :=
    hwritten.jobs (.flushed task info) List.mem_cons_self
  obtain ⟨htask, rfl, hstored⟩ := hjob
  obtain ⟨hinvariant, hperm⟩ := hwritten.invariant.flushedTree htask hstored
  obtain ⟨ops, rfl⟩ := exists_perform_of_writeFlush hwrite
  refine ⟨built', hinvariant, hleaves.schema, hleaves.config, hleaves.next, hleaves.later, ?_, ?_,
    ?_⟩
  · rw [flushedTree, SSTableRegistry.levelCount_add _ (by norm_num : 0 + 1 < 2 ^ 32)]
    exact max_le hleaves.levels (Nat.le_add_left _ _)
  · exact fun imm himm => hleaves.queue imm (List.mem_of_mem_tail himm)
  · exact (hperm.trans (List.Perm.of_eq hrows)).trans hleaves.rows

/-- A compaction that registered its SSTable and dropped some of the old ones. -/
private theorem leaves_dropped (h : Working built s) (hidle : s.jobs = [])
    (hids : s.tree.nextSstId + 2 < 2 ^ 32) {job : LSMTree.CompactTask} {info : SSTableInfo}
    {begun written : LSMTree} (hbegin : s.tree.beginCompact = .ok (some job, begun))
    (hwrite : begun.writeCompact job = .ok (info, written)) :
    ∃ built', (∀ old ∈ job.candidates, old.id < s.tree.nextSstId + 1 ∧ builtRows built' old ≠ []) ∧
      ∀ olds rest, job.candidates = olds ++ rest →
        Leaves built built' s.tree (olds.foldl LSMTree.dropSstable
          { written with registry := written.registry.add info })
          (rest.flatMap (builtRows built')) := by
  obtain ⟨built', hworking, hleaves⟩ := begun_compact h hidle hids hbegin
  have hjobs : [Job.compact job] = [] ++ Job.compact job :: [] := rfl
  obtain ⟨hwritten, hrows, hnext⟩ := hworking.writeCompact hjobs hwrite
  have hjob : JobGood built' written (.compacted job info) :=
    hwritten.jobs (.compacted job info) List.mem_cons_self
  obtain ⟨htask, hlevel, rfl, hstored⟩ := hjob
  have hknown : ∀ old ∈ job.candidates, old ∈ written.registry.entries := htask.chosen.known
  refine ⟨built', ?_, ?_⟩
  · intro old hold
    obtain ⟨t, -, hstored, hrows⟩ := hwritten.invariant.exists_built (hknown old hold)
    constructor
    · rw [← hleaves.next, ← hnext]
      exact hwritten.invariant.issued old (hknown old hold)
    · rw [hrows]
      exact hstored.wellFormed.nonempty
  intro olds rest hsplit
  have hperm := hwritten.invariant.rowsOf_dropped htask hsplit
  obtain ⟨hschema, hconfig, hsame⟩ := frame_dropSstables olds
    { written with registry := written.registry.add (compactedInfo built' written job) }
  have hadded : (compactedInfo built' written job).level + 1 < 2 ^ 32 := htask.level
  obtain ⟨ops, hwrote⟩ := exists_perform_of_writeCompact hwrite
  have hmoved : (rowsOf built' written).Perm (rowsOf built s.tree) := by
    have hbegun := hleaves.rows
    rw [List.append_nil] at hbegun
    exact (List.Perm.of_eq hrows).trans hbegun
  constructor
  · apply (hwritten.invariant.addCompacted htask hstored).dropSstables
    intro old hold
    exact hwritten.invariant.issued old (hknown old (hsplit ▸ List.mem_append_left rest hold))
  · rw [hschema, hwrote]
    exact hleaves.schema
  · rw [hconfig, hwrote]
    exact hleaves.config
  · exact hsame.trans (hnext.trans hleaves.next)
  · rw [hsame, hnext]
    exact hleaves.later
  · rw [registry_dropSstables, SSTableRegistry.levelCount_removeAll,
      SSTableRegistry.levelCount_add _ hadded, hsame]
    exact max_le hwritten.levels (Nat.succ_le_succ hlevel)
  · rw [memoryLayer_dropSstables, hwrote]
    exact hleaves.queue
  · exact hperm.trans (hmoved.append_right _)

private theorem leaves_of_fails (h : Working built s) (hidle : s.jobs = [])
    (hids : s.tree.nextSstId + 2 < 2 ^ 32) {fault : Fault} {left : LSMTree}
    (hfails : Fails s.tree fault left) :
    ∃ built' extra, Leaves built built' s.tree left extra ∧ (extra = [] ↔ fault.Whole) := by
  cases hfails with
  | buildFlush hbegin hops =>
    obtain ⟨built', hworking, hleaves⟩ := begun_flush h hidle hids hbegin
    have hjob : FlushGood built' _ _ := hworking.jobs _ List.mem_cons_self
    exact ⟨built', [], leaves_touched hleaves hjob.id hops, iff_of_true rfl trivial⟩
  | saveFlush hbegin hwrite =>
    obtain ⟨built', hleaves⟩ := leaves_saveFlush h hidle hids hbegin hwrite
    exact ⟨built', [], hleaves, iff_of_true rfl trivial⟩
  | buildCompact hbegin hops =>
    obtain ⟨built', hworking, hleaves⟩ := begun_compact h hidle hids hbegin
    have hjob : CompactGood built' _ _ ∧ _ := hworking.jobs _ List.mem_cons_self
    exact ⟨built', [], leaves_touched hleaves hjob.1.id hops, iff_of_true rfl trivial⟩
  | @delete job info old begun written dropped before after ops hbegin hwrite hsplit hdropped
    hops =>
    obtain ⟨built', hcandidates, hleaves⟩ := leaves_dropped h hidle hids hbegin hwrite
    have hold : old ∈ job.candidates := hsplit ▸ List.mem_append_right before List.mem_cons_self
    have hbefore := hleaves before (old :: after) hsplit
    have hthrough := hleaves (before ++ [old]) after (by rw [hsplit, List.append_assoc]; rfl)
    rw [← hdropped] at hbefore
    rw [List.foldl_append, ← hdropped] at hthrough
    refine ⟨built', after.flatMap (builtRows built'), ⟨?_, hthrough.schema, hthrough.config,
      hthrough.next, hthrough.later, hthrough.levels, hthrough.queue, hthrough.rows⟩, ?_⟩
    · refine hbefore.invariant.unregister ?_ (hbefore.config ▸ hops)
      rw [hbefore.next]
      exact (hcandidates old hold).1
    · rw [Fault.Whole, List.length_eq_zero_iff, List.flatMap_eq_nil_iff]
      constructor
      · intro hnone
        refine List.eq_nil_iff_forall_not_mem.mpr fun later hlater => ?_
        refine (hcandidates later ?_).2 (hnone later hlater)
        exact hsplit ▸ List.mem_append_right before (List.mem_cons_of_mem old hlater)
      · rintro rfl later hlater
        cases hlater
  | saveCompact hbegin hwrite =>
    obtain ⟨built', -, hleaves⟩ := leaves_dropped h hidle hids hbegin hwrite
    exact ⟨built', [], hleaves _ [] (List.append_nil _).symm, iff_of_true rfl trivial⟩

/-- After a fault that keeps the rows the session goes on. -/
private theorem working_after_fault (h : Working built s) (hidle : s.jobs = [])
    (hids : s.tree.nextSstId + 2 < 2 ^ 32) {fault : Fault} {left : LSMTree}
    (hfails : Fails s.tree fault left) (hwhole : fault.Whole) :
    ∃ built', Working built' { s with tree := left } := by
  obtain ⟨built', extra, hleaves, hextra⟩ := leaves_of_fails h hidle hids hfails
  refine ⟨built', hleaves.invariant, h.alone, ?_, ?_, ?_, hleaves.levels, ?_, ?_⟩
  · refine ⟨?_, h.bounded.strings, h.bounded.rows, ?_⟩
    · rw [hleaves.schema]
      exact h.bounded.columns
    · rw [hleaves.next]
      exact hids
  · rw [hidle]
    intro job hjob
    cases hjob
  · exact fun c hc leaf hleaf => (h.cursors c hc leaf hleaf).extends hleaves.later
  · exact fun imm himm => h.frozen imm (hleaves.queue imm himm)
  · rw [hleaves.rows.length_eq, hextra.mpr hwhole, List.append_nil]
    exact h.rows

private theorem exists_working {start : Session} (hstart : Starts start)
    (h : Attempts start s) : ∃ built, Working built s := by
  induction h with
  | life h =>
    obtain ⟨built, hsound⟩ := h.sound hstart
    exact ⟨built, hsound.toWorking⟩
  | step _ hstep halone hbounded ih =>
    obtain ⟨built, hworking⟩ := ih
    obtain ⟨built', -, hworking', -⟩ := hworking.step hstep halone hbounded
    exact ⟨built', hworking'⟩
  | fail _ hidle hfails hwhole hids ih =>
    obtain ⟨built, hworking⟩ := ih
    exact working_after_fault hworking hidle hids hfails hwhole

private theorem sameFullScan_left_iff (h : Working built s) (hidle : s.jobs = [])
    (hids : s.tree.nextSstId + 2 < 2 ^ 32) {fault : Fault} {left : LSMTree}
    (hfails : Fails s.tree fault left) : SameFullScan s.tree left ↔ fault.Whole := by
  obtain ⟨built', extra, hleaves, hextra⟩ := leaves_of_fails h hidle hids hfails
  have hlevels : left.registry.levelCount ≤ 2 ^ 32 := by
    have hle := hleaves.levels
    have hnext := hleaves.next
    omega
  rw [sameFullScan_iff h.invariant hleaves.invariant h.levelCount_le hlevels hleaves.schema,
    ← hextra]
  constructor
  · intro hsame
    have hlength := (hleaves.rows.symm.trans hsame).length_eq
    rw [List.length_append] at hlength
    exact List.length_eq_zero_iff.mp (by omega)
  · rintro rfl
    have hrows := hleaves.rows
    rw [List.append_nil] at hrows
    exact hrows

end

/-- A failed step keeps what full scans yield, unless it fails to delete the directory of an
SSTable that is not the last of its compaction. Steps may have failed before (`Attempts`);
`hidle` is that no other job is on its way, and `hids` that the ids of SSTables last. -/
theorem failed_step_keeps_rows_iff {start s : Session} (hstart : Starts start)
    (hattempts : Attempts start s) (hidle : s.jobs = []) (hids : s.tree.nextSstId + 2 < 2 ^ 32)
    {fault : Fault} {left : LSMTree} (hfails : Fails s.tree fault left) :
    SameFullScan s.tree left ↔ fault.Whole := by
  obtain ⟨built, hworking⟩ := exists_working hstart hattempts
  exact sameFullScan_left_iff hworking hidle hids hfails

/-! ## Two SSTables to merge -/

/-- Two SSTables are merged, up to the first deletion. -/
private def mergedTwo : Result Nat := do
  let tree ← flushTwo twoKeys.tree
  let (job, begun) ← tree.beginCompact
  match job with
  | none => throw .outOfFuel
  | some job => do
    let _ ← begun.writeCompact job
    return job.candidates.length

/-- A session that has two SSTables to merge and fails to delete the first. -/
private theorem exists_interrupted : ∃ (s : Session) (left : LSMTree),
    Life (keyTable eagerConfig) s ∧ s.jobs = [] ∧ s.tree.nextSstId + 2 < 2 ^ 32 ∧
      Fails s.tree (.deleting 1) left := by
  have hmerged : mergedTwo = .ok 2 := by decide +kernel
  obtain ⟨tree, hflushed, hmerged⟩ := Result.bind_eq_ok.mp hmerged
  obtain ⟨⟨job, begun⟩, hbegin, hmerged⟩ := Result.bind_eq_ok.mp hmerged
  dsimp only at hmerged
  cases job with
  | none => cases hmerged
  | some job =>
    obtain ⟨⟨info, written⟩, hwrite, hmerged⟩ := Result.bind_eq_ok.mp hmerged
    have hlength : job.candidates.length = 2 := Except.ok.inj hmerged
    obtain ⟨a, b, hcandidates⟩ := List.length_eq_two.mp hlength
    obtain ⟨issued, hlife, hids⟩ := exists_flushedKeys hflushed
    have hsplit : job.candidates = [] ++ a :: [b] := hcandidates
    have hops : ∀ op ∈ ([] : List DiskOp), op.At (sstPath tree.config.rootPath a.id) := by
      intro op hop
      cases hop
    exact ⟨_, _, hlife, rfl, hids, .delete hbegin hwrite hsplit rfl hops⟩

/-- The first of two old directories cannot be deleted: the row of the second is read
twice. -/
theorem interrupted_compaction_duplicates : ∃ (s : Session) (left : LSMTree),
    Attempts (keyTable eagerConfig) s ∧ s.jobs = [] ∧ Fails s.tree (.deleting 1) left ∧
      ¬ SameFullScan s.tree left := by
  obtain ⟨s, left, hlife, hidle, hids, hfails⟩ := exists_interrupted
  obtain ⟨built, hsound⟩ := hlife.sound starts_eager
  refine ⟨s, left, .life hlife, hidle, hfails, ?_⟩
  rw [sameFullScan_left_iff hsound.toWorking hidle hids hfails]
  exact Nat.one_ne_zero

theorem failed_step_keeps_rows_iff_interrupted : ∃ (s : Session) (left : LSMTree),
    Fails s.tree (.deleting 1) left ∧ (SameFullScan s.tree left ↔ (Fault.deleting 1).Whole) := by
  obtain ⟨s, left, hlife, hidle, hids, hfails⟩ := exists_interrupted
  exact ⟨s, left, hfails,
    failed_step_keeps_rows_iff starts_eager (.life hlife) hidle hids hfails⟩

end Htap.Properties
