import Htap.Cursor.OwnFiles
import Htap.Tree.Session

/-!
What the steps of a table leave alone, whether or not the table is in order. A scan
changes the caches only, and the disk operations of a table concern SSTables and the
manifest under its own root path.
-/

namespace Htap.Tree

open Storage SSTable Read Cursor Words

section

variable {tree tree' : LSMTree} {range : KeyRange} {projection : List Nat}
  {filter : DataSkippingFilter}

/-! ## Reading -/

/-- A scan looks at registered SSTables. -/
theorem mem_entries_of_scanned {info : SSTableInfo} (h : info ∈ tree.scannedSSTables range) :
    info ∈ tree.registry.entries := by
  obtain ⟨level, -, hlevel⟩ := List.mem_flatMap.mp h
  have hfiled := List.mem_of_mem_filter hlevel
  rw [List.getD_eq_getElem?_getD] at hfiled
  cases hget : tree.registry.levels[u32 level]? with
  | none =>
    rw [hget] at hfiled
    cases hfiled
  | some infos =>
    rw [hget] at hfiled
    exact List.mem_flatten_of_mem (List.mem_of_getElem? hget) hfiled

/-- Every cache is of one of the SSTables opened, or there was one of its SSTable. -/
def CachesFrom (infos : List SSTableInfo) (tree tree' : LSMTree) : Prop :=
  ∀ e ∈ tree'.metadataCaches,
    (∃ old ∈ tree.metadataCaches, old.1 = e.1 ∧ old.2.info = e.2.info) ∨
      ∃ info ∈ infos, info.id = e.1 ∧ info = e.2.info

theorem CachesFrom.refl (infos : List SSTableInfo) (tree : LSMTree) :
    CachesFrom infos tree tree := fun e he => Or.inl ⟨e, he, rfl, rfl⟩

/-- Keeping the metadata cache of one more SSTable, whatever was read through it. -/
theorem CachesFrom.setMetadataCache {infos : List SSTableInfo} (h : CachesFrom infos tree tree')
    {info : SSTableInfo} (hinfo : info ∈ infos) {found cache : SSTableMetadataCache}
    (hget : tree'.getOrCreateMetadataCache info = .ok found) (hsame : cache.info = found.info) :
    CachesFrom infos tree (tree'.setMetadataCache info.id cache) := by
  intro e he
  rcases List.mem_cons.mp he with rfl | hold
  · unfold LSMTree.getOrCreateMetadataCache at hget
    split at hget
    · rename_i old hfind
      cases hget
      have hmatch := List.find?_some hfind
      have hid : old.1 = info.id := of_decide_eq_true hmatch
      rcases h old (List.mem_of_find?_eq_some hfind) with
        ⟨older, holder, heq, hof⟩ | ⟨other, hother, heq, hof⟩
      · exact Or.inl ⟨older, holder, heq.trans hid, hof.trans hsame.symm⟩
      · exact Or.inr ⟨other, hother, heq.trans hid, hof.trans hsame.symm⟩
    · refine Or.inr ⟨info, hinfo, rfl, ?_⟩
      exact (SSTableMetadataCache.info_create hget).symm.trans hsame.symm
  · exact h e (List.mem_of_mem_filter hold)

theorem of_scanSSTable {infos : List SSTableInfo} {info : SSTableInfo} (hinfo : info ∈ infos)
    {opened opened' : List ScanCursor × LSMTree} (hsame : SameData tree opened.2)
    (hcaches : CachesFrom infos tree opened.2)
    (h : LSMTree.scanSSTable range projection filter opened info = .ok opened') :
    SameData tree opened'.2 ∧ CachesFrom infos tree opened'.2 := by
  obtain ⟨cursors, tree'⟩ := opened
  obtain ⟨⟨cursor, next⟩, hopen, h⟩ := Result.bind_eq_ok.mp h
  obtain ⟨metadataCache, hget, hopen⟩ := Result.bind_eq_ok.mp hopen
  obtain ⟨⟨found, cache, w⟩, hmake, hopen⟩ := Result.bind_eq_ok.mp hopen
  cases hopen
  have hnext : SameData tree' { tree'.setMetadataCache info.id cache with
      blockCache := w.blockCache } := rfl
  have hput := hcaches.setMetadataCache hinfo hget (info_makeSSTableCursor hmake)
  cases cursor with
  | none =>
    cases h
    exact ⟨hsame.trans hnext, hput⟩
  | some cursor =>
    cases h
    exact ⟨hsame.trans hnext, hput⟩

private theorem of_openings_within {all infos : List SSTableInfo}
    (hsub : ∀ info ∈ infos, info ∈ all) {opened last : List ScanCursor × LSMTree}
    (hsame : SameData tree opened.2) (hcaches : CachesFrom all tree opened.2)
    (h : infos.foldlM (LSMTree.scanSSTable range projection filter) opened = .ok last) :
    SameData tree last.2 ∧ CachesFrom all tree last.2 := by
  induction infos generalizing opened with
  | nil =>
    cases h
    exact ⟨hsame, hcaches⟩
  | cons info infos ih =>
    rw [List.foldlM_cons] at h
    obtain ⟨next, hnext, h⟩ := Result.bind_eq_ok.mp h
    obtain ⟨hsame', hcaches'⟩ := of_scanSSTable (hsub info List.mem_cons_self) hsame hcaches hnext
    exact ih (fun other hother => hsub other (List.mem_cons_of_mem info hother)) hsame' hcaches' h

/-- Opening SSTables one after another changes the caches only. -/
theorem of_openings {infos : List SSTableInfo} {cursors : List ScanCursor}
    {opened : List ScanCursor × LSMTree}
    (h : infos.foldlM (LSMTree.scanSSTable range projection filter) (cursors, tree) =
      .ok opened) : SameData tree opened.2 ∧ CachesFrom infos tree opened.2 :=
  of_openings_within (fun _ hinfo => hinfo) (SameData.refl tree) (CachesFrom.refl infos tree) h

theorem of_scan {fromKey toKey : Option Key} {order : ScanOrder}
    {cursor : ComposedCursor ScanCursor}
    (h : LSMStorageEngine.scan tree fromKey toKey projection order filter = .ok (cursor, tree')) :
    SameData tree tree' ∧ CachesFrom (tree.scannedSSTables ⟨fromKey, toKey⟩) tree tree' := by
  obtain ⟨-, -, h⟩ := Result.bind_eq_ok.mp h
  obtain ⟨⟨cursors, last⟩, hfold, h⟩ := Result.bind_eq_ok.mp h
  obtain ⟨composed, -, h⟩ := Result.bind_eq_ok.mp h
  cases h
  exact of_openings hfold

/-! ## Writing -/

/-- The operation is about a file of the table at `rootPath`. -/
def DiskOp.Own (rootPath : Bytes) : DiskOp → Prop
  | .writeSSTable path _ => ∃ id, path = sstPath rootPath id
  | .removeSSTable path => ∃ id, path = sstPath rootPath id
  | .writeManifest _ => True

theorem DiskOp.At.own {rootPath : Bytes} {id : Nat} {op : DiskOp}
    (h : op.At (sstPath rootPath id)) : op.Own rootPath := by
  cases op with
  | writeSSTable path files => exact ⟨id, h⟩
  | removeSSTable path => exact ⟨id, h⟩
  | writeManifest contents => exact h.elim

/-- Schema and configuration stay, and the disk operations that were added are the
table's own. -/
structure Confined (tree tree' : LSMTree) : Prop where
  schema : tree'.schema = tree.schema
  config : tree'.config = tree.config
  opened : tree'.opened = tree.opened
  performed : ∃ ops, tree'.diskOps = tree.diskOps ++ ops ∧
    ∀ op ∈ ops, op.Own tree.config.rootPath

theorem Confined.quiet (hschema : tree'.schema = tree.schema) (hconfig : tree'.config = tree.config)
    (hopened : tree'.opened = tree.opened) (hops : tree'.diskOps = tree.diskOps) :
    Confined tree tree' := by
  refine ⟨hschema, hconfig, hopened, [], ?_, ?_⟩
  · rw [hops, List.append_nil]
  · intro op hop
    cases hop

theorem Confined.perform (tree : LSMTree) {ops : List DiskOp}
    (hops : ∀ op ∈ ops, op.Own tree.config.rootPath) : Confined tree (tree.perform ops) :=
  ⟨rfl, rfl, rfl, ops, rfl, hops⟩

theorem Confined.trans {a b c : LSMTree} (h : Confined a b) (h' : Confined b c) :
    Confined a c := by
  obtain ⟨ops, hops, hown⟩ := h.performed
  obtain ⟨ops', hops', hown'⟩ := h'.performed
  refine ⟨h'.schema.trans h.schema, h'.config.trans h.config, h'.opened.trans h.opened,
    ops ++ ops', ?_, ?_⟩
  · rw [hops', hops, List.append_assoc]
  · intro op hop
    rcases List.mem_append.mp hop with hfirst | hsecond
    · exact hown op hfirst
    · rw [← h.config]
      exact hown' op hsecond

theorem confined_of_sameData (h : SameData tree tree') : Confined tree tree' := by
  rw [h]
  exact Confined.quiet rfl rfl rfl rfl

theorem confined_beginFlush (tree : LSMTree) : Confined tree tree.beginFlush.2 := by
  unfold LSMTree.beginFlush
  split
  · exact Confined.quiet rfl rfl rfl rfl
  · split
    · exact Confined.quiet rfl rfl rfl rfl
    · exact Confined.quiet rfl rfl rfl rfl

theorem confined_writeFlush {task : LSMTree.FlushTask} {info : SSTableInfo}
    (h : tree.writeFlush task = .ok (info, tree')) : Confined tree tree' := by
  obtain ⟨⟨result, files⟩, -, h⟩ := Result.bind_eq_ok.mp h
  cases h
  apply Confined.perform
  intro op hop
  rw [List.mem_singleton.mp hop]
  exact ⟨task.sstId, rfl⟩

theorem confined_saveManifest (h : tree.saveManifest = .ok tree') : Confined tree tree' := by
  obtain ⟨contents, -, h⟩ := Result.bind_eq_ok.mp h
  cases h
  apply Confined.perform
  intro op hop
  rw [List.mem_singleton.mp hop]
  trivial

theorem confined_endFlush {info : SSTableInfo} (h : tree.endFlush info = .ok tree') :
    Confined tree tree' := by
  have hadded : Confined tree { tree with
      registry := tree.registry.add info
      memoryLayer := tree.memoryLayer.popFrontImmutable } := Confined.quiet rfl rfl rfl rfl
  exact hadded.trans (confined_saveManifest h)

theorem confined_beginCompact {job : Option LSMTree.CompactTask}
    (h : tree.beginCompact = .ok (job, tree')) : Confined tree tree' := by
  rcases beginCompact_cases h with ⟨-, rfl⟩ | ⟨task, candidates, -, -, -, -, rfl⟩
  · exact Confined.quiet rfl rfl rfl rfl
  · exact Confined.quiet rfl rfl rfl rfl

/-- What `CompactionJob::run` says of the SSTable it wrote. -/
theorem info_of_run {disk : Disk} {schema : Schema} {config : StorageConfig}
    {candidates : List SSTableInfo} {task : CompactionTask} {newId : Nat} {info : SSTableInfo}
    {files : SSTableFiles}
    (h : CompactionJob.run disk schema config candidates task newId = .ok (info, files)) :
    info.path = sstPath config.rootPath newId ∧ info.level = task.dstLevel ∧ info.id = newId := by
  unfold CompactionJob.run at h
  split at h
  · cases h
  · obtain ⟨⟨cursors, w⟩, -, h⟩ := Result.bind_eq_ok.mp h
    dsimp only at h
    split at h
    · cases h
    · obtain ⟨merged, -, h⟩ := Result.bind_eq_ok.mp h
      obtain ⟨⟨result, written⟩, -, h⟩ := Result.bind_eq_ok.mp h
      cases h
      exact ⟨rfl, rfl, rfl⟩

theorem confined_writeCompact {job : LSMTree.CompactTask} {info : SSTableInfo}
    (h : tree.writeCompact job = .ok (info, tree')) : Confined tree tree' := by
  obtain ⟨⟨written, files⟩, hrun, h⟩ := Result.bind_eq_ok.mp h
  cases h
  apply Confined.perform
  intro op hop
  rw [List.mem_singleton.mp hop]
  exact ⟨job.newId, (info_of_run hrun).1⟩

theorem confined_dropSstables (olds : List SSTableInfo) (tree : LSMTree) :
    Confined tree (olds.foldl LSMTree.dropSstable tree) := by
  induction olds generalizing tree with
  | nil => exact Confined.quiet rfl rfl rfl rfl
  | cons old olds ih =>
    have hdrop : Confined tree (tree.dropSstable old) := by
      refine Confined.trans (b := { tree with registry := tree.registry.remove old.id })
        (Confined.quiet rfl rfl rfl rfl) (Confined.perform _ ?_)
      intro op hop
      exact (at_deleteSstFiles tree.disk tree.config.rootPath old.id op hop).own
    exact hdrop.trans (ih (tree.dropSstable old))

theorem confined_endCompact {job : LSMTree.CompactTask} {info : SSTableInfo}
    (h : tree.endCompact job info = .ok tree') : Confined tree tree' := by
  have hadded : Confined tree { tree with registry := tree.registry.add info } :=
    Confined.quiet rfl rfl rfl rfl
  exact (hadded.trans (confined_dropSstables job.candidates _)).trans (confined_saveManifest h)

end

/-- A job that a step of the tree put on its way or moved on. -/
inductive NewJob (tree : LSMTree) : Job → Prop
  | flush (task : LSMTree.FlushTask) : NewJob tree (.flush task)
  | flushed {task : LSMTree.FlushTask} {info : SSTableInfo}
    (hpath : info.path = sstPath tree.config.rootPath task.sstId) (hlevel : info.level = 0) :
    NewJob tree (.flushed task info)
  | compact (job : LSMTree.CompactTask) : NewJob tree (.compact job)
  | compacted {job : LSMTree.CompactTask} {info : SSTableInfo}
    (hpath : info.path = sstPath tree.config.rootPath job.newId)
    (hlevel : info.level = job.task.dstLevel) : NewJob tree (.compacted job info)

theorem Session.Step.jobs_cases {s s' : Session} (h : Session.Step s s') :
    ∀ job ∈ s'.jobs, job ∈ s.jobs ∨ NewJob s.tree job := by
  have hended : ∀ {before after : List Job} {job : Job}, s.jobs = before ++ job :: after →
      ∀ other ∈ before ++ after, other ∈ s.jobs := by
    intro before after job hjobs other hother
    rw [hjobs]
    rcases List.mem_append.mp hother with hin | hin
    · exact List.mem_append_left _ hin
    · exact List.mem_append_right _ (List.mem_cons_of_mem job hin)
  have hmoved : ∀ {before after : List Job} {job next : Job}, s.jobs = before ++ job :: after →
      NewJob s.tree next →
      ∀ other ∈ before ++ next :: after, other ∈ s.jobs ∨ NewJob s.tree other := by
    intro before after job next hjobs hnew other hother
    rcases List.mem_append.mp hother with hin | hin
    · exact Or.inl (hended hjobs other (List.mem_append_left _ hin))
    · rcases List.mem_cons.mp hin with rfl | hin
      · exact Or.inr hnew
      · exact Or.inl (hended hjobs other (List.mem_append_right _ hin))
  cases h with
  | insert h => exact fun job hjob => Or.inl hjob
  | scan h => exact fun job hjob => Or.inl hjob
  | next hcursors h => exact fun job hjob => Or.inl hjob
  | dropEmpty h => exact fun job hjob => Or.inl hjob
  | @beginFlush task tree h =>
    intro job hjob
    rcases List.mem_cons.mp hjob with rfl | hold
    · exact Or.inr (.flush task)
    · exact Or.inl hold
  | writeFlush hjobs h =>
    apply hmoved hjobs
    obtain ⟨⟨result, files⟩, -, h⟩ := Result.bind_eq_ok.mp h
    cases h
    exact .flushed rfl rfl
  | endFlush hjobs h => exact fun job hjob => Or.inl (hended hjobs job hjob)
  | @beginCompact job tree h =>
    intro other hother
    rcases List.mem_cons.mp hother with rfl | hold
    · exact Or.inr (.compact job)
    · exact Or.inl hold
  | writeCompact hjobs h =>
    apply hmoved hjobs
    obtain ⟨⟨written, files⟩, hrun, h⟩ := Result.bind_eq_ok.mp h
    cases h
    obtain ⟨hpath, hlevel, -⟩ := info_of_run hrun
    exact .compacted hpath hlevel
  | endCompact hjobs h => exact fun job hjob => Or.inl (hended hjobs job hjob)

/-- No step of a session touches files that are not the table's. -/
theorem Session.Step.confined {s s' : Session} (h : Session.Step s s') :
    Confined s.tree s'.tree := by
  cases h with
  | insert h =>
    obtain ⟨-, -, h⟩ := Result.bind_eq_ok.mp h
    cases h
    exact Confined.quiet rfl rfl rfl rfl
  | scan h => exact confined_of_sameData (of_scan h).1
  | next hcursors h => exact Confined.quiet rfl rfl rfl rfl
  | dropEmpty h =>
    have hconfined := confined_beginFlush s.tree
    rw [h] at hconfined
    exact hconfined
  | beginFlush h =>
    have hconfined := confined_beginFlush s.tree
    rw [h] at hconfined
    exact hconfined
  | writeFlush hjobs h => exact confined_writeFlush h
  | endFlush hjobs h => exact confined_endFlush h
  | beginCompact h => exact confined_beginCompact h
  | writeCompact hjobs h => exact confined_writeCompact h
  | endCompact hjobs h => exact confined_endCompact h

end Htap.Tree
