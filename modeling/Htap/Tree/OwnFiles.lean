import Htap.Tree.Frames

/-!
A table reads SSTables under its own root path only, so a scan does not notice what
happens to files anywhere else.
-/

namespace Htap.Tree

open Storage SSTable Read Cursor Words

/-- The tree as if opened on `disk`. -/
def LSMTree.on (tree : LSMTree) (disk : Disk) : LSMTree :=
  { tree with opened := disk, diskOps := [] }

/-! ## Scans on disks that agree -/

/-- Where the tree reads, the disk is like its own. -/
structure ReadsAlike (tree : LSMTree) (disk : Disk) : Prop where
  registered : ∀ info ∈ tree.registry.entries,
    SSTableMetadataCache.SameFiles tree.disk disk info.path
  cached : ∀ e ∈ tree.metadataCaches,
    SSTableMetadataCache.SameFiles tree.disk disk e.2.info.path

section

variable {tree tree' : LSMTree} {disk : Disk} {range : KeyRange} {projection : List Nat}
  {filter : DataSkippingFilter}

theorem ReadsAlike.of_caches (h : ReadsAlike tree disk) {infos : List SSTableInfo}
    (hinfos : ∀ info ∈ infos, info ∈ tree.registry.entries) (hsame : SameData tree tree')
    (hcaches : CachesFrom infos tree tree') : ReadsAlike tree' disk := by
  have hregistry : tree'.registry = tree.registry := by rw [hsame]
  have hdisk : tree'.disk = tree.disk := by
    rw [hsame]
    rfl
  constructor
  · rw [hregistry, hdisk]
    exact h.registered
  · rw [hdisk]
    intro e he
    rcases hcaches e he with ⟨old, hold, -, hof⟩ | ⟨info, hinfo, -, hof⟩
    · rw [← hof]
      exact h.cached old hold
    · rw [← hof]
      exact h.registered info (hinfos info hinfo)

/-- What a scan returns, with the tree put on another disk. -/
def onDisk {α : Type} (disk : Disk) (r : α × LSMTree) : α × LSMTree := (r.1, r.2.on disk)

private theorem map_bind {α β γ : Type} (x : Result α) (f : α → Result β) (g : β → γ) :
    (x >>= f).map g = x >>= fun a => (f a).map g := by
  cases x <;> rfl

theorem openSSTable_on (h : ReadsAlike tree disk) {info : SSTableInfo}
    (hinfo : info ∈ tree.registry.entries) :
    (tree.on disk).openSSTable range projection filter info =
      (tree.openSSTable range projection filter info).map (onDisk disk) := by
  have hsame := h.registered info hinfo
  have hget : (tree.on disk).getOrCreateMetadataCache info =
      tree.getOrCreateMetadataCache info := by
    unfold LSMTree.getOrCreateMetadataCache
    split
    · rename_i e hfind
      rw [show (tree.metadataCaches.find? fun e => e.1 = info.id) = some e from hfind]
    · rename_i hfind
      rw [show (tree.metadataCaches.find? fun e => e.1 = info.id) = none from hfind]
      exact SSTableMetadataCache.create_congr hsame _
  rw [LSMTree.openSSTable, LSMTree.openSSTable, hget, map_bind]
  cases hfound : tree.getOrCreateMetadataCache info with
  | error e => rfl
  | ok metadataCache =>
    have hcache : SSTableMetadataCache.SameFiles tree.disk disk metadataCache.info.path := by
      have hput := (CachesFrom.refl tree.registry.entries tree).setMetadataCache hinfo hfound rfl
      have hkept : SameData tree (tree.setMetadataCache info.id metadataCache) := rfl
      exact (h.of_caches (fun _ hmem => hmem) hkept hput).cached _ List.mem_cons_self
    simp only [Result.ok_bind, map_bind]
    rw [show (tree.on disk).disk = disk from rfl, makeSSTableCursor_congr hsame hcache]
    rfl

theorem scanSSTable_on (h : ReadsAlike tree disk) {info : SSTableInfo}
    (hinfo : info ∈ tree.registry.entries) (cursors : List ScanCursor) :
    LSMTree.scanSSTable range projection filter (cursors, tree.on disk) info =
      (LSMTree.scanSSTable range projection filter (cursors, tree) info).map (onDisk disk) := by
  rw [LSMTree.scanSSTable, LSMTree.scanSSTable, openSSTable_on h hinfo]
  cases tree.openSSTable range projection filter info with
  | error e => rfl
  | ok opened =>
    obtain ⟨cursor, next⟩ := opened
    cases cursor with
    | none => rfl
    | some cursor => rfl

theorem openings_on {infos : List SSTableInfo} (h : ReadsAlike tree disk)
    (hinfos : ∀ info ∈ infos, info ∈ tree.registry.entries) (cursors : List ScanCursor) :
    infos.foldlM (LSMTree.scanSSTable range projection filter) (cursors, tree.on disk) =
      (infos.foldlM (LSMTree.scanSSTable range projection filter) (cursors, tree)).map
        (onDisk disk) := by
  induction infos generalizing tree cursors with
  | nil => rfl
  | cons info infos ih =>
    have hinfo := hinfos info List.mem_cons_self
    rw [List.foldlM_cons, List.foldlM_cons, scanSSTable_on h hinfo, map_bind]
    cases hstep : LSMTree.scanSSTable range projection filter (cursors, tree) info with
    | error e => rfl
    | ok opened =>
      obtain ⟨hsame, hcaches⟩ := of_scanSSTable hinfo (SameData.refl tree)
        (CachesFrom.refl tree.registry.entries tree) hstep
      have hregistry : opened.2.registry = tree.registry := by rw [hsame]
      exact ih (h.of_caches (fun _ hmem => hmem) hsame hcaches) (by
        rw [hregistry]
        exact fun other hother => hinfos other (List.mem_cons_of_mem info hother)) opened.1

private theorem treeScan_on (h : ReadsAlike tree disk) (order : ScanOrder) :
    (tree.on disk).scan range projection order filter =
      (tree.scan range projection order filter).map (onDisk disk) := by
  have hopen : (tree.scannedSSTables range).foldlM
        (LSMTree.scanSSTable range projection filter)
        (tree.scanActive range ++
          tree.memoryLayer.immutables.flatMap (LSMTree.scanImmutable range), tree.on disk) =
      ((tree.scannedSSTables range).foldlM (LSMTree.scanSSTable range projection filter)
        (tree.scanActive range ++
          tree.memoryLayer.immutables.flatMap (LSMTree.scanImmutable range), tree)).map
        (onDisk disk) :=
    openings_on h (fun info hinfo => mem_entries_of_scanned hinfo) _
  rw [LSMTree.scan, LSMTree.scan]
  dsimp only
  rw [map_bind]
  refine (congrArg (· >>= _) hopen).trans ?_
  cases (tree.scannedSSTables range).foldlM (LSMTree.scanSSTable range projection filter)
      (tree.scanActive range ++ tree.memoryLayer.immutables.flatMap (LSMTree.scanImmutable range),
        tree) with
  | error e => rfl
  | ok opened =>
    change (composeCursors opened.1 order opened.2.world >>= _) =
      (composeCursors opened.1 order opened.2.world >>= _).map (onDisk disk)
    rw [map_bind]
    rfl

/-- A scan does the same on every disk that agrees where the tree reads. -/
theorem scan_on (h : ReadsAlike tree disk) (fromKey toKey : Option Key) (order : ScanOrder) :
    LSMStorageEngine.scan (tree.on disk) fromKey toKey projection order filter =
      (LSMStorageEngine.scan tree fromKey toKey projection order filter).map (onDisk disk) := by
  rw [LSMStorageEngine.scan, LSMStorageEngine.scan, map_bind, treeScan_on h order]
  rfl

end

/-! ## The paths a session knows -/

/-- The path is that of an SSTable of the table at `rootPath`. -/
def OwnPath (rootPath : Bytes) (info : SSTableInfo) : Prop := ∃ id, info.path = sstPath rootPath id

structure OwnPaths (s : Session) : Prop where
  registered : ∀ info ∈ s.tree.registry.entries, OwnPath s.tree.config.rootPath info
  cached : ∀ e ∈ s.tree.metadataCaches, OwnPath s.tree.config.rootPath e.2.info
  flushed : ∀ task info, Job.flushed task info ∈ s.jobs → OwnPath s.tree.config.rootPath info
  compacted : ∀ job info, Job.compacted job info ∈ s.jobs → OwnPath s.tree.config.rootPath info

section

variable {s s' : Session}

/-- What a step may make of the registry and the caches. -/
private theorem registry_of_step (h : OwnPaths s) (hstep : Session.Step s s') :
    (∀ info ∈ s'.tree.registry.entries, OwnPath s.tree.config.rootPath info) ∧
      ∀ e ∈ s'.tree.metadataCaches, OwnPath s.tree.config.rootPath e.2.info := by
  have hadd : ∀ {info : SSTableInfo}, OwnPath s.tree.config.rootPath info →
      ∀ other ∈ (s.tree.registry.add info).entries, OwnPath s.tree.config.rootPath other := by
    intro info hinfo other hother
    rcases SSTableRegistry.mem_entries_add hother with rfl | hold
    · exact hinfo
    · exact h.registered other hold
  cases hstep with
  | insert hinsert =>
    obtain ⟨-, -, hinsert⟩ := Result.bind_eq_ok.mp hinsert
    cases hinsert
    exact ⟨h.registered, h.cached⟩
  | @scan fromKey toKey projection order filter cursor tree hscan =>
    obtain ⟨hsame, hcaches⟩ := of_scan hscan
    have hregistry : tree.registry = s.tree.registry := by rw [hsame]
    constructor
    · dsimp only
      rw [hregistry]
      exact h.registered
    · intro e he
      rcases hcaches e he with ⟨old, hold, -, hof⟩ | ⟨info, hinfo, -, hof⟩
      · rw [← hof]
        exact h.cached old hold
      · rw [← hof]
        exact h.registered info (mem_entries_of_scanned hinfo)
  | next hcursors hnext => exact ⟨h.registered, h.cached⟩
  | dropEmpty hbegin =>
    rcases beginFlush_cases s.tree with ⟨-, heq⟩ | ⟨imm, rest, -, -, heq⟩ | ⟨imm, rest, -, -, heq⟩
    all_goals
      rw [heq] at hbegin
      cases hbegin
    exact ⟨h.registered, h.cached⟩
  | beginFlush hbegin =>
    rcases beginFlush_cases s.tree with ⟨-, heq⟩ | ⟨imm, rest, -, -, heq⟩ | ⟨imm, rest, -, -, heq⟩
    all_goals
      rw [heq] at hbegin
      cases hbegin
    exact ⟨h.registered, h.cached⟩
  | writeFlush hjobs hwrite =>
    obtain ⟨ops, rfl⟩ := exists_perform_of_writeFlush hwrite
    exact ⟨h.registered, h.cached⟩
  | @endFlush before after task info tree hjobs hend =>
    have hinfo := h.flushed task info (by rw [hjobs]; simp)
    obtain ⟨contents, -, hend⟩ := Result.bind_eq_ok.mp hend
    cases hend
    exact ⟨hadd hinfo, h.cached⟩
  | beginCompact hbegin =>
    rcases beginCompact_cases hbegin with ⟨-, rfl⟩ | ⟨task, candidates, -, -, -, -, rfl⟩
    · exact ⟨h.registered, h.cached⟩
    · exact ⟨h.registered, h.cached⟩
  | writeCompact hjobs hwrite =>
    obtain ⟨ops, rfl⟩ := exists_perform_of_writeCompact hwrite
    exact ⟨h.registered, h.cached⟩
  | @endCompact before after job info tree hjobs hend =>
    have hinfo := h.compacted job info (by rw [hjobs]; simp)
    obtain ⟨contents, -, hend⟩ := Result.bind_eq_ok.mp hend
    cases hend
    constructor
    · intro other hother
      change other ∈ (job.candidates.foldl LSMTree.dropSstable
        { s.tree with registry := s.tree.registry.add info }).registry.entries at hother
      rw [registry_dropSstables, SSTableRegistry.entries_removeAll] at hother
      exact hadd hinfo other (List.mem_of_mem_filter hother)
    · change ∀ e ∈ (job.candidates.foldl LSMTree.dropSstable
        { s.tree with registry := s.tree.registry.add info }).metadataCaches, _
      rw [metadataCaches_dropSstables]
      exact h.cached

/-- Whatever a table does, it stays with SSTables of its own. -/
theorem OwnPaths.step (h : OwnPaths s) (hstep : Session.Step s s') : OwnPaths s' := by
  obtain ⟨hregistered, hcached⟩ := registry_of_step h hstep
  have hconfig : s'.tree.config = s.tree.config := hstep.confined.config
  constructor
  · rw [hconfig]
    exact hregistered
  · rw [hconfig]
    exact hcached
  · rw [hconfig]
    intro task info hmem
    rcases hstep.jobs_cases _ hmem with hold | hnew
    · exact h.flushed task info hold
    · cases hnew with
      | flushed hpath hlevel => exact ⟨task.sstId, hpath⟩
  · rw [hconfig]
    intro job info hmem
    rcases hstep.jobs_cases _ hmem with hold | hnew
    · exact h.compacted job info hold
    · cases hnew with
      | compacted hpath hlevel => exact ⟨job.newId, hpath⟩

end

end Htap.Tree
