import Htap.Tree.LSMTree

/-!
What holds of an LSM tree between any two steps. `built` tells which table was
written under which id; the files, the registry and both caches agree with it.
Ids are never used twice, so what later steps build does not concern earlier
ones.
-/

namespace Htap.Tree

open Storage SSTable Read Cursor Words

/-- The data blocks of the SSTables with ids below `nextSstId`. -/
def contentsOf (built : Nat → Option Table) (nextSstId : Nat) (key : CacheKey) : Option Bytes :=
  if key.sstableId < nextSstId then (built key.sstableId).bind fun t => t.contents key else none

theorem contentsOf_eq {built : Nat → Option Table} {nextSstId id : Nat} {t : Table}
    (hid : id < nextSstId) (hbuilt : built id = some t) (key : CacheKey)
    (hkey : key.sstableId = id) : contentsOf built nextSstId key = t.contents key := by
  rw [contentsOf, if_pos (hkey ▸ hid), hkey, hbuilt]
  rfl

/-- More ids were used, and what was built before is as it was. -/
structure Extends (built : Nat → Option Table) (nextSstId : Nat) (built' : Nat → Option Table)
    (nextSstId' : Nat) : Prop where
  le : nextSstId ≤ nextSstId'
  same : ∀ id < nextSstId, built' id = built id

namespace Extends

variable {built built' built'' : Nat → Option Table} {n n' n'' : Nat}

theorem refl (built : Nat → Option Table) (n : Nat) : Extends built n built n :=
  ⟨le_rfl, fun _ _ => rfl⟩

theorem trans (h : Extends built n built' n') (h' : Extends built' n' built'' n'') :
    Extends built n built'' n'' :=
  ⟨h.le.trans h'.le, fun id hid => (h'.same id (hid.trans_le h.le)).trans (h.same id hid)⟩

theorem update (built : Nat → Option Table) (n : Nat) (t : Table) :
    Extends built n (Function.update built n (some t)) (n + 1) :=
  ⟨Nat.le_succ n, fun _ hid => Function.update_of_ne hid.ne _ _⟩

theorem contentsOf_eq (h : Extends built n built' n') {key : CacheKey} (hkey : key.sstableId < n) :
    contentsOf built' n' key = contentsOf built n key := by
  rw [contentsOf, contentsOf, if_pos hkey, if_pos (hkey.trans_le h.le), h.same _ hkey]

theorem contentsOf_mono (h : Extends built n built' n') {key : CacheKey} {bytes : Bytes}
    (hkey : contentsOf built n key = some bytes) : contentsOf built' n' key = some bytes := by
  have hlt : key.sstableId < n := by
    by_contra hge
    rw [contentsOf, if_neg hge] at hkey
    cases hkey
  rw [h.contentsOf_eq hlt, hkey]

theorem cacheCoherent (h : Extends built n built' n') {cache : Option SSTableBlockCache}
    (hcache : CacheCoherent (contentsOf built n) cache) :
    CacheCoherent (contentsOf built' n') cache :=
  fun c hc e he => h.contentsOf_mono (hcache c hc e he)

end Extends

/-! ## The invariant -/

structure Invariant (built : Nat → Option Table) (tree : LSMTree) : Prop where
  keyed : tree.schema.WellFormed
  narrow : tree.schema.size ≤ 65535
  options : (sparseIndexOptions tree.config).Accepted
  targets : (blockTargets tree.config).Positive
  valid : ∀ row ∈ tree.memoryLayer.rows, ValidRow tree.schema row
  storable : ∀ row ∈ tree.memoryLayer.rows, StorableRow row
  stored : ∀ info ∈ tree.registry.entries, ∃ t, built info.id = some t ∧
    Stored tree.schema (sparseIndexOptions tree.config) tree.disk info t
  paths : ∀ info ∈ tree.registry.entries, info.path = sstPath tree.config.rootPath info.id
  issued : ∀ info ∈ tree.registry.entries, info.id < tree.nextSstId
  next : tree.nextSstId < 2 ^ 64
  distinct : (tree.registry.entries.map SSTableInfo.id).Nodup
  filed : tree.registry.Filed
  metadata : ∀ info ∈ tree.registry.entries, ∀ e ∈ tree.metadataCaches, e.1 = info.id →
    ∃ t, built info.id = some t ∧
      Serves tree.schema (sparseIndexOptions tree.config) tree.disk
        (contentsOf built tree.nextSstId) t info e.2
  cached : ∀ e ∈ tree.metadataCaches, e.1 < tree.nextSstId
  blocks : CacheCoherent (contentsOf built tree.nextSstId) tree.blockCache

/-- The rows of a registered SSTable. -/
def builtRows (built : Nat → Option Table) (info : SSTableInfo) : List Row :=
  ((built info.id).map Table.rows).getD []

/-- All rows of the tree: those in memory, then those in its SSTables. -/
def rowsOf (built : Nat → Option Table) (tree : LSMTree) : List Row :=
  tree.memoryLayer.rows ++ tree.registry.entries.flatMap (builtRows built)

theorem Stored.disk_changed {schema : Schema} {options : SparseIndexOptions} {disk disk' : Disk}
    {info : SSTableInfo} {t : Table} (h : Stored schema options disk info t)
    (hdisk : disk'.sstables info.path = disk.sstables info.path) :
    Stored schema options disk' info t :=
  ⟨h.wellFormed, h.describes, hdisk.trans h.onDisk⟩

namespace Invariant

variable {built built' : Nat → Option Table} {tree : LSMTree}

/-- An SSTable the registry knows. -/
theorem exists_built (h : Invariant built tree) {info : SSTableInfo}
    (hinfo : info ∈ tree.registry.entries) :
    ∃ t, built info.id = some t ∧
      Stored tree.schema (sparseIndexOptions tree.config) tree.disk info t ∧
      builtRows built info = t.rows := by
  obtain ⟨t, hbuilt, hstored⟩ := h.stored info hinfo
  exact ⟨t, hbuilt, hstored, by rw [builtRows, hbuilt]; rfl⟩

/-- Every row of the tree is valid and can be stored. -/
theorem rows_valid (h : Invariant built tree) {row : Row} (hrow : row ∈ rowsOf built tree) :
    ValidRow tree.schema row ∧ StorableRow row := by
  rcases List.mem_append.mp hrow with hmem | hmem
  · exact ⟨h.valid row hmem, h.storable row hmem⟩
  · obtain ⟨info, hinfo, hmem⟩ := List.mem_flatMap.mp hmem
    obtain ⟨t, -, hstored, hrows⟩ := h.exists_built hinfo
    rw [hrows] at hmem
    exact ⟨hstored.wellFormed.valid row hmem, hstored.wellFormed.storable row hmem⟩

/-- What a step may do to all but the SSTables it is about: change the memory,
take ids, and touch other directories. -/
structure Step (built : Nat → Option Table) (tree : LSMTree) (built' : Nat → Option Table)
    (tree' : LSMTree) : Prop where
  schema : tree'.schema = tree.schema
  config : tree'.config = tree.config
  metadataCaches : tree'.metadataCaches = tree.metadataCaches
  blockCache : tree'.blockCache = tree.blockCache
  later : Extends built tree.nextSstId built' tree'.nextSstId
  next : tree'.nextSstId < 2 ^ 64
  valid : ∀ row ∈ tree'.memoryLayer.rows, ValidRow tree.schema row
  storable : ∀ row ∈ tree'.memoryLayer.rows, StorableRow row

/-- A step that keeps only known SSTables and their directories, apart from
those it registers anew, which nothing was read of yet. -/
theorem step (h : Invariant built tree) {tree' : LSMTree} (hstep : Step built tree built' tree')
    (hkept : ∀ info ∈ tree'.registry.entries,
      (info ∈ tree.registry.entries ∧
        tree'.disk.sstables info.path = tree.disk.sstables info.path) ∨
      ((∀ e ∈ tree.metadataCaches, e.1 ≠ info.id) ∧ info.id < tree'.nextSstId ∧
        info.path = sstPath tree.config.rootPath info.id ∧
        ∃ t, built' info.id = some t ∧
          Stored tree.schema (sparseIndexOptions tree.config) tree'.disk info t))
    (hdistinct : (tree'.registry.entries.map SSTableInfo.id).Nodup)
    (hfiled : tree'.registry.Filed) : Invariant built' tree' where
  keyed := hstep.schema ▸ h.keyed
  narrow := hstep.schema ▸ h.narrow
  options := hstep.config ▸ h.options
  targets := hstep.config ▸ h.targets
  valid := hstep.schema ▸ hstep.valid
  storable := hstep.storable
  stored := by
    rw [hstep.schema, hstep.config]
    intro info hinfo
    rcases hkept info hinfo with ⟨hold, hdisk⟩ | ⟨-, -, -, hnew⟩
    · obtain ⟨t, hbuilt, hstored⟩ := h.stored info hold
      exact ⟨t, (hstep.later.same _ (h.issued info hold)).trans hbuilt,
        hstored.disk_changed hdisk⟩
    · exact hnew
  paths := by
    rw [hstep.config]
    intro info hinfo
    rcases hkept info hinfo with ⟨hold, -⟩ | ⟨-, -, hpath, -⟩
    · exact h.paths info hold
    · exact hpath
  issued := by
    intro info hinfo
    rcases hkept info hinfo with ⟨hold, -⟩ | ⟨-, hlt, -⟩
    · exact (h.issued info hold).trans_le hstep.later.le
    · exact hlt
  next := hstep.next
  distinct := hdistinct
  filed := hfiled
  metadata := by
    rw [hstep.schema, hstep.config, hstep.metadataCaches]
    intro info hinfo e he heq
    rcases hkept info hinfo with ⟨hold, hdisk⟩ | ⟨hunread, -⟩
    · obtain ⟨t, hbuilt, hserves⟩ := h.metadata info hold e he heq
      have hlt := h.issued info hold
      refine ⟨t, (hstep.later.same _ hlt).trans hbuilt, hserves.changed hdisk ?_⟩
      intro key hkey
      exact hstep.later.contentsOf_eq (hkey ▸ hlt)
    · exact absurd heq (hunread e he)
  cached := by
    rw [hstep.metadataCaches]
    intro e he
    exact (h.cached e he).trans_le hstep.later.le
  blocks := by
    rw [hstep.blockCache]
    exact hstep.later.cacheCoherent h.blocks

/-! ## Steps that register and drop SSTables -/

theorem insertRow (h : Invariant built tree) {row : Row} (hvalid : ValidRow tree.schema row)
    (hstorable : StorableRow row) : Invariant built (tree.insertRow row) := by
  have hmem : ∀ r ∈ (tree.insertRow row).memoryLayer.rows, r = row ∨ r ∈ tree.memoryLayer.rows := by
    intro r hr
    have hr : r ∈ (tree.memoryLayer.insert row).rows := hr
    rw [(tree.memoryLayer.rows_insert_perm row).mem_iff, List.mem_append, List.mem_cons] at hr
    rw [MemoryLayer.rows, List.mem_append]
    rcases hr with (rfl | hactive) | himm
    · exact Or.inl rfl
    · exact Or.inr (Or.inl (List.mem_of_mem_filter hactive))
    · exact Or.inr (Or.inr himm)
  refine h.step ⟨rfl, rfl, rfl, rfl, Extends.refl built _, h.next, ?_, ?_⟩
    (fun _ hinfo => Or.inl ⟨hinfo, rfl⟩) h.distinct h.filed
  · intro r hr
    rcases hmem r hr with rfl | hold
    · exact hvalid
    · exact h.valid r hold
  · intro r hr
    rcases hmem r hr with rfl | hold
    · exact hstorable
    · exact h.storable r hold

theorem disk_perform (tree : LSMTree) (ops : List DiskOp) :
    (tree.perform ops).disk = replay tree.disk ops := replay_append tree.opened tree.diskOps ops

/-- Writing the manifest concerns no SSTable. -/
theorem writeManifest (h : Invariant built tree) (contents : Bytes) :
    Invariant built (tree.perform [.writeManifest contents]) := by
  refine h.step ⟨rfl, rfl, rfl, rfl, Extends.refl built _, h.next, h.valid, h.storable⟩
    (fun info hinfo => Or.inl ⟨hinfo, ?_⟩) h.distinct h.filed
  rw [disk_perform]
  rfl

/-- Unregistering an SSTable leaves the other ones alone, whatever becomes of its
directory. -/
theorem unregister (h : Invariant built tree) {old : SSTableInfo} (hold : old.id < tree.nextSstId)
    {ops : List DiskOp} (hops : ∀ op ∈ ops, op.At (sstPath tree.config.rootPath old.id)) :
    Invariant built ({ tree with registry := tree.registry.remove old.id }.perform ops) := by
  have hentries : (tree.registry.remove old.id).entries =
      tree.registry.entries.filter fun info => info.id ≠ old.id :=
    tree.registry.entries_remove old.id
  refine h.step ⟨rfl, rfl, rfl, rfl, Extends.refl built _, h.next, h.valid, h.storable⟩ ?_ ?_
    (h.filed.remove old.id)
  · intro info hinfo
    change info ∈ (tree.registry.remove old.id).entries at hinfo
    rw [hentries, List.mem_filter, decide_eq_true_eq] at hinfo
    refine Or.inl ⟨hinfo.1, ?_⟩
    have hpath : info.path ≠ sstPath tree.config.rootPath old.id := by
      rw [h.paths info hinfo.1]
      intro heq
      exact hinfo.2 (sstPath_injective ((h.issued info hinfo.1).trans h.next)
        (hold.trans h.next) heq)
    rw [disk_perform]
    exact sstables_replay hops hpath _
  · change ((tree.registry.remove old.id).entries.map SSTableInfo.id).Nodup
    rw [hentries]
    exact h.distinct.sublist (List.filter_sublist.map _)

theorem dropSstable (h : Invariant built tree) {old : SSTableInfo}
    (hold : old.id < tree.nextSstId) :
    Invariant built (tree.dropSstable old) := h.unregister hold (at_deleteSstFiles _ _ _)

/-- Dropping several SSTables. -/
theorem dropSstables (h : Invariant built tree) {olds : List SSTableInfo}
    (hold : ∀ old ∈ olds, old.id < tree.nextSstId) :
    Invariant built (olds.foldl LSMTree.dropSstable tree) := by
  induction olds generalizing tree with
  | nil => exact h
  | cons old olds ih =>
    exact ih (h.dropSstable (hold old List.mem_cons_self))
      fun other hother => hold other (List.mem_cons_of_mem old hother)

/-- The next id is taken, for the SSTable `t`. -/
theorem takeId (h : Invariant built tree) (hnext : tree.nextSstId + 1 < 2 ^ 64) (t : Table) :
    Invariant (Function.update built tree.nextSstId (some t))
      { tree with nextSstId := tree.nextSstId + 1 } :=
  h.step ⟨rfl, rfl, rfl, rfl, Extends.update built _ t, hnext, h.valid, h.storable⟩
    (fun _ hinfo => Or.inl ⟨hinfo, rfl⟩) h.distinct h.filed

/-- An id that was taken and is not registered. -/
structure Unregistered (tree : LSMTree) (id : Nat) : Prop where
  issued : id < tree.nextSstId
  fresh : ∀ info ∈ tree.registry.entries, info.id ≠ id
  unread : ∀ e ∈ tree.metadataCaches, e.1 ≠ id

/-- What is done to the directory of such an id concerns no SSTable. -/
theorem touch (h : Invariant built tree) {id : Nat} (hid : Unregistered tree id)
    {ops : List DiskOp} (hops : ∀ op ∈ ops, op.At (sstPath tree.config.rootPath id)) :
    Invariant built (tree.perform ops) := by
  refine h.step ⟨rfl, rfl, rfl, rfl, Extends.refl built _, h.next, h.valid, h.storable⟩
    (fun info hinfo => Or.inl ⟨hinfo, ?_⟩) h.distinct h.filed
  have hpath : info.path ≠ sstPath tree.config.rootPath id := by
    rw [h.paths info hinfo]
    intro heq
    exact hid.fresh info hinfo (sstPath_injective ((h.issued info hinfo).trans h.next)
      (hid.issued.trans h.next) heq)
  rw [disk_perform]
  exact sstables_replay hops hpath _

theorem writeSSTable (h : Invariant built tree) {id : Nat} (hid : Unregistered tree id)
    (files : SSTableFiles) :
    Invariant built (tree.perform [.writeSSTable (sstPath tree.config.rootPath id) files]) := by
  apply h.touch hid
  intro op hop
  rw [List.mem_singleton.mp hop]
  rfl

/-- A written SSTable is registered. -/
theorem addSSTable (h : Invariant built tree) {info : SSTableInfo} {t : Table}
    (hid : Unregistered tree info.id) (hlevel : info.level + 1 < 2 ^ 32)
    (hpath : info.path = sstPath tree.config.rootPath info.id) (hbuilt : built info.id = some t)
    (hstored : Stored tree.schema (sparseIndexOptions tree.config) tree.disk info t) :
    Invariant built { tree with registry := tree.registry.add info } := by
  have hperm := tree.registry.entries_add hlevel
  refine h.step ⟨rfl, rfl, rfl, rfl, Extends.refl built _, h.next, h.valid, h.storable⟩ ?_ ?_
    (h.filed.add info)
  · intro other hother
    rcases List.mem_cons.mp (hperm.mem_iff.mp hother) with rfl | hold
    · exact Or.inr ⟨hid.unread, hid.issued, hpath, t, hbuilt, hstored⟩
    · exact Or.inl ⟨hold, rfl⟩
  · refine (hperm.map SSTableInfo.id).nodup_iff.mpr ?_
    rw [List.map_cons, List.nodup_cons]
    refine ⟨?_, h.distinct⟩
    intro hmem
    obtain ⟨other, hother, heq⟩ := List.mem_map.mp hmem
    exact hid.fresh other hother heq

/-- Rows leave the memory. -/
theorem setMemory (h : Invariant built tree) {memoryLayer : MemoryLayer}
    (hsub : ∀ row ∈ memoryLayer.rows, row ∈ tree.memoryLayer.rows) :
    Invariant built { tree with memoryLayer := memoryLayer } :=
  h.step ⟨rfl, rfl, rfl, rfl, Extends.refl built _, h.next,
      fun row hrow => h.valid row (hsub row hrow), fun row hrow => h.storable row (hsub row hrow)⟩
    (fun _ hinfo => Or.inl ⟨hinfo, rfl⟩) h.distinct h.filed

end Invariant

end Htap.Tree
