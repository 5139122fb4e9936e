import Htap.Tree.Background

/-!
Compactions of a tree that keeps the invariant. The merged SSTable holds the rows of its
candidates, and takes their place in the registry and on the disk.
-/

namespace Htap.Tree

open Storage SSTable Read Cursor Words

/-- The tables of some registry entries. -/
def builtTables (built : Nat → Option Table) (infos : List SSTableInfo) : List Table :=
  infos.filterMap fun info => built info.id

section

variable {built : Nat → Option Table} {tree tree' : LSMTree}

/-! ## The candidates -/

private theorem flatMap_filter_split (infos : List SSTableInfo) (p : SSTableInfo → Bool)
    (f : SSTableInfo → List Row) :
    ((infos.filter p).flatMap f ++ (infos.filter fun info => !p info).flatMap f).Perm
      (infos.flatMap f) := by
  rw [← List.flatMap_append]
  exact (List.filter_append_perm p infos).flatMap_right f

/-- Registered SSTables, each once. -/
structure Chosen (tree : LSMTree) (olds : List SSTableInfo) : Prop where
  known : ∀ old ∈ olds, old ∈ tree.registry.entries
  distinct : (olds.map SSTableInfo.id).Nodup

theorem Invariant.entries_of_id (h : Invariant built tree) {a b : SSTableInfo}
    (ha : a ∈ tree.registry.entries) (hb : b ∈ tree.registry.entries) (hid : a.id = b.id) :
    a = b :=
  List.inj_on_of_nodup_map h.distinct ha hb hid

/-- The chosen SSTables are those with their ids. -/
theorem Invariant.perm_chosen (h : Invariant built tree) {olds : List SSTableInfo}
    (hchosen : Chosen tree olds) :
    (tree.registry.entries.filter fun info =>
      decide (info.id ∈ olds.map SSTableInfo.id)).Perm olds := by
  rw [List.perm_ext_iff_of_nodup ((List.Nodup.of_map _ h.distinct).filter _)
    (List.Nodup.of_map _ hchosen.distinct)]
  intro info
  rw [List.mem_filter, decide_eq_true_eq]
  constructor
  · rintro ⟨hinfo, hid⟩
    obtain ⟨old, hold, heq⟩ := List.mem_map.mp hid
    rwa [h.entries_of_id hinfo (hchosen.known old hold) heq.symm]
  · intro hold
    exact ⟨hchosen.known info hold, List.mem_map_of_mem hold⟩

/-- The rows of the registry are those of the chosen SSTables and of the others. -/
theorem Invariant.rows_chosen (h : Invariant built tree) {olds : List SSTableInfo}
    (hchosen : Chosen tree olds) :
    (olds.flatMap (builtRows built) ++
      (tree.registry.entries.filter fun info =>
        decide (info.id ∉ olds.map SSTableInfo.id)).flatMap (builtRows built)).Perm
      (tree.registry.entries.flatMap (builtRows built)) := by
  refine List.Perm.trans ?_ (flatMap_filter_split tree.registry.entries
    (fun info => decide (info.id ∈ olds.map SSTableInfo.id)) (builtRows built))
  have hothers : (tree.registry.entries.filter fun info =>
      decide (info.id ∉ olds.map SSTableInfo.id)) =
      tree.registry.entries.filter fun info =>
        !decide (info.id ∈ olds.map SSTableInfo.id) := by
    apply List.filter_congr
    intro info _
    exact decide_not
  rw [hothers]
  exact ((h.perm_chosen hchosen).symm.flatMap_right _).append_right _

private theorem stored_builtTables (h : Invariant built tree) {olds : List SSTableInfo}
    (hknown : ∀ old ∈ olds, old ∈ tree.registry.entries) :
    List.Forall₂ (Stored tree.schema (sparseIndexOptions tree.config) tree.disk) olds
        (builtTables built olds) ∧
      List.Forall₂ (fun old t => built old.id = some t) olds (builtTables built olds) := by
  induction olds with
  | nil => exact ⟨List.Forall₂.nil, List.Forall₂.nil⟩
  | cons old olds ih =>
    obtain ⟨t, hbuilt, hstored⟩ := h.stored old (hknown old List.mem_cons_self)
    obtain ⟨hall, hids⟩ := ih fun other hother => hknown other (List.mem_cons_of_mem old hother)
    have hcons : builtTables built (old :: olds) = t :: builtTables built olds :=
      List.filterMap_cons_some hbuilt
    rw [hcons]
    exact ⟨List.Forall₂.cons hstored hall, List.Forall₂.cons hbuilt hids⟩

private theorem flatten_builtTables (h : Invariant built tree) {olds : List SSTableInfo}
    (hknown : ∀ old ∈ olds, old ∈ tree.registry.entries) :
    ((builtTables built olds).map Table.rows).flatten = olds.flatMap (builtRows built) := by
  induction olds with
  | nil => rfl
  | cons old olds ih =>
    obtain ⟨t, hbuilt, -, hrows⟩ := h.exists_built (hknown old List.mem_cons_self)
    have hcons : builtTables built (old :: olds) = t :: builtTables built olds :=
      List.filterMap_cons_some hbuilt
    rw [hcons, List.map_cons, List.flatten_cons,
      List.flatMap_cons, hrows]
    exact congrArg _ (ih fun other hother => hknown other (List.mem_cons_of_mem old hother))

/-- The merged rows are the rows of the candidates. -/
theorem Invariant.mergedRows_perm (h : Invariant built tree) {olds : List SSTableInfo}
    (hknown : ∀ old ∈ olds, old ∈ tree.registry.entries) :
    (CompactionJob.mergedRows (builtTables built olds)).Perm
      (olds.flatMap (builtRows built)) := by
  rw [← flatten_builtTables h hknown]
  exact Merging.stableSort_perm rowKey _

/-! ## A compaction on its way -/

/-- What a compaction is to merge, and the SSTable it is to write. -/
structure CompactGood (built : Nat → Option Table) (tree : LSMTree)
    (job : LSMTree.CompactTask) : Prop where
  id : Invariant.Unregistered tree job.newId
  nonempty : job.candidates ≠ []
  chosen : Chosen tree job.candidates
  level : job.task.dstLevel + 1 < 2 ^ 32
  table : built job.newId =
    some (mergeTable tree job.task.outputLayout (builtTables built job.candidates))

/-- The two things `compact_one_locked` starts with, if it does not throw. -/
theorem beginCompact_cases {started : Option LSMTree.CompactTask}
    (h : tree.beginCompact = .ok (started, tree')) :
    (started = none ∧ tree' = tree) ∨
    ∃ task candidates, CompactionPolicy.pick tree.config tree.registry = some task ∧
      tree.registry.sstablesAtLevel task.srcLevel = .ok candidates ∧ candidates ≠ [] ∧
      started = some ⟨task, candidates, tree.nextSstId⟩ ∧
      tree' = { tree with nextSstId := u64 (tree.nextSstId + 1) } := by
  unfold LSMTree.beginCompact at h
  split at h
  · cases h
    exact Or.inl ⟨rfl, rfl⟩
  · rename_i task hpick
    obtain ⟨candidates, hlevel, h⟩ := Result.bind_eq_ok.mp h
    split at h
    · cases h
      exact Or.inl ⟨rfl, rfl⟩
    · rename_i hne
      cases h
      refine Or.inr ⟨task, candidates, hpick, hlevel, ?_, rfl, rfl⟩
      intro hnil
      exact hne (List.isEmpty_iff.mpr hnil)

theorem mem_levels_of_sstablesAtLevel {registry : SSTableRegistry} {level : Nat}
    {olds : List SSTableInfo} (h : registry.sstablesAtLevel level = .ok olds) :
    olds ∈ registry.levels := by
  unfold SSTableRegistry.sstablesAtLevel at h
  split at h
  · rename_i sstables hfound
    cases h
    exact List.mem_of_getElem? hfound
  · cases h

/-- The SSTables of one level are chosen. -/
theorem Invariant.chosen_level (h : Invariant built tree) {level : Nat}
    {olds : List SSTableInfo} (hlevel : tree.registry.sstablesAtLevel level = .ok olds) :
    Chosen tree olds := by
  have hmem := mem_levels_of_sstablesAtLevel hlevel
  constructor
  · intro old hold
    exact List.mem_flatten_of_mem hmem hold
  · exact h.distinct.sublist ((List.sublist_flatten_of_mem hmem).map _)

private theorem length_mergedRows_le (h : Invariant built tree) {olds : List SSTableInfo}
    (hchosen : Chosen tree olds) :
    (CompactionJob.mergedRows (builtTables built olds)).length ≤ (rowsOf built tree).length := by
  have hsplit := (h.rows_chosen hchosen).length_eq
  rw [(h.mergedRows_perm hchosen.known).length_eq, rowsOf, List.length_append, ← hsplit,
    List.length_append]
  omega

section Write

variable {job : LSMTree.CompactTask}

/-- The SSTable a compaction writes. -/
abbrev compactedTable (built : Nat → Option Table) (tree : LSMTree)
    (job : LSMTree.CompactTask) : Table :=
  mergeTable tree job.task.outputLayout (builtTables built job.candidates)

/-- Its registry entry. -/
abbrev compactedInfo (built : Nat → Option Table) (tree : LSMTree)
    (job : LSMTree.CompactTask) : SSTableInfo :=
  tableInfo tree job.newId job.task.dstLevel (compactedTable built tree job)

theorem Invariant.run_compactedTable (h : Invariant built tree)
    (hfew : (rowsOf built tree).length + 7 < 2 ^ 32) (hjob : CompactGood built tree job) :
    Buildable job.task.outputLayout tree.schema (blockTargets tree.config)
        (CompactionJob.mergedRows (builtTables built job.candidates)) ∧
      CompactionJob.run tree.disk tree.schema tree.config job.candidates job.task job.newId = (do
        let (result, files) ← buildSSTable job.task.outputLayout tree.schema
          (sparseIndexOptions tree.config) (blockTargets tree.config)
          (CompactionJob.mergedRows (builtTables built job.candidates))
        return (builtInfo tree.config job.newId job.task.dstLevel job.task.outputLayout
          result files, files)) := by
  obtain ⟨hstored, hbuilt⟩ := stored_builtTables h hjob.chosen.known
  have hle := length_mergedRows_le h hjob.chosen
  have hmerged : (CompactionJob.mergedRows (builtTables built job.candidates)).length + 7 <
      2 ^ 32 := by omega
  have hcontents : List.Forall₂ (fun info t => ∀ key : CacheKey, key.sstableId = info.id →
      contentsOf built tree.nextSstId key = t.contents key) job.candidates
      (builtTables built job.candidates) := by
    rw [List.forall₂_iff_get] at hbuilt ⊢
    refine ⟨hbuilt.1, fun i hi hj key hkey => ?_⟩
    exact contentsOf_eq (h.issued _ (hjob.chosen.known _ (List.get_mem _ _))) (hbuilt.2 i hi hj) key
      hkey
  exact ⟨CompactionJob.buildable_mergedRows hstored hjob.nonempty h.keyed h.narrow hmerged
      job.task.outputLayout,
    CompactionJob.run_eq hstored hcontents hjob.nonempty h.keyed h.narrow hmerged job.task
      job.newId⟩

/-- What a compaction writes, unless the write fails. -/
theorem Invariant.writeCompact_returns (h : Invariant built tree)
    (hfew : (rowsOf built tree).length + 7 < 2 ^ 32) (hjob : CompactGood built tree job) :
    Result.Returns (tree.writeCompact job) (compactedInfo built tree job,
      writtenTable tree job.newId (compactedTable built tree job)) := by
  obtain ⟨hbuildable, hrun⟩ := h.run_compactedTable hfew hjob
  have hbuilt : Result.Returns (CompactionJob.run tree.disk tree.schema tree.config job.candidates
      job.task job.newId) (compactedInfo built tree job,
        (compactedTable built tree job).files tree.schema (sparseIndexOptions tree.config)) := by
    rw [hrun]
    exact (buildSSTable_returns hbuildable h.options h.targets).bind (Result.ReturnsIf.of_ok _)
  exact hbuilt.bind (Result.ReturnsIf.of_ok _)

theorem Invariant.of_writeCompact (h : Invariant built tree)
    (hfew : (rowsOf built tree).length + 7 < 2 ^ 32) (hjob : CompactGood built tree job)
    {info : SSTableInfo} (hwrite : tree.writeCompact job = .ok (info, tree')) :
    info = compactedInfo built tree job ∧
      tree' = writtenTable tree job.newId (compactedTable built tree job) ∧
      (compactedTable built tree job).WellFormed tree.schema (sparseIndexOptions tree.config) := by
  obtain ⟨hbuildable, hrun⟩ := h.run_compactedTable hfew hjob
  rw [LSMTree.writeCompact, hrun] at hwrite
  obtain ⟨⟨written, files⟩, hbuild, hwrite⟩ := Result.bind_eq_ok.mp hwrite
  obtain ⟨⟨result, files'⟩, hresult, hinfo⟩ := Result.bind_eq_ok.mp hbuild
  cases hinfo
  cases hwrite
  obtain ⟨rfl, rfl, hwf⟩ := of_buildSSTable hbuildable h.options h.targets hresult
  exact ⟨rfl, rfl, hwf⟩

end Write

/-! ## Registering what was written -/

@[simp] theorem registry_dropSstables (olds : List SSTableInfo) (tree : LSMTree) :
    (olds.foldl LSMTree.dropSstable tree).registry = tree.registry.removeAll olds := by
  induction olds generalizing tree with
  | nil => rfl
  | cons old olds ih => exact ih (tree.dropSstable old)

@[simp] theorem memoryLayer_dropSstables (olds : List SSTableInfo) (tree : LSMTree) :
    (olds.foldl LSMTree.dropSstable tree).memoryLayer = tree.memoryLayer := by
  induction olds generalizing tree with
  | nil => rfl
  | cons old olds ih => exact ih (tree.dropSstable old)

@[simp] theorem metadataCaches_dropSstables (olds : List SSTableInfo) (tree : LSMTree) :
    (olds.foldl LSMTree.dropSstable tree).metadataCaches = tree.metadataCaches := by
  induction olds generalizing tree with
  | nil => rfl
  | cons old olds ih => exact ih (tree.dropSstable old)

/-- The rows after some SSTables were dropped. -/
theorem rowsOf_dropSstables (built : Nat → Option Table) (olds : List SSTableInfo)
    (tree : LSMTree) :
    rowsOf built (olds.foldl LSMTree.dropSstable tree) = tree.memoryLayer.rows ++
      (tree.registry.entries.filter fun info =>
        decide (info.id ∉ olds.map SSTableInfo.id)).flatMap (builtRows built) := by
  rw [rowsOf, registry_dropSstables, memoryLayer_dropSstables,
    SSTableRegistry.entries_removeAll]

/-- The tree with an SSTable in place of those it was merged from. -/
def compactedTree (tree : LSMTree) (job : LSMTree.CompactTask) (info : SSTableInfo) : LSMTree :=
  job.candidates.foldl LSMTree.dropSstable { tree with registry := tree.registry.add info }

section Register

variable {job : LSMTree.CompactTask}

/-- Only the new SSTable is added at first. -/
theorem Invariant.addCompacted (h : Invariant built tree) (hjob : CompactGood built tree job)
    (hstored : Stored tree.schema (sparseIndexOptions tree.config) tree.disk
      (compactedInfo built tree job) (compactedTable built tree job)) :
    Invariant built
      { tree with registry := tree.registry.add (compactedInfo built tree job) } :=
  h.addSSTable hjob.id hjob.level rfl hjob.table hstored

/-- As long as not all candidates are dropped, the rows of the others are there twice. -/
theorem Invariant.rowsOf_dropped (h : Invariant built tree) (hjob : CompactGood built tree job)
    {olds rest : List SSTableInfo} (hsplit : job.candidates = olds ++ rest) :
    (rowsOf built (olds.foldl LSMTree.dropSstable
        { tree with registry := tree.registry.add (compactedInfo built tree job) })).Perm
      (rowsOf built tree ++ rest.flatMap (builtRows built)) := by
  have hchosen : Chosen tree olds := by
    constructor
    · intro old hold
      exact hjob.chosen.known old (hsplit ▸ List.mem_append_left rest hold)
    · have hdistinct := hjob.chosen.distinct
      rw [hsplit, List.map_append] at hdistinct
      exact (List.nodup_append.mp hdistinct).1
  have hnew : (builtRows built (compactedInfo built tree job)).Perm
      (olds.flatMap (builtRows built) ++ rest.flatMap (builtRows built)) := by
    have hmerged : builtRows built (compactedInfo built tree job) =
        CompactionJob.mergedRows (builtTables built job.candidates) :=
      (builtRows_of_built hjob.table).trans (mergeTable_rows _ _ _)
    rw [hmerged, ← List.flatMap_append, ← hsplit]
    exact h.mergedRows_perm hjob.chosen.known
  have hfresh : decide ((compactedInfo built tree job).id ∉ olds.map SSTableInfo.id) = true := by
    apply decide_eq_true
    intro hmem
    obtain ⟨old, hold, heq⟩ := List.mem_map.mp hmem
    exact hjob.id.fresh old (hchosen.known old hold) heq
  have hlevel : (compactedInfo built tree job).level + 1 < 2 ^ 32 := hjob.level
  have hentries := ((tree.registry.entries_add hlevel).filter fun info =>
    decide (info.id ∉ olds.map SSTableInfo.id)).flatMap_right (builtRows built)
  rw [List.filter_cons, if_pos hfresh, List.flatMap_cons] at hentries
  rw [rowsOf_dropSstables, rowsOf, List.append_assoc]
  apply List.Perm.append_left
  refine (hentries.trans (hnew.append_right _)).trans ?_
  rw [List.append_assoc]
  refine (List.perm_append_comm.append_left _).trans ?_
  rw [← List.append_assoc]
  exact (h.rows_chosen hchosen).append_right _

/-- What a compaction registers holds the rows of the SSTables it drops. -/
theorem Invariant.compactedTree (h : Invariant built tree) (hjob : CompactGood built tree job)
    (hstored : Stored tree.schema (sparseIndexOptions tree.config) tree.disk
      (compactedInfo built tree job) (compactedTable built tree job)) :
    Invariant built (Tree.compactedTree tree job (compactedInfo built tree job)) ∧
      (rowsOf built (Tree.compactedTree tree job (compactedInfo built tree job))).Perm
        (rowsOf built tree) := by
  constructor
  · apply (h.addCompacted hjob hstored).dropSstables
    intro old hold
    exact h.issued old (hjob.chosen.known old hold)
  · have hperm := h.rowsOf_dropped hjob (List.append_nil job.candidates).symm
    rw [List.flatMap_nil, List.append_nil] at hperm
    exact hperm

theorem Invariant.endCompact (h : Invariant built tree)
    (hfew : (rowsOf built tree).length < 2 ^ 32) (hjob : CompactGood built tree job)
    (hstored : Stored tree.schema (sparseIndexOptions tree.config) tree.disk
      (compactedInfo built tree job) (compactedTable built tree job)) :
    tree.endCompact job (compactedInfo built tree job) =
      .ok (Tree.manifested (Tree.compactedTree tree job (compactedInfo built tree job))) := by
  obtain ⟨hinvariant, hperm⟩ := h.compactedTree hjob hstored
  apply saveManifest_ok
  have hle := hinvariant.length_entries_le
  rw [hperm.length_eq] at hle
  exact hle.trans_lt hfew

end Register

end

end Htap.Tree
