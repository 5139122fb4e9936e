import Htap.Tree.Frames
import Htap.Tree.Reading

/-!
What a directory says that was left at any moment. While a job is on its way the manifest
on disk still lists the registry, so a table can be opened there and holds the rows of the
registered SSTables; no step takes any of these rows away.
-/

namespace Htap.Tree

open Storage SSTable Read Cursor Words

/-- The rows of the registered SSTables. -/
def registeredRows (built : Nat → Option Table) (tree : LSMTree) : List Row :=
  tree.registry.entries.flatMap (builtRows built)

/-- The manifest on disk lists the registry; its counter of ids may be behind. -/
structure Recorded (tree : LSMTree) (next : Nat) : Prop where
  manifest : tree.disk.manifest = some (encodeManifest tree.registry next) ∨
    tree.disk.manifest = none ∧ tree.registry = {} ∧ next = 0
  le : next ≤ tree.nextSstId
  issued : ∀ info ∈ tree.registry.entries, info.id < next
  levels : tree.registry.levelCount ≤ next + 1

/-- The constructor accepts a configuration whatever the directory holds. -/
theorem create_eq {schema : Schema} {config : StorageConfig} {disk : Disk} {tree : LSMTree}
    (h : LSMTree.create schema config disk = .ok tree) (disk' : Disk) :
    LSMTree.create schema config disk' = (do
      let (registry, nextSstId) ← loadManifest disk'
      return {
        schema := schema
        config := config
        memoryLayer := { threshold := config.memtableThreshold }
        registry := registry
        nextSstId := nextSstId
        opened := disk' }) := by
  unfold LSMTree.create at h ⊢
  split at h
  · cases h
  rename_i hmin
  split at h
  · cases h
  rename_i hmax
  split at h
  · cases h
  rename_i htarget
  split at h
  · cases h
  rename_i hrow
  split at h
  · cases h
  rename_i hrows
  split at h
  · cases h
  rename_i hbytes
  rw [if_neg hmin, if_neg hmax, if_neg htarget, if_neg hrow, if_neg hrows, if_neg hbytes]

/-- Opening the table of `tree` on a directory and reading all of it. -/
def Opens (tree : LSMTree) (disk : Disk) (views : List RowView) : Prop :=
  ∃ opened, LSMTree.create tree.schema tree.config disk = .ok opened ∧
    ScanYields opened none none .unordered views

theorem Opens.unique {tree : LSMTree} {disk : Disk} {xs ys : List RowView}
    (hx : Opens tree disk xs) (hy : Opens tree disk ys) : xs = ys := by
  obtain ⟨opened, hcreate, hyields⟩ := hx
  obtain ⟨opened', hcreate', hyields'⟩ := hy
  rw [hcreate] at hcreate'
  cases hcreate'
  exact hyields.unique hyields'

namespace Session

variable {built : Nat → Option Table} {s s' : Session} {next : Nat}

/-! ## The manifest during a session -/

theorem Sound.recorded (h : Sound built s) (hidle : s.jobs = []) :
    Recorded s.tree s.tree.nextSstId := by
  constructor
  · exact h.saved hidle
  · exact le_rfl
  · exact h.invariant.issued
  · exact h.levels

/-- As long as the registry stays, so does what the manifest says of it. -/
private theorem recorded_kept (h : Recorded s.tree next)
    (hmanifest : s'.tree.disk.manifest = s.tree.disk.manifest)
    (hregistry : s'.tree.registry = s.tree.registry)
    (hnext : s.tree.nextSstId ≤ s'.tree.nextSstId) : Recorded s'.tree next := by
  constructor
  · rw [hmanifest, hregistry]
    exact h.manifest
  · exact h.le.trans hnext
  · rw [hregistry]
    exact h.issued
  · rw [hregistry]
    exact h.levels

/-- What becomes of the manifest and of the registered rows in one step. -/
theorem Sound.recorded_step (h : Sound built s) (hrecorded : Recorded s.tree next)
    (hstep : Step s s') (halone : s'.Alone) (hbounded : s'.Bounded) :
    ∃ built' next', Sound built' s' ∧ Recorded s'.tree next' ∧
      (registeredRows built s.tree).Subperm (registeredRows built' s'.tree) := by
  obtain ⟨built', hextends, hsound, hrows⟩ := h.step hstep halone hbounded
  have hbuilt : ∀ info ∈ s.tree.registry.entries, builtRows built' info = builtRows built info := by
    intro info hinfo
    rw [builtRows, builtRows, hextends.same info.id (h.invariant.issued info hinfo)]
  have hkept : s.tree.registry.entries.flatMap (builtRows built') = registeredRows built s.tree :=
    List.flatMap_congr hbuilt
  have hsame : s'.tree.registry = s.tree.registry →
      (registeredRows built s.tree).Subperm (registeredRows built' s'.tree) := by
    intro hregistry
    rw [← hkept, registeredRows, hregistry]
  have hrest : s'.tree.disk.manifest = s.tree.disk.manifest →
      s'.tree.registry = s.tree.registry → ∃ built' next', Sound built' s' ∧
        Recorded s'.tree next' ∧
        (registeredRows built s.tree).Subperm (registeredRows built' s'.tree) :=
    fun hmanifest hregistry => ⟨built', next, hsound,
      recorded_kept hrecorded hmanifest hregistry hextends.le, hsame hregistry⟩
  cases hstep with
  | insert hinsert =>
    obtain ⟨-, -, hinsert⟩ := Result.bind_eq_ok.mp hinsert
    cases hinsert
    exact hrest rfl rfl
  | scan hscan =>
    have hdata := (h.invariant.opened_scan h.levelCount_le hscan).same
    apply hrest
    · dsimp only
      rw [hdata]
      rfl
    · dsimp only
      rw [hdata]
  | next hcursors hnext => exact hrest rfl rfl
  | dropEmpty hdropped => exact absurd hdropped h.not_dropped
  | beginFlush hbegin =>
    rcases beginFlush_cases s.tree with
      ⟨-, heq⟩ | ⟨imm, rest, -, -, heq⟩ | ⟨imm, rest, -, -, heq⟩
    all_goals
      rw [heq] at hbegin
      cases hbegin
    exact hrest rfl rfl
  | writeFlush hjobs hwrite =>
    obtain ⟨⟨result, files⟩, -, hwrite⟩ := Result.bind_eq_ok.mp hwrite
    cases hwrite
    refine hrest ?_ rfl
    rw [Invariant.disk_perform]
    rfl
  | @endFlush before after task info tree hjobs hend =>
    obtain ⟨-, -, hidle, rfl⟩ := h.endFlush hjobs hend
    have hjob : JobGood built s.tree (.flushed task info) :=
      h.jobs (.flushed task info) (hjobs ▸ List.mem_append_right _ List.mem_cons_self)
    obtain ⟨-, hinfo, -⟩ := hjob
    have hlevel : info.level + 1 < 2 ^ 32 := by
      rw [hinfo]
      exact (by norm_num : 0 + 1 < 2 ^ 32)
    have hentries := (s.tree.registry.entries_add hlevel).flatMap_right (builtRows built')
    rw [List.flatMap_cons, hkept] at hentries
    refine ⟨built', _, hsound, hsound.recorded hidle, ?_⟩
    exact (List.sublist_append_right _ _).subperm.trans hentries.symm.subperm
  | beginCompact hbegin =>
    rcases beginCompact_cases hbegin with ⟨hnone, -⟩ | ⟨task, candidates, -, -, -, -, rfl⟩
    · cases hnone
    · exact hrest rfl rfl
  | writeCompact hjobs hwrite =>
    obtain ⟨⟨written, files⟩, -, hwrite⟩ := Result.bind_eq_ok.mp hwrite
    cases hwrite
    refine hrest ?_ rfl
    rw [Invariant.disk_perform]
    rfl
  | @endCompact before after job info tree hjobs hend =>
    obtain ⟨-, -, hidle, rfl⟩ := h.endCompact hjobs hend
    refine ⟨built', _, hsound, hsound.recorded hidle, ?_⟩
    cases hrows with
    | insert row _ _ hinserted _ =>
      have hlength := congrArg List.length hinserted
      simp at hlength
    | same hperm _ =>
      have hmemory : (manifested (compactedTree s.tree job info)).memoryLayer =
          s.tree.memoryLayer := memoryLayer_dropSstables _ _
      rw [rowsOf, rowsOf, hmemory] at hperm
      exact ((List.perm_append_left_iff _).mp hperm).symm.subperm

theorem Sound.recorded_restart (h : Sound built s) (hfits : s.FitsManifest)
    (hrestart : Restart s s') : Sound built s' ∧ Recorded s'.tree s'.tree.nextSstId ∧
      registeredRows built s'.tree = registeredRows built s.tree := by
  obtain ⟨hsound, -, -, hrows⟩ := h.restart hfits hrestart
  have hidle : s'.jobs = [] := by
    cases hrestart
    rfl
  have hmemory : s'.tree.memoryLayer.rows = [] := by
    obtain ⟨-, hcreate⟩ := hrestart
    obtain ⟨-, -, registry, nextSstId, -, rfl⟩ := tree_of_create hcreate
    rfl
  rw [rowsOf, hmemory, List.nil_append] at hrows
  exact ⟨hsound, hsound.recorded hidle, hrows⟩

/-- No step takes a registered row away, and the manifest on disk lists the registry all
along. -/
theorem Sound.recorded_life (h : Sound built s) (hrecorded : Recorded s.tree next)
    (hlife : Life s s') : ∃ built' next', Sound built' s' ∧ Recorded s'.tree next' ∧
      (registeredRows built s.tree).Subperm (registeredRows built' s'.tree) := by
  induction hlife with
  | start _ => exact ⟨built, next, h, hrecorded, List.Subperm.refl _⟩
  | step _ hstep halone hbounded ih =>
    obtain ⟨built', next', hsound, hbefore, hsub⟩ := ih
    obtain ⟨built'', next'', hsound', hafter, hsub'⟩ :=
      hsound.recorded_step hbefore hstep halone hbounded
    exact ⟨built'', next'', hsound', hafter, hsub.trans hsub'⟩
  | restart _ hrestart hfits ih =>
    obtain ⟨built', next', hsound, -, hsub⟩ := ih
    obtain ⟨hsound', hafter, hrows⟩ := hsound.recorded_restart hfits hrestart
    exact ⟨built', _, hsound', hafter, hrows.symm ▸ hsub⟩

/-- Schema and configuration stay as they are. -/
theorem Life.frame (h : Life s s') :
    s'.tree.schema = s.tree.schema ∧ s'.tree.config = s.tree.config := by
  induction h with
  | start _ => exact ⟨rfl, rfl⟩
  | step _ hstep _ _ ih =>
    have hconfined := hstep.confined
    exact ⟨hconfined.schema.trans ih.1, hconfined.config.trans ih.2⟩
  | restart _ hrestart _ ih =>
    obtain ⟨-, hcreate⟩ := hrestart
    obtain ⟨-, -, registry, nextSstId, -, rfl⟩ := tree_of_create hcreate
    exact ih

/-- The constructor accepts the configuration of the table. -/
def Creatable (tree : LSMTree) : Prop :=
  ∃ disk created, LSMTree.create tree.schema tree.config disk = .ok created

theorem Life.creatable (h : Life s s') (hcreatable : Creatable s.tree) : Creatable s'.tree := by
  rw [Creatable, h.frame.1, h.frame.2]
  exact hcreatable

theorem Starts.idle (h : Starts s) : s.jobs = [] := by
  obtain ⟨-, -⟩ := h
  rfl

theorem creatable_of_starts (h : Starts s) : Creatable s.tree := by
  obtain ⟨-, hcreate⟩ := h
  obtain ⟨-, -, registry, nextSstId, -, heq⟩ := tree_of_create hcreate
  subst heq
  exact ⟨_, _, hcreate⟩

/-! ## Opening the directory -/

/-- A directory that a process leaves: the manifest and the registered SSTables are there.
Where a job was writing there may be anything. -/
structure Leaves (s : Session) (disk : Disk) : Prop where
  manifest : disk.manifest = s.tree.disk.manifest
  sstables : ∀ info ∈ s.tree.registry.entries,
    disk.sstables info.path = s.tree.disk.sstables info.path

theorem Leaves.refl (s : Session) : Leaves s s.tree.disk := ⟨rfl, fun _ _ => rfl⟩

/-- The session as a restart on the directory would see it. -/
def forgotten (s : Session) (next : Nat) (disk : Disk) : Session where
  tree := {
    schema := s.tree.schema
    config := s.tree.config
    memoryLayer := { threshold := s.tree.config.memtableThreshold }
    registry := s.tree.registry
    nextSstId := next
    opened := disk }
  inserted := s.inserted

theorem sound_forgotten (h : Sound built s) (hrecorded : Recorded s.tree next) {disk : Disk}
    (hdisk : Leaves s disk) : Sound built (s.forgotten next disk) := by
  have hle := hrecorded.le
  have hids := h.bounded.ids
  refine ⟨?_, fun _ => ?_⟩
  rotate_left
  · change disk.manifest = _ ∨ disk.manifest = none ∧ _
    rw [hdisk.manifest]
    exact hrecorded.manifest
  constructor
  · constructor
    · exact h.invariant.keyed
    · exact h.invariant.narrow
    · exact h.invariant.options
    · exact h.invariant.targets
    · intro row hrow
      cases hrow
    · intro row hrow
      cases hrow
    · intro info hinfo
      obtain ⟨t, hbuilt, hstored⟩ := h.invariant.stored info hinfo
      exact ⟨t, hbuilt, hstored.disk_changed (hdisk.sstables info hinfo)⟩
    · exact h.invariant.paths
    · exact hrecorded.issued
    · change next < 2 ^ 64
      omega
    · exact h.invariant.distinct
    · exact h.invariant.filed
    · intro info _ e he
      cases he
    · intro e he
      cases he
    · intro cache hcache
      cases hcache
  · exact Nat.zero_le 1
  · refine ⟨h.bounded.columns, h.bounded.strings, h.bounded.rows, ?_⟩
    change next + 1 < 2 ^ 32
    omega
  · intro job hjob
    cases hjob
  · intro c hc
    cases hc
  · exact hrecorded.levels
  · intro imm himm
    cases himm
  · have hall := h.rows
    rw [rowsOf, List.length_append] at hall
    exact (Nat.le_add_left _ _).trans hall

/-- The table that is opened on the directory of a session, at whatever moment. -/
structure Reopened (built : Nat → Option Table) (tree opened : LSMTree) : Prop where
  create : LSMTree.create tree.schema tree.config tree.disk = .ok opened
  invariant : Invariant built opened
  schema : opened.schema = tree.schema
  disk : opened.disk = tree.disk
  entries : opened.registry.entries = tree.registry.entries
  levels : opened.registry.levelCount ≤ 2 ^ 32
  rows : rowsOf built opened = registeredRows built tree

theorem Sound.exists_reopened (h : Sound built s) (hrecorded : Recorded s.tree next)
    (hfits : s.FitsManifest) (hcreatable : Creatable s.tree) :
    ∃ opened, Reopened built s.tree opened := by
  have hforgotten := sound_forgotten h hrecorded (Leaves.refl s)
  obtain ⟨registry, hloaded⟩ := hforgotten.exists_loaded ⟨hfits.path, hfits.sizes⟩ rfl
  obtain ⟨disk, created, hcreated⟩ := hcreatable
  have hcreate := create_eq hcreated s.tree.disk
  have hload : loadManifest s.tree.disk = .ok (registry, next) := hloaded.load
  rw [hload, Result.ok_bind] at hcreate
  obtain ⟨hsound, hschema, -, hrows⟩ :=
    hforgotten.restart ⟨hfits.path, hfits.sizes⟩ (.reopen rfl hcreate)
  exact ⟨_, hcreate, hsound.invariant, rfl, rfl, hloaded.entries, hsound.levelCount_le, hrows⟩

theorem Reopened.opens {tree opened : LSMTree} (h : Reopened built tree opened) :
    Opens tree tree.disk ((registeredRows built tree).map (viewAll tree.schema)) := by
  have hyields := h.invariant.scanYields_full h.levels .unordered
  rw [h.rows, h.schema] at hyields
  exact ⟨opened, h.create, hyields⟩

/-- The manifest lists the registered SSTables, -/
theorem Reopened.listed {tree opened : LSMTree} (h : Reopened built tree opened) :
    ∃ registry nextSstId, loadManifest tree.disk = .ok (registry, nextSstId) ∧
      registry.entries = tree.registry.entries := by
  have hentries := h.entries
  obtain ⟨-, -, registry, nextSstId, hload, rfl⟩ := tree_of_create h.create
  exact ⟨registry, nextSstId, hload, hentries⟩

/-- and each of them has its directory. -/
theorem Reopened.complete {tree opened : LSMTree} (h : Reopened built tree opened) :
    ∀ info ∈ tree.registry.entries, (tree.disk.sstables info.path).isSome := by
  intro info hinfo
  obtain ⟨t, -, hstored⟩ := h.invariant.stored info (h.entries ▸ hinfo)
  rw [← h.disk, hstored.onDisk]
  rfl

end Session

end Htap.Tree
