import Htap.Tree.Recovery

/-!
What is in the directory of a table: the SSTables of the registry, those that a job has just
written, and no other. Every step writes one SSTable, deletes those it unregisters, or leaves
both the directory and the list alone.
-/

namespace Htap.Tree

open Storage SSTable Read Cursor Words

/-- A flush writes rows, a compaction what its level asks for. -/
def levelLayout (config : StorageConfig) (level : Nat) : SSTLayout :=
  if 0 < level ∧ config.rowToColumnLevel ≤ level then .column else .row

theorem layout_of_pick {config : StorageConfig} {registry : SSTableRegistry}
    {task : CompactionTask} (hcount : registry.levelCount + 1 < 2 ^ 32)
    (h : CompactionPolicy.pick config registry = some task) :
    task.outputLayout = levelLayout config task.dstLevel := by
  obtain ⟨hdst, -⟩ := CompactionPolicy.of_pick hcount h
  have hpositive : 0 < task.dstLevel := by omega
  unfold CompactionPolicy.pick at h
  split at h
  · cases h
    simp [levelLayout]
  · obtain ⟨level, -, rfl⟩ := Option.map_eq_some_iff.mp h
    simp only [levelLayout, hpositive, true_and]

/-- The SSTable that a job has written and not registered yet. -/
def Job.written : Job → Option SSTableInfo
  | .flush _ | .compact _ => none
  | .flushed _ info | .compacted _ info => some info

/-- A deleted SSTable is gone, the other ones stay. -/
theorem sstables_dropSstables (olds : List SSTableInfo) (tree : LSMTree) (path : Bytes) :
    (olds.foldl LSMTree.dropSstable tree).disk.sstables path =
      if path ∈ olds.map fun old => sstPath tree.config.rootPath old.id then none
      else tree.disk.sstables path := by
  induction olds generalizing tree with
  | nil => rfl
  | cons old olds ih =>
    have hdropped : (tree.dropSstable old).disk.sstables path =
        if path = sstPath tree.config.rootPath old.id then none else tree.disk.sstables path := by
      have hdisk : (tree.dropSstable old).disk =
          replay tree.disk (deleteSstFiles tree.disk tree.config.rootPath old.id) :=
        Invariant.disk_perform _ _
      rw [hdisk]
      split
      · rename_i heq
        unfold deleteSstFiles
        split
        · exact if_pos heq
        · rename_i hnone
          rw [replay_nil, heq]
          exact Option.not_isSome_iff_eq_none.mp hnone
      · rename_i hne
        exact sstables_replay (at_deleteSstFiles _ _ _) hne _
    have hconfig : (tree.dropSstable old).config = tree.config := rfl
    rw [List.foldl_cons, ih, hdropped, hconfig, List.map_cons]
    by_cases hmem : path ∈ olds.map fun old => sstPath tree.config.rootPath old.id
    · rw [if_pos hmem, if_pos (List.mem_cons_of_mem _ hmem)]
    · rw [if_neg hmem]
      simp only [List.mem_cons, hmem, or_false]

namespace Session

variable {built : Nat → Option Table} {start s s' : Session}

/-- The SSTables a session knows of. -/
def sstables (s : Session) : List SSTableInfo :=
  s.tree.registry.entries ++ s.jobs.filterMap Job.written

/-- What a step does to the SSTables that are known and to those on disk. -/
inductive Touches (s s' : Session) : Prop
  | nothing (hknown : ∀ info, info ∈ s'.sstables ↔ info ∈ s.sstables)
    (hdisk : ∀ path, s'.tree.disk.sstables path = s.tree.disk.sstables path)
  | write (info : SSTableInfo) (files : SSTableFiles)
    (hlayout : info.layout = (levelLayout s.tree.config info.level).code)
    (hknown : ∀ other, other ∈ s'.sstables ↔ other = info ∨ other ∈ s.sstables)
    (hdisk : ∀ path, s'.tree.disk.sstables path =
      if path = info.path then some files else s.tree.disk.sstables path)
  | drop (ids : List Nat)
    (hknown : ∀ info, info ∈ s'.sstables ↔ info ∈ s.sstables ∧ info.id ∉ ids)
    (hdisk : ∀ path, s'.tree.disk.sstables path =
      if path ∈ ids.map (sstPath s.tree.config.rootPath) then none
      else s.tree.disk.sstables path)

/-- The compactions on their way write the layout of their level. -/
def Planned (s : Session) : Prop :=
  ∀ job, Job.compact job ∈ s.jobs →
    job.task.outputLayout = levelLayout s.tree.config job.task.dstLevel

theorem Sound.touches (h : Sound built s) (hplanned : Planned s) (hstep : Step s s') :
    Touches s s' := by
  cases hstep with
  | insert hinsert =>
    obtain ⟨-, -, hinsert⟩ := Result.bind_eq_ok.mp hinsert
    cases hinsert
    exact .nothing (fun _ => Iff.rfl) fun _ => rfl
  | scan hscan =>
    have hsame := (h.invariant.opened_scan h.levelCount_le hscan).same
    rw [SameData] at hsame
    rw [hsame]
    exact .nothing (fun _ => Iff.rfl) fun _ => rfl
  | next _ _ => exact .nothing (fun _ => Iff.rfl) fun _ => rfl
  | dropEmpty hdropped => exact absurd hdropped h.not_dropped
  | beginFlush hbegin =>
    rcases beginFlush_cases s.tree with
      ⟨-, heq⟩ | ⟨imm, rest, -, -, heq⟩ | ⟨imm, rest, -, -, heq⟩
    all_goals
      rw [heq] at hbegin
      cases hbegin
    exact .nothing (fun _ => Iff.rfl) fun _ => rfl
  | @writeFlush before after task info tree hjobs hwrite =>
    have halone := h.alone
    rw [Alone, hjobs] at halone
    obtain ⟨rfl, rfl⟩ := alone_split halone
    obtain ⟨⟨result, files⟩, -, hwrite⟩ := Result.bind_eq_ok.mp hwrite
    cases hwrite
    refine .write (builtInfo s.tree.config task.sstId 0 .row result files) files rfl ?_ ?_
    · intro other
      simp [sstables, hjobs, Job.written, LSMTree.perform, or_comm]
    · intro path
      dsimp only
      rw [Invariant.disk_perform]
      rfl
  | @endFlush before after task info tree hjobs hend =>
    have hjob : JobGood built s.tree (.flushed task info) :=
      h.jobs (.flushed task info) (hjobs ▸ List.mem_append_right _ List.mem_cons_self)
    obtain ⟨-, hinfo, -⟩ := hjob
    have hlevel : info.level + 1 < 2 ^ 32 := by
      rw [hinfo]
      exact (by norm_num : 0 + 1 < 2 ^ 32)
    obtain ⟨-, -, hidle, rfl⟩ := h.endFlush hjobs hend
    obtain ⟨rfl, rfl⟩ := List.append_eq_nil_iff.mp hidle
    refine .nothing ?_ ?_
    · intro other
      have hadd := (s.tree.registry.entries_add hlevel).mem_iff (a := other)
      simp [sstables, hjobs, Job.written, manifested, flushedTree, LSMTree.perform, hadd, or_comm]
    · intro path
      rw [manifested, Invariant.disk_perform]
      rfl
  | beginCompact hbegin =>
    rcases beginCompact_cases hbegin with ⟨hnone, -⟩ | ⟨task, candidates, -, -, -, -, rfl⟩
    · cases hnone
    · exact .nothing (fun _ => Iff.rfl) fun _ => rfl
  | @writeCompact before after job info tree hjobs hwrite =>
    have hmem : Job.compact job ∈ s.jobs := hjobs ▸ List.mem_append_right _ List.mem_cons_self
    obtain ⟨htask, -⟩ : JobGood built s.tree (.compact job) := h.jobs _ hmem
    have hlayout := hplanned job hmem
    have halone := h.alone
    rw [Alone, hjobs] at halone
    obtain ⟨rfl, rfl⟩ := alone_split halone
    obtain ⟨rfl, rfl, -⟩ := h.invariant.of_writeCompact h.few htask hwrite
    refine .write (compactedInfo built s.tree job) ((compactedTable built s.tree job).files
      s.tree.schema (sparseIndexOptions s.tree.config)) (congrArg SSTLayout.code hlayout) ?_ ?_
    · intro other
      simp [sstables, hjobs, Job.written, writtenTable, LSMTree.perform, or_comm]
    · intro path
      rw [writtenTable, Invariant.disk_perform]
      rfl
  | @endCompact before after job info tree hjobs hend =>
    have hjob : JobGood built s.tree (.compacted job info) :=
      h.jobs (.compacted job info) (hjobs ▸ List.mem_append_right _ List.mem_cons_self)
    obtain ⟨htask, -, hinfo, -⟩ := hjob
    have hlevel : info.level + 1 < 2 ^ 32 := by
      rw [hinfo]
      exact htask.level
    obtain ⟨-, -, hidle, rfl⟩ := h.endCompact hjobs hend
    obtain ⟨rfl, rfl⟩ := List.append_eq_nil_iff.mp hidle
    refine .drop (job.candidates.map SSTableInfo.id) ?_ ?_
    · intro other
      have hadd := (s.tree.registry.entries_add hlevel).mem_iff (a := other)
      have hentries : (manifested (compactedTree s.tree job info)).registry.entries =
          (s.tree.registry.add info).entries.filter fun other =>
            decide (other.id ∉ job.candidates.map SSTableInfo.id) := by
        change (compactedTree s.tree job info).registry.entries = _
        rw [compactedTree, registry_dropSstables, SSTableRegistry.entries_removeAll]
      simp only [sstables, hentries, hjobs, List.filterMap_nil, List.append_nil, List.nil_append,
        List.mem_filter, hadd, List.filterMap_cons, Job.written, List.mem_append, List.mem_cons,
        List.not_mem_nil, or_false, decide_eq_true_eq]
      rw [or_comm]
    · intro path
      rw [manifested, Invariant.disk_perform, List.map_map]
      exact sstables_dropSstables job.candidates _ path

/-! ## What is known of the SSTables -/

/-- A written SSTable is complete on disk, under an id that the registry does not know. -/
theorem Sound.of_written (h : Sound built s) {job : Job} (hjob : job ∈ s.jobs)
    {info : SSTableInfo} (hinfo : info ∈ job.written) :
    Invariant.Unregistered s.tree info.id ∧
      info.path = sstPath s.tree.config.rootPath info.id ∧
      ∃ t, Stored s.tree.schema (sparseIndexOptions s.tree.config) s.tree.disk info t := by
  have hgood := h.jobs job hjob
  cases job with
  | flush task => cases hinfo
  | compact job => cases hinfo
  | flushed task written =>
    cases hinfo
    obtain ⟨htask, hwritten, hstored⟩ := hgood
    refine ⟨?_, ?_, _, hstored⟩
    · rw [hwritten]
      exact htask.id
    · rw [hwritten]
      rfl
  | compacted job written =>
    cases hinfo
    obtain ⟨htask, -, hwritten, hstored⟩ := hgood
    refine ⟨?_, ?_, _, hstored⟩
    · rw [hwritten]
      exact htask.id
    · rw [hwritten]
      rfl

/-- What holds of an SSTable that a session knows of. -/
structure Known (s : Session) (info : SSTableInfo) : Prop where
  issued : info.id < s.tree.nextSstId
  path : info.path = sstPath s.tree.config.rootPath info.id
  stored : ∃ t, Stored s.tree.schema (sparseIndexOptions s.tree.config) s.tree.disk info t

theorem Sound.known (h : Sound built s) {info : SSTableInfo} (hinfo : info ∈ s.sstables) :
    Known s info := by
  rcases List.mem_append.mp hinfo with hregistered | hwritten
  · obtain ⟨t, -, hstored⟩ := h.invariant.stored info hregistered
    exact ⟨h.invariant.issued info hregistered, h.invariant.paths info hregistered, t, hstored⟩
  · obtain ⟨job, hjob, hof⟩ := List.mem_filterMap.mp hwritten
    obtain ⟨hid, hpath, hstored⟩ := h.of_written hjob hof
    exact ⟨hid.issued, hpath, hstored⟩

theorem Sound.distinct_sstables (h : Sound built s) :
    (s.sstables.map SSTableInfo.id).Nodup := by
  rw [sstables, List.map_append]
  apply List.Nodup.append h.invariant.distinct
  · have halone := h.alone
    unfold Alone at halone
    generalize s.jobs = jobs at halone
    rcases jobs with _ | ⟨job, _ | ⟨next, jobs⟩⟩
    · exact List.nodup_nil
    · cases job <;> simp [List.filterMap_cons, Job.written]
    · simp at halone
  · intro id hregistered hwritten
    obtain ⟨info, hinfo, rfl⟩ := List.mem_map.mp hwritten
    obtain ⟨job, hjob, hof⟩ := List.mem_filterMap.mp hinfo
    obtain ⟨other, hother, heq⟩ := List.mem_map.mp hregistered
    exact (h.of_written hjob hof).1.fresh other hother heq

/-! ## Over a whole life -/

/-- Every SSTable on disk is known, and has the layout of its level; no id is given out twice. -/
structure Tidy (s : Session) : Prop where
  planned : Planned s
  layouts : ∀ info ∈ s.sstables, info.layout = (levelLayout s.tree.config info.level).code
  directories : ∀ path, (s.tree.disk.sstables path).isSome → ∃ info ∈ s.sstables, info.path = path
  once : s.issued.Nodup
  issued : ∀ id ∈ s.issued, id < s.tree.nextSstId

theorem tidy_of_starts (h : Starts s) : Tidy s := by
  obtain ⟨-, hcreate⟩ := h
  obtain ⟨-, -, registry, nextSstId, hload, rfl⟩ := tree_of_create hcreate
  cases hload
  constructor
  · intro job hjob
    cases hjob
  · intro info hinfo
    cases hinfo
  · intro path hpath
    cases hpath
  · exact List.nodup_nil
  · intro id hid
    cases hid

private theorem planned_step (h : Sound built s) (hplanned : Planned s) (hstep : Step s s')
    (hbounded : s'.Bounded) : Planned s' := by
  have hconfig := hstep.confined.config
  intro job hjob
  rw [hconfig]
  cases hstep with
  | insert _ => exact hplanned job hjob
  | scan _ => exact hplanned job hjob
  | next _ _ => exact hplanned job hjob
  | dropEmpty _ => exact hplanned job hjob
  | beginFlush _ =>
    rcases List.mem_cons.mp hjob with heq | hold
    · cases heq
    · exact hplanned job hold
  | writeFlush hjobs _ =>
    apply hplanned job
    rw [hjobs]
    simpa using hjob
  | endFlush hjobs _ =>
    apply hplanned job
    rw [hjobs]
    simpa using hjob
  | beginCompact hbegin =>
    rcases List.mem_cons.mp hjob with heq | hold
    · cases heq
      rcases beginCompact_cases hbegin with
        ⟨hnone, -⟩ | ⟨task, candidates, hpick, -, -, hstarted, rfl⟩
      · cases hnone
      · cases hstarted
        have hlevels := h.levels
        have hids := h.bounded.ids
        have hids' : u64 (s.tree.nextSstId + 1) + 1 < 2 ^ 32 := hbounded.ids
        rw [u64_of_lt (by omega)] at hids'
        exact layout_of_pick (by omega) hpick
    · exact hplanned job hold
  | writeCompact hjobs _ =>
    apply hplanned job
    rw [hjobs]
    rw [List.mem_append, List.mem_cons] at hjob ⊢
    rcases hjob with hin | heq | hin
    · exact Or.inl hin
    · cases heq
    · exact Or.inr (Or.inr hin)
  | endCompact hjobs _ =>
    apply hplanned job
    rw [hjobs]
    simpa using hjob

/-- Ids are taken one after another. -/
private theorem issued_step (h : Sound built s) (htidy : Tidy s) (hstep : Step s s') :
    s'.issued.Nodup ∧ ∀ id ∈ s'.issued, id < s'.tree.nextSstId := by
  have hids := h.bounded.ids
  have hnext : u64 (s.tree.nextSstId + 1) = s.tree.nextSstId + 1 := u64_of_lt (by omega)
  have htaken : (s.tree.nextSstId :: s.issued).Nodup ∧
      ∀ id ∈ s.tree.nextSstId :: s.issued, id < u64 (s.tree.nextSstId + 1) := by
    rw [hnext]
    constructor
    · exact List.nodup_cons.mpr ⟨fun hmem => (htidy.issued _ hmem).false, htidy.once⟩
    · intro id hid
      rcases List.mem_cons.mp hid with rfl | hold
      · exact Nat.lt_succ_self _
      · exact (htidy.issued id hold).trans (Nat.lt_succ_self _)
  cases hstep with
  | insert hinsert =>
    obtain ⟨-, -, hinsert⟩ := Result.bind_eq_ok.mp hinsert
    cases hinsert
    exact ⟨htidy.once, htidy.issued⟩
  | scan hscan =>
    have hsame := (h.invariant.opened_scan h.levelCount_le hscan).same
    rw [SameData] at hsame
    rw [hsame]
    exact ⟨htidy.once, htidy.issued⟩
  | next _ _ => exact ⟨htidy.once, htidy.issued⟩
  | dropEmpty hdropped => exact absurd hdropped h.not_dropped
  | beginFlush hbegin =>
    rcases beginFlush_cases s.tree with
      ⟨-, heq⟩ | ⟨imm, rest, -, -, heq⟩ | ⟨imm, rest, -, -, heq⟩
    all_goals
      rw [heq] at hbegin
      cases hbegin
    exact htaken
  | writeFlush _ hwrite =>
    obtain ⟨ops, rfl⟩ := exists_perform_of_writeFlush hwrite
    exact ⟨htidy.once, htidy.issued⟩
  | endFlush hjobs hend =>
    obtain ⟨-, -, -, rfl⟩ := h.endFlush hjobs hend
    exact ⟨htidy.once, htidy.issued⟩
  | beginCompact hbegin =>
    rcases beginCompact_cases hbegin with ⟨hnone, -⟩ | ⟨task, candidates, -, -, -, hstarted, rfl⟩
    · cases hnone
    · cases hstarted
      exact htaken
  | writeCompact _ hwrite =>
    obtain ⟨ops, rfl⟩ := exists_perform_of_writeCompact hwrite
    exact ⟨htidy.once, htidy.issued⟩
  | @endCompact before after job info tree hjobs hend =>
    obtain ⟨-, -, -, rfl⟩ := h.endCompact hjobs hend
    have hkept := (frame_dropSstables job.candidates
      { s.tree with registry := s.tree.registry.add info }).2.2
    refine ⟨htidy.once, fun id hid => ?_⟩
    change id < (compactedTree s.tree job info).nextSstId
    rw [compactedTree, hkept]
    exact htidy.issued id hid

theorem Tidy.step (htidy : Tidy s) (h : Sound built s) (hstep : Step s s')
    (hbounded : s'.Bounded) : Tidy s' := by
  have hconfig := hstep.confined.config
  obtain ⟨honce, hissued⟩ := issued_step h htidy hstep
  refine ⟨planned_step h htidy.planned hstep hbounded, ?_, ?_, honce, hissued⟩
  · rw [hconfig]
    cases h.touches htidy.planned hstep with
    | nothing hknown _ => exact fun info hinfo => htidy.layouts info ((hknown info).mp hinfo)
    | write written files hlayout hknown _ =>
      intro info hinfo
      rcases (hknown info).mp hinfo with rfl | hold
      · exact hlayout
      · exact htidy.layouts info hold
    | drop ids hknown _ => exact fun info hinfo => htidy.layouts info ((hknown info).mp hinfo).1
  · intro path hpath
    cases h.touches htidy.planned hstep with
    | nothing hknown hdisk =>
      rw [hdisk] at hpath
      obtain ⟨info, hinfo, hof⟩ := htidy.directories path hpath
      exact ⟨info, (hknown info).mpr hinfo, hof⟩
    | write written files _ hknown hdisk =>
      rw [hdisk] at hpath
      split at hpath
      · rename_i heq
        exact ⟨written, (hknown written).mpr (Or.inl rfl), heq.symm⟩
      · obtain ⟨info, hinfo, hof⟩ := htidy.directories path hpath
        exact ⟨info, (hknown info).mpr (Or.inr hinfo), hof⟩
    | drop ids hknown hdisk =>
      rw [hdisk] at hpath
      split at hpath
      · cases hpath
      · rename_i hgone
        obtain ⟨info, hinfo, rfl⟩ := htidy.directories path hpath
        refine ⟨info, (hknown info).mpr ⟨hinfo, fun hid => hgone ?_⟩, rfl⟩
        rw [(h.known hinfo).path]
        exact List.mem_map_of_mem hid

/-- A restart knows the registered SSTables, and there are no others. -/
theorem Tidy.restart (htidy : Tidy s) (h : Sound built s) (hfits : s.FitsManifest)
    (hrestart : Restart s s') : Tidy s' := by
  obtain ⟨registry, hloaded, hs'⟩ := of_restart h hfits hrestart
  have hidle : s.jobs = [] := by
    obtain ⟨hidle, -⟩ := hrestart
    exact hidle
  have hknown : s'.sstables = s.sstables := by
    rw [sstables, sstables, hs', hidle]
    exact congrArg (· ++ []) hloaded.entries
  have hconfig : s'.tree.config = s.tree.config := by rw [hs']
  have hdisk : s'.tree.disk = s.tree.disk := by
    rw [hs']
    rfl
  constructor
  · rw [hs']
    intro job hjob
    cases hjob
  · rw [hknown, hconfig]
    exact htidy.layouts
  · rw [hknown, hdisk]
    exact htidy.directories
  · rw [hs']
    exact List.nodup_nil
  · rw [hs']
    intro id hid
    cases hid

theorem Life.tidy (h : Life start s) (hstart : Starts start) :
    Tidy s ∧ ∃ built next, Sound built s ∧ Recorded s.tree next := by
  induction h with
  | start hbounded =>
    have hsound := sound_of_starts hstart hbounded
    exact ⟨tidy_of_starts hstart, _, _, hsound, hsound.recorded hstart.idle⟩
  | step _ hstep halone hbounded ih =>
    obtain ⟨htidy, built, next, hsound, hrecorded⟩ := ih
    obtain ⟨built', next', hsound', hrecorded', -⟩ :=
      hsound.recorded_step hrecorded hstep halone hbounded
    exact ⟨htidy.step hsound hstep hbounded, built', next', hsound', hrecorded'⟩
  | restart _ hrestart hfits ih =>
    obtain ⟨htidy, built, next, hsound, -⟩ := ih
    obtain ⟨hsound', hrecorded', -⟩ := hsound.recorded_restart hfits hrestart
    exact ⟨htidy.restart hsound hfits hrestart, built, _, hsound', hrecorded'⟩

end Session

end Htap.Tree
