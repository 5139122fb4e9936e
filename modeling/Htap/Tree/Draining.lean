import Htap.Basis.Cascade
import Htap.Tree.WholeSteps

/-!
What `drain_work_locked` does in one round: a flush takes the first memtable of the queue
to level 0, and when the queue is empty a compaction takes all of one level to the next.
-/

namespace Htap.Tree

open Storage SSTable Read Cursor Words

theorem IoSucceeds.of_bind {α β : Type} {x : Result α} {f : α → Result β}
    (h : Result.IoSucceeds (x >>= f)) : Result.IoSucceeds x := by
  rintro what rfl
  exact h what rfl

/-- The SSTables of a level. -/
abbrev SSTableRegistry.level (r : SSTableRegistry) (level : Nat) : List SSTableInfo :=
  r.levels.getD level []

theorem SSTableRegistry.mem_entries_of_level {r : SSTableRegistry} {level : Nat}
    {info : SSTableInfo} (h : info ∈ r.level level) : info ∈ r.entries := by
  by_cases hlevel : level < r.levels.length
  · rw [SSTableRegistry.level, List.getD_eq_getElem _ _ hlevel] at h
    exact List.mem_flatten_of_mem (List.getElem_mem hlevel) h
  · rw [SSTableRegistry.level, List.getD_eq_default _ _ (not_lt.mp hlevel)] at h
    cases h

section

variable {tree tree' : LSMTree}

/-- The layout of SSTables that a compaction writes to the next level. -/
def nextLayout (config : StorageConfig) (level : Nat) : SSTLayout :=
  if config.rowToColumnLevel ≤ level + 1 then .column else .row

/-- The level that is picked has something to merge, and those above it stay as they are. -/
structure Picked (config : StorageConfig) (registry : SSTableRegistry) (task : CompactionTask) :
    Prop where
  next : task.dstLevel = task.srcLevel + 1
  layout : task.outputLayout = nextLayout config task.srcLevel
  source : registry.level task.srcLevel ≠ []
  many : task.srcLevel = 0 → config.level0CompactionTrigger ≤ registry.sstableCount 0
  few : task.srcLevel ≠ 0 → registry.sstableCount 0 < config.level0CompactionTrigger
  large : task.srcLevel ≠ 0 → CompactionPolicy.overfull config registry task.srcLevel = true
  first : ∀ level, 1 ≤ level → level < task.srcLevel →
    CompactionPolicy.overfull config registry level = false

theorem picked_of_pick {config : StorageConfig} {registry : SSTableRegistry}
    {task : CompactionTask} (htrigger : 1 ≤ config.level0CompactionTrigger)
    (hcount : registry.levelCount + 1 < 2 ^ 32)
    (h : CompactionPolicy.pick config registry = some task) : Picked config registry task := by
  obtain ⟨hnext, -⟩ := CompactionPolicy.of_pick hcount h
  unfold CompactionPolicy.pick at h
  split at h
  · rename_i hfull
    cases h
    refine ⟨hnext, rfl, ?_, fun _ => hfull, fun hzero => absurd rfl hzero,
      fun hzero => absurd rfl hzero,
      ?_⟩
    · intro hnil
      have hnone : registry.sstableCount 0 = 0 := congrArg List.length hnil
      omega
    · intro level _ hlt
      exact absurd hlt (Nat.not_lt_zero level)
  · rename_i hfew
    obtain ⟨level, hfind, rfl⟩ := Option.map_eq_some_iff.mp h
    rw [u32_of_lt (by omega), List.find?_range'_eq_some] at hfind
    obtain ⟨hover, hrange, hfirst⟩ := hfind
    have hone : 1 ≤ level := (List.mem_range'_1.mp hrange).1
    have hnext : u32 (level + 1) = level + 1 := hnext
    refine ⟨hnext, ?_, ?_, fun hzero => ?_, fun _ => not_le.mp hfew, fun _ => hover, ?_⟩
    · dsimp only
      rw [hnext]
      rfl
    · rintro (hnil : registry.levels.getD level [] = [])
      rw [CompactionPolicy.overfull, hnil] at hover
      cases hover
    · exact absurd hzero (Nat.one_le_iff_ne_zero.mp hone)
    · intro lower hone hlower
      have hnot := hfirst lower hone hlower
      rwa [Bool.not_eq_true'] at hnot

/-- A level that is not empty can be asked for. -/
theorem sstablesAtLevel_ok {registry : SSTableRegistry} {level : Nat}
    (h : registry.level level ≠ []) :
    registry.sstablesAtLevel level = .ok (registry.level level) := by
  unfold SSTableRegistry.sstablesAtLevel SSTableRegistry.level at *
  rw [List.getD_eq_getElem?_getD] at *
  cases hget : registry.levels[level]? with
  | none =>
    rw [hget] at h
    exact absurd rfl h
  | some sstables => rfl

theorem beginCompact_of_pick {task : CompactionTask}
    (hpick : CompactionPolicy.pick tree.config tree.registry = some task)
    (hsource : tree.registry.level task.srcLevel ≠ []) :
    tree.beginCompact = .ok (some ⟨task, tree.registry.level task.srcLevel, tree.nextSstId⟩,
      { tree with nextSstId := u64 (tree.nextSstId + 1) }) := by
  unfold LSMTree.beginCompact
  rw [hpick]
  dsimp only
  rw [sstablesAtLevel_ok hsource, Result.ok_bind, if_neg]
  · rfl
  · rw [List.isEmpty_iff]
    exact hsource

theorem flushOne_nothing (hqueue : tree.memoryLayer.immutables = []) :
    tree.flushOne = .ok (false, tree) := by
  rcases beginFlush_cases tree with ⟨-, heq⟩ | ⟨imm, rest, hfront, -⟩ | ⟨imm, rest, hfront, -⟩
  · rw [LSMTree.flushOne, heq]
  all_goals
    rw [hqueue] at hfront
    cases hfront

/-- A compaction is picked, or there is nothing to merge, or level 0 is due where there are no
levels yet. -/
theorem compactOne_cases (tree : LSMTree) :
    (∃ task, CompactionPolicy.pick tree.config tree.registry = some task ∧
      tree.registry.level task.srcLevel ≠ []) ∨
    tree.compactOne = .ok (false, tree) ∨
    (tree.config.level0CompactionTrigger = 0 ∧ tree.registry.levels = [] ∧
      tree.compactOne = .error (.outOfRange "Invalid LSM level")) := by
  cases hpick : CompactionPolicy.pick tree.config tree.registry with
  | none =>
    have hnone : tree.beginCompact = .ok (none, tree) := by
      rw [LSMTree.beginCompact, hpick]
    exact Or.inr (Or.inl (by rw [LSMTree.compactOne, hnone]; rfl))
  | some task =>
    by_cases hsource : tree.registry.level task.srcLevel = []
    swap
    · exact Or.inl ⟨task, rfl, hsource⟩
    right
    have hzero : task.srcLevel = 0 ∧
        tree.config.level0CompactionTrigger ≤ tree.registry.sstableCount 0 := by
      unfold CompactionPolicy.pick at hpick
      split at hpick
      · rename_i hfull
        cases hpick
        exact ⟨rfl, hfull⟩
      · obtain ⟨level, hfind, rfl⟩ := Option.map_eq_some_iff.mp hpick
        have hover := List.find?_some hfind
        have hnil : tree.registry.levels.getD level [] = [] := hsource
        rw [CompactionPolicy.overfull, hnil] at hover
        cases hover
    obtain ⟨hsrc, htrigger⟩ := hzero
    rw [hsrc] at hsource
    have hempty : tree.registry.sstableCount 0 = 0 := congrArg List.length hsource
    cases hlevels : tree.registry.levels with
    | nil =>
      have hthrows : tree.registry.sstablesAtLevel 0 =
          .error (.outOfRange "Invalid LSM level") := by
        rw [SSTableRegistry.sstablesAtLevel, hlevels]
        rfl
      refine Or.inr ⟨by omega, rfl, ?_⟩
      rw [LSMTree.compactOne, LSMTree.beginCompact, hpick]
      dsimp only
      rw [hsrc, hthrows]
      rfl
    | cons first rest =>
      have hfirst : first = [] := by
        rw [SSTableRegistry.level, hlevels] at hsource
        exact hsource
      have hlevel : tree.registry.sstablesAtLevel 0 = .ok [] := by
        rw [SSTableRegistry.sstablesAtLevel, hlevels, hfirst]
        rfl
      left
      rw [LSMTree.compactOne, LSMTree.beginCompact, hpick]
      dsimp only
      rw [hsrc, hlevel]
      rfl

end

/-- The levels once all of one level was merged. -/
theorem Invariant.level_merged {built : Nat → Option Table} {tree : LSMTree}
    (h : Invariant built tree) {info : SSTableInfo} {source : Nat}
    (hfits : info.level + 1 < 2 ^ 32) (hlevel : info.level ≠ source)
    (hid : ∀ old ∈ tree.registry.entries, old.id ≠ info.id) (level : Nat) :
    ((tree.registry.add info).removeAll (tree.registry.level source)).level level =
      if level = source then []
      else tree.registry.level level ++ if info.level = level then [info] else [] := by
  have hknown : ∀ {l : Nat} {old : SSTableInfo}, old ∈ tree.registry.level l →
      old ∈ tree.registry.entries := SSTableRegistry.mem_entries_of_level
  have hinfo : info.id ∉ (tree.registry.level source).map SSTableInfo.id := by
    intro hmem
    obtain ⟨old, hold, heq⟩ := List.mem_map.mp hmem
    exact hid old (hknown hold) heq
  rw [SSTableRegistry.level, SSTableRegistry.getD_removeAll, SSTableRegistry.getD_add _ hfits,
    List.filter_append]
  have hnew : (if info.level = level then [info] else []).filter
      (fun other => decide (other.id ∉ (tree.registry.level source).map SSTableInfo.id)) =
      if info.level = level then [info] else [] := by
    split
    · rw [List.filter_cons, if_pos (decide_eq_true hinfo)]
      rfl
    · rfl
  rw [hnew]
  by_cases hsource : level = source
  · rw [if_pos hsource, hsource, if_neg hlevel, List.append_nil, List.filter_eq_nil_iff]
    intro old hold hnot
    exact of_decide_eq_true hnot (List.mem_map_of_mem hold)
  · rw [if_neg hsource]
    congr 1
    apply List.filter_eq_self.mpr
    intro old hold
    apply decide_eq_true
    intro hmem
    obtain ⟨other, hother, heq⟩ := List.mem_map.mp hmem
    have hsame := h.entries_of_id (hknown hother) (hknown hold) heq
    have hl := h.filed level old hold
    have hl' := h.filed source other hother
    rw [hsame, hl] at hl'
    exact hsource hl'

/-! ## The levels as a pass finds them -/

/-- An SSTable: what it was built of, and its size. -/
abbrev Held : Type := Table × Nat

/-- The SSTable that a memtable is flushed to. -/
def flushedHeld (tree : LSMTree) (imm : ImmutableMemTable) : Held :=
  (flushTable tree imm,
    ((flushTable tree imm).files tree.schema (sparseIndexOptions tree.config)).sizeBytes)

/-- What the registry has on a level. Memtables that wait for their flush are on level 0. -/
def heldAt (built : Nat → Option Table) (tree : LSMTree) (level : Nat) : List Held :=
  ((tree.registry.level level).filterMap fun info =>
    (built info.id).map fun t => (t, info.fileSizeBytes)) ++
  if level = 0 then tree.memoryLayer.immutables.map (flushedHeld tree) else []

/-- `CompactionPolicy::pick` takes the level to be due. -/
def dueLevel (config : StorageConfig) (level : Nat) (held : List Held) : Bool :=
  if level = 0 then decide (config.level0CompactionTrigger ≤ held.length)
  else !held.isEmpty &&
    decide (CompactionPolicy.levelThreshold config level < u64 (held.map Prod.snd).sum)

/-- All SSTables of a level merged. -/
def mergedHeld (tree : LSMTree) (level : Nat) (held : List Held) : Held :=
  let t := mergeTable tree (nextLayout tree.config level) (held.map Prod.fst)
  (t, (t.files tree.schema (sparseIndexOptions tree.config)).sizeBytes)

/-- The levels that one pass down the levels finds due, each with what the merge of the level
above left on it. -/
def emptiedLevels (built : Nat → Option Table) (tree : LSMTree) : Set Nat :=
  Cascade.emptied (dueLevel tree.config) (mergedHeld tree) (heldAt built tree)

theorem dueLevel_nil {config : StorageConfig} (htrigger : 1 ≤ config.level0CompactionTrigger)
    (level : Nat) : dueLevel config level [] = false := by
  unfold dueLevel
  split
  · exact decide_eq_false (by rw [List.length_nil]; omega)
  · rfl

section

variable {built built' : Nat → Option Table} {tree tree' : LSMTree}

/-- Every SSTable of a level is known. -/
private theorem tables_level (h : Invariant built tree) (level : Nat) :
    ∀ info ∈ tree.registry.level level, ∃ t, built info.id = some t := by
  intro info hinfo
  obtain ⟨t, ht, -⟩ := h.exists_built (SSTableRegistry.mem_entries_of_level hinfo)
  exact ⟨t, ht⟩

private theorem map_held {built : Nat → Option Table} {infos : List SSTableInfo}
    (h : ∀ info ∈ infos, ∃ t, built info.id = some t) :
    (infos.filterMap fun info => (built info.id).map fun t => (t, info.fileSizeBytes)).map
        Prod.fst = builtTables built infos ∧
      (infos.filterMap fun info => (built info.id).map fun t => (t, info.fileSizeBytes)).map
        Prod.snd = infos.map SSTableInfo.fileSizeBytes := by
  induction infos with
  | nil => exact ⟨rfl, rfl⟩
  | cons info infos ih =>
    obtain ⟨hinfo, hinfos⟩ := List.forall_mem_cons.mp h
    obtain ⟨t, ht⟩ := hinfo
    obtain ⟨hfirsts, hseconds⟩ := ih hinfos
    have hbuilt : builtTables built (info :: infos) = t :: builtTables built infos := by
      simp only [builtTables, List.filterMap_cons, ht]
    simp only [List.filterMap_cons, ht, Option.map_some, List.map_cons, hfirsts, hseconds, hbuilt,
      and_self]

/-- With an empty queue the policy finds due what the pass does. -/
theorem dueLevel_heldAt (h : Invariant built tree) (hqueue : tree.memoryLayer.immutables = [])
    (level : Nat) : dueLevel tree.config level (heldAt built tree level) =
      if level = 0 then decide (tree.config.level0CompactionTrigger ≤ tree.registry.sstableCount 0)
      else CompactionPolicy.overfull tree.config tree.registry level := by
  obtain ⟨-, hsizes⟩ := map_held (tables_level h level)
  have hheld : heldAt built tree level = (tree.registry.level level).filterMap fun info =>
      (built info.id).map fun t => (t, info.fileSizeBytes) := by
    rw [heldAt, hqueue, List.map_nil, ite_self, List.append_nil]
  have hlength := congrArg List.length hsizes
  rw [List.length_map, List.length_map] at hlength
  rw [dueLevel, hheld]
  split
  · rename_i hzero
    subst hzero
    rw [hlength]
    rfl
  · rw [CompactionPolicy.overfull, hsizes]
    have hempty : ((tree.registry.level level).filterMap fun info =>
        (built info.id).map fun t => (t, info.fileSizeBytes)).isEmpty =
        (tree.registry.level level).isEmpty := by
      rw [Bool.eq_iff_iff, List.isEmpty_iff_length_eq_zero, List.isEmpty_iff_length_eq_zero,
        hlength]
    rw [hempty]

/-- What is picked is the first level that the pass finds due. -/
theorem leastDue_of_picked (h : Invariant built tree)
    (hqueue : tree.memoryLayer.immutables = []) {task : CompactionTask}
    (hpicked : Picked tree.config tree.registry task) :
    Cascade.LeastDue (dueLevel tree.config) (heldAt built tree) task.srcLevel := by
  constructor
  · rw [dueLevel_heldAt h hqueue]
    split
    · rename_i hzero
      exact decide_eq_true (hpicked.many hzero)
    · rename_i hzero
      exact hpicked.large hzero
  · intro lower hlower
    rw [dueLevel_heldAt h hqueue]
    split
    · exact decide_eq_false (not_le.mpr (hpicked.few (by omega)))
    · exact hpicked.first lower (by omega) hlower

/-- Nothing is picked where the pass finds nothing due. -/
theorem emptiedLevels_of_quiet (h : Invariant built tree)
    (hqueue : tree.memoryLayer.immutables = []) (hcount : tree.registry.levelCount < 2 ^ 32)
    (hpick : CompactionPolicy.pick tree.config tree.registry = none) :
    emptiedLevels built tree = ∅ := by
  apply Cascade.emptied_eq_empty_iff.mpr
  intro level
  rw [dueLevel_heldAt h hqueue]
  unfold CompactionPolicy.pick at hpick
  split at hpick
  · cases hpick
  rename_i hfew
  rw [Option.map_eq_none_iff, u32_of_lt hcount, List.find?_eq_none] at hpick
  split
  · exact decide_eq_false hfew
  · rename_i hzero
    by_cases hlevel : level < tree.registry.levelCount
    · exact Bool.eq_false_iff.mpr (hpick level (List.mem_range'_1.mpr (by omega)))
    · have hnone : tree.registry.levels.getD level [] = [] :=
        List.getD_eq_default _ _ (not_lt.mp hlevel)
      rw [CompactionPolicy.overfull, hnone]
      rfl

end

/-! ## Whole flushes and compactions -/

/-- A whole flush or compaction: it has built a table under the next id. -/
structure Rounded (built built' : Nat → Option Table) (tree tree' : LSMTree) (t : Table) :
    Prop where
  schema : tree'.schema = tree.schema
  config : tree'.config = tree.config
  next : tree'.nextSstId = tree.nextSstId + 1
  table : built' tree.nextSstId = some t
  others : ∀ id < tree.nextSstId, built' id = built id

section

variable {built built' : Nat → Option Table} {tree tree' : LSMTree} {t : Table}

/-- The SSTables that were there hold what they held. -/
private theorem Rounded.held (h : Rounded built built' tree tree' t) (hinv : Invariant built tree)
    (level : Nat) : ((tree.registry.level level).filterMap fun info =>
      (built' info.id).map fun t => (t, info.fileSizeBytes)) =
    (tree.registry.level level).filterMap fun info =>
      (built info.id).map fun t => (t, info.fileSizeBytes) := by
  apply List.filterMap_congr
  intro info hinfo
  rw [h.others info.id (hinv.issued info (SSTableRegistry.mem_entries_of_level hinfo))]

private theorem Rounded.flushedHeld (h : Rounded built built' tree tree' t) :
    flushedHeld tree' = flushedHeld tree := by
  funext imm
  rw [Tree.flushedHeld, Tree.flushedHeld, flushTable, flushTable, h.schema, h.config]

theorem Rounded.mergedHeld (h : Rounded built built' tree tree' t) :
    mergedHeld tree' = mergedHeld tree := by
  funext level held
  rw [Tree.mergedHeld, Tree.mergedHeld, mergeTable, mergeTable, h.schema, h.config]

/-- A flush leaves the levels as the pass finds them: the first memtable of the queue counted
as an SSTable already. -/
theorem heldAt_flushed {imm : ImmutableMemTable} {rest : List ImmutableMemTable}
    (h : Rounded built built' tree tree' (flushTable tree imm)) (hinv : Invariant built tree)
    (hqueue : tree.memoryLayer.immutables = imm :: rest)
    (hrest : tree'.memoryLayer.immutables = rest) (hregistry : tree'.registry =
      tree.registry.add (tableInfo tree tree.nextSstId 0 (flushTable tree imm))) :
    heldAt built' tree' = heldAt built tree := by
  funext level
  have hlevel : tree'.registry.level level = tree.registry.level level ++
      if 0 = level then [tableInfo tree tree.nextSstId 0 (flushTable tree imm)] else [] := by
    rw [hregistry, SSTableRegistry.level, SSTableRegistry.getD_add _ (by norm_num : 0 + 1 < 2 ^ 32)]
    rfl
  rw [heldAt, heldAt, hlevel, List.filterMap_append, h.held hinv, h.flushedHeld, hrest, hqueue]
  by_cases hzero : level = 0
  · subst hzero
    have hnew : (built' (tableInfo tree tree.nextSstId 0 (flushTable tree imm)).id) =
        some (flushTable tree imm) := h.table
    rw [if_pos rfl, if_pos rfl, if_pos rfl, List.filterMap_cons, hnew, List.append_assoc]
    rfl
  · rw [if_neg (Ne.symm hzero), if_neg hzero, if_neg hzero, List.filterMap_nil, List.append_nil]

/-- A compaction moves a level into the next. -/
theorem heldAt_compacted {task : CompactionTask}
    (h : Rounded built built' tree tree'
      (mergeTable tree (nextLayout tree.config task.srcLevel)
        (builtTables built (tree.registry.level task.srcLevel)))) (hinv : Invariant built tree)
    (hqueue : tree.memoryLayer.immutables = []) (hqueue' : tree'.memoryLayer.immutables = [])
    {info : SSTableInfo} (hinfo : info = tableInfo tree tree.nextSstId (task.srcLevel + 1)
      (mergeTable tree (nextLayout tree.config task.srcLevel)
        (builtTables built (tree.registry.level task.srcLevel))))
    (hlevels : ∀ level, tree'.registry.level level = if level = task.srcLevel then []
      else tree.registry.level level ++ if info.level = level then [info] else []) :
    heldAt built' tree' = Cascade.moved (mergedHeld tree) (heldAt built tree) task.srcLevel := by
  funext level
  have hheld : ∀ l, heldAt built tree l = (tree.registry.level l).filterMap fun info =>
      (built info.id).map fun t => (t, info.fileSizeBytes) := by
    intro l
    rw [heldAt, hqueue, List.map_nil, ite_self, List.append_nil]
  have hdst : info.level = task.srcLevel + 1 := by rw [hinfo]; rfl
  rw [heldAt, hqueue', List.map_nil, ite_self, List.append_nil, hlevels, Cascade.moved]
  split
  · rfl
  rw [List.filterMap_append, h.held hinv, hdst, hheld level]
  by_cases hnext : level = task.srcLevel + 1
  · have hnew : built' info.id = some (mergeTable tree (nextLayout tree.config task.srcLevel)
        (builtTables built (tree.registry.level task.srcLevel))) := by
      rw [hinfo]
      exact h.table
    rw [if_pos hnext.symm, if_pos hnext, List.filterMap_cons, hnew, Tree.mergedHeld,
      hheld task.srcLevel,
      (map_held (tables_level hinv task.srcLevel)).1, hinfo]
    rfl
  · rw [if_neg (Ne.symm hnext), if_neg hnext, List.filterMap_nil, List.append_nil]

end

namespace Session

variable {built : Nat → Option Table} {s : Session}

/-- A flush of a session with no job on its way succeeds, and takes the front of the queue to
level 0. -/
theorem Sound.flushOne_ok (h : Sound built s) (hidle : s.jobs = [])
    (hids : s.tree.nextSstId + 2 < 2 ^ 32) {imm : ImmutableMemTable}
    {rest : List ImmutableMemTable} (hqueue : s.tree.memoryLayer.immutables = imm :: rest)
    (hio : Result.IoSucceeds s.tree.flushOne) :
    ∃ tree issued built', s.tree.flushOne = .ok (true, tree) ∧
      Sound built' { s with tree := tree, issued := issued } ∧
      Rounded built built' s.tree tree (flushTable s.tree imm) ∧
      tree.memoryLayer.immutables = rest ∧ tree.registry =
        s.tree.registry.add (tableInfo s.tree s.tree.nextSstId 0 (flushTable s.tree imm)) := by
  have hnext : u64 (s.tree.nextSstId + 1) = s.tree.nextSstId + 1 := u64_of_lt (by omega)
  rcases beginFlush_cases s.tree with
    ⟨hnone, -⟩ | ⟨imm', rest', hfront, hempty, -⟩ | ⟨imm', rest', hfront, hne, heq⟩
  · rw [hqueue] at hnone
    cases hnone
  · exact absurd hempty (h.frozen imm' (hfront ▸ List.mem_cons_self))
  rw [hqueue] at hfront
  cases hfront
  rw [hnext] at heq
  obtain ⟨built', hextends, hworking, -, -, -⟩ := h.toWorking.beginFlush heq
    (by rw [Alone, hidle]; exact le_rfl) (h.bounded.moved rfl hids)
  rw [hidle] at hworking
  have hjobs : ∀ job : Job, [job] = [] ++ job :: [] := fun _ => rfl
  have hjob : JobGood built' _ (.flush ⟨imm, s.tree.nextSstId⟩) :=
    hworking.jobs (.flush _) (List.mem_singleton_self _)
  have htable : built' s.tree.nextSstId = some (flushTable s.tree imm) := hjob.table
  have hfew := hworking.few
  rw [LSMTree.flushOne, heq] at hio ⊢
  have hwrite := (hworking.invariant.writeFlush_returns (by omega) hjob).eq_ok
    (IoSucceeds.of_bind hio)
  obtain ⟨hworking, -, -⟩ := hworking.writeFlush (hjobs _) hwrite
  have hjob' : JobGood built' _ (.flushed ⟨imm, s.tree.nextSstId⟩ _) :=
    hworking.jobs (.flushed _ _) (List.mem_singleton_self _)
  obtain ⟨htask, -, hstored⟩ := hjob'
  have hfew' := hworking.few
  have hend := hworking.invariant.endFlush (by omega) htask hstored
  obtain ⟨hworking, -, -, -⟩ := hworking.endFlush (hjobs _) hend
  have hsound : Sound built' _ := ⟨hworking, fun _ => saved_manifested _⟩
  refine ⟨_, s.tree.nextSstId :: s.issued, built',
    Result.bind_eq_ok.mpr ⟨_, hwrite, Result.bind_eq_ok.mpr ⟨_, hend, rfl⟩⟩, ?_,
    ⟨rfl, rfl, rfl, htable, hextends.same⟩, ?_, rfl⟩
  · rw [hidle]
    exact hsound
  · exact congrArg List.tail hqueue

/-- A compaction that was picked succeeds, and merges a level into the next. -/
theorem Sound.compactOne_ok (h : Sound built s) (hidle : s.jobs = [])
    (hids : s.tree.nextSstId + 2 < 2 ^ 32) {task : CompactionTask}
    (hpick : CompactionPolicy.pick s.tree.config s.tree.registry = some task)
    (hsource : s.tree.registry.level task.srcLevel ≠ [])
    (hio : Result.IoSucceeds s.tree.compactOne) :
    ∃ tree issued built', s.tree.compactOne = .ok (true, tree) ∧
      Sound built' { s with tree := tree, issued := issued } ∧
      Rounded built built' s.tree tree (mergeTable s.tree task.outputLayout
        (builtTables built (s.tree.registry.level task.srcLevel))) ∧
      tree.memoryLayer = s.tree.memoryLayer ∧ tree.registry =
        (s.tree.registry.add (tableInfo s.tree s.tree.nextSstId task.dstLevel
          (mergeTable s.tree task.outputLayout
            (builtTables built (s.tree.registry.level task.srcLevel))))).removeAll
          (s.tree.registry.level task.srcLevel) := by
  have hnext : u64 (s.tree.nextSstId + 1) = s.tree.nextSstId + 1 := u64_of_lt (by omega)
  have hbegin := beginCompact_of_pick hpick hsource
  rw [hnext] at hbegin
  obtain ⟨built', hextends, hworking, -, -, -⟩ := h.toWorking.beginCompact hbegin
    (by rw [Alone, hidle]; exact le_rfl) (h.bounded.moved rfl hids)
  rw [hidle] at hworking
  have hjobs : ∀ job : Job, [job] = [] ++ job :: [] := fun _ => rfl
  have hjob : JobGood built' _ (.compact _) :=
    hworking.jobs (.compact _) (List.mem_singleton_self _)
  obtain ⟨htask, -⟩ := hjob
  have htables : builtTables built' (s.tree.registry.level task.srcLevel) =
      builtTables built (s.tree.registry.level task.srcLevel) := by
    apply List.filterMap_congr
    intro info hinfo
    have hknown := SSTableRegistry.mem_entries_of_level hinfo
    exact hextends.same info.id (h.invariant.issued info hknown)
  have htable : built' s.tree.nextSstId = some (mergeTable s.tree task.outputLayout
      (builtTables built' (s.tree.registry.level task.srcLevel))) := htask.table
  rw [LSMTree.compactOne, hbegin, Result.ok_bind] at hio ⊢
  have hwrite := (hworking.invariant.writeCompact_returns hworking.few htask).eq_ok
    (IoSucceeds.of_bind hio)
  obtain ⟨hworking, -, -⟩ := hworking.writeCompact (hjobs _) hwrite
  have hjob' : JobGood built' _ (.compacted _ _) :=
    hworking.jobs (.compacted _ _) (List.mem_singleton_self _)
  obtain ⟨htask', -, -, hstored⟩ := hjob'
  have hfew := hworking.few
  have hend := hworking.invariant.endCompact (by omega) htask' hstored
  obtain ⟨hworking, -, -, -⟩ := hworking.endCompact (hjobs _) hend
  have hsound : Sound built' _ := ⟨hworking, fun _ => saved_manifested _⟩
  obtain ⟨hschema, hconfig, hissued⟩ := frame_dropSstables
    (s.tree.registry.level task.srcLevel) _
  rw [← htables]
  refine ⟨_, s.tree.nextSstId :: s.issued, built',
    Result.bind_eq_ok.mpr ⟨_, hwrite, Result.bind_eq_ok.mpr ⟨_, hend, rfl⟩⟩, ?_,
    ⟨hschema, hconfig, hissued, htable, hextends.same⟩, memoryLayer_dropSstables _ _,
    registry_dropSstables _ _⟩
  rw [hidle]
  exact hsound

/-- `flush_one_locked` returns. -/
theorem Sound.flushOne_returns (h : Sound built s) (hidle : s.jobs = [])
    (hids : s.tree.nextSstId + 2 < 2 ^ 32) (hio : Result.IoSucceeds s.tree.flushOne) :
    ∃ done tree, s.tree.flushOne = .ok (done, tree) := by
  cases hqueue : s.tree.memoryLayer.immutables with
  | nil => exact ⟨_, _, flushOne_nothing hqueue⟩
  | cons imm rest =>
    obtain ⟨tree, -, -, hflush, -⟩ := h.flushOne_ok hidle hids hqueue hio
    exact ⟨_, tree, hflush⟩

/-- `compact_one_locked` returns, unless level 0 is due where there are no levels yet. -/
theorem Sound.compactOne_returns (h : Sound built s) (hidle : s.jobs = [])
    (hids : s.tree.nextSstId + 2 < 2 ^ 32) (hio : Result.IoSucceeds s.tree.compactOne) :
    (∃ done tree, s.tree.compactOne = .ok (done, tree)) ∨
      (s.tree.config.level0CompactionTrigger = 0 ∧ s.tree.registry.levels = [] ∧
        s.tree.compactOne = .error (.outOfRange "Invalid LSM level")) := by
  rcases compactOne_cases s.tree with ⟨task, hpick, hsource⟩ | hnothing | hthrows
  · obtain ⟨tree, -, -, hcompact, -⟩ := h.compactOne_ok hidle hids hpick hsource hio
    exact Or.inl ⟨_, tree, hcompact⟩
  · exact Or.inl ⟨_, _, hnothing⟩
  · exact Or.inr hthrows

end Session

end Htap.Tree
