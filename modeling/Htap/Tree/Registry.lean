import Htap.SSTable.Format

/-!
`SSTableRegistry`, the SSTables of a table by level, and `CompactionPolicy`,
which picks the level whose SSTables are merged next.
-/

namespace Htap.Tree

open Storage SSTable Words

structure SSTableRegistry where
  levels : List (List SSTableInfo) := []
  deriving DecidableEq

namespace SSTableRegistry

def levelCount (r : SSTableRegistry) : Nat := r.levels.length

def sstableCount (r : SSTableRegistry) (level : Nat) : Nat := (r.levels.getD level []).length

/-- `std::vector::resize`. -/
def resize (levels : List (List SSTableInfo)) (count : Nat) : List (List SSTableInfo) :=
  levels.take count ++ List.replicate (count - levels.length) []

/-- The new number of levels is computed in `uint32_t`. Past the last level
nothing is pushed; the source has undefined behaviour there. -/
def add (r : SSTableRegistry) (info : SSTableInfo) : SSTableRegistry :=
  let levels :=
    if r.levels.length ≤ info.level then resize r.levels (u32 (info.level + 1)) else r.levels
  ⟨levels.modify info.level (· ++ [info])⟩

def remove (r : SSTableRegistry) (sstId : Nat) : SSTableRegistry :=
  ⟨r.levels.map fun level => level.filter fun info => info.id ≠ sstId⟩

def sstablesAtLevel (r : SSTableRegistry) (level : Nat) : Result (List SSTableInfo) :=
  match r.levels[level]? with
  | some sstables => .ok sstables
  | none => .error (.outOfRange "Invalid LSM level")

def overlapping (r : SSTableRegistry) (level : Nat) (fromKey toKey : Option Key) :
    List SSTableInfo :=
  (r.levels.getD level []).filter fun sst =>
    !(fromKey.any fun f => decide (sst.maxKey < f)) && !(toKey.any fun t => decide (t ≤ sst.minKey))

/-- All SSTables, level by level. -/
def entries (r : SSTableRegistry) : List SSTableInfo := r.levels.flatten

/-- Every SSTable is filed under its own level. -/
def Filed (r : SSTableRegistry) : Prop :=
  ∀ level, ∀ info ∈ r.levels.getD level [], info.level = level

theorem Filed.level_lt {r : SSTableRegistry} (h : r.Filed) {info : SSTableInfo}
    (hinfo : info ∈ r.entries) : info.level < r.levelCount := by
  obtain ⟨sstables, hlevel, hinfo⟩ := List.mem_flatten.mp hinfo
  obtain ⟨level, hlt, rfl⟩ := List.getElem_of_mem hlevel
  have heq : info.level = level := h level info (by rwa [List.getD_eq_getElem _ _ hlt])
  rw [heq]
  exact hlt

/-! ## Adding and removing -/

private theorem flatten_modify (levels : List (List SSTableInfo)) {level : Nat}
    (hlevel : level < levels.length) (info : SSTableInfo) :
    (levels.modify level (· ++ [info])).flatten.Perm (info :: levels.flatten) := by
  induction levels generalizing level with
  | nil => simp at hlevel
  | cons first levels ih =>
    cases level with
    | zero =>
      rw [List.modify_zero_cons, List.flatten_cons, List.flatten_cons, List.append_assoc]
      exact List.perm_middle
    | succ level =>
      rw [List.modify_succ_cons, List.flatten_cons, List.flatten_cons]
      exact ((ih (Nat.lt_of_succ_lt_succ hlevel)).append_left first).trans List.perm_middle

/-- The levels after room was made for `level`. -/
def widened (r : SSTableRegistry) (level : Nat) : List (List SSTableInfo) :=
  r.levels ++ List.replicate (level + 1 - r.levels.length) []

private theorem add_levels (r : SSTableRegistry) {info : SSTableInfo}
    (hlevel : info.level + 1 < 2 ^ 32) :
    (r.add info).levels = (r.widened info.level).modify info.level (· ++ [info]) := by
  unfold add widened resize
  dsimp only
  rw [u32_of_lt hlevel]
  split
  · rename_i hle
    rw [List.take_of_length_le (by omega)]
  · rename_i hlt
    rw [show info.level + 1 - r.levels.length = 0 by omega, List.replicate_zero, List.append_nil]

private theorem length_widened (r : SSTableRegistry) (level : Nat) :
    (r.widened level).length = max r.levelCount (level + 1) := by
  rw [widened, List.length_append, List.length_replicate, levelCount]
  omega

theorem levelCount_add (r : SSTableRegistry) {info : SSTableInfo}
    (hlevel : info.level + 1 < 2 ^ 32) :
    (r.add info).levelCount = max r.levelCount (info.level + 1) := by
  rw [levelCount, add_levels r hlevel, List.length_modify, length_widened]

/-- While the levels can be counted, adding adds one SSTable. -/
theorem entries_add (r : SSTableRegistry) {info : SSTableInfo}
    (hlevel : info.level + 1 < 2 ^ 32) : (r.add info).entries.Perm (info :: r.entries) := by
  have hlt : info.level < (r.widened info.level).length := by
    rw [length_widened]
    omega
  have hflat : (r.widened info.level).flatten = r.entries := by
    rw [widened, List.flatten_append, List.flatten_replicate_nil, List.append_nil, entries]
  rw [entries, add_levels r hlevel, ← hflat]
  exact flatten_modify _ hlt info

private theorem getD_resize (levels : List (List SSTableInfo)) (count i : Nat) :
    (resize levels count).getD i [] = if i < count then levels.getD i [] else [] := by
  simp only [resize, List.getD_eq_getElem?_getD]
  by_cases hi : i < levels.length ∧ i < count
  · rw [List.getElem?_append_left (by simp [hi.1, hi.2]), List.getElem?_take_of_lt hi.2,
      if_pos hi.2]
  · rw [List.getElem?_append_right (by simp only [List.length_take]; omega),
      List.getElem?_replicate]
    by_cases hcount : i < count
    · rw [if_pos hcount, List.getElem?_eq_none (not_lt.mp fun h => hi ⟨h, hcount⟩)]
      split <;> rfl
    · rw [if_neg hcount]
      split <;> rfl

private theorem getD_modify (levels : List (List SSTableInfo)) (level i : Nat)
    (info : SSTableInfo) :
    (levels.modify level (· ++ [info])).getD i [] =
      levels.getD i [] ++ if level = i ∧ i < levels.length then [info] else [] := by
  rw [List.getD_eq_getElem?_getD, List.getElem?_modify, List.getD_eq_getElem?_getD]
  by_cases hi : i < levels.length
  · rw [List.getElem?_eq_getElem hi]
    by_cases heq : level = i <;> simp [heq, hi]
  · rw [List.getElem?_eq_none (not_lt.mp hi), if_neg fun h => hi h.2]
    rfl

/-- Adding appends to the level of the SSTable, and to no other. -/
theorem getD_add (r : SSTableRegistry) {info : SSTableInfo} (hlevel : info.level + 1 < 2 ^ 32)
    (i : Nat) :
    (r.add info).levels.getD i [] =
      r.levels.getD i [] ++ if info.level = i then [info] else [] := by
  have hwide : (r.widened info.level).getD i [] = r.levels.getD i [] := by
    rw [widened, List.getD_eq_getElem?_getD, List.getD_eq_getElem?_getD, List.getElem?_append,
      List.getElem?_replicate]
    split
    · rfl
    · rename_i hi
      rw [List.getElem?_eq_none (not_lt.mp hi)]
      split <;> rfl
  rw [add_levels r hlevel, getD_modify, hwide, length_widened]
  by_cases heq : info.level = i
  · rw [if_pos heq, if_pos ⟨heq, by omega⟩]
  · rw [if_neg heq, if_neg fun h => heq h.1]

/-- Also when the number of levels is lost, nothing is filed where it does not
belong. -/
theorem Filed.add {r : SSTableRegistry} (h : r.Filed) (info : SSTableInfo) :
    (r.add info).Filed := by
  intro level entry hentry
  have hmem : entry ∈ r.levels.getD level [] ∨ info.level = level ∧ entry = info := by
    unfold SSTableRegistry.add at hentry
    dsimp only at hentry
    rw [getD_modify, List.mem_append] at hentry
    rcases hentry with hold | hnew
    · left
      split at hold
      · rw [getD_resize] at hold
        split at hold
        · exact hold
        · cases hold
      · exact hold
    · rw [List.mem_ite_nil_right, List.mem_singleton] at hnew
      exact Or.inr ⟨hnew.1.1, hnew.2⟩
  rcases hmem with hold | ⟨hlevel, rfl⟩
  · exact h level entry hold
  · exact hlevel

/-- Also when the number of levels is lost, adding an SSTable adds no other. -/
theorem mem_entries_add {r : SSTableRegistry} {info other : SSTableInfo}
    (h : other ∈ (r.add info).entries) : other = info ∨ other ∈ r.entries := by
  obtain ⟨infos, hinfos, hother⟩ := List.mem_flatten.mp h
  obtain ⟨level, hlevel, hget⟩ := List.getElem_of_mem hinfos
  have hentry : other ∈ (r.add info).levels.getD level [] := by
    rw [List.getD_eq_getElem _ _ hlevel, hget]
    exact hother
  have hold : ∀ i, other ∈ r.levels.getD i [] → other ∈ r.entries := by
    intro i hi
    rw [List.getD_eq_getElem?_getD] at hi
    cases hfound : r.levels[i]? with
    | none =>
      rw [hfound] at hi
      cases hi
    | some kept =>
      rw [hfound] at hi
      exact List.mem_flatten_of_mem (List.mem_of_getElem? hfound) hi
  unfold SSTableRegistry.add at hentry
  dsimp only at hentry
  rw [getD_modify, List.mem_append] at hentry
  rcases hentry with hkept | hnew
  · right
    split at hkept
    · rw [getD_resize] at hkept
      split at hkept
      · exact hold level hkept
      · cases hkept
    · exact hold level hkept
  · rw [List.mem_ite_nil_right, List.mem_singleton] at hnew
    exact Or.inl hnew.2

theorem entries_remove (r : SSTableRegistry) (sstId : Nat) :
    (r.remove sstId).entries = r.entries.filter fun info => info.id ≠ sstId := by
  rw [entries, remove, entries, List.filter_flatten]

theorem Filed.remove {r : SSTableRegistry} (h : r.Filed) (sstId : Nat) :
    (r.remove sstId).Filed := by
  intro level entry hentry
  apply h level
  simp only [SSTableRegistry.remove, List.getD_eq_getElem?_getD, List.getElem?_map] at hentry ⊢
  cases hfound : r.levels[level]? with
  | none => simp [hfound] at hentry
  | some sstables =>
    simp only [hfound, Option.map_some, Option.getD_some] at hentry ⊢
    exact List.mem_of_mem_filter hentry

@[simp] theorem levelCount_remove (r : SSTableRegistry) (sstId : Nat) :
    (r.remove sstId).levelCount = r.levelCount := List.length_map _

/-- Removing several SSTables one after another. -/
def removeAll (r : SSTableRegistry) (ssts : List SSTableInfo) : SSTableRegistry :=
  ssts.foldl (fun r sst => r.remove sst.id) r

theorem entries_removeAll (r : SSTableRegistry) (ssts : List SSTableInfo) :
    (r.removeAll ssts).entries =
      r.entries.filter fun info => info.id ∉ ssts.map SSTableInfo.id := by
  induction ssts generalizing r with
  | nil => simp [removeAll]
  | cons sst ssts ih =>
    have hstep : r.removeAll (sst :: ssts) = (r.remove sst.id).removeAll ssts := rfl
    rw [hstep, ih, entries_remove, List.filter_filter]
    apply List.filter_congr
    intro info _
    by_cases h : info.id = sst.id <;> simp [h]

theorem getD_removeAll (r : SSTableRegistry) (ssts : List SSTableInfo) (level : Nat) :
    (r.removeAll ssts).levels.getD level [] =
      (r.levels.getD level []).filter fun info => info.id ∉ ssts.map SSTableInfo.id := by
  induction ssts generalizing r with
  | nil => simp [removeAll]
  | cons sst ssts ih =>
    have hstep : r.removeAll (sst :: ssts) = (r.remove sst.id).removeAll ssts := rfl
    have hremove : (r.remove sst.id).levels.getD level [] =
        (r.levels.getD level []).filter fun info => info.id ≠ sst.id := by
      rw [remove, List.getD_eq_getElem?_getD, List.getElem?_map, List.getD_eq_getElem?_getD]
      cases r.levels[level]? <;> rfl
    rw [hstep, ih, hremove, List.filter_filter]
    apply List.filter_congr
    intro info _
    by_cases h : info.id = sst.id <;> simp [h]

theorem Filed.removeAll {r : SSTableRegistry} (h : r.Filed) (ssts : List SSTableInfo) :
    (r.removeAll ssts).Filed := by
  induction ssts generalizing r with
  | nil => exact h
  | cons sst ssts ih => exact ih (h.remove sst.id)

@[simp] theorem levelCount_removeAll (r : SSTableRegistry) (ssts : List SSTableInfo) :
    (r.removeAll ssts).levelCount = r.levelCount := by
  induction ssts generalizing r with
  | nil => rfl
  | cons sst ssts ih => exact (ih (r.remove sst.id)).trans (levelCount_remove r sst.id)

/-! ## Registries the code can hold -/

/-- An empty registry after any additions and removals. -/
inductive Reachable : SSTableRegistry → Prop where
  | empty : Reachable {}
  | add {r : SSTableRegistry} (h : Reachable r) (info : SSTableInfo) : Reachable (r.add info)
  | remove {r : SSTableRegistry} (h : Reachable r) (sstId : Nat) : Reachable (r.remove sstId)

theorem filed_empty : Filed {} := by
  intro level info hinfo
  simp at hinfo

theorem Reachable.filed {r : SSTableRegistry} (h : r.Reachable) : r.Filed := by
  induction h with
  | empty => exact filed_empty
  | add _ info ih => exact ih.add info
  | remove _ sstId ih => exact ih.remove sstId

/-- Levels are counted in 32 bits. -/
theorem Reachable.levelCount_lt {r : SSTableRegistry} (h : r.Reachable) :
    r.levelCount < 2 ^ 32 := by
  induction h with
  | empty => exact Nat.two_pow_pos 32
  | add _ info ih =>
    unfold SSTableRegistry.add levelCount
    dsimp only
    rw [List.length_modify]
    split
    · rename_i hle
      have hcount := u32_lt (info.level + 1)
      unfold levelCount at ih
      rw [resize, List.length_append, List.length_take, List.length_replicate]
      omega
    · exact ih
  | remove _ sstId ih => rwa [levelCount_remove]

theorem Reachable.level_lt {r : SSTableRegistry} (h : r.Reachable) {info : SSTableInfo}
    (hinfo : info ∈ r.entries) : info.level + 1 < 2 ^ 32 := by
  have hlevel := h.filed.level_lt hinfo
  have hcount := h.levelCount_lt
  omega

/-- A level of a registry is made of the SSTables that name it, in their order. -/
theorem Filed.filter_entries {r : SSTableRegistry} (h : r.Filed) (level : Nat) :
    (r.entries.filter fun info => info.level = level) = r.levels.getD level [] := by
  obtain ⟨levels⟩ := r
  have hall : ∀ start : Nat,
      (∀ i, ∀ info ∈ levels.getD i [], info.level = start + i) → ∀ i,
      (levels.flatten.filter fun info => info.level = start + i) = levels.getD i [] := by
    clear h
    induction levels with
    | nil => simp
    | cons first levels ih =>
      intro start hstart i
      have hrest := ih (start + 1) fun j info hinfo => by
        rw [hstart (j + 1) info hinfo]
        omega
      have hfirst : ∀ info ∈ first, info.level = start := hstart 0
      rw [List.flatten_cons, List.filter_append]
      cases i with
      | zero =>
        have hnone : (levels.flatten.filter fun info => info.level = start) = [] := by
          refine List.filter_eq_nil_iff.mpr fun info hinfo => ?_
          obtain ⟨sstables, hlevel, hin⟩ := List.mem_flatten.mp hinfo
          obtain ⟨j, hj, rfl⟩ := List.getElem_of_mem hlevel
          have heq := hstart (j + 1) info (by simpa [hj] using hin)
          simp [heq]
        rw [Nat.add_zero, hnone, List.append_nil,
          List.filter_eq_self.mpr fun info hinfo => by simp [hfirst info hinfo]]
        rfl
      | succ i =>
        have hnone : (first.filter fun info => info.level = start + (i + 1)) = [] :=
          List.filter_eq_nil_iff.mpr fun info hinfo => by simp [hfirst info hinfo]
        rw [hnone, List.nil_append, show start + (i + 1) = start + 1 + i by omega, hrest i]
        rfl
  have hlevel := hall 0 (fun i info hinfo => by rw [h i info hinfo, Nat.zero_add]) level
  simpa [entries] using hlevel

/-- Adding SSTables one after another appends to each level those that name it. -/
theorem getD_foldl_add (infos : List SSTableInfo) (r : SSTableRegistry)
    (hlevel : ∀ info ∈ infos, info.level + 1 < 2 ^ 32) (level : Nat) :
    (infos.foldl add r).levels.getD level [] =
      r.levels.getD level [] ++ infos.filter fun info => info.level = level := by
  induction infos generalizing r with
  | nil => simp
  | cons info infos ih =>
    rw [List.foldl_cons, ih _ fun e he => hlevel e (List.mem_cons_of_mem info he),
      r.getD_add (hlevel info List.mem_cons_self), List.append_assoc]
    congr 1
    by_cases heq : info.level = level <;> simp [heq]

private theorem flatten_eq_of_getD {levels levels' : List (List SSTableInfo)}
    (h : ∀ level, levels.getD level [] = levels'.getD level []) :
    levels.flatten = levels'.flatten := by
  induction levels generalizing levels' with
  | nil =>
    symm
    rw [List.flatten_nil, List.flatten_eq_nil_iff]
    intro sstables hsstables
    obtain ⟨level, hlt, rfl⟩ := List.getElem_of_mem hsstables
    rw [← List.getD_eq_getElem _ [] hlt, ← h level]
    rfl
  | cons first levels ih =>
    have hfirst : first = levels'.getD 0 [] := h 0
    have hrest : levels.flatten = levels'.tail.flatten := by
      apply ih
      intro level
      have hlevel : levels.getD level [] = levels'.getD (level + 1) [] := h (level + 1)
      rw [hlevel]
      cases levels' with
      | nil => rfl
      | cons first' levels' => rfl
    rw [List.flatten_cons, hrest, hfirst]
    cases levels' with
    | nil => rfl
    | cons first' levels' => rfl

/-- Trailing levels that are empty do not count. -/
theorem entries_eq_of_getD {r r' : SSTableRegistry}
    (h : ∀ level, r.levels.getD level [] = r'.levels.getD level []) : r.entries = r'.entries :=
  flatten_eq_of_getD h

/-! ## What a scan asks for -/

/-- The SSTables whose key bounds meet the range. -/
def meets (range : KeyRange) (sst : SSTableInfo) : Bool :=
  !(range.fromKey.any fun f => decide (sst.maxKey < f)) &&
    !(range.toKey.any fun t => decide (t ≤ sst.minKey))

/-- Asking every level in turn finds all SSTables that meet the range. -/
theorem flatMap_overlapping (r : SSTableRegistry) (hcount : r.levelCount ≤ 2 ^ 32)
    (range : KeyRange) :
    ((List.range r.levelCount).flatMap fun level =>
        r.overlapping (u32 level) range.fromKey range.toKey) =
      r.entries.filter (meets range) := by
  have hlevel : ∀ level ∈ List.range r.levelCount,
      r.overlapping (u32 level) range.fromKey range.toKey =
        (r.levels.getD level []).filter (meets range) := by
    intro level hmem
    rw [u32_of_lt ((List.mem_range.mp hmem).trans_le hcount)]
    rfl
  have hall : (List.range r.levelCount).map (fun level => r.levels.getD level []) = r.levels := by
    apply List.ext_getElem
    · simp [levelCount]
    · intro i h1 h2
      simp [h2]
  rw [List.flatMap_congr hlevel, entries, List.filter_flatten, ← List.flatMap_def]
  conv_rhs => rw [← hall, List.flatMap_map]

end SSTableRegistry

/-! ## The compaction policy -/

structure CompactionTask where
  srcLevel : Nat
  dstLevel : Nat
  outputLayout : SSTLayout
  deriving DecidableEq

namespace CompactionPolicy

/-- The size a level may reach, multiplied up in 64 bits. -/
def levelThreshold (config : StorageConfig) (level : Nat) : Nat :=
  u64 (config.baseLevelSizeBytes * config.sizeRatio ^ level)

/-- The level is not empty and its files are larger than it may hold. -/
def overfull (config : StorageConfig) (registry : SSTableRegistry) (level : Nat) : Bool :=
  let sstables := registry.levels.getD level []
  !sstables.isEmpty &&
    decide (levelThreshold config level < u64 (sstables.map SSTableInfo.fileSizeBytes).sum)

def pick (config : StorageConfig) (registry : SSTableRegistry) : Option CompactionTask :=
  if config.level0CompactionTrigger ≤ registry.sstableCount 0 then
    some {
      srcLevel := 0
      dstLevel := 1
      outputLayout := if config.rowToColumnLevel ≤ 1 then .column else .row }
  else
    ((List.range' 1 (u32 registry.levelCount - 1)).find? (overfull config registry)).map
      fun level => {
        srcLevel := level
        dstLevel := u32 (level + 1)
        outputLayout := if config.rowToColumnLevel ≤ u32 (level + 1) then .column else .row }

/-- A task moves a level, which exists unless it is the first, one level down. -/
theorem of_pick {config : StorageConfig} {registry : SSTableRegistry} {task : CompactionTask}
    (hcount : registry.levelCount + 1 < 2 ^ 32) (h : pick config registry = some task) :
    task.dstLevel = task.srcLevel + 1 ∧
      (task.srcLevel = 0 ∨ task.srcLevel < registry.levelCount) := by
  unfold pick at h
  split at h
  · cases h
    exact ⟨rfl, Or.inl rfl⟩
  · obtain ⟨level, hfind, rfl⟩ := Option.map_eq_some_iff.mp h
    have hmem := List.mem_of_find?_eq_some hfind
    rw [u32_of_lt (by omega), List.mem_range'_1] at hmem
    have hlt : level < registry.levelCount := by omega
    exact ⟨u32_of_lt (by omega), Or.inr hlt⟩

end CompactionPolicy

end Htap.Tree
