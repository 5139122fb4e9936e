import Htap.Tree.Registry

/-!
The level `CompactionPolicy::pick` compacts. Sizes and limits are multiplied and
added up in 64 bits; the choice is the one of exact arithmetic as long as the
reduction changes no comparison up to the first level that is too large.
-/

namespace Htap.Properties

open Storage SSTable Words Htap.Tree

section

variable (config : StorageConfig) (registry : SSTableRegistry)

/-- The bytes a level may hold. -/
def levelLimit (level : Nat) : Nat := config.baseLevelSizeBytes * config.sizeRatio ^ level

/-- The bytes a level holds. -/
def levelBytes (level : Nat) : Nat :=
  ((registry.levels.getD level []).map SSTableInfo.fileSizeBytes).sum

/-- The levels past level 0 that hold more than they may. -/
def TooLarge : Set Nat :=
  {level | 1 ≤ level ∧ levelLimit config level < levelBytes registry level}

/-- The task that empties a level. -/
def taskFor (level : Nat) : CompactionTask where
  srcLevel := level
  dstLevel := level + 1
  outputLayout := if config.rowToColumnLevel ≤ level + 1 then .column else .row

/-- A task is picked exactly for the least level that is too large. -/
def PicksLeast : Prop :=
  ∀ task, CompactionPolicy.pick config registry = some task ↔
    ∃ level, IsLeast (TooLarge config registry) level ∧ task = taskFor config level

/-- Up to the first level that is too large, the comparison modulo `2 ^ 64` comes
out as the exact one. -/
def ComparesExactly : Prop :=
  ∀ level, 1 ≤ level → (∀ lower < level, lower ∉ TooLarge config registry) →
    (levelLimit config level % 2 ^ 64 < levelBytes registry level % 2 ^ 64 ↔
      levelLimit config level < levelBytes registry level)

end

variable {config : StorageConfig} {registry : SSTableRegistry}

/-- Numbers below `2 ^ 64` compare exactly. -/
theorem comparesExactly_of_lt
    (hlimit : ∀ level, 1 ≤ level → (∀ lower < level, lower ∉ TooLarge config registry) →
      levelBytes registry level ≠ 0 → levelLimit config level < 2 ^ 64)
    (hbytes : ∀ level, levelBytes registry level < 2 ^ 64) : ComparesExactly config registry := by
  intro level hlevel hfirst
  rw [Nat.mod_eq_of_lt (hbytes level)]
  by_cases hzero : levelBytes registry level = 0
  · rw [hzero]
    exact ⟨fun h => absurd h (Nat.not_lt_zero _), fun h => absurd h (Nat.not_lt_zero _)⟩
  · rw [Nat.mod_eq_of_lt (hlimit level hlevel hfirst hzero)]

/-! ## What is picked -/

/-- The levels the policy takes for overfull. -/
private def Overfull (config : StorageConfig) (registry : SSTableRegistry) : Set Nat :=
  {level | 1 ≤ level ∧
    levelLimit config level % 2 ^ 64 < levelBytes registry level % 2 ^ 64}

private theorem overfull_iff (level : Nat) :
    CompactionPolicy.overfull config registry level = true ↔
      levelLimit config level % 2 ^ 64 < levelBytes registry level % 2 ^ 64 := by
  unfold CompactionPolicy.overfull CompactionPolicy.levelThreshold levelLimit levelBytes u64
  dsimp only
  rw [Bool.and_eq_true, decide_eq_true_eq]
  constructor
  · exact fun h => h.2
  · intro h
    refine ⟨?_, h⟩
    -- an empty level holds no bytes
    cases hempty : registry.levels.getD level [] with
    | nil =>
      rw [hempty] at h
      exact absurd h (Nat.not_lt_zero _)
    | cons sst ssts => rfl

private theorem overfull_lt {level : Nat} (h : level ∈ Overfull config registry) :
    level < registry.levelCount := by
  by_contra hge
  have hnone : registry.levels.getD level [] = [] := by
    rw [List.getD_eq_getElem?_getD, List.getElem?_eq_none (not_lt.mp hge)]
    rfl
  have hbytes : levelBytes registry level = 0 := by
    unfold levelBytes
    rw [hnone]
    rfl
  have hlt := h.2
  rw [hbytes] at hlt
  exact absurd hlt (Nat.not_lt_zero _)

private theorem pick_eq_some_iff (hcount : registry.levelCount < 2 ^ 32)
    (htrigger : registry.sstableCount 0 < config.level0CompactionTrigger)
    (task : CompactionTask) :
    CompactionPolicy.pick config registry = some task ↔
      ∃ level, IsLeast (Overfull config registry) level ∧ task = taskFor config level := by
  unfold CompactionPolicy.pick
  rw [if_neg (not_le.mpr htrigger), u32_of_lt hcount, Option.map_eq_some_iff]
  constructor
  · rintro ⟨level, hfind, rfl⟩
    rw [List.find?_range'_eq_some] at hfind
    obtain ⟨hover, hrange, hfirst⟩ := hfind
    rw [List.mem_range'_1] at hrange
    have hdst : u32 (level + 1) = level + 1 := u32_of_lt (by omega)
    refine ⟨level, ⟨⟨hrange.1, (overfull_iff level).mp hover⟩, ?_⟩, ?_⟩
    · intro other hother
      by_contra hlt
      have hnot := hfirst other hother.1 (not_le.mp hlt)
      rw [(overfull_iff other).mpr hother.2] at hnot
      cases hnot
    · rw [hdst]
      rfl
  · rintro ⟨level, ⟨hover, hleast⟩, rfl⟩
    have hlt := overfull_lt hover
    have hdst : u32 (level + 1) = level + 1 := u32_of_lt (by omega)
    refine ⟨level, ?_, ?_⟩
    · rw [List.find?_range'_eq_some]
      refine ⟨(overfull_iff level).mpr hover.2, ?_, ?_⟩
      · rw [List.mem_range'_1]
        have hone : 1 ≤ level := hover.1
        omega
      · intro other hone hother
        rw [Bool.not_eq_true', ← Bool.not_eq_true, overfull_iff]
        intro hlarge
        exact absurd (hleast ⟨hone, hlarge⟩) (not_le.mpr hother)
    · rw [hdst]
      rfl

/-! ## Sets with the same least element -/

private theorem exists_isLeast {levels : Set Nat} {level : Nat} (h : level ∈ levels) :
    ∃ least ≤ level, IsLeast levels least := by
  classical
  have hsome : ∃ n, n ∈ levels := ⟨level, h⟩
  exact ⟨Nat.find hsome, Nat.find_min' hsome h, Nat.find_spec hsome,
    fun other hother => Nat.find_min' hsome hother⟩

/-- Two sets have the same least element when they agree up to the least element
of the second, and only then. -/
private theorem same_isLeast_iff {s t : Set Nat} :
    (∀ n, IsLeast s n ↔ IsLeast t n) ↔ ∀ n, (∀ m < n, m ∉ t) → (n ∈ s ↔ n ∈ t) := by
  constructor
  · intro hsame n hnone
    constructor
    · intro hn
      obtain ⟨least, hle, hleast⟩ := exists_isLeast hn
      have hmem := ((hsame least).mp hleast).1
      have heq : least = n := by
        by_contra hne
        exact hnone least (lt_of_le_of_ne hle hne) hmem
      exact heq ▸ hmem
    · intro hn
      have hleast : IsLeast t n := ⟨hn, fun m hm => not_lt.mp fun hlt => hnone m hlt hm⟩
      exact ((hsame n).mpr hleast).1
  · intro hagree n
    constructor
    · rintro ⟨hn, hleast⟩
      have hnone : ∀ m < n, m ∉ t := by
        intro m
        induction m using Nat.strong_induction_on with
        | _ m ih =>
          intro hlt hm
          have hms := (hagree m fun j hj => ih j hj (hj.trans hlt)).mpr hm
          exact absurd (hleast hms) (not_le.mpr hlt)
      exact ⟨(hagree n hnone).mp hn, fun m hm => not_lt.mp fun hlt => hnone m hlt hm⟩
    · rintro ⟨hn, hleast⟩
      have hnone : ∀ m < n, m ∉ t := fun m hlt hm => absurd (hleast hm) (not_le.mpr hlt)
      refine ⟨(hagree n hnone).mpr hn, ?_⟩
      intro m hm
      by_contra hlt
      have hlt := not_le.mp hlt
      exact hnone m hlt ((hagree m fun j hj => hnone j (hj.trans hlt)).mp hm)

private theorem comparesExactly_iff :
    ComparesExactly config registry ↔
      ∀ level, IsLeast (Overfull config registry) level ↔
        IsLeast (TooLarge config registry) level := by
  rw [same_isLeast_iff]
  constructor
  · intro hcompares level hfirst
    constructor
    · rintro ⟨hone, hover⟩
      exact ⟨hone, (hcompares level hone hfirst).mp hover⟩
    · rintro ⟨hone, hlarge⟩
      exact ⟨hone, (hcompares level hone hfirst).mpr hlarge⟩
  · intro hagree level hone hfirst
    have hiff := hagree level hfirst
    exact ⟨fun hover => (hiff.mp ⟨hone, hover⟩).2, fun hlarge => (hiff.mpr ⟨hone, hlarge⟩).2⟩

/-- The choice is the exact one if and only if the comparisons are. `htrigger` leaves out
the case that level 0 is due, where the sizes are not looked at; nothing is asked of the
configuration, so `size_ratio` 0 and limits that overflow are among the cases where the two
sides fail together. -/
theorem picks_least_iff (hregistry : registry.Reachable)
    (htrigger : registry.sstableCount 0 < config.level0CompactionTrigger) :
    PicksLeast config registry ↔ ComparesExactly config registry := by
  have hpick := pick_eq_some_iff hregistry.levelCount_lt htrigger
  have hinjective : ∀ {a b : Nat}, taskFor config a = taskFor config b → a = b :=
    fun heq => congrArg CompactionTask.srcLevel heq
  rw [comparesExactly_iff]
  constructor
  · intro hpicks level
    constructor
    · intro hleast
      obtain ⟨other, hother, heq⟩ :=
        (hpicks _).mp ((hpick (taskFor config level)).mpr ⟨level, hleast, rfl⟩)
      rwa [hinjective heq]
    · intro hleast
      obtain ⟨other, hother, heq⟩ :=
        (hpick _).mp ((hpicks (taskFor config level)).mpr ⟨level, hleast, rfl⟩)
      rwa [hinjective heq]
  · intro hsame task
    rw [hpick task]
    constructor
    · rintro ⟨level, hlevel, rfl⟩
      exact ⟨level, (hsame level).mp hlevel, rfl⟩
    · rintro ⟨level, hlevel, rfl⟩
      exact ⟨level, (hsame level).mpr hlevel, rfl⟩

/-! ## Far down the levels -/

/-- One SSTable, at some level. -/
def deepRegistry (level fileSizeBytes : Nat) : SSTableRegistry :=
  ({} : SSTableRegistry).add ⟨0, [], level, 0, 0, fileSizeBytes, 1, SSTLayout.row.code⟩

theorem deepRegistry_reachable (level fileSizeBytes : Nat) :
    (deepRegistry level fileSizeBytes).Reachable := SSTableRegistry.Reachable.empty.add _

private theorem levelBytes_deepRegistry {deep : Nat} (hdeep : deep + 1 < 2 ^ 32)
    (fileSizeBytes level : Nat) :
    levelBytes (deepRegistry deep fileSizeBytes) level =
      if deep = level then fileSizeBytes else 0 := by
  unfold levelBytes deepRegistry
  rw [SSTableRegistry.getD_add _ hdeep]
  by_cases hlevel : deep = level <;> simp [hlevel]

/-- The default configuration. -/
private def defaults : StorageConfig := { rootPath := [47, 100] }

/-- Three GiB at level 1, more than the default limit of 2.5 GiB. -/
theorem picks_least_default : PicksLeast defaults (deepRegistry 1 (3 * 2 ^ 30)) := by
  apply (picks_least_iff (deepRegistry_reachable _ _) (by decide)).mpr
  apply comparesExactly_of_lt
  · intro level _ _ hbytes
    rw [levelBytes_deepRegistry (by decide)] at hbytes
    split at hbytes
    · rename_i hlevel
      rw [← hlevel]
      decide
    · exact absurd rfl hbytes
  · intro level
    rw [levelBytes_deepRegistry (by decide)]
    split <;> decide

/-- With the default configuration the limit of level 36 is a multiple of
`2 ^ 64`: one byte there is compacted away. -/
theorem picks_below_the_limit :
    (deepRegistry 36 1).Reachable ∧
      (deepRegistry 36 1).sstableCount 0 < defaults.level0CompactionTrigger ∧
      CompactionPolicy.pick defaults (deepRegistry 36 1) = some ⟨36, 37, .column⟩ ∧
      (∀ level, level ∉ TooLarge defaults (deepRegistry 36 1)) ∧
      ¬ PicksLeast defaults (deepRegistry 36 1) := by
  have hpick : CompactionPolicy.pick defaults (deepRegistry 36 1) =
      some ⟨36, 37, .column⟩ := by decide +kernel
  have hbytes : ∀ level, levelBytes (deepRegistry 36 1) level ≤ 1 := by
    intro level
    rw [levelBytes_deepRegistry (by decide)]
    split <;> decide
  have hnone : ∀ level, level ∉ TooLarge defaults (deepRegistry 36 1) := by
    rintro level ⟨-, hlarge⟩
    have hlimit : 1 ≤ levelLimit defaults level :=
      Nat.mul_pos (by decide) (Nat.pow_pos (by decide))
    have hfew := hbytes level
    omega
  refine ⟨deepRegistry_reachable _ _, by decide, hpick, hnone, ?_⟩
  intro hpicks
  obtain ⟨level, hleast, -⟩ := (hpicks _).mp hpick
  exact hnone level hleast.1

end Htap.Properties
