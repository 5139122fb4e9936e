import Htap.Tree.Manifest

/-!
`SSTableManifest::load` over any bytes. Every entry is filed as soon as it is read,
with its layout byte as it is, and an access past the level table shows.
-/

namespace Htap.Tree

open Storage SSTable Read ByteFormat Words

/-- An entry as it stands in the file: `static_cast<SSTLayout>` takes any byte. -/
structure ManifestEntry where
  id : Nat
  level : Nat
  layout : Nat
  minKey : Key
  maxKey : Key
  numBlocks : Nat
  fileSizeBytes : Nat
  path : Bytes
  deriving DecidableEq

def ManifestEntry.read : Parser Exception ManifestEntry := do
  let id ← Parser.word manifestEnd 8
  let level ← Parser.word manifestEnd 4
  let layout ← Parser.word manifestEnd 1
  let minKey ← readI64 manifestEnd
  let maxKey ← readI64 manifestEnd
  let numBlocks ← Parser.word manifestEnd 4
  let fileSizeBytes ← Parser.word manifestEnd 8
  let pathLen ← Parser.word manifestEnd 2
  let path ← Parser.bytes (.runtimeError "Manifest: failed to read path string: ") pathLen
  return { id, level, layout, minKey, maxKey, numBlocks, fileSizeBytes, path }

/-- `load` throws, or it accesses a level the table does not have. -/
inductive LoadFailure where
  | threw (e : Exception)
  | outOfRange (level : Nat)
  deriving DecidableEq

abbrev LevelTable : Type := List (List ManifestEntry)

namespace LevelTable

/-- `std::vector::resize`. -/
def resize (levels : LevelTable) (count : Nat) : LevelTable :=
  levels.take count ++ List.replicate (count - levels.length) []

/-- `levels_[level].push_back(entry)`. -/
def pushBack (levels : LevelTable) (level : Nat) (entry : ManifestEntry) :
    Except LoadFailure LevelTable :=
  if level < levels.length then .ok (levels.modify level (· ++ [entry]))
  else .error (.outOfRange level)

/-- `SSTableRegistry::add`; the new number of levels is computed in `uint32_t`. -/
def add (levels : LevelTable) (entry : ManifestEntry) : Except LoadFailure LevelTable :=
  if levels.length ≤ entry.level then
    (levels.resize (u32 (entry.level + 1))).pushBack entry.level entry
  else levels.pushBack entry.level entry

end LevelTable

/-- The entry count and the next id of the header. -/
def readManifestHeader : Parser Exception (Nat × Nat) := do
  let magic ← Parser.word manifestEnd 4
  if magic ≠ manifestMagic then
    Parser.fail (.runtimeError "Manifest: invalid magic in ")
  else do
    let entryCount ← Parser.word manifestEnd 4
    let nextSstId ← Parser.word manifestEnd 8
    return (entryCount, nextSstId)

/-- The loop of `load` over the entries. -/
def loadEntries : Nat → LevelTable → Bytes → Except LoadFailure LevelTable
  | 0, levels, _ => .ok levels
  | count + 1, levels, left =>
    match ManifestEntry.read.run left with
    | .error e => .error (.threw e)
    | .ok (entry, rest) =>
      match levels.add entry with
      | .error failure => .error failure
      | .ok levels => loadEntries count levels rest

/-- `SSTableManifest::load` of a file into an empty registry. -/
def loadLevels (contents : Bytes) : Except LoadFailure (LevelTable × Nat) :=
  match readManifestHeader.run contents with
  | .error e => .error (.threw e)
  | .ok ((entryCount, nextSstId), rest) =>
    match loadEntries entryCount [] rest with
    | .error failure => .error failure
    | .ok levels => .ok (levels, nextSstId)

/-- The entries that can be read one after another, at most `count`. -/
def readableEntries : Nat → Bytes → List ManifestEntry
  | 0, _ => []
  | count + 1, left =>
    match ManifestEntry.read.run left with
    | .error _ => []
    | .ok (entry, rest) => entry :: readableEntries count rest

/-- The entries a manifest file has, up to the number its header gives. -/
def manifestEntries (contents : Bytes) : List ManifestEntry :=
  match readManifestHeader.run contents with
  | .error _ => []
  | .ok ((entryCount, _), rest) => readableEntries entryCount rest

/-! ## Filing an entry -/

/-- Each entry is in the list of its level, in the order of the file. -/
def LevelTable.Files (levels : LevelTable) (entries : List ManifestEntry) : Prop :=
  ∀ level, levels.getD level [] = entries.filter fun entry => entry.level = level

private theorem leValue_lt (raw : Bytes) : leValue raw < 256 ^ raw.length := by
  induction raw with
  | nil => exact Nat.one_pos
  | cons byte raw ih =>
    have hbyte := byte.toNat_lt
    rw [leValue, List.length_cons, pow_succ]
    omega

private theorem lt_of_word {e : Exception} {width value : Nat} {raw rest : Bytes}
    (h : (Parser.word e width).run raw = .ok (value, rest)) : value < 256 ^ width := by
  obtain ⟨digits, left, hdigits, h⟩ := Parser.run_bind_eq_ok.mp h
  cases h
  rw [← Parser.length_of_run_bytes hdigits]
  exact leValue_lt digits

/-- A level is a `uint32_t`. -/
theorem ManifestEntry.level_lt {raw rest : Bytes} {entry : ManifestEntry}
    (h : ManifestEntry.read.run raw = .ok (entry, rest)) : entry.level < 2 ^ 32 := by
  obtain ⟨id, left, -, h⟩ := Parser.run_bind_eq_ok.mp h
  obtain ⟨level, left, hlevel, h⟩ := Parser.run_bind_eq_ok.mp h
  obtain ⟨layout, left, -, h⟩ := Parser.run_bind_eq_ok.mp h
  obtain ⟨minKey, left, -, h⟩ := Parser.run_bind_eq_ok.mp h
  obtain ⟨maxKey, left, -, h⟩ := Parser.run_bind_eq_ok.mp h
  obtain ⟨numBlocks, left, -, h⟩ := Parser.run_bind_eq_ok.mp h
  obtain ⟨fileSizeBytes, left, -, h⟩ := Parser.run_bind_eq_ok.mp h
  obtain ⟨pathLen, left, -, h⟩ := Parser.run_bind_eq_ok.mp h
  obtain ⟨path, left, -, h⟩ := Parser.run_bind_eq_ok.mp h
  cases h
  exact lt_of_word hlevel

namespace LevelTable

private theorem length_resize (levels : LevelTable) {count : Nat} (h : levels.length ≤ count) :
    (levels.resize count).length = count := by
  rw [resize, List.length_append, List.take_of_length_le h, List.length_replicate]
  omega

private theorem getD_resize (levels : LevelTable) {count : Nat} (h : levels.length ≤ count)
    (level : Nat) : (levels.resize count).getD level [] = levels.getD level [] := by
  rw [resize, List.take_of_length_le h, List.getD_eq_getElem?_getD, List.getD_eq_getElem?_getD,
    List.getElem?_append]
  split
  · rfl
  · rename_i hlevel
    rw [List.getElem?_eq_none (not_lt.mp hlevel), List.getElem?_replicate]
    split <;> rfl

private theorem files_pushBack {levels : LevelTable} {entries : List ManifestEntry}
    {entry : ManifestEntry} (h : levels.Files entries) (hlevel : entry.level < levels.length) :
    ∃ levels', levels.pushBack entry.level entry = .ok levels' ∧
      levels'.Files (entries ++ [entry]) ∧ levels'.length = levels.length := by
  refine ⟨_, if_pos hlevel, ?_, List.length_modify _ _ _⟩
  intro level
  rw [List.filter_append, ← h level, List.getD_eq_getElem?_getD, List.getElem?_modify,
    List.getD_eq_getElem?_getD]
  by_cases hsame : entry.level = level
  · subst hsame
    rw [List.getElem?_eq_getElem hlevel]
    simp
  · rw [List.filter_cons_of_neg (by simpa using hsame)]
    simp [hsame]

/-- Adding an entry files it, unless its level is the last `uint32_t`: then the table
is emptied and accessed. -/
theorem add_eq {levels : LevelTable} {entries : List ManifestEntry} {entry : ManifestEntry}
    (h : levels.Files entries) (hlength : levels.length < 2 ^ 32) (hlevel : entry.level < 2 ^ 32) :
    (entry.level = 2 ^ 32 - 1 ∧ levels.add entry = .error (.outOfRange entry.level)) ∨
      entry.level ≠ 2 ^ 32 - 1 ∧ ∃ levels', levels.add entry = .ok levels' ∧
        levels'.Files (entries ++ [entry]) ∧ levels'.length < 2 ^ 32 := by
  unfold add
  by_cases hlast : entry.level = 2 ^ 32 - 1
  · left
    have hwrap : u32 (entry.level + 1) = 0 := by
      rw [hlast]
      rfl
    refine ⟨hlast, ?_⟩
    have hempty : levels.resize 0 = [] := by
      rw [resize, List.take_zero, Nat.zero_sub]
      rfl
    rw [if_pos (by omega), hwrap, hempty]
    exact if_neg (Nat.not_lt_zero _)
  · right
    refine ⟨hlast, ?_⟩
    split
    · rename_i hle
      rw [u32_of_lt (by omega)]
      have hfiles : (levels.resize (entry.level + 1)).Files entries := by
        intro level
        rw [getD_resize levels (by omega)]
        exact h level
      have hresized : (levels.resize (entry.level + 1)).length = entry.level + 1 :=
        length_resize levels (Nat.le_succ_of_le hle)
      obtain ⟨levels', hadd, hfiles', hsame⟩ := files_pushBack hfiles
        (by rw [hresized]; exact Nat.lt_succ_self _)
      exact ⟨levels', hadd, hfiles', by omega⟩
    · rename_i hlt
      obtain ⟨levels', hadd, hfiles', hsame⟩ := files_pushBack h (not_le.mp hlt)
      exact ⟨levels', hadd, hfiles', by omega⟩

end LevelTable

/-- The loop throws, or accesses past the table at an entry of the last level, or
files the number of entries it was asked for. -/
theorem loadEntries_eq (count : Nat) {levels : LevelTable} {before : List ManifestEntry}
    (left : Bytes) (hfiles : levels.Files before) (hlength : levels.length < 2 ^ 32) :
    ((∀ entry ∈ readableEntries count left, entry.level ≠ 2 ^ 32 - 1) ∧
      ((∃ e, loadEntries count levels left = .error (.threw e)) ∨
        ∃ levels', loadEntries count levels left = .ok levels' ∧
          levels'.Files (before ++ readableEntries count left) ∧
          (readableEntries count left).length = count)) ∨
      (∃ entry ∈ readableEntries count left, entry.level = 2 ^ 32 - 1) ∧
        loadEntries count levels left = .error (.outOfRange (2 ^ 32 - 1)) := by
  induction count generalizing levels before left with
  | zero =>
    left
    refine ⟨nofun, Or.inr ⟨levels, rfl, ?_, rfl⟩⟩
    rw [readableEntries, List.append_nil]
    exact hfiles
  | succ count ih =>
    rw [readableEntries, loadEntries]
    cases hread : ManifestEntry.read.run left with
    | error e => exact Or.inl ⟨nofun, Or.inl ⟨e, rfl⟩⟩
    | ok result =>
      obtain ⟨entry, rest⟩ := result
      dsimp only
      rcases LevelTable.add_eq hfiles hlength (ManifestEntry.level_lt hread) with
        ⟨hlast, hadd⟩ | ⟨hlast, levels', hadd, hfiles', hlength'⟩
      · right
        rw [hadd]
        exact ⟨⟨entry, List.mem_cons_self, hlast⟩, by rw [hlast]⟩
      · rw [hadd]
        rcases ih rest hfiles' hlength' with ⟨hnone, hrest⟩ | ⟨⟨bad, hbad, hbadlevel⟩, hrest⟩
        · left
          refine ⟨List.forall_mem_cons.mpr ⟨hlast, hnone⟩, ?_⟩
          rcases hrest with hthrew | ⟨loaded, hloaded, hall, hcount⟩
          · exact Or.inl hthrew
          · refine Or.inr ⟨loaded, hloaded, ?_, congrArg Nat.succ hcount⟩
            rw [List.append_cons]
            exact hall
        · exact Or.inr ⟨⟨bad, List.mem_cons_of_mem _ hbad, hbadlevel⟩, hrest⟩

/-! ## The registry -/

/-- What the registry holds of an entry. -/
def ManifestEntry.info (entry : ManifestEntry) : SSTableInfo where
  id := entry.id
  path := entry.path
  level := entry.level
  minKey := entry.minKey
  maxKey := entry.maxKey
  fileSizeBytes := entry.fileSizeBytes
  numBlocks := entry.numBlocks
  layout := UInt8.ofNat entry.layout

/-- An entry is read as its `SSTableInfo`. -/
theorem readManifestEntry_run {raw rest : Bytes} {entry : ManifestEntry}
    (h : ManifestEntry.read.run raw = .ok (entry, rest)) :
    readManifestEntry.run raw = .ok (entry.info, rest) := by
  obtain ⟨id, left₁, hid, h⟩ := Parser.run_bind_eq_ok.mp h
  obtain ⟨level, left₂, hlevel, h⟩ := Parser.run_bind_eq_ok.mp h
  obtain ⟨layout, left₃, hlayout, h⟩ := Parser.run_bind_eq_ok.mp h
  obtain ⟨minKey, left₄, hmin, h⟩ := Parser.run_bind_eq_ok.mp h
  obtain ⟨maxKey, left₅, hmax, h⟩ := Parser.run_bind_eq_ok.mp h
  obtain ⟨numBlocks, left₆, hblocks, h⟩ := Parser.run_bind_eq_ok.mp h
  obtain ⟨fileSizeBytes, left₇, hsize, h⟩ := Parser.run_bind_eq_ok.mp h
  obtain ⟨pathLen, left₈, hpathLen, h⟩ := Parser.run_bind_eq_ok.mp h
  obtain ⟨path, left₉, hpath, h⟩ := Parser.run_bind_eq_ok.mp h
  cases h
  have hcast : readManifestLayout.run left₂ = .ok (UInt8.ofNat layout, left₃) :=
    Parser.run_bind_eq_ok.mpr ⟨layout, left₃, hlayout, rfl⟩
  apply Parser.run_bind_eq_ok.mpr
  refine ⟨id, left₁, hid, Parser.run_bind_eq_ok.mpr ⟨level, left₂, hlevel, ?_⟩⟩
  apply Parser.run_bind_eq_ok.mpr
  refine ⟨_, left₃, hcast, Parser.run_bind_eq_ok.mpr ⟨minKey, left₄, hmin, ?_⟩⟩
  apply Parser.run_bind_eq_ok.mpr
  refine ⟨maxKey, left₅, hmax, Parser.run_bind_eq_ok.mpr ⟨numBlocks, left₆, hblocks, ?_⟩⟩
  apply Parser.run_bind_eq_ok.mpr
  refine ⟨fileSizeBytes, left₇, hsize, Parser.run_bind_eq_ok.mpr ⟨pathLen, left₈, hpathLen, ?_⟩⟩
  exact Parser.run_bind_eq_ok.mpr ⟨path, rest, hpath, rfl⟩

/-- The registry that a table of entries stands for. -/
def LevelTable.registry (levels : LevelTable) : SSTableRegistry :=
  ⟨levels.map (List.map ManifestEntry.info)⟩

private theorem map_resize (levels : LevelTable) (count : Nat) :
    (levels.resize count).map (List.map ManifestEntry.info) =
      SSTableRegistry.resize (levels.map (List.map ManifestEntry.info)) count := by
  rw [LevelTable.resize, SSTableRegistry.resize, List.map_append, List.map_take,
    List.map_replicate, List.length_map]
  rfl

private theorem registry_pushBack {levels levels' : LevelTable} {level : Nat}
    {entry : ManifestEntry} (h : levels.pushBack level entry = .ok levels') :
    levels'.map (List.map ManifestEntry.info) =
      (levels.map (List.map ManifestEntry.info)).modify level (· ++ [entry.info]) := by
  unfold LevelTable.pushBack at h
  split at h
  · cases h
    apply List.ext_getElem?
    intro i
    rw [List.getElem?_map, List.getElem?_modify, List.getElem?_modify, List.getElem?_map]
    cases levels[i]? with
    | none => rfl
    | some entries =>
      by_cases hi : level = i
      · simp [hi]
      · simp [hi]
  · cases h

/-- Adding an entry is `SSTableRegistry::add` of what the registry holds of it. -/
theorem LevelTable.registry_add {levels levels' : LevelTable} {entry : ManifestEntry}
    (h : levels.add entry = .ok levels') :
    levels'.registry = levels.registry.add entry.info := by
  unfold LevelTable.registry SSTableRegistry.add
  dsimp only
  rw [List.length_map]
  unfold LevelTable.add at h
  split at h
  · rename_i hle
    have hle : levels.length ≤ entry.info.level := hle
    rw [if_pos hle, registry_pushBack h, map_resize]
    rfl
  · rename_i hlt
    have hlt : ¬levels.length ≤ entry.info.level := hlt
    rw [if_neg hlt, registry_pushBack h]
    rfl

private theorem times_of_loadEntries {count : Nat} {levels loaded : LevelTable} {left : Bytes}
    (h : loadEntries count levels left = .ok loaded) :
    ∃ infos rest, (Parser.times readManifestEntry count).run left = .ok (infos, rest) ∧
      infos.foldl SSTableRegistry.add levels.registry = loaded.registry := by
  induction count generalizing levels left with
  | zero =>
    cases h
    exact ⟨[], left, rfl, rfl⟩
  | succ count ih =>
    rw [loadEntries] at h
    cases hread : ManifestEntry.read.run left with
    | error e =>
      rw [hread] at h
      cases h
    | ok result =>
      obtain ⟨entry, rest⟩ := result
      rw [hread] at h
      dsimp only at h
      cases hadd : levels.add entry with
      | error failure =>
        rw [hadd] at h
        cases h
      | ok levels' =>
        rw [hadd] at h
        obtain ⟨infos, rest', htimes, hfold⟩ := ih h
        refine ⟨entry.info :: infos, rest', ?_, ?_⟩
        · exact Parser.run_bind_eq_ok.mpr ⟨entry.info, rest, readManifestEntry_run hread,
            Parser.run_bind_eq_ok.mpr ⟨infos, rest', htimes, rfl⟩⟩
        · rw [List.foldl_cons, ← LevelTable.registry_add hadd, hfold]

private theorem readManifest_eq : readManifest = readManifestHeader >>= fun header => do
    let entries ← Parser.times readManifestEntry header.1
    return (entries.foldl SSTableRegistry.add {}, header.2) := by
  unfold readManifest readManifestHeader
  rw [bind_assoc]
  congr 1
  funext magic
  split
  · rfl
  · rw [bind_assoc]
    congr 1
    funext entryCount
    rw [bind_assoc]
    rfl

/-- A manifest that is loaded is loaded as `loadManifest` says. -/
theorem loadManifest_of_loadLevels {disk : Disk} {contents : Bytes} {levels : LevelTable}
    {nextSstId : Nat} (hdisk : disk.manifest = some contents)
    (h : loadLevels contents = .ok (levels, nextSstId)) :
    loadManifest disk = .ok (levels.registry, nextSstId) := by
  unfold loadLevels at h
  cases hheader : readManifestHeader.run contents with
  | error e =>
    rw [hheader] at h
    cases h
  | ok result =>
    obtain ⟨⟨entryCount, next⟩, rest⟩ := result
    rw [hheader] at h
    dsimp only at h
    cases hloaded : loadEntries entryCount [] rest with
    | error failure =>
      rw [hloaded] at h
      cases h
    | ok loaded =>
      rw [hloaded] at h
      cases h
      obtain ⟨infos, rest', htimes, hfold⟩ := times_of_loadEntries hloaded
      have hrun : readManifest.run contents = .ok ((levels.registry, nextSstId), rest') := by
        rw [readManifest_eq]
        refine Parser.run_bind_eq_ok.mpr ⟨_, rest, hheader, ?_⟩
        refine Parser.run_bind_eq_ok.mpr ⟨infos, rest', htimes, ?_⟩
        rw [← hfold]
        rfl
      rw [loadManifest, hdisk]
      simp only [parse, hrun]
      rfl

end Htap.Tree
