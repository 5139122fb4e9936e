import Htap.Read.Reader
import Htap.Tree.Registry

/-!
The disk as an LSM tree uses it: the paths of its SSTables, the operations it
performs, and `manifest.bin`, which carries the registry over a restart.
-/

namespace Htap.Tree

open Storage SSTable Read ByteFormat Words

/-! ## Paths -/

/-- The last `width` decimal digits of a number, `{:0width}` for a number that
has no more. -/
def decimalDigits : Nat → Nat → Bytes
  | 0, _ => []
  | width + 1, n => decimalDigits width (n / 10) ++ [UInt8.ofNat (48 + n % 10)]

/-- `build_sst_path`: `"{}/sst_{:020}.sst"`. -/
def sstPath (rootPath : Bytes) (id : Nat) : Bytes :=
  rootPath ++ [47, 115, 115, 116, 95] ++ decimalDigits 20 id ++ [46, 115, 115, 116]

@[simp] theorem length_decimalDigits (width n : Nat) : (decimalDigits width n).length = width := by
  induction width generalizing n with
  | zero => rfl
  | succ width ih => simp [decimalDigits, ih]

theorem decimalDigits_injective {width m n : Nat} (hm : m < 10 ^ width) (hn : n < 10 ^ width)
    (h : decimalDigits width m = decimalDigits width n) : m = n := by
  induction width generalizing m n with
  | zero =>
    rw [pow_zero] at hm hn
    omega
  | succ width ih =>
    rw [decimalDigits, decimalDigits] at h
    obtain ⟨hinit, hlast⟩ := List.append_inj' h rfl
    have hdigit : m % 10 = n % 10 := by
      have hbyte := congrArg UInt8.toNat (List.cons.inj hlast).1
      rw [UInt8.toNat_ofNat', UInt8.toNat_ofNat'] at hbyte
      omega
    rw [pow_succ] at hm hn
    have hrest : m / 10 = n / 10 := ih (by omega) (by omega) hinit
    omega

/-- Different SSTables have different directories. -/
theorem sstPath_injective {rootPath : Bytes} {m n : Nat} (hm : m < 2 ^ 64) (hn : n < 2 ^ 64)
    (h : sstPath rootPath m = sstPath rootPath n) : m = n := by
  have hpow : 2 ^ 64 < 10 ^ 20 := by norm_num
  rw [sstPath, sstPath] at h
  exact decimalDigits_injective (hm.trans hpow) (hn.trans hpow)
    (List.append_cancel_left (List.append_cancel_right h))

@[simp] theorem length_sstPath (rootPath : Bytes) (id : Nat) :
    (sstPath rootPath id).length = rootPath.length + 29 := by
  simp [sstPath]

/-! ## Disk operations -/

/-- What a table does to its directory. A builder's directory counts once it is
complete, and `manifest.bin` is replaced by a rename. -/
inductive DiskOp where
  | writeSSTable (path : Bytes) (files : SSTableFiles)
  | removeSSTable (path : Bytes)
  | writeManifest (contents : Bytes)

/-- The directory as an operation leaves it. -/
def applyOp (disk : Disk) : DiskOp → Disk
  | .writeSSTable path files =>
    { disk with sstables := fun p => if p = path then some files else disk.sstables p }
  | .removeSSTable path =>
    { disk with sstables := fun p => if p = path then none else disk.sstables p }
  | .writeManifest contents => { disk with manifest := some contents }

def replay (disk : Disk) (ops : List DiskOp) : Disk := ops.foldl applyOp disk

@[simp] theorem replay_nil (disk : Disk) : replay disk [] = disk := rfl

theorem replay_append (disk : Disk) (ops more : List DiskOp) :
    replay disk (ops ++ more) = replay (replay disk ops) more := List.foldl_append

/-- The operation is about one SSTable's directory. -/
def DiskOp.At (path : Bytes) : DiskOp → Prop
  | .writeSSTable p _ => p = path
  | .removeSSTable p => p = path
  | .writeManifest _ => False

/-- Other directories stay as they are. -/
theorem sstables_replay {ops : List DiskOp} {path other : Bytes} (hops : ∀ op ∈ ops, op.At path)
    (hother : other ≠ path) (disk : Disk) :
    (replay disk ops).sstables other = disk.sstables other := by
  induction ops generalizing disk with
  | nil => rfl
  | cons op ops ih =>
    have hop := hops op List.mem_cons_self
    have hrest := ih (fun later hlater => hops later (List.mem_cons_of_mem op hlater))
      (applyOp disk op)
    refine hrest.trans ?_
    cases op with
    | writeSSTable p files =>
      cases hop
      exact if_neg hother
    | removeSSTable p =>
      cases hop
      exact if_neg hother
    | writeManifest contents => cases hop

/-- `delete_sst_files`: a directory that is not there is not removed. -/
def deleteSstFiles (disk : Disk) (rootPath : Bytes) (sstId : Nat) : List DiskOp :=
  if (disk.sstables (sstPath rootPath sstId)).isSome then
    [.removeSSTable (sstPath rootPath sstId)]
  else []

theorem at_deleteSstFiles (disk : Disk) (rootPath : Bytes) (sstId : Nat) :
    ∀ op ∈ deleteSstFiles disk rootPath sstId, op.At (sstPath rootPath sstId) := by
  intro op hop
  unfold deleteSstFiles at hop
  split at hop
  · rw [List.mem_singleton.mp hop]
    rfl
  · cases hop

/-! ## The manifest -/

/-- "HTAP". -/
def manifestMagic : Nat := 0x48544150

def encodeManifestEntry (info : SSTableInfo) : Bytes :=
  let pathLen := min info.path.length 65535
  leBytes 8 info.id ++ (leBytes 4 info.level ++ (leBytes 1 info.layout.toNat ++
    (i64Bytes info.minKey ++ (i64Bytes info.maxKey ++ (leBytes 4 info.numBlocks ++
      (leBytes 8 info.fileSizeBytes ++ (leBytes 2 pathLen ++ info.path.take pathLen)))))))

def encodeManifest (registry : SSTableRegistry) (nextSstId : Nat) : Bytes :=
  leBytes 4 manifestMagic ++ (leBytes 4 registry.entries.length ++ (leBytes 8 nextSstId ++
    registry.entries.flatMap encodeManifestEntry))

/-- `SSTableManifest::save`, the bytes of the file that is renamed into place. -/
def saveManifest (registry : SSTableRegistry) (nextSstId : Nat) : Result Bytes :=
  writeBytes [] (encodeManifest registry nextSstId)

def manifestEnd : Exception := .runtimeError "Manifest: unexpected end of file: "

/-- `static_cast<SSTLayout>` takes any byte; one of no layout is refused when the SSTable is
read. -/
def readManifestLayout : Parser Exception UInt8 := do
  let layout ← Parser.word manifestEnd 1
  return UInt8.ofNat layout

def readManifestEntry : Parser Exception SSTableInfo := do
  let id ← Parser.word manifestEnd 8
  let level ← Parser.word manifestEnd 4
  let layout ← readManifestLayout
  let minKey ← readI64 manifestEnd
  let maxKey ← readI64 manifestEnd
  let numBlocks ← Parser.word manifestEnd 4
  let fileSizeBytes ← Parser.word manifestEnd 8
  let pathLen ← Parser.word manifestEnd 2
  let path ← Parser.bytes (.runtimeError "Manifest: failed to read path string: ") pathLen
  return { id, path, level, minKey, maxKey, fileSizeBytes, numBlocks, layout }

def readManifest : Parser Exception (SSTableRegistry × Nat) := do
  let magic ← Parser.word manifestEnd 4
  if magic ≠ manifestMagic then
    Parser.fail (.runtimeError "Manifest: invalid magic in ")
  else do
    let entryCount ← Parser.word manifestEnd 4
    let nextSstId ← Parser.word manifestEnd 8
    let entries ← Parser.times readManifestEntry entryCount
    return (entries.foldl SSTableRegistry.add {}, nextSstId)

/-- `SSTableManifest::load`; without a manifest the table is new. -/
def loadManifest (disk : Disk) : Result (SSTableRegistry × Nat) :=
  match disk.manifest with
  | none => .ok ({}, 0)
  | some contents => parse readManifest contents

/-! ## The manifest is read back -/

/-- The fields fit their widths in the manifest. -/
structure ManifestFits (info : SSTableInfo) : Prop where
  id : info.id < 2 ^ 64
  level : info.level < 2 ^ 32
  numBlocks : info.numBlocks < 2 ^ 32
  fileSizeBytes : info.fileSizeBytes < 2 ^ 64
  path : info.path.length ≤ 65535

private theorem reads_manifestLayout (layout : UInt8) :
    Reads readManifestLayout (leBytes 1 layout.toNat) layout := by
  have hbyte : layout.toNat < 256 ^ 1 := layout.toNat_lt
  have hread : Reads readManifestLayout (leBytes 1 layout.toNat ++ []) (.ofNat layout.toNat) :=
    (Reads.word_of_lt manifestEnd hbyte).bind (Reads.pure _)
  rwa [List.append_nil, UInt8.ofNat_toNat] at hread

theorem reads_manifestEntry {info : SSTableInfo} (h : ManifestFits info) :
    Reads readManifestEntry (encodeManifestEntry info) info := by
  have hlen : min info.path.length 65535 = info.path.length := min_eq_left h.path
  have hpathLen : info.path.length < 256 ^ 2 := Nat.lt_of_le_of_lt h.path (by norm_num)
  unfold encodeManifestEntry
  dsimp only
  rw [hlen, List.take_length]
  exact (Reads.word_of_lt _ h.id).bind ((Reads.word_of_lt _ h.level).bind
    ((reads_manifestLayout info.layout).bind ((reads_i64 _ info.minKey).bind
      ((reads_i64 _ info.maxKey).bind ((Reads.word_of_lt _ h.numBlocks).bind
        ((Reads.word_of_lt _ h.fileSizeBytes).bind ((Reads.word_of_lt _ hpathLen).bind
          ((Reads.bytes _ info.path).map _))))))))

/-- Loading adds the saved SSTables to an empty registry, one after another. -/
theorem loadManifest_saved {disk : Disk} {registry : SSTableRegistry} {nextSstId : Nat}
    (hdisk : disk.manifest = some (encodeManifest registry nextSstId))
    (hfits : ∀ info ∈ registry.entries, ManifestFits info)
    (hcount : registry.entries.length < 2 ^ 32) (hnext : nextSstId < 2 ^ 64) :
    loadManifest disk = .ok (registry.entries.foldl SSTableRegistry.add {}, nextSstId) := by
  have hreads : Reads readManifest (encodeManifest registry nextSstId)
      (registry.entries.foldl SSTableRegistry.add {}, nextSstId) := by
    have hmagic : manifestMagic < 256 ^ 4 := by decide
    refine (Reads.word_of_lt manifestEnd hmagic).bind ?_
    rw [if_neg (not_not.mpr rfl)]
    refine (Reads.word_of_lt manifestEnd hcount).bind ?_
    refine (Reads.word_of_lt manifestEnd hnext).bind ?_
    exact (Reads.times registry.entries fun info hinfo =>
      reads_manifestEntry (hfits info hinfo)).map
      fun entries => (entries.foldl SSTableRegistry.add {}, nextSstId)
  rw [loadManifest, hdisk]
  exact parse_eq hreads

/-- The registry rebuilt from a list of SSTables. -/
theorem foldl_add (entries : List SSTableInfo) {r : SSTableRegistry} (hfiled : r.Filed)
    (hlevel : ∀ info ∈ entries, info.level + 1 < 2 ^ 32) :
    (entries.foldl SSTableRegistry.add r).entries.Perm (entries ++ r.entries) ∧
      (entries.foldl SSTableRegistry.add r).Filed ∧
      ∀ count, r.levelCount ≤ count → (∀ info ∈ entries, info.level < count) →
        (entries.foldl SSTableRegistry.add r).levelCount ≤ count := by
  induction entries generalizing r with
  | nil => exact ⟨List.Perm.refl _, hfiled, fun count hr _ => hr⟩
  | cons info entries ih =>
    have hinfo := hlevel info List.mem_cons_self
    obtain ⟨hperm, hfiled', hcount⟩ := ih (hfiled.add info)
      fun e he => hlevel e (List.mem_cons_of_mem info he)
    refine ⟨?_, hfiled', ?_⟩
    · rw [List.foldl_cons]
      refine hperm.trans (((r.entries_add hinfo).append_left entries).trans ?_)
      exact List.perm_middle
    · intro count hr hentries
      refine hcount count ?_ fun e he => hentries e (List.mem_cons_of_mem info he)
      rw [r.levelCount_add hinfo]
      exact max_le hr (hentries info List.mem_cons_self)

/-! ## Saving -/

private theorem length_encodeManifestEntry_le (info : SSTableInfo) :
    (encodeManifestEntry info).length ≤ 2 ^ 17 := by
  have hpath : (info.path.take (min info.path.length 65535)).length ≤ 65535 := by
    rw [List.length_take]
    omega
  have hsize : (encodeManifestEntry info).length =
      43 + (info.path.take (min info.path.length 65535)).length := by
    simp only [encodeManifestEntry, List.length_append, length_leBytes, length_i64Bytes]
    omega
  omega

/-- No manifest is too large for a file. -/
private theorem length_encodeManifest_le {registry : SSTableRegistry}
    (hcount : registry.entries.length < 2 ^ 32) (nextSstId : Nat) :
    (encodeManifest registry nextSstId).length ≤ maxFileSize := by
  have hentries : (registry.entries.flatMap encodeManifestEntry).length ≤
      registry.entries.length * 2 ^ 17 := by
    generalize registry.entries = entries
    induction entries with
    | nil => simp
    | cons info entries ih =>
      have hinfo := length_encodeManifestEntry_le info
      rw [List.flatMap_cons, List.length_append, List.length_cons, Nat.succ_mul]
      omega
  have hlimit : 2 ^ 32 * 2 ^ 17 + 16 ≤ maxFileSize := by norm_num [maxFileSize]
  rw [encodeManifest]
  simp only [List.length_append, length_leBytes]
  omega

theorem saveManifest_eq {registry : SSTableRegistry} (hcount : registry.entries.length < 2 ^ 32)
    (nextSstId : Nat) :
    saveManifest registry nextSstId = .ok (encodeManifest registry nextSstId) := by
  unfold saveManifest writeBytes
  rw [List.nil_append, if_pos (length_encodeManifest_le hcount nextSstId)]

end Htap.Tree
