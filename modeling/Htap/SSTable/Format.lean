import Htap.Basis.ByteFormat
import Htap.Basis.Bitmap
import Htap.Storage.Types

/-!
The files of an SSTable directory and the records in them, written by the
builders and read back by `SSTableReader` and the cursors. Each record has an
encoder, a parser, and a lemma that the parser reads what the encoder wrote.
-/

namespace Htap.SSTable

open Storage ByteFormat Words

inductive SSTLayout where
  | row
  | column
  deriving DecidableEq

/-- `static_cast<uint8_t>(layout)`. -/
def SSTLayout.code : SSTLayout → UInt8
  | .row => 0
  | .column => 1

theorem SSTLayout.code_injective : Function.Injective SSTLayout.code := by
  intro a b h
  cases a <;> cases b <;> first | rfl | exact absurd h (by decide)

/-- The layout is the byte behind the enumeration: a manifest may hold any. -/
structure SSTableInfo where
  id : Nat
  path : Bytes
  level : Nat
  minKey : Key
  maxKey : Key
  fileSizeBytes : Nat
  numBlocks : Nat
  layout : UInt8
  deriving DecidableEq

/-- The contents of `data.sst`, `meta.bin`, `sparse.idx`, `info.bin`, `stats.bin`. -/
structure SSTableFiles where
  data : Bytes
  metadata : Bytes
  index : Bytes
  info : Bytes
  stats : Bytes
  deriving DecidableEq

/-- `sstable_size_bytes`, `sstable_dir_size`. -/
def SSTableFiles.sizeBytes (files : SSTableFiles) : Nat :=
  u64 (files.data.length + files.metadata.length + files.index.length + files.info.length +
    files.stats.length)

/-! ## Output files -/

/-- The largest offset a file can reach: `off_t` is a signed 64-bit number. -/
def maxFileSize : Nat := 2 ^ 63 - 1

/-- `BinaryWriter::write_bytes` at the end of a file. -/
def writeBytes (file bytes : Bytes) : Result Bytes :=
  if (file ++ bytes).length ≤ maxFileSize then .ok (file ++ bytes)
  else .error (.iosFailure "BinaryWriter: write failed")

theorem writeBytes_returnsIf {fits : Prop} {file bytes : Bytes}
    (hfits : fits → (file ++ bytes).length ≤ maxFileSize) :
    Result.ReturnsIf fits (writeBytes file bytes) (file ++ bytes) := by
  unfold writeBytes
  split
  · exact Or.inl rfl
  · rename_i hlarge
    exact Or.inr ⟨fun h => hlarge (hfits h), _, rfl⟩

theorem writeBytes_returns (file bytes : Bytes) :
    Result.Returns (writeBytes file bytes) (file ++ bytes) :=
  writeBytes_returnsIf False.elim

/-- No file exceeds the size limit. -/
structure SSTableFiles.Fit (files : SSTableFiles) : Prop where
  data : files.data.length ≤ maxFileSize
  metadata : files.metadata.length ≤ maxFileSize
  index : files.index.length ≤ maxFileSize
  info : files.info.length ≤ maxFileSize
  stats : files.stats.length ≤ maxFileSize

theorem length_of_writeBytes {file bytes written : Bytes}
    (h : writeBytes file bytes = .ok written) :
    written = file ++ bytes ∧ written.length ≤ maxFileSize := by
  unfold writeBytes at h
  split at h
  · rename_i hle
    cases h
    exact ⟨rfl, hle⟩
  · cases h

/-! ## Fields -/

def i64Bytes (v : Int64) : Bytes := leBytes 8 (int64Bits v)

def doubleBytes (v : Binary64) : Bytes := leBytes 8 v.bits.toNat

/-- `write_string`: a `uint32_t` length and the characters. -/
def stringBytes (s : Bytes) : Bytes := leBytes 4 s.length ++ s

def readI64 (e : Exception) : Parser Exception Int64 := do
  let raw ← Parser.word e 8
  return int64OfBits raw

def readDouble (e : Exception) : Parser Exception Binary64 := do
  let raw ← Parser.word e 8
  return ⟨UInt64.ofNat raw⟩

def readString (e : Exception) : Parser Exception Bytes := do
  let size ← Parser.word e 4
  Parser.bytes e size

theorem reads_i64 (e : Exception) (v : Int64) : Reads (readI64 e) (i64Bytes v) v :=
  ((Reads.word_of_lt e (int64Bits_lt v)).map int64OfBits).congr rfl (int64OfBits_int64Bits v)

theorem reads_double (e : Exception) (v : Binary64) : Reads (readDouble e) (doubleBytes v) v := by
  have hlt : v.bits.toNat < 256 ^ 8 := v.bits.toNat_lt
  refine ((Reads.word_of_lt e hlt).map fun raw => Binary64.mk (UInt64.ofNat raw)).congr rfl ?_
  rw [UInt64.ofNat_toNat]

theorem reads_string (e : Exception) {s : Bytes} (h : s.length < 2 ^ 32) :
    Reads (readString e) (stringBytes s) s :=
  (Reads.word_of_lt e h).bind (Reads.bytes e s)

@[simp] theorem length_i64Bytes (v : Int64) : (i64Bytes v).length = 8 := length_leBytes 8 _

@[simp] theorem length_doubleBytes (v : Binary64) : (doubleBytes v).length = 8 :=
  length_leBytes 8 _

/-! ## Values -/

/-- `write_value_by_type`, `encode_value`: a NULL takes no bytes. -/
def encodeValue (value : NullableValue) (type : ValueType) : Result Bytes :=
  match value, type with
  | none, _ => .ok []
  | some (.int64 v), .int64 => .ok (i64Bytes v)
  | some (.double v), .double => .ok (doubleBytes v)
  | some (.string v), .string => .ok (stringBytes v)
  | some _, _ => .error .badVariantAccess

def readValue (e : Exception) : ValueType → Parser Exception Value
  | .int64 => do
    let v ← readI64 e
    return .int64 v
  | .double => do
    let v ← readDouble e
    return .double v
  | .string => do
    let v ← readString e
    return .string v

/-- What a value that fits its column occupies in a file. -/
def valueBytes : NullableValue → Bytes
  | none => []
  | some (.int64 v) => i64Bytes v
  | some (.double v) => doubleBytes v
  | some (.string v) => stringBytes v

/-- A string's length fits the length field. -/
def Storable (value : NullableValue) : Prop :=
  ∀ s, value = some (.string s) → s.length < 2 ^ 32

theorem encodeValue_of_hasType {type : ValueType} {value : NullableValue}
    (h : HasType type value) : encodeValue value type = .ok (valueBytes value) := by
  cases value with
  | none => cases type <;> rfl
  | some v =>
    have htype := h v rfl
    cases v <;> cases htype <;> rfl

theorem reads_value (e : Exception) {type : ValueType} {v : Value}
    (htype : v.type = type) (hstorable : Storable (some v)) :
    Reads (readValue e type) (valueBytes (some v)) v := by
  subst htype
  cases v with
  | int64 v => exact (reads_i64 e v).map Value.int64
  | double v => exact (reads_double e v).map Value.double
  | string s => exact (reads_string e (hstorable s rfl)).map Value.string

/-! ## Block metadata -/

structure RowBlockMeta where
  minKey : Key
  maxKey : Key
  offset : Nat
  size : Nat
  rowCount : Nat
  blockId : Nat
  deriving DecidableEq

def rowBlockMetaOnDiskSize : Nat := 40

def RowBlockMeta.encode (m : RowBlockMeta) : Bytes :=
  i64Bytes m.minKey ++ (i64Bytes m.maxKey ++ (leBytes 8 m.offset ++ (leBytes 8 m.size ++
    (leBytes 4 m.rowCount ++ leBytes 4 m.blockId))))

def RowBlockMeta.read (e : Exception) : Parser Exception RowBlockMeta := do
  let minKey ← readI64 e
  let maxKey ← readI64 e
  let offset ← Parser.word e 8
  let size ← Parser.word e 8
  let rowCount ← Parser.word e 4
  let blockId ← Parser.word e 4
  return { minKey, maxKey, offset, size, rowCount, blockId }

/-- Every field fits its width in the file. -/
def RowBlockMeta.Fits (m : RowBlockMeta) : Prop :=
  m.offset < 2 ^ 64 ∧ m.size < 2 ^ 64 ∧ m.rowCount < 2 ^ 32 ∧ m.blockId < 2 ^ 32

theorem RowBlockMeta.reads (e : Exception) {m : RowBlockMeta} (h : m.Fits) :
    Reads (RowBlockMeta.read e) m.encode m := by
  obtain ⟨hoffset, hsize, hcount, hid⟩ := h
  exact (reads_i64 e m.minKey).bind ((reads_i64 e m.maxKey).bind
    ((Reads.word_of_lt e hoffset).bind ((Reads.word_of_lt e hsize).bind
      ((Reads.word_of_lt e hcount).bind ((Reads.word_of_lt e hid).map _)))))

@[simp] theorem RowBlockMeta.length_encode (m : RowBlockMeta) :
    m.encode.length = rowBlockMetaOnDiskSize := by
  simp [RowBlockMeta.encode, rowBlockMetaOnDiskSize]

structure ColumnBlockMeta where
  minKey : Key
  maxKey : Key
  offset : Nat
  size : Nat
  valuesCount : Nat
  blockId : Nat
  columnIdx : Nat
  deriving DecidableEq

def columnBlockMetaOnDiskSize : Nat := 44

/-- `write_block_meta`. -/
def ColumnBlockMeta.encode (m : ColumnBlockMeta) : Bytes :=
  i64Bytes m.minKey ++ (i64Bytes m.maxKey ++ (leBytes 8 m.offset ++ (leBytes 8 m.size ++
    (leBytes 4 m.valuesCount ++ (leBytes 4 m.blockId ++ leBytes 4 m.columnIdx)))))

def ColumnBlockMeta.read (e : Exception) : Parser Exception ColumnBlockMeta := do
  let minKey ← readI64 e
  let maxKey ← readI64 e
  let offset ← Parser.word e 8
  let size ← Parser.word e 8
  let valuesCount ← Parser.word e 4
  let blockId ← Parser.word e 4
  let columnIdx ← Parser.word e 4
  return { minKey, maxKey, offset, size, valuesCount, blockId, columnIdx }

def ColumnBlockMeta.Fits (m : ColumnBlockMeta) : Prop :=
  m.offset < 2 ^ 64 ∧ m.size < 2 ^ 64 ∧ m.valuesCount < 2 ^ 32 ∧ m.blockId < 2 ^ 32 ∧
    m.columnIdx < 2 ^ 32

theorem ColumnBlockMeta.reads (e : Exception) {m : ColumnBlockMeta} (h : m.Fits) :
    Reads (ColumnBlockMeta.read e) m.encode m := by
  obtain ⟨hoffset, hsize, hcount, hid, hcolumn⟩ := h
  exact (reads_i64 e m.minKey).bind ((reads_i64 e m.maxKey).bind
    ((Reads.word_of_lt e hoffset).bind ((Reads.word_of_lt e hsize).bind
      ((Reads.word_of_lt e hcount).bind ((Reads.word_of_lt e hid).bind
        ((Reads.word_of_lt e hcolumn).map _))))))

@[simp] theorem ColumnBlockMeta.length_encode (m : ColumnBlockMeta) :
    m.encode.length = columnBlockMetaOnDiskSize := by
  simp [ColumnBlockMeta.encode, columnBlockMetaOnDiskSize]

/-! ## The sparse index -/

structure SparseIndexEntry where
  minKey : Key
  blockId : Nat
  deriving DecidableEq

def sparseIndexEntryOnDiskSize : Nat := 12

def SparseIndexEntry.encode (entry : SparseIndexEntry) : Bytes :=
  i64Bytes entry.minKey ++ leBytes 4 entry.blockId

def SparseIndexEntry.read (e : Exception) : Parser Exception SparseIndexEntry := do
  let minKey ← readI64 e
  let blockId ← Parser.word e 4
  return { minKey, blockId }

theorem SparseIndexEntry.reads (e : Exception) {entry : SparseIndexEntry}
    (h : entry.blockId < 2 ^ 32) : Reads (SparseIndexEntry.read e) entry.encode entry :=
  (reads_i64 e entry.minKey).bind ((Reads.word_of_lt e h).map _)

@[simp] theorem SparseIndexEntry.length_encode (entry : SparseIndexEntry) :
    entry.encode.length = sparseIndexEntryOnDiskSize := by
  simp [SparseIndexEntry.encode, sparseIndexEntryOnDiskSize]

structure SparseIndexOptions where
  fixedStep : Nat := 0
  targetIndexBytes : Nat := 1024 * 1024
  minStep : Nat := 1
  maxStep : Nat := 4096
  deriving DecidableEq

/-- `std::clamp`, for bounds in order. -/
def clamp (value low high : Nat) : Nat :=
  if value < low then low else if high < value then high else value

def chooseSparseIndexStep (numBlocks : Nat) (options : SparseIndexOptions) : Nat :=
  if numBlocks = 0 then 1
  else
    let minStep := max 1 options.minStep
    let maxStep := max minStep options.maxStep
    if options.fixedStep ≠ 0 then clamp options.fixedStep minStep maxStep
    else if options.targetIndexBytes < sparseIndexEntryOnDiskSize then maxStep
    else
      let maxEntries := max 1 (options.targetIndexBytes / sparseIndexEntryOnDiskSize)
      let rawStep := (numBlocks + maxEntries - 1) / maxEntries
      clamp (min rawStep (2 ^ 32 - 1)) minStep maxStep

/-- Block 0 has an index entry whatever the options are. -/
theorem chooseSparseIndexStep_pos (numBlocks : Nat) (options : SparseIndexOptions) :
    0 < chooseSparseIndexStep numBlocks options := by
  unfold chooseSparseIndexStep clamp
  dsimp only
  split
  · exact Nat.one_pos
  · split
    · split
      · omega
      · split <;> omega
    · split
      · omega
      · split
        · omega
        · split <;> omega

/-- No string of the row is too long for its length field. -/
def StorableRow (row : Row) : Prop := ∀ value ∈ row, Storable value

end Htap.SSTable
