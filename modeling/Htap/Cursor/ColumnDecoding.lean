import Htap.Cursor.CheckedReads
import Htap.Cursor.SSTableColumn

/-!
`SSTableColumnCursor` with the position, the length checks and the index accesses of
the source. An access outside of a NULL bitmap, a key list or a column list is a fault
apart from the exceptions. The cursor follows its model, unless it decodes a block whose
bitmap size wraps around.
-/

namespace Htap.Cursor.ColumnDecoding

open Storage SSTable Read ByteFormat ByteWalk Words
open ColumnBlock (blockEnd)
open CheckedReads

/-! ## Column blocks -/

/-- `decode_key_block`. -/
def decodeKeyBlock (blockData : Bytes) (valuesCount : Nat) :
    Except (Fault Exception) (List Key) :=
  ((Walk.times (readInt64 blockEnd) valuesCount).run blockData 0).map Prod.fst

/-- The body of the loop over the values. -/
def decodeValue (type : ValueType) (isNullBitmap : Bytes) (valueIdx : Nat) :
    Walk Exception NullableValue := do
  let byte ← Walk.access isNullBitmap (valueIdx / 8)
  if byte.toNat.testBit (valueIdx % 8) then return none
  else do
    let value ← CheckedReads.readValue blockEnd type
    return some value

/-- The loop over the `remaining` values from `valueIdx` on. -/
def decodeValues (type : ValueType) (isNullBitmap : Bytes) (valueIdx : Nat) :
    Nat → Walk Exception (List NullableValue)
  | 0 => return []
  | remaining + 1 => do
    let value ← decodeValue type isNullBitmap valueIdx
    let rest ← decodeValues type isNullBitmap (valueIdx + 1) remaining
    return value :: rest

/-- `decode_value_column_block`. The size of the bitmap is computed in `uint32_t`. -/
def decodeValueColumnBlock (blockData : Bytes) (valuesCount : Nat) (type : ValueType) :
    Except (Fault Exception) (List NullableValue) :=
  (Walk.run (do
    let isNullBitmap ← readBytes blockEnd (u32 (valuesCount + 7) / 8)
    decodeValues type isNullBitmap 0 valuesCount) blockData 0).map Prod.fst

theorem decodeKeyBlock_eq (blockData : Bytes) (valuesCount : Nat) :
    decodeKeyBlock blockData valuesCount =
      (ColumnBlock.decodeKeys blockData valuesCount).mapError Fault.thrown := by
  have hrun := ((follows_readInt64 blockEnd).times valuesCount).run_eq blockData
  rw [decodeKeyBlock, hrun, ColumnBlock.decodeKeys, parse]
  cases (Parser.times (readI64 blockEnd) valuesCount).run blockData <;> rfl

private theorem follows_decodeValues (type : ValueType) (bitmap : Bytes) (count : Nat) {i : Nat}
    (hbitmap : i + count ≤ 8 * bitmap.length) :
    Follows (decodeValues type bitmap i count) (ColumnBlock.decodeCells bitmap type i count) := by
  induction count generalizing i with
  | zero => exact Follows.pure []
  | succ count ih =>
    have hrest := @ih (i + 1) (by omega)
    have hlt : i / 8 < bitmap.length := by omega
    have hbyte := List.getElem?_eq_getElem hlt
    have hbit : Bitmap.testBit bitmap i = (bitmap[i / 8]).toNat.testBit (i % 8) := by
      rw [Bitmap.testBit, List.getD_eq_getElem?_getD, hbyte]
      rfl
    rw [decodeValues, decodeValue, ColumnBlock.decodeCells, Walk.access_eq hbyte, Walk.pure_bind,
      hbit]
    split
    · rw [Walk.pure_bind]
      exact hrest.map (none :: ·)
    · have hvalue := (follows_readValue blockEnd type).map some
      convert hvalue.bind fun value => hrest.map (value :: ·) using 1
      rw [bind_assoc]
      rfl

/-- While the size of the bitmap is computed right, decoding never faults. -/
theorem decodeValueColumnBlock_eq {valuesCount : Nat} (h : valuesCount + 7 < 2 ^ 32)
    (blockData : Bytes) (type : ValueType) :
    decodeValueColumnBlock blockData valuesCount type =
      (ColumnBlock.decodeValues blockData valuesCount type).mapError Fault.thrown := by
  have hfollows : Follows (do
      let isNullBitmap ← readBytes blockEnd (u32 (valuesCount + 7) / 8)
      decodeValues type isNullBitmap 0 valuesCount) (do
      let bitmap ← Parser.bytes blockEnd (u32 (valuesCount + 7) / 8)
      ColumnBlock.decodeCells bitmap type 0 valuesCount) := by
    refine Follows.bind_map (by rw [bind_pure]; exact follows_readBytes blockEnd _) ?_
    rintro bitmap ⟨raw, rest, hread⟩
    apply follows_decodeValues
    rw [Parser.length_of_run_bytes hread, u32_of_lt h]
    omega
  have hrun := hfollows.run_eq blockData
  rw [decodeValueColumnBlock, hrun, ColumnBlock.decodeValues, parse]
  generalize (do
    let bitmap ← Parser.bytes blockEnd (u32 (valuesCount + 7) / 8)
    ColumnBlock.decodeCells bitmap type 0 valuesCount : Parser Exception _) = p
  cases p.run blockData <;> rfl

/-- A bitmap of no bytes is asked for its first bit. -/
theorem decodeValueColumnBlock_wraps {valuesCount : Nat} (h : 2 ^ 32 ≤ valuesCount + 7)
    (hcount : valuesCount < 2 ^ 32) (blockData : Bytes) (type : ValueType) :
    decodeValueColumnBlock blockData valuesCount type = .error .outOfBounds := by
  have hsize : u32 (valuesCount + 7) / 8 = 0 := by
    unfold u32
    omega
  obtain ⟨count, rfl⟩ := Nat.exists_eq_succ_of_ne_zero (show valuesCount ≠ 0 by omega)
  rw [decodeValueColumnBlock, hsize]
  rfl

/-! ## The cursor -/

abbrev Checked (α : Type) : Type := Except (Fault Exception) α

namespace Checked

variable {α β : Type}

@[simp] theorem ok_bind (a : α) (f : α → Checked β) : (Except.ok a >>= f) = f a := rfl

@[simp] theorem error_bind (fault : Fault Exception) (f : α → Checked β) :
    ((Except.error fault : Checked α) >>= f) = Except.error fault := rfl

theorem bind_eq_ok {x : Checked α} {f : α → Checked β} {b : β} :
    (x >>= f) = Except.ok b ↔ ∃ a, x = Except.ok a ∧ f a = Except.ok b := by
  cases x with
  | ok a => simp
  | error fault => simp

/-- Code without an access of its own to check. -/
def lift (result : Result α) : Checked α := result.mapError Fault.thrown

@[simp] theorem lift_ok (a : α) : lift (Except.ok a : Result α) = Except.ok a := rfl

@[simp] theorem lift_error (e : Exception) :
    lift (Except.error e : Result α) = Except.error (Fault.thrown e) := rfl

theorem lift_bind (x : Result α) (f : α → Result β) :
    lift (x >>= f) = lift x >>= fun a => lift (f a) := by
  cases x with
  | ok a => rfl
  | error e => rfl

theorem of_lift_ok {result : Result α} {a : α} (h : lift result = .ok a) : result = .ok a := by
  cases result with
  | ok b => exact congrArg Except.ok (Except.ok.inj h)
  | error e => cases h

theorem lift_ne_outOfBounds (result : Result α) : lift result ≠ .error .outOfBounds := by
  cases result with
  | ok a => exact nofun
  | error e => exact nofun

/-- `xs[i]`. -/
def access (xs : List α) (i : Nat) : Checked α :=
  match xs[i]? with
  | some a => .ok a
  | none => .error .outOfBounds

theorem access_eq {xs : List α} {i : Nat} {a : α} (h : xs[i]? = some a) :
    access xs i = .ok a := by
  rw [access, h]

theorem of_access_ok {xs : List α} {i : Nat} {a : α} (h : access xs i = .ok a) :
    xs[i]? = some a := by
  unfold access at h
  cases hget : xs[i]? with
  | some b =>
    rw [hget] at h
    exact congrArg some (Except.ok.inj h)
  | none =>
    rw [hget] at h
    cases h

theorem access_of_lt {xs : List α} {i : Nat} (h : i < xs.length) :
    ∃ a, xs[i]? = some a ∧ access xs i = .ok a :=
  ⟨xs[i], List.getElem?_eq_getElem h, access_eq (List.getElem?_eq_getElem h)⟩

end Checked

/-- The fields of the cursor that change. -/
abbrev ColumnScan : Type := BlockScan (List ColumnBlockMeta) (List (List NullableValue))

section Cursor

variable (reader : SSTableReader) (range : KeyRange) (schema : List ValueType)
  (projection : List Nat)

/-- One round of the inner loop of `load_next_non_empty_block`. -/
def loadBlock (keys : List Key) (columns : List (List NullableValue)) (block : ColumnBlockMeta)
    (cache : Option SSTableBlockCache) :
    Checked ((List Key × List (List NullableValue)) × Option SSTableBlockCache) :=
  if schema.length ≤ block.columnIdx then
    .error (.thrown (.runtimeError "Column block index is out of schema range"))
  else if block.columnIdx = keyColumnIndex then do
    let (data, cache) ←
      Checked.lift (reader.readBlock cache (reader.columnKey block) block.offset block.size)
    let keys ← decodeKeyBlock data block.valuesCount
    return ((keys, columns), cache)
  else if block.columnIdx ∉ projection then .ok ((keys, columns), cache)
  else do
    let (data, cache) ←
      Checked.lift (reader.readBlock cache (reader.columnKey block) block.offset block.size)
    let type ← Checked.access schema block.columnIdx
    let values ← decodeValueColumnBlock data block.valuesCount type
    if block.columnIdx < columns.length then
      return ((keys, columns.set block.columnIdx values), cache)
    else .error .outOfBounds

def loadBlocks : List Key → List (List NullableValue) → List ColumnBlockMeta →
    Option SSTableBlockCache →
    Checked ((List Key × List (List NullableValue)) × Option SSTableBlockCache)
  | keys, columns, [], cache => .ok ((keys, columns), cache)
  | keys, columns, block :: blocks, cache => do
    let ((keys, columns), cache) ← loadBlock reader schema projection keys columns block cache
    loadBlocks keys columns blocks cache

/-- `while (valid() && !contains(range_, key())) ++current_row_idx_`, `steps` rounds at
most. -/
def skipOutside (keys : List Key) : Nat → Nat → Checked Nat
  | 0, index => .ok index
  | steps + 1, index =>
    if index < keys.length then do
      let key ← Checked.access keys index
      if range.contains key then .ok index else skipOutside keys steps (index + 1)
    else .ok index

/-- `load_next_non_empty_block`. -/
def loadNextNonEmptyBlock : List (List ColumnBlockMeta) → Option SSTableBlockCache →
    Checked (ColumnScan × Option SSTableBlockCache)
  | [], cache => .ok (⟨[], [], SSTableColumnCursor.cleared schema, 0⟩, cache)
  | run :: pending, cache => do
    let ((keys, columns), cache) ←
      loadBlocks reader schema projection [] (SSTableColumnCursor.cleared schema) run cache
    let index ← skipOutside range keys keys.length 0
    if index < keys.length then return (⟨pending, keys, columns, index⟩, cache)
    else loadNextNonEmptyBlock pending cache

/-- The constructor. -/
def create (blocks : List ColumnBlockMeta) (cache : Option SSTableBlockCache) :
    Checked (ColumnScan × Option SSTableBlockCache) :=
  if schema.isEmpty then
    .error (.thrown (.invalidArgument "SSTableColumnCursor requires non-empty schema"))
  else if schema.length ≤ keyColumnIndex then
    .error (.thrown (.invalidArgument "Schema does not contain key column"))
  else do
    let type ← Checked.access schema keyColumnIndex
    if type ≠ .int64 then
      .error (.thrown (.invalidArgument "Key column must have INT64 type"))
    else
      loadNextNonEmptyBlock reader range schema projection
        (SSTableColumnCursor.logicalBlocks blocks) cache

def next (scan : ColumnScan) (cache : Option SSTableBlockCache) :
    Checked (ColumnScan × Option SSTableBlockCache) :=
  if scan.index < scan.keys.length then do
    let index ← skipOutside range scan.keys scan.keys.length (scan.index + 1)
    if index < scan.keys.length then .ok ({ scan with index := index }, cache)
    else loadNextNonEmptyBlock reader range schema projection scan.pending cache
  else .ok (scan, cache)

def key (scan : ColumnScan) : Checked Key :=
  if scan.index < scan.keys.length then Checked.access scan.keys scan.index
  else .error (.thrown (.logicError "SSTableColumnCursor::key() called on invalid cursor"))

def value (scan : ColumnScan) (columnIdx : Nat) : Checked NullableValue :=
  if scan.keys.length ≤ scan.index then
    .error (.thrown (.logicError "SSTableColumnCursor::value() called on invalid cursor"))
  else if schema.length ≤ columnIdx then
    .error (.thrown (.outOfRange "Column index out of schema range"))
  else if columnIdx = keyColumnIndex then do
    let key ← Checked.access scan.keys scan.index
    return some (.int64 key)
  else do
    let column ← Checked.access scan.payload columnIdx
    if column.isEmpty then .error (.thrown (.logicError "Column is not loaded"))
    else if column.length ≤ scan.index then
      .error (.thrown (.outOfRange "Column value index out of range"))
    else Checked.access column scan.index

/-- So many calls of `next`. -/
def advance : Nat → ColumnScan → Option SSTableBlockCache →
    Checked (ColumnScan × Option SSTableBlockCache)
  | 0, scan, cache => .ok (scan, cache)
  | steps + 1, scan, cache => do
    let (scan, cache) ← next reader range schema projection scan cache
    advance steps scan cache

/-- The cursor after its construction and so many calls of `next`. -/
def position (blocks : List ColumnBlockMeta) (cache : Option SSTableBlockCache) (steps : Nat) :
    Checked (ColumnScan × Option SSTableBlockCache) := do
  let (scan, cache) ← create reader range schema projection blocks cache
  advance reader range schema projection steps scan cache

end Cursor

/-! ## Bitmaps whose size wraps around -/

/-- A block of a projected value column whose bitmap size wraps around, and whose bytes
can be read. -/
def Wraps (reader : SSTableReader) (schema : List ValueType) (projection : List Nat)
    (cache : Option SSTableBlockCache) (block : ColumnBlockMeta) : Prop :=
  block.columnIdx < schema.length ∧ block.columnIdx ≠ keyColumnIndex ∧
    block.columnIdx ∈ projection ∧ 2 ^ 32 ≤ block.valuesCount + 7 ∧
    ∃ out, reader.readBlock cache (reader.columnKey block) block.offset block.size = .ok out

/-- Loading goes on behind the block: it is not asked for, or its bytes can be read and
decoded. -/
inductive Passes (reader : SSTableReader) (schema : List ValueType) (projection : List Nat)
    (block : ColumnBlockMeta) (cache : Option SSTableBlockCache) :
    Option SSTableBlockCache → Prop
  | key {data : Bytes} {keys : List Key} {cache' : Option SSTableBlockCache}
    (hrange : block.columnIdx < schema.length) (hkey : block.columnIdx = keyColumnIndex)
    (hread : reader.readBlock cache (reader.columnKey block) block.offset block.size =
      .ok (data, cache'))
    (hdecode : decodeKeyBlock data block.valuesCount = .ok keys) :
    Passes reader schema projection block cache cache'
  | skipped (hrange : block.columnIdx < schema.length) (hkey : block.columnIdx ≠ keyColumnIndex)
    (hprojected : block.columnIdx ∉ projection) :
    Passes reader schema projection block cache cache
  | value {data : Bytes} {type : ValueType} {values : List NullableValue}
    {cache' : Option SSTableBlockCache}
    (htype : schema[block.columnIdx]? = some type) (hkey : block.columnIdx ≠ keyColumnIndex)
    (hprojected : block.columnIdx ∈ projection)
    (hread : reader.readBlock cache (reader.columnKey block) block.offset block.size =
      .ok (data, cache'))
    (hdecode : decodeValueColumnBlock data block.valuesCount type = .ok values) :
    Passes reader schema projection block cache cache'

/-- Going through the blocks in their order comes to such a bitmap. -/
def MeetsWrap (reader : SSTableReader) (schema : List ValueType) (projection : List Nat) :
    Option SSTableBlockCache → List ColumnBlockMeta → Prop
  | _, [] => False
  | cache, block :: blocks =>
    Wraps reader schema projection cache block ∨ ∃ cache',
      Passes reader schema projection block cache cache' ∧
        MeetsWrap reader schema projection cache' blocks

/-- Going through the blocks leaves this cache. -/
def Passed (reader : SSTableReader) (schema : List ValueType) (projection : List Nat) :
    Option SSTableBlockCache → List ColumnBlockMeta → Option SSTableBlockCache → Prop
  | cache, [], last => last = cache
  | cache, block :: blocks, last => ∃ cache',
      Passes reader schema projection block cache cache' ∧
        Passed reader schema projection cache' blocks last

/-- There is none among blocks of fewer values. -/
theorem not_meetsWrap_of_small {reader : SSTableReader} {schema : List ValueType}
    {projection : List Nat} {blocks : List ColumnBlockMeta}
    (h : ∀ block ∈ blocks, block.valuesCount + 7 < 2 ^ 32) (cache : Option SSTableBlockCache) :
    ¬MeetsWrap reader schema projection cache blocks := by
  induction blocks generalizing cache with
  | nil => exact id
  | cons block blocks ih =>
    obtain ⟨hblock, hrest⟩ := List.forall_mem_cons.mp h
    rintro (⟨-, -, -, hlarge, -⟩ | ⟨cache', -, hmeets⟩)
    · exact absurd hblock (not_lt.mpr hlarge)
    · exact ih hrest cache' hmeets

/-- The counts are `uint32_t`. -/
def Counted (blocks : List ColumnBlockMeta) : Prop :=
  ∀ block ∈ blocks, block.valuesCount < 2 ^ 32

section Load

variable {reader : SSTableReader} {range : KeyRange} {schema : List ValueType}
  {projection : List Nat} {keys : List Key} {columns : List (List NullableValue)}
  {block : ColumnBlockMeta} {cache cache' : Option SSTableBlockCache}

@[simp] theorem length_cleared (schema : List ValueType) :
    (SSTableColumnCursor.cleared schema).length = schema.length := List.length_replicate

/-- Loading a block whose bitmap size wraps around faults. -/
theorem loadBlock_of_wraps (hcount : block.valuesCount < 2 ^ 32)
    (h : Wraps reader schema projection cache block) :
    loadBlock reader schema projection keys columns block cache = .error .outOfBounds := by
  obtain ⟨hlt, hkey, hprojected, hwrap, ⟨data, cache'⟩, hread⟩ := h
  obtain ⟨type, -, htype⟩ := Checked.access_of_lt hlt
  unfold loadBlock
  rw [if_neg (not_le.mpr hlt), if_neg hkey, if_neg (not_not.mpr hprojected), hread,
    Checked.lift_ok, Checked.ok_bind]
  dsimp only
  rw [htype, Checked.ok_bind, decodeValueColumnBlock_wraps hwrap hcount, Checked.error_bind]

/-- Loading any other block is what the model of the cursor does. -/
theorem loadBlock_eq (hwidth : columns.length = schema.length)
    (h : ¬Wraps reader schema projection cache block) :
    loadBlock reader schema projection keys columns block cache =
      Checked.lift
        (SSTableColumnCursor.loadBlock reader schema projection keys columns block cache) := by
  unfold loadBlock SSTableColumnCursor.loadBlock
  cases hget : schema[block.columnIdx]? with
  | none =>
    rw [if_pos (List.getElem?_eq_none_iff.mp hget)]
    rfl
  | some type =>
    have hlt := (List.getElem?_eq_some_iff.mp hget).1
    rw [if_neg (not_le.mpr hlt)]
    dsimp only
    by_cases hkey : block.columnIdx = keyColumnIndex
    · rw [if_pos hkey, if_pos hkey, Checked.lift_bind]
      congr 1
      funext out
      rw [Checked.lift_bind, decodeKeyBlock_eq]
      rfl
    · rw [if_neg hkey, if_neg hkey]
      by_cases hprojected : block.columnIdx ∈ projection
      · rw [if_neg (not_not.mpr hprojected), if_neg (not_not.mpr hprojected),
          Checked.access_eq hget]
        cases hread : reader.readBlock cache (reader.columnKey block) block.offset block.size with
        | error e => rfl
        | ok out =>
          have hsmall : block.valuesCount + 7 < 2 ^ 32 := by
            by_contra hlarge
            exact h ⟨hlt, hkey, hprojected, not_lt.mp hlarge, out, hread⟩
          have hcolumn : block.columnIdx < columns.length := hwidth ▸ hlt
          rw [Checked.lift_ok, Checked.ok_bind, Result.ok_bind, Checked.ok_bind,
            decodeValueColumnBlock_eq hsmall, Checked.lift_bind]
          simp only [if_pos hcolumn]
          rfl
      · rw [if_pos hprojected, if_pos hprojected]
        rfl

/-- A block that was loaded was passed. -/
theorem passes_of_loadBlock {loaded : List Key × List (List NullableValue)}
    (h : loadBlock reader schema projection keys columns block cache = .ok (loaded, cache')) :
    Passes reader schema projection block cache cache' := by
  unfold loadBlock at h
  split at h
  · cases h
  rename_i hrange
  split at h
  · rename_i hkey
    obtain ⟨⟨data, cache₁⟩, hread, h⟩ := Checked.bind_eq_ok.mp h
    obtain ⟨decoded, hdecoded, h⟩ := Checked.bind_eq_ok.mp h
    cases h
    exact .key (not_le.mp hrange) hkey (Checked.of_lift_ok hread) hdecoded
  rename_i hkey
  split at h
  · rename_i hprojected
    cases h
    exact .skipped (not_le.mp hrange) hkey hprojected
  · rename_i hprojected
    obtain ⟨⟨data, cache₁⟩, hread, h⟩ := Checked.bind_eq_ok.mp h
    obtain ⟨type, htype, h⟩ := Checked.bind_eq_ok.mp h
    obtain ⟨decoded, hdecoded, h⟩ := Checked.bind_eq_ok.mp h
    split at h
    · cases h
      exact .value (Checked.of_access_ok htype) hkey (not_not.mp hprojected)
        (Checked.of_lift_ok hread) hdecoded
    · cases h

/-- A block that is passed is loaded, whatever it is loaded into. -/
theorem Passes.loadBlock (hwidth : columns.length = schema.length)
    (h : Passes reader schema projection block cache cache') :
    ∃ loaded, loadBlock reader schema projection keys columns block cache =
      .ok (loaded, cache') := by
  unfold ColumnDecoding.loadBlock
  cases h with
  | @key data decoded _ hrange hkey hread hdecode =>
    refine ⟨(decoded, columns), ?_⟩
    rw [if_neg (not_le.mpr hrange), if_pos hkey, hread, Checked.lift_ok, Checked.ok_bind]
    dsimp only
    rw [hdecode]
    rfl
  | skipped hrange hkey hprojected =>
    refine ⟨(keys, columns), ?_⟩
    rw [if_neg (not_le.mpr hrange), if_neg hkey, if_pos hprojected]
  | @value data type values _ htype hkey hprojected hread hdecode =>
    have hrange := (List.getElem?_eq_some_iff.mp htype).1
    refine ⟨(keys, columns.set block.columnIdx values), ?_⟩
    rw [if_neg (not_le.mpr hrange), if_neg hkey, if_neg (not_not.mpr hprojected), hread,
      Checked.lift_ok, Checked.ok_bind]
    dsimp only
    rw [Checked.access_eq htype, Checked.ok_bind, hdecode, Checked.ok_bind,
      if_pos (hwidth ▸ hrange)]
    rfl

theorem length_loadBlock {loaded : List Key × List (List NullableValue)}
    (h : loadBlock reader schema projection keys columns block cache = .ok (loaded, cache')) :
    loaded.2.length = columns.length := by
  unfold loadBlock at h
  split at h
  · cases h
  split at h
  · obtain ⟨⟨data, cache₁⟩, -, h⟩ := Checked.bind_eq_ok.mp h
    obtain ⟨decoded, -, h⟩ := Checked.bind_eq_ok.mp h
    cases h
    rfl
  split at h
  · cases h
    rfl
  · obtain ⟨⟨data, cache₁⟩, -, h⟩ := Checked.bind_eq_ok.mp h
    obtain ⟨type, -, h⟩ := Checked.bind_eq_ok.mp h
    obtain ⟨decoded, -, h⟩ := Checked.bind_eq_ok.mp h
    split at h
    · cases h
      exact List.length_set
    · cases h

/-- A run that was loaded was passed. -/
theorem passed_of_loadBlocks {run : List ColumnBlockMeta}
    {loaded : List Key × List (List NullableValue)}
    (h : loadBlocks reader schema projection keys columns run cache = .ok (loaded, cache')) :
    Passed reader schema projection cache run cache' := by
  induction run generalizing keys columns cache with
  | nil =>
    cases h
    rfl
  | cons block run ih =>
    rw [loadBlocks] at h
    obtain ⟨⟨first, cache₁⟩, hload, h⟩ := Checked.bind_eq_ok.mp h
    exact ⟨cache₁, passes_of_loadBlock hload, ih h⟩

theorem Passed.append {run rest : List ColumnBlockMeta} {last : Option SSTableBlockCache}
    (h : Passed reader schema projection cache run cache')
    (hrest : Passed reader schema projection cache' rest last) :
    Passed reader schema projection cache (run ++ rest) last := by
  induction run generalizing cache with
  | nil =>
    cases h
    exact hrest
  | cons block run ih =>
    obtain ⟨cache₁, hpasses, hpassed⟩ := h
    exact ⟨cache₁, hpasses, ih hpassed⟩

/-- A run without one is loaded as the model does. -/
theorem loadBlocks_eq {run : List ColumnBlockMeta} (hwidth : columns.length = schema.length)
    (h : ¬MeetsWrap reader schema projection cache run) :
    loadBlocks reader schema projection keys columns run cache =
      Checked.lift
        (SSTableColumnCursor.loadBlocks reader schema projection keys columns run cache) := by
  induction run generalizing keys columns cache with
  | nil => rfl
  | cons block run ih =>
    have hblock := @loadBlock_eq reader schema projection keys columns block cache hwidth
      fun hwraps => h (Or.inl hwraps)
    rw [loadBlocks, SSTableColumnCursor.loadBlocks, Checked.lift_bind, ← hblock]
    cases hload : loadBlock reader schema projection keys columns block cache with
    | error fault => rfl
    | ok out =>
      obtain ⟨loaded, cache'⟩ := out
      exact ih ((length_loadBlock hload).trans hwidth) fun hrest =>
        h (Or.inr ⟨cache', passes_of_loadBlock hload, hrest⟩)

/-- Blocks behind a run that was loaded are met with the cache it left. -/
theorem meetsWrap_append {run rest : List ColumnBlockMeta}
    {loaded : List Key × List (List NullableValue)} (hcounted : Counted run)
    (hwidth : columns.length = schema.length)
    (h : loadBlocks reader schema projection keys columns run cache = .ok (loaded, cache')) :
    MeetsWrap reader schema projection cache (run ++ rest) ↔
      MeetsWrap reader schema projection cache' rest := by
  induction run generalizing keys columns cache with
  | nil =>
    cases h
    rfl
  | cons block run ih =>
    obtain ⟨hblock, hrun⟩ := List.forall_mem_cons.mp hcounted
    rw [loadBlocks] at h
    obtain ⟨⟨first, cache₁⟩, hload, h⟩ := Checked.bind_eq_ok.mp h
    have hrest := ih hrun ((length_loadBlock hload).trans hwidth) h
    rw [List.cons_append, MeetsWrap, ← hrest]
    constructor
    · rintro (hwraps | ⟨cache₂, hpasses, hmeets⟩)
      · rw [loadBlock_of_wraps hblock hwraps] at hload
        cases hload
      · obtain ⟨loaded', hsame⟩ := @Passes.loadBlock reader schema projection keys columns block
          cache cache₂ hwidth hpasses
        rw [hload] at hsame
        cases hsame
        exact hmeets
    · intro hmeets
      exact Or.inr ⟨cache₁, passes_of_loadBlock hload, hmeets⟩

theorem meetsWrap_of_run {run rest : List ColumnBlockMeta}
    (h : MeetsWrap reader schema projection cache run) :
    MeetsWrap reader schema projection cache (run ++ rest) := by
  induction run generalizing cache with
  | nil => exact absurd h id
  | cons block run ih =>
    rcases h with hwraps | ⟨cache', hpasses, hmeets⟩
    · exact Or.inl hwraps
    · exact Or.inr ⟨cache', hpasses, ih hmeets⟩

/-- A throw in front keeps the blocks behind it from being met. -/
theorem not_meetsWrap_of_throws {run rest : List ColumnBlockMeta} {e : Exception}
    (hcounted : Counted run) (hwidth : columns.length = schema.length)
    (h : loadBlocks reader schema projection keys columns run cache = .error (.thrown e)) :
    ¬MeetsWrap reader schema projection cache (run ++ rest) := by
  induction run generalizing keys columns cache with
  | nil => cases h
  | cons block run ih =>
    obtain ⟨hblock, hrun⟩ := List.forall_mem_cons.mp hcounted
    rw [loadBlocks] at h
    rintro (hwraps | ⟨cache', hpasses, hmeets⟩)
    · rw [loadBlock_of_wraps hblock hwraps] at h
      cases h
    · obtain ⟨loaded, hload⟩ := hpasses.loadBlock hwidth
      rw [hload, Checked.ok_bind] at h
      exact ih hrun ((length_loadBlock hload).trans hwidth) h hmeets

/-- The checked loop stops where the loop of the model does. -/
theorem skipOutside_eq (steps : Nat) {index : Nat} (h : keys.length ≤ index + steps) :
    skipOutside range keys steps index = .ok (Cursor.skipOutside range keys index) := by
  induction steps generalizing index with
  | zero =>
    rw [skipOutside, Cursor.skipOutside, List.drop_of_length_le (by omega)]
    rfl
  | succ steps ih =>
    rw [skipOutside]
    split
    · rename_i hlt
      obtain ⟨key, hget, haccess⟩ := Checked.access_of_lt hlt
      have hdrop : keys.drop index = key :: keys.drop (index + 1) := by
        obtain ⟨_, rfl⟩ := List.getElem?_eq_some_iff.mp hget
        exact List.drop_eq_getElem_cons hlt
      rw [haccess, Checked.ok_bind, Cursor.skipOutside, hdrop]
      by_cases hin : range.contains key = true
      · rw [if_pos hin, List.takeWhile_cons_of_neg (by simp [hin])]
        rfl
      · rw [if_neg hin, ih (by omega), List.takeWhile_cons_of_pos (by simp [hin]),
          Cursor.skipOutside, List.length_cons]
        congr 1
        omega
    · rename_i hend
      rw [Cursor.skipOutside, List.drop_of_length_le (by omega)]
      rfl

end Load

end Htap.Cursor.ColumnDecoding
