import Htap.Cursor.BlockScan
import Htap.Read.Table

/-!
`SSTableColumnCursor`: a logical block is a run of column blocks with one block
id. The key block gives the rows, the blocks of projected columns their cells.
-/

namespace Htap.Cursor

open Storage SSTable Read ByteFormat Words

namespace ColumnBlock

def blockEnd : Exception := .runtimeError "Unexpected end of SSTable column block"

/-- `decode_key_block`. -/
def decodeKeys (data : Bytes) (valuesCount : Nat) : Result (List Key) :=
  parse (Parser.times (readI64 blockEnd) valuesCount) data

/-- `count` values of a column, from value `i` on. -/
def decodeCells (bitmap : Bytes) (type : ValueType) (i : Nat) :
    Nat → Parser Exception (List NullableValue)
  | 0 => return []
  | count + 1 =>
    if Bitmap.testBit bitmap i then do
      let rest ← decodeCells bitmap type (i + 1) count
      return none :: rest
    else do
      let value ← readValue blockEnd type
      let rest ← decodeCells bitmap type (i + 1) count
      return some value :: rest

/-- `decode_value_column_block`. The bitmap size is computed in `uint32_t`. -/
def decodeValues (data : Bytes) (valuesCount : Nat) (type : ValueType) :
    Result (List NullableValue) :=
  parse (do
    let bitmap ← Parser.bytes blockEnd (u32 (valuesCount + 7) / 8)
    decodeCells bitmap type 0 valuesCount) data

end ColumnBlock

structure SSTableColumnCursor where
  reader : SSTableReader
  range : KeyRange
  schema : List ValueType
  projection : List Nat
  scan : BlockScan (List ColumnBlockMeta) (List (List NullableValue))

namespace SSTableColumnCursor

/-- Read one column block into the keys or into its column, unless the column
is not projected. -/
def loadBlock (reader : SSTableReader) (schema : List ValueType) (projection : List Nat)
    (keys : List Key) (columns : List (List NullableValue)) (block : ColumnBlockMeta)
    (cache : Option SSTableBlockCache) :
    Result ((List Key × List (List NullableValue)) × Option SSTableBlockCache) :=
  match schema[block.columnIdx]? with
  | none => .error (.runtimeError "Column block index is out of schema range")
  | some type =>
    if block.columnIdx = keyColumnIndex then do
      let (data, cache) ← reader.readBlock cache (reader.columnKey block) block.offset block.size
      let keys ← ColumnBlock.decodeKeys data block.valuesCount
      return ((keys, columns), cache)
    else if block.columnIdx ∉ projection then .ok ((keys, columns), cache)
    else do
      let (data, cache) ← reader.readBlock cache (reader.columnKey block) block.offset block.size
      let values ← ColumnBlock.decodeValues data block.valuesCount type
      return ((keys, columns.set block.columnIdx values), cache)

def loadBlocks (reader : SSTableReader) (schema : List ValueType) (projection : List Nat) :
    List Key → List (List NullableValue) → List ColumnBlockMeta → Option SSTableBlockCache →
    Result ((List Key × List (List NullableValue)) × Option SSTableBlockCache)
  | keys, columns, [], cache => .ok ((keys, columns), cache)
  | keys, columns, block :: blocks, cache => do
    let ((keys, columns), cache) ← loadBlock reader schema projection keys columns block cache
    loadBlocks reader schema projection keys columns blocks cache

/-- The columns of a block that is not loaded. -/
def cleared (schema : List ValueType) : List (List NullableValue) :=
  List.replicate schema.length []

/-- The inner loop of `load_next_non_empty_block`: all blocks of a logical block. -/
def load (reader : SSTableReader) (schema : List ValueType) (projection : List Nat) :
    BlockLoad (List ColumnBlockMeta) (List (List NullableValue)) :=
  loadBlocks reader schema projection [] (cleared schema)

/-- The runs of blocks that share a block id. -/
def logicalBlocks (blocks : List ColumnBlockMeta) : List (List ColumnBlockMeta) :=
  blocks.splitBy fun a b => a.blockId == b.blockId

/-- The constructor, which loads the first blocks. -/
def create (reader : SSTableReader) (blocks : List ColumnBlockMeta) (range : KeyRange)
    (schema : List ValueType) (projection : List Nat) (cache : Option SSTableBlockCache) :
    Result (SSTableColumnCursor × Option SSTableBlockCache) :=
  if schema.isEmpty then
    .error (.invalidArgument "SSTableColumnCursor requires non-empty schema")
  else if schema.length ≤ keyColumnIndex then
    .error (.invalidArgument "Schema does not contain key column")
  else if schema[keyColumnIndex]? ≠ some .int64 then
    .error (.invalidArgument "Key column must have INT64 type")
  else do
    let (scan, cache) ← BlockScan.loadNextNonEmptyBlock range (load reader schema projection)
      (cleared schema) (logicalBlocks blocks) cache
    return ({ reader, range, schema, projection, scan }, cache)

instance : ICursor SSTableColumnCursor where
  valid c := c.scan.valid
  next c w := do
    let (scan, cache) ← c.scan.next c.range (load c.reader c.schema c.projection)
      (cleared c.schema) w.blockCache
    return ({ c with scan := scan }, { w with blockCache := cache })
  key c _ :=
    match c.scan.keys[c.scan.index]? with
    | some key => .ok key
    | none => .error (.logicError "SSTableColumnCursor::key() called on invalid cursor")
  value c _ columnIdx :=
    match c.scan.keys[c.scan.index]? with
    | none => .error (.logicError "SSTableColumnCursor::value() called on invalid cursor")
    | some key =>
      if c.schema.length ≤ columnIdx then
        .error (.outOfRange "Column index out of schema range")
      else if columnIdx = keyColumnIndex then .ok (some (.int64 key))
      else
        let column := c.scan.payload.getD columnIdx []
        if column.isEmpty then .error (.logicError "Column is not loaded")
        else
          match column[c.scan.index]? with
          | some value => .ok value
          | none => .error (.outOfRange "Column value index out of range")

end SSTableColumnCursor

/-! ## Decoding what the builder encoded -/

namespace ColumnBlock

theorem decodeKeys_eq (rows : List Row) :
    decodeKeys (physicalBlockBytes rows keyColumnIndex) rows.length = .ok (rows.map rowKey) := by
  apply parse_eq
  have hkeys := Reads.times (rows.map rowKey) fun key _ => reads_i64 blockEnd key
  rwa [List.length_map, List.flatMap_map] at hkeys

private theorem reads_cells {type : ValueType} {cells : List NullableValue}
    (htyped : ∀ value ∈ cells, HasType type value) (hstorable : ∀ value ∈ cells, Storable value)
    (bitmap : Bytes) (i : Nat)
    (hbitmap : ∀ j, j < cells.length →
      Bitmap.testBit bitmap (i + j) = (cells.map Option.isNone).getD j false) :
    Reads (decodeCells bitmap type i cells.length) (cells.flatMap valueBytes) cells := by
  induction cells generalizing i with
  | nil => exact Reads.pure []
  | cons value cells ih =>
    have hbits : ∀ j, j < cells.length →
        Bitmap.testBit bitmap (i + 1 + j) = (cells.map Option.isNone).getD j false := by
      intro j hj
      have hbit := hbitmap (j + 1) (by simpa using hj)
      rw [show i + 1 + j = i + (j + 1) by omega, hbit]
      simp
    have hrest := ih (fun v hv => htyped v (List.mem_cons_of_mem _ hv))
      (fun v hv => hstorable v (List.mem_cons_of_mem _ hv)) (i + 1) hbits
    have hfirst : Bitmap.testBit bitmap i = value.isNone := by
      have hbit := hbitmap 0 (by simp)
      simpa using hbit
    rw [List.length_cons, decodeCells, hfirst, List.flatMap_cons]
    cases value with
    | none =>
      rw [if_pos Option.isNone_none]
      exact hrest.map (none :: ·)
    | some v =>
      rw [if_neg (by simp)]
      exact (reads_value blockEnd (htyped (some v) List.mem_cons_self v rfl)
        (hstorable (some v) List.mem_cons_self)).bind (hrest.map (some v :: ·))

theorem storable_cell {row : Row} (h : StorableRow row) (i : Nat) : Storable (cell row i) := by
  rw [cell, List.getD_eq_getElem?_getD]
  cases hi : row[i]? with
  | none => exact fun s hs => by cases hs
  | some value => exact h value (List.mem_of_getElem? hi)

/-- The decoder reads back the cells of an encoded column. -/
theorem decodeValues_eq {rows : List Row} {i : Nat} (hi : i ≠ keyColumnIndex) {type : ValueType}
    (htyped : ∀ row ∈ rows, HasType type (cell row i))
    (hstorable : ∀ row ∈ rows, Storable (cell row i)) (hlength : rows.length + 7 < 2 ^ 32) :
    decodeValues (physicalBlockBytes rows i) rows.length type = .ok (rows.map fun row => cell row i)
    := by
  apply parse_eq
  rw [physicalBlockBytes, if_neg hi, columnBlockBytes, u32_of_lt hlength]
  have hbits : ∀ j, j < (rows.map fun row => cell row i).length → Bitmap.testBit
      (Bitmap.ofFlags (rows.map fun row => (cell row i).isNone)) (0 + j) =
        ((rows.map fun row => cell row i).map Option.isNone).getD j false := by
    intro j _
    rw [Nat.zero_add, Bitmap.testBit_ofFlags, List.map_map]
    rfl
  have hcells := @reads_cells type (rows.map fun row => cell row i)
    (by simpa using htyped) (by simpa using hstorable) _ 0 hbits
  rw [List.length_map, List.flatMap_map] at hcells
  have hbitmap : Reads (Parser.bytes blockEnd ((rows.length + 7) / 8))
      (Bitmap.ofFlags (rows.map fun row => (cell row i).isNone)) _ :=
    Reads.bytes_of_length blockEnd (by
      rw [Bitmap.length_ofFlags, List.length_map, Bitmap.byteCount])
  exact hbitmap.bind hcells

end ColumnBlock

/-! ## The rows a column cursor goes through -/

namespace SSTableColumnCursor

/-- The loaded columns are the projected columns of the block. -/
def Shows (projection : List Nat) (rows : List Row) (columns : List (List NullableValue)) : Prop :=
  ∀ i ∈ projection, i ≠ keyColumnIndex → columns[i]? = some (rows.map fun row => cell row i)

/-- The blocks of a logical block that a scan loads. -/
def projectedBlocks (projection : List Nat) (blocks : List ColumnBlockMeta) :
    List ColumnBlockMeta :=
  blocks.filter fun block => block.columnIdx == keyColumnIndex ||
      projection.contains block.columnIdx

variable {schema : Schema} {options : SparseIndexOptions} {t : Table}
  {contents : CacheKey → Option Bytes} {reader : SSTableReader}

/-- What is loaded of `rows` after the blocks of the columns `done`. -/
private structure Partly (schema : Schema) (projection : List Nat) (rows : List Row)
    (done : List Nat) (keys : List Key) (columns : List (List NullableValue)) : Prop where
  keys : keyColumnIndex ∈ done → keys = rows.map rowKey
  width : columns.length = schema.size
  columns : ∀ i ∈ done, i ∈ projection → i ≠ keyColumnIndex →
    columns[i]? = some (rows.map fun row => cell row i)

section Block

variable (hwf : t.WellFormed schema options) (hlayout : t.layout = .column)
  (hdata : reader.data = (t.files schema options).data)
  (hcontents : ∀ key, key.sstableId = reader.sstableId → contents key = t.contents key)
  {earlier later : List (List Row)} {rows : List Row}
    (hblocks : t.blocks = earlier ++ rows :: later)
include hwf hlayout hdata hcontents hblocks

/-- The metadata record of column `i` of the block. -/
def blockOf (schema : Schema) (earlier : List (List Row)) (rows : List Row) (i : Nat) :
    ColumnBlockMeta :=
  columnBlockMeta (earlier.flatMap (logicalBlockBytes schema)).length (u32 earlier.length) rows i

theorem read_physical {i : Nat} (hi : i < schema.size) {cache : Option SSTableBlockCache}
    (hcache : CacheCoherent contents cache) :
    ∃ cache', reader.readBlock cache (reader.columnKey (blockOf schema earlier rows i))
        (blockOf schema earlier rows i).offset (blockOf schema earlier rows i).size =
          .ok (physicalBlockBytes rows i, cache') ∧ CacheCoherent contents cache' := by
  have hearlier : earlier.length < 2 ^ 32 := by
    have := hwf.counted.blocks
    simp only [hblocks, List.length_append] at this
    omega
  apply SSTableReader.readBlock_coherent hcache
  · rw [hcontents _ rfl, Table.contents, hlayout]
    simp [SSTableReader.columnKey, blockOf, columnBlockMeta, u32_of_lt hearlier, hblocks]
  · have hsplit := Table.range_split hi
    have hread := readBytes_window (earlier.flatMap (logicalBlockBytes schema) ++
        (List.range i).flatMap (physicalBlockBytes rows)) (physicalBlockBytes rows i)
      ((List.range' (i + 1) (schema.size - (i + 1))).flatMap (physicalBlockBytes rows) ++
        later.flatMap (logicalBlockBytes schema))
    rw [hdata, Table.files, hlayout]
    simpa [columnSSTable, hblocks, blockOf, columnBlockMeta, logicalBlockBytes, hsplit] using hread

/-- Loading one more column. -/
private theorem loadBlock_spec {projection done : List Nat} {keys : List Key}
    {columns : List (List NullableValue)}
    (hpartly : Partly schema projection rows done keys columns)
    {i : Nat} (hi : i < schema.size) {cache : Option SSTableBlockCache}
    (hcache : CacheCoherent contents cache) :
    ∃ keys' columns' cache', loadBlock reader schema.types projection keys columns
        (blockOf schema earlier rows i) cache = .ok ((keys', columns'), cache') ∧
      CacheCoherent contents cache' ∧
      Partly schema projection rows (i :: done) keys' columns' := by
  have hmem : rows ∈ t.blocks := by simp [hblocks]
  have hrow : ∀ row ∈ rows, row ∈ t.rows := fun row h => List.mem_flatten_of_mem hmem h
  have hlength := hwf.counted.bitmap hlayout rows hmem
  have hcount : (blockOf schema earlier rows i).valuesCount = rows.length :=
    u32_of_lt (by omega)
  have hcolumn : schema.columns[i]? = some schema.columns[i] := List.getElem?_eq_getElem hi
  have htype : schema.types[(blockOf schema earlier rows i).columnIdx]? =
      some schema.columns[i].type := by
    rw [Schema.types, List.getElem?_map]
    exact congrArg _ hcolumn
  obtain ⟨cache', hread, hcache'⟩ := read_physical hwf hlayout hdata hcontents hblocks hi hcache
  have hidx : (blockOf schema earlier rows i).columnIdx = i := rfl
  unfold loadBlock
  rw [htype]
  dsimp only
  rw [hidx]
  by_cases hkey : i = keyColumnIndex
  · have hkeys := ColumnBlock.decodeKeys_eq rows
    rw [← hkey] at hkeys
    rw [if_pos hkey, hread, Result.ok_bind]
    dsimp only
    rw [hcount, hkeys, Result.ok_bind]
    refine ⟨_, _, cache', rfl, hcache', fun _ => rfl, hpartly.width, ?_⟩
    intro j hj hprojected hne
    rcases List.mem_cons.mp hj with rfl | h
    · exact absurd hkey hne
    · exact hpartly.columns j h hprojected hne
  · have hkeys : keyColumnIndex ∈ i :: done → keys = rows.map rowKey := by
      intro h
      rcases List.mem_cons.mp h with heq | h
      · exact absurd heq.symm hkey
      · exact hpartly.keys h
    rw [if_neg hkey]
    by_cases hprojected : i ∈ projection
    · have hvalues := ColumnBlock.decodeValues_eq hkey
        (fun row h => hasType_of_valid (hwf.valid row (hrow row h)) hcolumn)
        (fun row h => ColumnBlock.storable_cell (hwf.storable row (hrow row h)) i) hlength
      rw [if_neg (not_not.mpr hprojected), hread, Result.ok_bind]
      dsimp only
      rw [hcount, hvalues, Result.ok_bind]
      refine ⟨_, _, cache', rfl, hcache', hkeys, by rw [List.length_set, hpartly.width], ?_⟩
      intro j hj hprojected' hne
      by_cases heq : i = j
      · subst heq
        exact List.getElem?_set_self (by rw [hpartly.width]; exact hi)
      · rw [List.getElem?_set_ne heq]
        exact hpartly.columns j ((List.mem_cons.mp hj).resolve_left (Ne.symm heq)) hprojected' hne
    · rw [if_pos hprojected]
      refine ⟨keys, columns, cache, rfl, hcache, hkeys, hpartly.width, ?_⟩
      intro j hj hprojected' hne
      rcases List.mem_cons.mp hj with rfl | h
      · exact absurd hprojected' hprojected
      · exact hpartly.columns j h hprojected' hne

private theorem loadBlocks_spec {projection : List Nat} (indices : List Nat)
    (hindices : ∀ i ∈ indices, i < schema.size) {done : List Nat} {keys : List Key}
    {columns : List (List NullableValue)}
    (hpartly : Partly schema projection rows done keys columns)
    {cache : Option SSTableBlockCache} (hcache : CacheCoherent contents cache) :
    ∃ keys' columns' cache', loadBlocks reader schema.types projection keys columns
        (indices.map (blockOf schema earlier rows)) cache = .ok ((keys', columns'), cache') ∧
      CacheCoherent contents cache' ∧
      Partly schema projection rows (indices.reverse ++ done) keys' columns' := by
  induction indices generalizing done keys columns cache with
  | nil => exact ⟨keys, columns, cache, rfl, hcache, hpartly⟩
  | cons i indices ih =>
    obtain ⟨keys', columns', cache', hload, hcache', hpartly'⟩ :=
      loadBlock_spec hwf hlayout hdata hcontents hblocks hpartly
        (hindices i List.mem_cons_self) hcache
    obtain ⟨keys'', columns'', cache'', hrest, hcache'', hpartly''⟩ :=
      ih (fun j hj => hindices j (List.mem_cons_of_mem _ hj)) hpartly' hcache'
    refine ⟨keys'', columns'', cache'', ?_, hcache'', ?_⟩
    · rw [List.map_cons, loadBlocks, hload, Result.ok_bind]
      exact hrest
    · rw [List.reverse_cons, List.append_assoc]
      exact hpartly''

/-- A logical block loads as its rows. -/
theorem loads_logicalBlock {projection : List Nat} (hbound : ∀ i ∈ projection, i < schema.size) :
    Loads contents (load reader schema.types projection) (Shows projection)
      (projectedBlocks projection (logicalBlockMetas schema earlier rows)) rows := by
  intro cache hcache
  obtain ⟨keyColumn, columns, hcolumns, -⟩ := hwf.keyed.keyFirst
  have hsize : 0 < schema.size := by simp [Schema.size, hcolumns]
  have hindices : projectedBlocks projection (logicalBlockMetas schema earlier rows) =
      ((List.range schema.size).filter fun i =>
        i == keyColumnIndex || projection.contains i).map (blockOf schema earlier rows) := by
    rw [projectedBlocks, logicalBlockMetas, List.filter_map]
    rfl
  have hstart : Partly schema projection rows [] [] (cleared schema.types) :=
    ⟨by simp, by simp [cleared], by simp⟩
  obtain ⟨keys, columns, cache', hload, hcache', hpartly⟩ :=
    loadBlocks_spec hwf hlayout hdata hcontents hblocks
      ((List.range schema.size).filter fun i => i == keyColumnIndex || projection.contains i)
      (fun i hi => List.mem_range.mp (List.mem_of_mem_filter hi)) hstart hcache
  have hdone : ∀ i, i < schema.size → i = keyColumnIndex ∨ i ∈ projection →
      i ∈ ((List.range schema.size).filter fun i =>
        i == keyColumnIndex || projection.contains i).reverse ++ [] := by
    intro i hlt hkept
    rw [List.append_nil, List.mem_reverse, List.mem_filter, List.mem_range]
    exact ⟨hlt, by simpa using hkept⟩
  have hkeys := hpartly.keys (hdone keyColumnIndex hsize (Or.inl rfl))
  refine ⟨columns, cache', ?_, hcache', ?_⟩
  · rw [load, hindices, hload, hkeys]
  · intro i hi hne
    exact hpartly.columns i (hdone i (hbound i hi) (Or.inr hi)) hi hne

end Block

/-- The cursor's own state, for the blocks it still has to load. -/
structure Good (schema : Schema) (projection : List Nat) (contents : CacheKey → Option Bytes)
    (c : SSTableColumnCursor) (rows : List Row) : Prop where
  types : c.schema = schema.types
  bound : ∀ i ∈ projection, i < schema.size
  projected : c.projection = projection
  valid : ∀ row ∈ rows, ValidRow schema row
  scan : c.scan.Holds contents c.range (load c.reader c.schema c.projection)
    (Shows c.projection) rows

def Holds (schema : Schema) (projection : List Nat) (contents : CacheKey → Option Bytes)
    (_ : World) (c : SSTableColumnCursor) (rows : List Row) : Prop :=
  Good schema projection contents c rows

theorem model (schema : Schema) (projection : List Nat) (contents : CacheKey → Option Bytes) :
    CursorModel projection contents (Holds schema projection contents) where
  stable := fun h _ => h
  done := by
    intro w c h
    have hdone : c.scan.keys.length ≤ c.scan.index := h.scan
    simpa [ICursor.valid, BlockScan.valid] using hdone
  row := by
    intro w c row rest hcache h
    have hvalid := BlockScan.valid_of_holds h.scan
    have hkey := BlockScan.key_of_holds h.scan
    obtain ⟨scan, cache, hnext, hcache', hscan⟩ := BlockScan.next_spec h.scan hcache
    refine ⟨by simpa [ICursor.valid, BlockScan.valid] using hvalid, ?_, ?_,
      { c with scan := scan }, { w with blockCache := cache }, ?_, hcache', ⟨rfl, rfl⟩,
      h.types, h.bound, h.projected, fun r hr => h.valid r (List.mem_cons_of_mem _ hr), hscan⟩
    · simp only [ICursor.key, hkey]
    · intro i hi
      obtain ⟨loaded, -, -, hshows, hget, -, -⟩ := h.scan
      have hbound : ¬ c.schema.length ≤ i := by
        rw [h.types, Schema.length_types]
        exact not_le.mpr (h.bound i hi)
      simp only [ICursor.value, hkey, if_neg hbound]
      by_cases hkeyColumn : i = keyColumnIndex
      · obtain ⟨cells, hcells⟩ := (h.valid row List.mem_cons_self).head
        rw [if_pos hkeyColumn, hkeyColumn, hcells]
        rfl
      · have hcolumn : c.scan.payload.getD i [] = loaded.map fun row => cell row i := by
          rw [List.getD_eq_getElem?_getD, hshows i (by rw [h.projected]; exact hi) hkeyColumn]
          rfl
        have hne : loaded ≠ [] := by
          rintro rfl
          simp at hget
        have hcell : (loaded.map fun row => cell row i)[c.scan.index]? = some (cell row i) := by
          rw [List.getElem?_map, hget]
          rfl
        rw [if_neg hkeyColumn, hcolumn, if_neg (by simpa using hne), hcell]
    · change (c.scan.next _ _ _ _ >>= _) = _
      rw [hnext]
      rfl

/-- Blocks of different logical blocks differ in their block id. -/
private theorem logicalBlocks_eq (hwf : t.WellFormed schema options) (projection : List Nat)
    {entries : List (List ColumnBlockMeta × List Row)}
    (hentries : entries.Sublist (t.columnBlocks schema)) :
    logicalBlocks (entries.map fun entry => projectedBlocks projection entry.1).flatten =
      entries.map fun entry => projectedBlocks projection entry.1 := by
  obtain ⟨keyColumn, columns, hcolumns, -⟩ := hwf.keyed.keyFirst
  have hsize : 0 < schema.size := by simp [Schema.size, hcolumns]
  have hids : (t.columnBlocks schema).Pairwise fun a b =>
      ∀ x ∈ a.1, ∀ y ∈ b.1, x.blockId ≠ y.blockId := by
    rw [List.pairwise_iff_getElem]
    intro i j hi hj hij
    rw [Table.columnBlocks, Splitting.length_mapPrefix] at hi hj
    have hlt := hwf.counted.blocks
    have hat : ∀ k, k < t.blocks.length → ∀ _h : k < (t.columnBlocks schema).length,
        ∀ x ∈ (t.columnBlocks schema)[k].1, x.blockId = k := by
      intro k hk h x hx
      have hget := List.getElem?_eq_getElem h
      unfold Table.columnBlocks at hget
      rw [Splitting.getElem?_mapPrefix, List.getElem?_eq_getElem hk] at hget
      simp only [List.nil_append, Option.map_some, Option.some.injEq] at hget
      unfold Table.columnBlocks at hx
      rw [← hget] at hx
      obtain ⟨c, -, rfl⟩ := List.mem_map.mp hx
      simp only [columnBlockMeta, List.length_take]
      rw [u32_of_lt (by omega)]
      omega
    intro x hx y hy
    rw [hat i hi _ x hx, hat j hj _ y hy]
    omega
  have hsub : ∀ entry ∈ entries, entry ∈ t.columnBlocks schema := fun entry h => hentries.subset h
  have hsame : ∀ entry ∈ entries, ∀ x ∈ entry.1, ∀ y ∈ entry.1, x.blockId = y.blockId := by
    intro entry hentry x hx y hy
    obtain ⟨earlier, rows, later, -, rfl⟩ := Table.mem_columnBlocks (hsub entry hentry)
    obtain ⟨_, -, rfl⟩ := List.mem_map.mp hx
    obtain ⟨_, -, rfl⟩ := List.mem_map.mp hy
    rfl
  have hkept : ∀ entry ∈ entries, projectedBlocks projection entry.1 ≠ [] := by
    intro entry hentry
    obtain ⟨earlier, rows, later, -, rfl⟩ := Table.mem_columnBlocks (hsub entry hentry)
    have hkeyBlock := List.mem_map_of_mem
      (f := columnBlockMeta (earlier.flatMap (logicalBlockBytes schema)).length
        (u32 earlier.length) rows) (List.mem_range.mpr hsize)
    exact List.ne_nil_of_mem (List.mem_filter.mpr ⟨hkeyBlock, rfl⟩)
  apply List.splitBy_flatten
  · intro hnil
    obtain ⟨entry, hentry, heq⟩ := List.mem_map.mp hnil
    exact hkept entry hentry heq
  · intro group hgroup
    obtain ⟨entry, hentry, rfl⟩ := List.mem_map.mp hgroup
    apply List.Pairwise.isChain
    apply List.pairwise_of_forall_mem_list
    intro x hx y hy
    simpa using hsame entry hentry x (List.mem_of_mem_filter hx) y (List.mem_of_mem_filter hy)
  · apply List.Pairwise.isChain
    rw [List.pairwise_map]
    refine (List.Pairwise.and_mem.mp (hids.sublist hentries)).imp ?_
    intro a b h
    obtain ⟨ha, hb, hdiffer⟩ := h
    refine ⟨hkept a ha, hkept b hb, ?_⟩
    have hx := List.mem_of_mem_filter (List.getLast_mem (hkept a ha))
    have hy := List.mem_of_mem_filter (List.head_mem (hkept b hb))
    simpa using hdiffer _ hx _ hy

/-- A new cursor holds the rows of the range in its logical blocks. -/
theorem create_spec (hwf : t.WellFormed schema options) (hlayout : t.layout = .column)
    (hdata : reader.data = (t.files schema options).data)
    (hcontents : ∀ key, key.sstableId = reader.sstableId → contents key = t.contents key)
    {projection : List Nat} (hbound : ∀ i ∈ projection, i < schema.size)
    (range : KeyRange) {entries : List (List ColumnBlockMeta × List Row)}
    (hentries : entries.Sublist (t.columnBlocks schema)) {w : World}
    (hcache : CacheCoherent contents w.blockCache) :
    ∃ c cache, create reader
        (projectedBlocks projection (entries.map Prod.fst).flatten) range schema.types projection
        w.blockCache = .ok (c, cache) ∧ CacheCoherent contents cache ∧
      ∀ w', Holds schema projection contents w' c
        (inRange range (entries.map Prod.snd).flatten) := by
  obtain ⟨keyColumn, columns, hcolumns, htype, -⟩ := hwf.keyed.keyFirst
  have hsize : 0 < schema.size := by simp [Schema.size, hcolumns]
  have hkeyType : schema.types[keyColumnIndex]? = some .int64 := by
    simp [Schema.types, hcolumns, htype, keyColumnIndex]
  have hblocks : logicalBlocks (projectedBlocks projection (entries.map Prod.fst).flatten) =
      entries.map fun entry => projectedBlocks projection entry.1 := by
    have hsplit := logicalBlocks_eq hwf projection hentries
    have hflatten : projectedBlocks projection (entries.map Prod.fst).flatten =
        (entries.map fun entry => projectedBlocks projection entry.1).flatten := by
      rw [projectedBlocks, List.filter_flatten, List.map_map]
      rfl
    rwa [← hflatten] at hsplit
  have hloads : List.Forall₂ (Loads contents (load reader schema.types projection)
      (Shows projection)) (entries.map fun entry => projectedBlocks projection entry.1)
      (entries.map Prod.snd) := by
    rw [List.forall₂_map_left_iff, List.forall₂_map_right_iff, List.forall₂_same]
    intro entry hentry
    obtain ⟨earlier, rows, later, hsplit, rfl⟩ := Table.mem_columnBlocks (hentries.subset hentry)
    exact loads_logicalBlock hwf hlayout hdata hcontents hsplit hbound
  obtain ⟨scan, cache, hload, hcache', hscan⟩ :=
    BlockScan.loadNextNonEmptyBlock_spec hloads hcache
  have hvalid : ∀ row ∈ inRange range (entries.map Prod.snd).flatten, ValidRow schema row := by
    intro row hrow
    obtain ⟨rows, hrows, hin⟩ := List.mem_flatten.mp (List.mem_of_mem_filter hrow)
    obtain ⟨entry, hentry, rfl⟩ := List.mem_map.mp hrows
    obtain ⟨earlier, rows, later, hsplit, rfl⟩ := Table.mem_columnBlocks (hentries.subset hentry)
    exact hwf.valid row (by simp [Table.rows, hsplit, hin])
  refine ⟨⟨reader, range, schema.types, projection, scan⟩, cache, ?_, hcache', fun _ =>
    ⟨rfl, hbound, rfl, hvalid, hscan⟩⟩
  have hnonempty : schema.types.isEmpty = false := by simp [Schema.types, hcolumns]
  rw [create, if_neg (by simp [hnonempty]),
    if_neg (by simpa [keyColumnIndex] using hsize.ne'), if_neg (by simp [hkeyType]), hblocks, hload]
  rfl

end SSTableColumnCursor

end Htap.Cursor
