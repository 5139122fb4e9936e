import Htap.Cursor.BlockScan
import Htap.Read.Table

/-!
`SSTableRowCursor`: row blocks decoded under a projection mask.
-/

namespace Htap.Cursor

open Storage SSTable Read ByteFormat Words

namespace RowBlock

def blockEnd : Exception := .runtimeError "Unexpected end of SSTable row block"

/-- `skip_value`. -/
def skipValue : ValueType → Parser Exception Unit
  | .int64 => do
    let _ ← Parser.bytes blockEnd 8
    return ()
  | .double => do
    let _ ← Parser.bytes blockEnd 8
    return ()
  | .string => do
    let size ← Parser.word blockEnd 4
    let _ ← Parser.bytes blockEnd size
    return ()

/-- The value columns of a row from column `i + 1` on; a column outside of the
projection stays NULL. -/
def decodeCells (bitmap : Bytes) (i : Nat) :
    List (ValueType × Bool) → Parser Exception (List NullableValue)
  | [] => return []
  | (type, isProjected) :: columns =>
    if Bitmap.testBit bitmap i then do
      let rest ← decodeCells bitmap (i + 1) columns
      return none :: rest
    else if !isProjected then do
      skipValue type
      let rest ← decodeCells bitmap (i + 1) columns
      return none :: rest
    else do
      let value ← readValue blockEnd type
      let rest ← decodeCells bitmap (i + 1) columns
      return some value :: rest

def decodeRow (schema : List ValueType) (projectedColumns : List Bool) : Parser Exception Row := do
  let key ← readI64 blockEnd
  let bitmap ← Parser.bytes blockEnd (Bitmap.byteCount (schema.length - 1))
  let cells ← decodeCells bitmap 0 (schema.tail.zip projectedColumns.tail)
  return some (.int64 key) :: cells

/-- `decode_row_block`. -/
def decode (data : Bytes) (rowCount : Nat) (schema : List ValueType)
    (projectedColumns : List Bool) : Result (List Row) :=
  parse (Parser.times (decodeRow schema projectedColumns) rowCount) data

end RowBlock

/-- The loop of `make_projection_mask`. -/
def markProjection (mask : List Bool) : List Nat → Result (List Bool)
  | [] => .ok mask
  | columnIdx :: projection =>
    if mask.length ≤ columnIdx then
      .error (.outOfRange "Projection column index out of schema range")
    else if mask.getD columnIdx false then
      .error (.runtimeError "Projection contains duplicate column index")
    else markProjection (mask.set columnIdx true) projection

def makeProjectionMask (schemaSize : Nat) (projection : List Nat) : Result (List Bool) := do
  let mask ← markProjection (List.replicate schemaSize false) projection
  return mask.set keyColumnIndex true

structure SSTableRowCursor where
  reader : SSTableReader
  range : KeyRange
  schema : List ValueType
  projectedColumns : List Bool
  scan : BlockScan RowBlockMeta (List Row)

namespace SSTableRowCursor

/-- Read and decode one block. -/
def load (reader : SSTableReader) (schema : List ValueType) (projectedColumns : List Bool) :
    BlockLoad RowBlockMeta (List Row) := fun block cache => do
  let (data, cache) ← reader.readBlock cache (reader.rowKey block) block.offset block.size
  let rows ← RowBlock.decode data block.rowCount schema projectedColumns
  return ((rows.map rowKey, rows), cache)

/-- The constructor, which loads the first blocks. -/
def create (reader : SSTableReader) (blocks : List RowBlockMeta) (range : KeyRange)
    (schema : List ValueType) (projection : List Nat) (cache : Option SSTableBlockCache) :
    Result (SSTableRowCursor × Option SSTableBlockCache) := do
  let projectedColumns ← makeProjectionMask schema.length projection
  if schema.isEmpty then
    throw (.invalidArgument "SSTableRowCursor requires non-empty schema")
  else if schema.length ≤ keyColumnIndex then
    throw (.invalidArgument "Schema does not contain key column")
  else if schema[keyColumnIndex]? ≠ some .int64 then
    throw (.invalidArgument "Key column must have INT64 type")
  else do
    let (scan, cache) ← BlockScan.loadNextNonEmptyBlock range
      (load reader schema projectedColumns) [] blocks cache
    return ({ reader, range, schema, projectedColumns, scan }, cache)

instance : ICursor SSTableRowCursor where
  valid c := c.scan.valid
  next c w := do
    let (scan, cache) ←
      c.scan.next c.range (load c.reader c.schema c.projectedColumns) [] w.blockCache
    return ({ c with scan := scan }, { w with blockCache := cache })
  key c _ :=
    match c.scan.keys[c.scan.index]? with
    | some key => .ok key
    | none => .error (.logicError "SSTableRowCursor::key() called on invalid cursor")
  value c _ columnIdx :=
    if !c.scan.valid then
      .error (.logicError "SSTableRowCursor::value() called on invalid cursor")
    else if c.schema.length ≤ columnIdx then
      .error (.outOfRange "Column index out of schema range")
    else
      match (c.scan.payload.getD c.scan.index [])[columnIdx]? with
      | some value => .ok value
      | none => .error (.outOfRange "Column index out of row range")

end SSTableRowCursor

/-! ## Decoding what the builder encoded -/

/-- What is left of a row under a projection mask. -/
def maskRow (mask : List Bool) (row : Row) : Row :=
  List.zipWith (fun isProjected value => if isProjected then value else none) mask row

theorem cell_maskRow {mask : List Bool} {row : Row} {i : Nat} (hmask : mask[i]? = some true)
    (hi : i < row.length) : (maskRow mask row)[i]? = some (cell row i) := by
  rw [maskRow, List.getElem?_zipWith, hmask, List.getElem?_eq_getElem hi, cell,
    List.getD_eq_getElem?_getD, List.getElem?_eq_getElem hi]
  rfl

namespace RowBlock

private theorem reads_skipValue {type : ValueType} {v : Value} (htype : v.type = type)
    (hstorable : Storable (some v)) : Reads (skipValue type) (valueBytes (some v)) () := by
  subst htype
  cases v with
  | int64 v => exact (Reads.bytes_of_length blockEnd (length_i64Bytes v)).map fun _ => ()
  | double v => exact (Reads.bytes_of_length blockEnd (length_doubleBytes v)).map fun _ => ()
  | string s =>
    exact (Reads.word_of_lt blockEnd (hstorable s rfl)).bind
      ((Reads.bytes blockEnd s).map fun _ => ())

private theorem reads_cells {types : List ValueType} {cells : List NullableValue}
    (htyped : List.Forall₂ HasType types cells) (hstorable : ∀ value ∈ cells, Storable value)
    {mask : List Bool} (hmask : mask.length = types.length) (bitmap : Bytes) (i : Nat)
    (hbitmap : ∀ j, j < cells.length →
      Bitmap.testBit bitmap (i + j) = (cells.map Option.isNone).getD j false) :
    Reads (decodeCells bitmap i (types.zip mask)) (cells.flatMap valueBytes)
      (maskRow mask cells) := by
  induction htyped generalizing mask i with
  | nil =>
    rw [List.length_nil, List.length_eq_zero_iff] at hmask
    subst hmask
    exact Reads.pure []
  | @cons type value types cells hvalue _ ih =>
    cases mask with
    | nil => simp at hmask
    | cons isProjected mask =>
      have hlength : mask.length = types.length := by simpa using hmask
      have hbits : ∀ j, j < cells.length →
          Bitmap.testBit bitmap (i + 1 + j) = (cells.map Option.isNone).getD j false := by
        intro j hj
        have hbit := hbitmap (j + 1) (by simpa using hj)
        rw [show i + 1 + j = i + (j + 1) by omega, hbit]
        simp
      have hrest := ih (fun v hv => hstorable v (List.mem_cons_of_mem _ hv)) hlength (i + 1) hbits
      have hfirst : Bitmap.testBit bitmap i = value.isNone := by
        have hbit := hbitmap 0 (by simp)
        simpa using hbit
      rw [List.zip_cons_cons, decodeCells, hfirst, List.flatMap_cons, maskRow,
        List.zipWith_cons_cons]
      cases value with
      | none =>
        rw [if_pos Option.isNone_none, ite_self]
        exact hrest.map (none :: ·)
      | some v =>
        have htype := hvalue v rfl
        have hfits := hstorable (some v) List.mem_cons_self
        rw [if_neg (by simp)]
        cases isProjected with
        | false => exact (reads_skipValue htype hfits).bind (hrest.map (none :: ·))
        | true => exact (reads_value blockEnd htype hfits).bind (hrest.map (some v :: ·))

/-- The decoder reads back the projected cells of an encoded row. -/
theorem reads_row {schema : Schema} {row : Row} (hrow : ValidRow schema row)
    (hstorable : StorableRow row) {mask : List Bool} (hmask : mask.length = schema.size)
    (hkey : mask[keyColumnIndex]? = some true) :
    Reads (decodeRow schema.types mask) (rowBytes row) (maskRow mask row) := by
  have htyped := hrow.typed
  have hlength := hrow.length
  obtain ⟨key, cells, rfl⟩ := hrow.key
  have hcells : ∀ value ∈ cells, Storable value :=
    fun value h => hstorable value (List.mem_cons_of_mem _ h)
  rw [← hmask] at hlength
  unfold decodeRow
  generalize schema.types = types at htyped
  cases htyped with
  | @cons type _ types _ _ htail =>
    cases mask with
    | nil => cases hkey
    | cons isKeyProjected mask =>
      cases hkey
      have hwidth : types.length = cells.length := htail.length_eq
      have hmaskTail : mask.length = types.length := by
        simp only [List.length_cons] at hlength
        omega
      have hbits : ∀ j, j < cells.length → Bitmap.testBit
          (Bitmap.mark (List.replicate (Bitmap.byteCount cells.length) 0) 0
            (cells.map Option.isNone)) (0 + j) = (cells.map Option.isNone).getD j false := by
        intro j _
        rw [Nat.zero_add]
        have hbit := Bitmap.testBit_mark_zero (cells.map Option.isNone) j
        rwa [List.length_map] at hbit
      have hread := reads_cells htail hcells hmaskTail _ 0 hbits
      have hbitmap : Reads (Parser.bytes blockEnd (Bitmap.byteCount ((type :: types).length - 1)))
          (Bitmap.mark (List.replicate (Bitmap.byteCount cells.length) 0) 0
            (cells.map Option.isNone)) _ :=
        Reads.bytes_of_length blockEnd (by simp [hwidth])
      have hrow := hread.map fun cells => (some (Value.int64 key) :: cells : Row)
      exact (reads_i64 blockEnd key).bind (hbitmap.bind hrow)

/-- A whole block is decoded row by row. -/
theorem decode_eq {schema : Schema} {rows : List Row} (hrows : ∀ row ∈ rows, ValidRow schema row)
    (hstorable : ∀ row ∈ rows, StorableRow row) {mask : List Bool}
    (hmask : mask.length = schema.size) (hkey : mask[keyColumnIndex]? = some true) :
    decode (rowBlockBytes rows) rows.length schema.types mask = .ok (rows.map (maskRow mask)) := by
  apply parse_eq
  induction rows with
  | nil => exact Reads.pure []
  | cons row rows ih =>
    have hrest := ih (fun r hr => hrows r (List.mem_cons_of_mem _ hr))
      fun r hr => hstorable r (List.mem_cons_of_mem _ hr)
    have hrow := reads_row (hrows row List.mem_cons_self) (hstorable row List.mem_cons_self)
      hmask hkey
    rw [rowBlockBytes, List.flatMap_cons]
    exact hrow.bind (hrest.map (maskRow mask row :: ·))

end RowBlock

/-! ## The projection mask -/

private theorem markProjection_spec {mask : List Bool} {projection : List Nat}
    (hnodup : projection.Nodup) (hbound : ∀ i ∈ projection, i < mask.length)
    (hclear : ∀ i ∈ projection, mask.getD i false = false) :
    ∃ marked : List Bool, markProjection mask projection = .ok marked ∧
      marked.length = mask.length ∧
      (∀ i ∈ projection, marked[i]? = some true) ∧
      ∀ i : Nat, mask[i]? = some true → marked[i]? = some true := by
  induction projection generalizing mask with
  | nil => exact ⟨mask, rfl, rfl, by simp, fun _ h => h⟩
  | cons column projection ih =>
    obtain ⟨hfresh, hnodup⟩ := List.nodup_cons.mp hnodup
    have hlt := hbound column List.mem_cons_self
    have hnone := hclear column List.mem_cons_self
    obtain ⟨marked, hmarked, hlength, hprojected, hkept⟩ :=
      @ih (mask.set column true) hnodup
        (fun i hi => by
          rw [List.length_set]
          exact hbound i (List.mem_cons_of_mem _ hi))
        (fun i hi => by
          have hne : column ≠ i := fun h => hfresh (h ▸ hi)
          rw [List.getD_eq_getElem?_getD, List.getElem?_set_ne hne,
            ← List.getD_eq_getElem?_getD]
          exact hclear i (List.mem_cons_of_mem _ hi))
    refine ⟨marked, ?_, by rw [hlength, List.length_set], ?_, ?_⟩
    · rw [markProjection, if_neg (not_le.mpr hlt), hnone, if_neg Bool.false_ne_true, hmarked]
    · intro i hi
      rcases List.mem_cons.mp hi with rfl | h
      · exact hkept i (List.getElem?_set_self hlt)
      · exact hprojected i h
    · intro i hi
      apply hkept
      by_cases heq : column = i
      · subst heq
        exact List.getElem?_set_self hlt
      · rwa [List.getElem?_set_ne heq]

/-- A projection without duplicates and out of range columns gives the mask of
its columns and the key column. -/
theorem makeProjectionMask_spec {size : Nat} {projection : List Nat} (hsize : 0 < size)
    (hnodup : projection.Nodup) (hbound : ∀ i ∈ projection, i < size) :
    ∃ mask, makeProjectionMask size projection = .ok mask ∧ mask.length = size ∧
      mask[keyColumnIndex]? = some true ∧ ∀ i ∈ projection, mask[i]? = some true := by
  obtain ⟨marked, hmarked, hlength, hprojected, -⟩ :=
    @markProjection_spec (List.replicate size false) projection hnodup (by simpa using hbound)
      fun i _ => by
        rw [List.getD_eq_getElem?_getD, List.getElem?_replicate]
        split <;> rfl
  rw [List.length_replicate] at hlength
  have hkey : (marked.set keyColumnIndex true)[keyColumnIndex]? = some true :=
    List.getElem?_set_self (by rw [hlength]; exact hsize)
  refine ⟨marked.set keyColumnIndex true, ?_, by rw [List.length_set, hlength], hkey, ?_⟩
  · rw [makeProjectionMask, hmarked]
    rfl
  · intro i hi
    by_cases heq : keyColumnIndex = i
    · rw [← heq]
      exact hkey
    · rw [List.getElem?_set_ne heq]
      exact hprojected i hi

/-! ## The rows a row cursor goes through -/

namespace SSTableRowCursor

/-- The loaded rows are the rows of the block, as far as the mask shows them. -/
def Shows (mask : List Bool) (rows payload : List Row) : Prop := payload = rows.map (maskRow mask)

variable {schema : Schema} {options : SparseIndexOptions} {t : Table}
  {contents : CacheKey → Option Bytes} {reader : SSTableReader}

private theorem rowKey_maskRow {row : Row} (hrow : ValidRow schema row) {mask : List Bool}
    (hkey : mask[keyColumnIndex]? = some true) : rowKey (maskRow mask row) = rowKey row := by
  obtain ⟨key, cells, rfl⟩ := hrow.key
  cases mask with
  | nil => cases hkey
  | cons isKeyProjected mask =>
    cases hkey
    rfl

/-- A block of the SSTable is read as it was written, through any cache that is coherent. -/
theorem read_rowBlock (hwf : t.WellFormed schema options) (hlayout : t.layout = .row)
    (hdata : reader.data = (t.files schema options).data)
    (hcontents : ∀ key, key.sstableId = reader.sstableId → contents key = t.contents key)
    {entry : RowBlockMeta × List Row} (hentry : entry ∈ t.rowBlocks)
    {cache : Option SSTableBlockCache} (hcache : CacheCoherent contents cache) :
    ∃ cache', reader.readBlock cache (reader.rowKey entry.1) entry.1.offset entry.1.size =
        .ok (rowBlockBytes entry.2, cache') ∧ CacheCoherent contents cache' := by
  obtain ⟨earlier, rows, later, hblocks, rfl⟩ := Table.mem_rowBlocks hentry
  have hearlier : earlier.length < 2 ^ 32 := by
    have := hwf.counted.blocks
    simp only [hblocks, List.length_append] at this
    omega
  apply SSTableReader.readBlock_coherent hcache
  · rw [hcontents _ rfl, Table.contents, hlayout]
    simp [SSTableReader.rowKey, rowBlockMeta, u32_of_lt hearlier, hblocks]
  · have hread := readBytes_window (earlier.flatMap rowBlockBytes) (rowBlockBytes rows)
      (later.flatMap rowBlockBytes)
    rw [hdata, Table.files, hlayout]
    simpa [rowSSTable, hblocks, rowBlockMeta] using hread

/-- A block of the SSTable loads as its rows. -/
theorem loads_block (hwf : t.WellFormed schema options) (hlayout : t.layout = .row)
    (hdata : reader.data = (t.files schema options).data)
    (hcontents : ∀ key, key.sstableId = reader.sstableId → contents key = t.contents key)
    {mask : List Bool} (hmask : mask.length = schema.size)
    (hkey : mask[keyColumnIndex]? = some true) {entry : RowBlockMeta × List Row}
    (hentry : entry ∈ t.rowBlocks) :
    Loads contents (load reader schema.types mask) (Shows mask) entry.1 entry.2 := by
  intro cache hcache
  obtain ⟨cache', hread, hcache'⟩ := read_rowBlock hwf hlayout hdata hcontents hentry hcache
  obtain ⟨earlier, rows, later, hblocks, rfl⟩ := Table.mem_rowBlocks hentry
  have hmem : rows ∈ t.blocks := by simp [hblocks]
  have hlt := hwf.counted.rows _ hmem
  have hvalid : ∀ row ∈ rows, ValidRow schema row :=
    fun row hrow => hwf.valid row (List.mem_flatten_of_mem hmem hrow)
  have hstorable : ∀ row ∈ rows, StorableRow row :=
    fun row hrow => hwf.storable row (List.mem_flatten_of_mem hmem hrow)
  have hdecode := RowBlock.decode_eq hvalid hstorable hmask hkey
  refine ⟨rows.map (maskRow mask), cache', ?_, hcache', rfl⟩
  have hkeys : (rows.map (maskRow mask)).map rowKey = rows.map rowKey := by
    rw [List.map_map]
    exact List.map_congr_left fun row hrow => rowKey_maskRow (hvalid row hrow) hkey
  have hcount : (rowBlockMeta earlier rows).rowCount = rows.length := u32_of_lt hlt
  rw [load, hread, Result.ok_bind]
  dsimp only
  rw [hcount, hdecode, Result.ok_bind, hkeys]
  rfl

/-- The cursor's own state, for the blocks it still has to load. -/
structure Good (schema : Schema) (projection : List Nat) (contents : CacheKey → Option Bytes)
    (c : SSTableRowCursor) (rows : List Row) : Prop where
  types : c.schema = schema.types
  projected : ∀ i ∈ projection, i < schema.size ∧ c.projectedColumns[i]? = some true
  width : ∀ row ∈ rows, row.length = schema.size
  scan : c.scan.Holds contents c.range (load c.reader c.schema c.projectedColumns)
    (Shows c.projectedColumns) rows

def Holds (schema : Schema) (projection : List Nat) (contents : CacheKey → Option Bytes)
    (_ : World) (c : SSTableRowCursor) (rows : List Row) : Prop :=
  Good schema projection contents c rows

theorem model (schema : Schema) (projection : List Nat) (contents : CacheKey → Option Bytes) :
    CursorModel projection contents (Holds schema projection contents) where
  stable := fun h _ => h
  done := by
    intro w c h
    have hdone : c.scan.keys.length ≤ c.scan.index := h.scan
    simpa [ICursor.valid, BlockScan.valid] using hdone
  row := by
    intro w c row rest hcache h
    have hvalid := BlockScan.valid_of_holds h.scan
    have hkey := BlockScan.key_of_holds h.scan
    obtain ⟨scan, cache, hnext, hcache', hscan⟩ := BlockScan.next_spec h.scan hcache
    refine ⟨by simpa [ICursor.valid, BlockScan.valid] using hvalid, ?_, ?_,
      { c with scan := scan }, { w with blockCache := cache }, ?_, hcache', ⟨rfl, rfl⟩,
      h.types, h.projected, fun r hr => h.width r (List.mem_cons_of_mem _ hr), hscan⟩
    · simp only [ICursor.key, hkey]
    · intro i hi
      obtain ⟨hlt, hprojected⟩ := h.projected i hi
      obtain ⟨loaded, -, -, hshows, hget, -, -⟩ := h.scan
      have hcell := cell_maskRow hprojected
        (by rw [h.width row List.mem_cons_self]; exact hlt)
      have hloaded : c.scan.payload.getD c.scan.index [] = maskRow c.projectedColumns row := by
        rw [hshows, List.getD_eq_getElem?_getD, List.getElem?_map, hget]
        rfl
      have hbound : ¬ c.schema.length ≤ i := by
        rw [h.types, Schema.length_types]
        omega
      simp only [ICursor.value, BlockScan.valid, hvalid, decide_true, Bool.not_true,
        Bool.false_eq_true, if_false, if_neg hbound, hloaded, hcell]
    · change (c.scan.next _ _ _ _ >>= _) = _
      rw [hnext]
      rfl

/-- A new cursor holds the rows of the range in its blocks. -/
theorem create_spec (hwf : t.WellFormed schema options) (hlayout : t.layout = .row)
    (hdata : reader.data = (t.files schema options).data)
    (hcontents : ∀ key, key.sstableId = reader.sstableId → contents key = t.contents key)
    {projection : List Nat} (hnodup : projection.Nodup) (hbound : ∀ i ∈ projection, i < schema.size)
    (range : KeyRange) {entries : List (RowBlockMeta × List Row)}
    (hentries : ∀ entry ∈ entries, entry ∈ t.rowBlocks) {w : World}
    (hcache : CacheCoherent contents w.blockCache) :
    ∃ c cache, create reader (entries.map Prod.fst) range schema.types projection w.blockCache =
        .ok (c, cache) ∧ CacheCoherent contents cache ∧
      ∀ w', Holds schema projection contents w' c
        (inRange range (entries.map Prod.snd).flatten) := by
  obtain ⟨keyColumn, columns, hcolumns, htype, -⟩ := hwf.keyed.keyFirst
  have hsize : 0 < schema.size := by simp [Schema.size, hcolumns]
  have hkeyType : schema.types[keyColumnIndex]? = some .int64 := by
    simp [Schema.types, hcolumns, htype, keyColumnIndex]
  obtain ⟨mask, hmask, hlength, hkey, hprojected⟩ :=
    makeProjectionMask_spec hsize hnodup hbound
  have hloads : List.Forall₂ (Loads contents (load reader schema.types mask) (Shows mask))
      (entries.map Prod.fst) (entries.map Prod.snd) := by
    rw [List.forall₂_map_left_iff, List.forall₂_map_right_iff, List.forall₂_same]
    exact fun entry hentry =>
      loads_block hwf hlayout hdata hcontents hlength hkey (hentries entry hentry)
  obtain ⟨scan, cache, hload, hcache', hscan⟩ :=
    BlockScan.loadNextNonEmptyBlock_spec hloads hcache
  have hwidth : ∀ row ∈ inRange range (entries.map Prod.snd).flatten, row.length = schema.size := by
    intro row hrow
    obtain ⟨rows, hrows, hin⟩ := List.mem_flatten.mp (List.mem_of_mem_filter hrow)
    obtain ⟨entry, hentry, rfl⟩ := List.mem_map.mp hrows
    obtain ⟨earlier, rows, later, hblocks, rfl⟩ := Table.mem_rowBlocks (hentries entry hentry)
    exact (hwf.valid row (by simp [Table.rows, hblocks, hin])).length
  refine ⟨⟨reader, range, schema.types, mask, scan⟩, cache, ?_, hcache', fun _ =>
    ⟨rfl, fun i hi => ⟨hbound i hi, hprojected i hi⟩, hwidth, hscan⟩⟩
  rw [create, Schema.length_types, hmask, Result.ok_bind]
  have hnonempty : schema.types.isEmpty = false := by simp [Schema.types, hcolumns]
  rw [if_neg (by simp [hnonempty]), if_neg (by simpa [keyColumnIndex] using hsize.ne'),
    if_neg (by simp [hkeyType]), hload]
  rfl

end SSTableRowCursor

end Htap.Cursor
