import Htap.Cursor.ColumnRuns

/-!
Column block decoding over arbitrary metadata and bytes: whether a column cursor stays
within its lists, and what the rows it yields were decoded from.
-/

namespace Htap.Properties

open Storage SSTable Read Cursor ByteWalk
open Cursor.ColumnDecoding (ColumnScan LoadedFrom ReadAs Passed Counted MeetsWrap position)

/-- The list goes on after `before` with a run of entries with one block id, which the
entries around it do not have. -/
def IsMaximalRun (blocks before run : List ColumnBlockMeta) : Prop :=
  ∃ after blockId, blocks = before ++ run ++ after ∧
    (∀ block ∈ run, block.blockId = blockId) ∧
    (∀ block ∈ before.getLast?, block.blockId ≠ blockId) ∧
    ∀ block ∈ after.head?, block.blockId ≠ blockId

/-- The cell of a column at one row position of a block of the run, decoded from the bytes
that a scan reads for the block when it comes to the run with the cache `begun`. -/
def CellOfRun (reader : SSTableReader) (schema : List ValueType) (projection : List Nat)
    (begun : Option SSTableBlockCache) (run : List ColumnBlockMeta) (columnIdx row : Nat)
    (cell : NullableValue) : Prop :=
  ∃ block data, block.columnIdx = columnIdx ∧
    ReadAs reader schema projection begun run block data ∧
    if columnIdx = keyColumnIndex then
      ∃ keys key, ColumnDecoding.decodeKeyBlock data block.valuesCount = .ok keys ∧
        keys[row]? = some key ∧ cell = some (.int64 key)
    else
      ∃ type values, schema[columnIdx]? = some type ∧
        ColumnDecoding.decodeValueColumnBlock data block.valuesCount type = .ok values ∧
        values[row]? = some cell

/-- The row a cursor stands on: the key and the projected cells come from one row
position of the run, where reading them does not throw. -/
structure RowOfRun (reader : SSTableReader) (schema : List ValueType) (projection : List Nat)
    (begun : Option SSTableBlockCache) (run : List ColumnBlockMeta) (scan : ColumnScan) :
    Prop where
  key : ∃ key, ColumnDecoding.key scan = .ok key ∧
    CellOfRun reader schema projection begun run keyColumnIndex scan.index (some (.int64 key))
  cells : ∀ i ∈ projection,
    (∃ e, ColumnDecoding.value schema scan i = .error (.thrown e)) ∨
      ∃ cell, ColumnDecoding.value schema scan i = .ok cell ∧
        CellOfRun reader schema projection begun run i scan.index cell
  inBounds : ∀ i, ColumnDecoding.value schema scan i ≠ .error .outOfBounds

/-- Building a cursor and moving it never leaves a list, every row is that of one run as this
scan read it on its way, and the scan comes to an end. -/
structure DecodesSafely (reader : SSTableReader) (range : KeyRange) (schema : List ValueType)
    (projection : List Nat) (blocks : List ColumnBlockMeta) (cache : Option SSTableBlockCache) :
    Prop where
  inBounds : ∀ steps,
    position reader range schema projection blocks cache steps ≠ .error .outOfBounds
  rows : ∀ steps scan cache',
    position reader range schema projection blocks cache steps = .ok (scan, cache') →
      scan.index < scan.keys.length →
        ∃ before run begun, IsMaximalRun blocks before run ∧
          Passed reader schema projection cache before begun ∧
          RowOfRun reader schema projection begun run scan
  ends : ∃ steps,
    (∃ e, position reader range schema projection blocks cache steps = .error (.thrown e)) ∨
      ∃ scan cache', position reader range schema projection blocks cache steps =
        .ok (scan, cache') ∧ scan.keys.length ≤ scan.index

/-! ## Runs -/

private theorem getLast?_flatten_concat (groups : List (List ColumnBlockMeta))
    {last : List ColumnBlockMeta} (h : last ≠ []) :
    (groups ++ [last]).flatten.getLast? = last.getLast? := by
  rw [List.flatten_append, List.flatten_singleton, List.getLast?_append_of_ne_nil _ h]

private theorem isMaximalRun_of_logicalBlocks {blocks run : List ColumnBlockMeta}
    {earlier later : List (List ColumnBlockMeta)}
    (hruns : SSTableColumnCursor.logicalBlocks blocks = earlier ++ run :: later) :
    IsMaximalRun blocks earlier.flatten run := by
  have h : run ∈ SSTableColumnCursor.logicalBlocks blocks := by simp [hruns]
  have hne := List.ne_nil_of_mem_splitBy h
  have hchain := List.isChain_of_mem_splitBy h
  have hborders := List.isChain_getLast_head_splitBy
    (fun a b : ColumnBlockMeta => a.blockId == b.blockId) blocks
  have hflatten : (SSTableColumnCursor.logicalBlocks blocks).flatten = blocks :=
    List.flatten_splitBy _ _
  change (SSTableColumnCursor.logicalBlocks blocks).IsChain _ at hborders
  rw [hruns] at hborders hflatten
  obtain ⟨first, rest, rfl⟩ := List.exists_cons_of_ne_nil hne
  have hsame : ∀ block ∈ first :: rest, block.blockId = first.blockId := by
    have hpairwise := (List.isChain_iff_pairwise.mp (hchain.imp fun a b hab => beq_iff_eq.mp hab) :
      (first :: rest).Pairwise fun a b => a.blockId = b.blockId)
    intro block hblock
    rcases List.mem_cons.mp hblock with rfl | hin
    · rfl
    · exact ((List.pairwise_cons.mp hpairwise).1 block hin).symm
  refine ⟨later.flatten, first.blockId, ?_, hsame, ?_, ?_⟩
  · rw [← hflatten, List.flatten_append, List.flatten_cons, List.append_assoc]
  · intro block hblock
    obtain rfl | ⟨front, last, rfl⟩ := List.eq_nil_or_concat' earlier
    · cases hblock
    · have hborder := List.isChain_append_cons_cons.mp
        (by rwa [List.append_assoc, List.singleton_append] at hborders)
      obtain ⟨hlast, hhead, hdiffer⟩ := hborder.2.1
      rw [getLast?_flatten_concat front hlast, List.getLast?_eq_some_getLast hlast] at hblock
      cases hblock
      simpa using hdiffer
  · intro block hblock
    cases later with
    | nil => cases hblock
    | cons next later =>
      have hborder := (List.isChain_append_cons_cons.mp hborders).2.1
      obtain ⟨hlast, hhead, hdiffer⟩ := hborder
      have hid := hsame _ (List.getLast_mem hlast)
      rw [List.flatten_cons, List.head?_append_of_ne_nil _ hhead, List.head?_eq_some_head hhead]
        at hblock
      cases hblock
      intro heq
      rw [hid, heq] at hdiffer
      simp at hdiffer

private theorem counted_logicalBlocks {blocks : List ColumnBlockMeta} (h : Counted blocks) :
    ∀ run ∈ SSTableColumnCursor.logicalBlocks blocks, Counted run := by
  intro run hrun block hblock
  apply h
  rw [← List.flatten_splitBy (fun a b : ColumnBlockMeta => a.blockId == b.blockId) blocks]
  exact List.mem_flatten.mpr ⟨run, hrun, hblock⟩

/-! ## Rows -/

section Rows

variable {reader : SSTableReader} {schema : List ValueType} {projection : List Nat}
  {begun : Option SSTableBlockCache} {run : List ColumnBlockMeta} {scan : ColumnScan}

private theorem key_of_loaded (hvalid : scan.index < scan.keys.length)
    (hloaded : LoadedFrom reader schema projection begun run scan.keys scan.payload) :
    ∃ key, ColumnDecoding.key scan = .ok key ∧
      ColumnDecoding.Checked.access scan.keys scan.index = .ok key ∧
      CellOfRun reader schema projection begun run keyColumnIndex scan.index
        (some (.int64 key)) := by
  obtain ⟨key, hget, haccess⟩ := ColumnDecoding.Checked.access_of_lt hvalid
  refine ⟨key, (if_pos hvalid).trans haccess, haccess, ?_⟩
  rcases hloaded.loadedKeys with hnil | ⟨block, data, hcolumn, hread, hdecode⟩
  · rw [hnil] at hvalid
    exact absurd hvalid (Nat.not_lt_zero _)
  · refine ⟨block, data, hcolumn, hread, ?_⟩
    rw [if_pos rfl]
    exact ⟨scan.keys, key, hdecode, hget, rfl⟩

/-- A value that can be read is a cell of the run, at the row position of the key. -/
private theorem value_of_loaded (hvalid : scan.index < scan.keys.length)
    (hloaded : LoadedFrom reader schema projection begun run scan.keys scan.payload) (i : Nat) :
    (∃ e, ColumnDecoding.value schema scan i = .error (.thrown e)) ∨
      ∃ cell, ColumnDecoding.value schema scan i = .ok cell ∧
        CellOfRun reader schema projection begun run i scan.index cell := by
  unfold ColumnDecoding.value
  rw [if_neg (not_le.mpr hvalid)]
  by_cases hrange : schema.length ≤ i
  · exact Or.inl ⟨_, if_pos hrange⟩
  rw [if_neg hrange]
  by_cases hkey : i = keyColumnIndex
  · obtain ⟨key, -, haccess, hcell⟩ := key_of_loaded hvalid hloaded
    refine Or.inr ⟨some (.int64 key), ?_, hkey ▸ hcell⟩
    rw [if_pos hkey, haccess]
    rfl
  rw [if_neg hkey]
  obtain ⟨column, hcolumn, haccess⟩ :=
    ColumnDecoding.Checked.access_of_lt (hloaded.width.symm ▸ not_le.mp hrange)
  rw [haccess, ColumnDecoding.Checked.ok_bind]
  rcases hloaded.loadedColumns i column hcolumn with
    rfl | ⟨block, data, type, hidx, htype, hread, hdecode⟩
  · exact Or.inl ⟨_, if_pos rfl⟩
  by_cases hempty : column.isEmpty = true
  · exact Or.inl ⟨_, if_pos hempty⟩
  rw [if_neg hempty]
  by_cases hshort : column.length ≤ scan.index
  · exact Or.inl ⟨_, if_pos hshort⟩
  rw [if_neg hshort]
  obtain ⟨cell, hcell, hfound⟩ := ColumnDecoding.Checked.access_of_lt (not_le.mp hshort)
  refine Or.inr ⟨cell, hfound, block, data, hidx, hread, ?_⟩
  rw [if_neg hkey]
  exact ⟨type, column, htype, hdecode, hcell⟩

private theorem rowOfRun_of_loaded (hvalid : scan.index < scan.keys.length)
    (hloaded : LoadedFrom reader schema projection begun run scan.keys scan.payload) :
    RowOfRun reader schema projection begun run scan := by
  obtain ⟨key, hkey, -, hcell⟩ := key_of_loaded hvalid hloaded
  refine ⟨⟨key, hkey, hcell⟩, fun i _ => value_of_loaded hvalid hloaded i, ?_⟩
  intro i hfault
  rcases value_of_loaded hvalid hloaded i with ⟨e, hthrown⟩ | ⟨cell, hvalue, -⟩
  · rw [hthrown] at hfault
    cases hfault
  · rw [hvalue] at hfault
    cases hfault

end Rows

/-! ## Whole scans -/

section Scans

variable {reader : SSTableReader} {range : KeyRange} {schema : List ValueType}
  {projection : List Nat} {blocks : List ColumnBlockMeta} {cache : Option SSTableBlockCache}

private theorem position_of_create {scan : ColumnScan} {cache' : Option SSTableBlockCache}
    (h : ColumnDecoding.create reader range schema projection blocks cache = .ok (scan, cache'))
    (steps : Nat) : position reader range schema projection blocks cache steps =
      ColumnDecoding.advance reader range schema projection steps scan cache' := by
  rw [position, h, ColumnDecoding.Checked.ok_bind]

private theorem position_of_throws {fault : Fault Exception}
    (h : ColumnDecoding.create reader range schema projection blocks cache = .error fault)
    (steps : Nat) :
    position reader range schema projection blocks cache steps = .error fault := by
  rw [position, h, ColumnDecoding.Checked.error_bind]

/-- Where a wrapping bitmap is met, some step of the scan faults. -/
private theorem exists_fault (hschema : schema[keyColumnIndex]? = some .int64)
    (hcounted : Counted blocks) (hmeets : MeetsWrap reader schema projection cache blocks) :
    ∃ steps, position reader range schema projection blocks cache steps =
      .error .outOfBounds := by
  have hruns := counted_logicalBlocks hcounted
  have houtcome :=
    @ColumnDecoding.create_outcome reader range schema projection blocks hschema hruns cache
  generalize hcreate : ColumnDecoding.create reader range schema projection blocks cache = result
    at houtcome
  cases houtcome with
  | faults => exact ⟨0, position_of_throws hcreate 0⟩
  | throws e hnot => exact absurd hmeets hnot
  | ends hend hnot => exact absurd hmeets hnot
  | @stands scan cache' hstands hiff =>
    obtain ⟨steps, ⟨-, hfault⟩ | ⟨hnot, -⟩⟩ :=
      @ColumnDecoding.exists_end reader range schema projection cache _ hruns scan cache' hstands
    · exact ⟨steps, (position_of_create hcreate steps).trans hfault⟩
    · exact absurd (hiff.mp hmeets) hnot

/-- Otherwise every position is an exception, a row of a run or the end. -/
private theorem position_outcome (hschema : schema[keyColumnIndex]? = some .int64)
    (hcounted : Counted blocks) (hmeets : ¬MeetsWrap reader schema projection cache blocks)
    (steps : Nat) :
    ColumnDecoding.Outcome reader schema projection cache
      (SSTableColumnCursor.logicalBlocks blocks) False
        (position reader range schema projection blocks cache steps) := by
  have hruns := counted_logicalBlocks hcounted
  have houtcome :=
    @ColumnDecoding.create_outcome reader range schema projection blocks hschema hruns cache
  generalize hcreate : ColumnDecoding.create reader range schema projection blocks cache = result
    at houtcome
  cases houtcome with
  | faults h => exact absurd h hmeets
  | throws e =>
    rw [position_of_throws hcreate]
    exact .throws e id
  | stands hstands hiff =>
    rw [position_of_create hcreate]
    exact ColumnDecoding.advance_outcome hruns steps hstands (mt hiff.mpr hmeets)
  | ends hend =>
    rw [position_of_create hcreate, ColumnDecoding.advance_of_ended hend]
    exact .ends hend id

private theorem exists_position_end (hschema : schema[keyColumnIndex]? = some .int64)
    (hcounted : Counted blocks) (hmeets : ¬MeetsWrap reader schema projection cache blocks) :
    ∃ steps,
      (∃ e, position reader range schema projection blocks cache steps = .error (.thrown e)) ∨
        ∃ scan cache', position reader range schema projection blocks cache steps =
          .ok (scan, cache') ∧ scan.keys.length ≤ scan.index := by
  have hruns := counted_logicalBlocks hcounted
  have houtcome :=
    @ColumnDecoding.create_outcome reader range schema projection blocks hschema hruns cache
  generalize hcreate : ColumnDecoding.create reader range schema projection blocks cache = result
    at houtcome
  cases houtcome with
  | faults h => exact absurd h hmeets
  | throws e => exact ⟨0, Or.inl ⟨e, position_of_throws hcreate 0⟩⟩
  | @stands scan cache' hstands hiff =>
    obtain ⟨steps, ⟨hwraps, -⟩ | ⟨-, hend⟩⟩ :=
      @ColumnDecoding.exists_end reader range schema projection cache _ hruns scan cache' hstands
    · exact absurd (hiff.mpr hwraps) hmeets
    · refine ⟨steps, ?_⟩
      rw [position_of_create hcreate]
      exact hend
  | @ends scan cache' hend =>
    exact ⟨0, Or.inr ⟨scan, cache', position_of_create hcreate 0, hend⟩⟩

end Scans

/-- Decoding is safe except where the cursor comes to a NULL bitmap whose size wraps
around. Nothing is asked of the metadata or of the bytes: `hschema` is the schema of every
table, and `hcounted` says that the counts are `uint32_t`. -/
theorem column_blocks_decode_safely_iff (reader : SSTableReader) (range : KeyRange)
    (schema : List ValueType) (projection : List Nat) (blocks : List ColumnBlockMeta)
    (cache : Option SSTableBlockCache) (hschema : schema[keyColumnIndex]? = some .int64)
    (hcounted : Counted blocks) :
    DecodesSafely reader range schema projection blocks cache ↔
      ¬MeetsWrap reader schema projection cache blocks := by
  constructor
  · intro hsafe hmeets
    obtain ⟨steps, hfault⟩ :=
      @exists_fault reader range schema projection blocks cache hschema hcounted hmeets
    exact hsafe.inBounds steps hfault
  · intro hmeets
    refine ⟨?_, ?_, exists_position_end hschema hcounted hmeets⟩
    · intro steps hfault
      have houtcome := @position_outcome reader range schema projection blocks cache hschema
        hcounted hmeets steps
      rw [hfault] at houtcome
      cases houtcome with
      | faults h => exact h
    · intro steps scan cache' hposition hvalid
      have houtcome := @position_outcome reader range schema projection blocks cache hschema
        hcounted hmeets steps
      rw [hposition] at houtcome
      cases houtcome with
      | stands hstands =>
        obtain ⟨before, run, after, begun, hruns, hbehind, hloaded⟩ := hstands.loaded
        exact ⟨before.flatten, run, begun, isMaximalRun_of_logicalBlocks hruns, hbehind,
          rowOfRun_of_loaded hvalid hloaded⟩
      | ends hend => exact absurd hvalid (not_lt.mpr hend)

/-- One key and one value of 8 bytes behind a bitmap of one byte. -/
private def oneRowBlocks : List ColumnBlockMeta :=
  [⟨5, 5, 0, 8, 1, 0, 0⟩, ⟨5, 5, 8, 9, 1, 0, 1⟩]

theorem one_row_blocks_decode_safely :
    DecodesSafely ⟨[5, 0, 0, 0, 0, 0, 0, 0, 0, 7, 0, 0, 0, 0, 0, 0, 0], 1⟩ KeyRange.full
      [.int64, .int64] [0, 1] oneRowBlocks none := by
  have hsmall : ∀ block ∈ oneRowBlocks, block.valuesCount + 7 < 2 ^ 32 := by decide
  have hcounted : Counted oneRowBlocks := fun block hblock =>
    (Nat.le_add_right _ 7).trans_lt (hsmall block hblock)
  apply (column_blocks_decode_safely_iff _ _ _ _ _ none rfl hcounted).mpr
  exact ColumnDecoding.not_meetsWrap_of_small hsmall none

/-- A value block of no bytes that promises `UINT32_MAX` values. -/
private def wrappingBlock : ColumnBlockMeta := ⟨0, 0, 0, 0, 4294967295, 0, 1⟩

/-- Its bitmap of no bytes is indexed. -/
theorem wrapping_bitmap_out_of_bounds :
    ¬DecodesSafely ⟨[], 1⟩ KeyRange.full [.int64, .int64] [1] [wrappingBlock] none := by
  intro hsafe
  have hcounted : Counted [wrappingBlock] := by
    intro block hblock
    rw [List.mem_singleton.mp hblock]
    decide
  have hwraps : ColumnDecoding.Wraps ⟨[], 1⟩ [.int64, .int64] [1] none wrappingBlock :=
    ⟨by decide, by decide, List.mem_singleton_self 1, by decide, ([], none), rfl⟩
  obtain ⟨steps, hfault⟩ := @exists_fault ⟨[], 1⟩ KeyRange.full [.int64, .int64] [1]
    [wrappingBlock] none rfl hcounted (Or.inl hwraps)
  exact hsafe.inBounds steps hfault

end Htap.Properties
