import Htap.Cursor.Current

/-!
What the cursors of a scan return for a column that is not projected. The row behind a
cursor decides: a memtable has the stored value, a ROW SSTable leaves NULL in its place,
a COLUMN SSTable does not load the column and throws. Nothing is assumed about the bytes
the SSTables are read from.
-/

namespace Htap.Cursor

open Storage SSTable Read ByteFormat Words

/-! ## Block scans -/

namespace BlockScan

variable {β δ : Type} {range : KeyRange} {load : BlockLoad β δ} {cleared : δ}
  {P : List Key → δ → Prop}

/-- What holds of every loaded block and of the end holds wherever the scan gets. -/
theorem loadNextNonEmptyBlock_keeps (hcleared : P [] cleared)
    (hload : ∀ block cache loaded cache', load block cache = .ok (loaded, cache') →
      P loaded.1 loaded.2)
    {pending : List β} {cache cache' : Option SSTableBlockCache} {s : BlockScan β δ}
    (h : loadNextNonEmptyBlock range load cleared pending cache = .ok (s, cache')) :
    P s.keys s.payload := by
  induction pending generalizing cache with
  | nil =>
    cases h
    exact hcleared
  | cons block pending ih =>
    rw [loadNextNonEmptyBlock] at h
    obtain ⟨⟨loaded, cache₁⟩, hloaded, h⟩ := Result.bind_eq_ok.mp h
    dsimp only at h
    split at h
    · cases h
      exact hload block cache loaded _ hloaded
    · exact ih h

theorem next_keeps (hcleared : P [] cleared)
    (hload : ∀ block cache loaded cache', load block cache = .ok (loaded, cache') →
      P loaded.1 loaded.2)
    {s s' : BlockScan β δ} {cache cache' : Option SSTableBlockCache} (hs : P s.keys s.payload)
    (h : next range load cleared s cache = .ok (s', cache')) : P s'.keys s'.payload := by
  unfold next at h
  split at h
  · dsimp only at h
    split at h
    · cases h
      exact hs
    · exact loadNextNonEmptyBlock_keeps hcleared hload h
  · cases h
    exact hs

end BlockScan

/-! ## Row blocks -/

namespace RowBlock

/-- A column outside of the projection is decoded as NULL, whatever is stored. -/
theorem decodeCells_unprojected {bitmap raw rest : Bytes} {first j : Nat} {type : ValueType}
    {columns : List (ValueType × Bool)} {cells : List NullableValue}
    (hcolumn : columns[j]? = some (type, false))
    (h : (decodeCells bitmap first columns).run raw = .ok (cells, rest)) :
    cells[j]? = some none := by
  induction columns generalizing first j raw rest cells with
  | nil => cases hcolumn
  | cons column columns ih =>
    obtain ⟨columnType, isProjected⟩ := column
    have htail : ∀ {raw rest : Bytes} {head : NullableValue} {more : List NullableValue},
        (decodeCells bitmap (first + 1) columns).run raw = .ok (more, rest) →
        (j = 0 → head = none) → (head :: more)[j]? = some none := by
      intro raw rest head more hmore hhead
      cases j with
      | zero => rw [List.getElem?_cons_zero, hhead rfl]
      | succ j =>
        rw [List.getElem?_cons_succ] at hcolumn ⊢
        exact ih hcolumn hmore
    rw [decodeCells] at h
    split at h
    · obtain ⟨more, left, hmore, h⟩ := Parser.run_bind_eq_ok.mp h
      cases h
      exact htail hmore fun _ => rfl
    split at h
    · obtain ⟨⟨⟩, skipped, -, h⟩ := Parser.run_bind_eq_ok.mp h
      obtain ⟨more, left, hmore, h⟩ := Parser.run_bind_eq_ok.mp h
      cases h
      exact htail hmore fun _ => rfl
    · rename_i hprojected
      obtain ⟨value, read, -, h⟩ := Parser.run_bind_eq_ok.mp h
      obtain ⟨more, left, hmore, h⟩ := Parser.run_bind_eq_ok.mp h
      cases h
      apply htail hmore
      rintro rfl
      cases hcolumn
      exact absurd rfl hprojected

theorem decode_unprojected {data : Bytes} {count i : Nat} {schema : List ValueType}
    {mask : List Bool} {rows : List Row} (hwidth : i < schema.length) (hkey : i ≠ keyColumnIndex)
    (hmask : mask[i]? = some false) (h : decode data count schema mask = .ok rows) :
    ∀ row ∈ rows, row[i]? = some none := by
  obtain ⟨j, rfl⟩ := Nat.exists_eq_succ_of_ne_zero hkey
  have hcolumn : (schema.tail.zip mask.tail)[j]? = some (schema[j + 1], false) := by
    apply List.getElem?_zip_eq_some.mpr
    rw [List.getElem?_tail, List.getElem?_tail]
    exact ⟨List.getElem?_eq_getElem hwidth, hmask⟩
  unfold decode parse at h
  cases hrun : (Parser.times (decodeRow schema mask) count).run data with
  | error e =>
    rw [hrun] at h
    cases h
  | ok out =>
    obtain ⟨read, rest⟩ := out
    rw [hrun] at h
    cases h
    refine @forall_of_times _ _ _ (fun row : Row => row[j + 1]? = some none) ?_ _ _ _ _ hrun
    intro raw row rest hrow
    obtain ⟨key, left, -, hrow⟩ := Parser.run_bind_eq_ok.mp hrow
    obtain ⟨bitmap, left', -, hrow⟩ := Parser.run_bind_eq_ok.mp hrow
    obtain ⟨cells, left'', hcells, hrow⟩ := Parser.run_bind_eq_ok.mp hrow
    cases hrow
    rw [List.getElem?_cons_succ]
    exact decodeCells_unprojected hcolumn hcells

end RowBlock

private theorem markProjection_unprojected {mask marked : List Bool} {projection : List Nat}
    {i : Nat} (hunprojected : i ∉ projection) (h : markProjection mask projection = .ok marked) :
    marked[i]? = mask[i]? := by
  induction projection generalizing mask with
  | nil =>
    cases h
    rfl
  | cons column projection ih =>
    obtain ⟨hne, hrest⟩ := not_or.mp (mt List.mem_cons.mpr hunprojected)
    rw [markProjection] at h
    split at h
    · cases h
    split at h
    · cases h
    · rw [ih hrest h, List.getElem?_set_ne (Ne.symm hne)]

theorem makeProjectionMask_unprojected {size i : Nat} {projection : List Nat} {mask : List Bool}
    (hsize : i < size) (hkey : i ≠ keyColumnIndex) (hunprojected : i ∉ projection)
    (h : makeProjectionMask size projection = .ok mask) : mask[i]? = some false := by
  obtain ⟨marked, hmarked, h⟩ := Result.bind_eq_ok.mp h
  cases h
  rw [List.getElem?_set_ne (Ne.symm hkey), markProjection_unprojected hunprojected hmarked]
  exact List.getElem?_replicate_of_lt hsize

/-! ## Column blocks -/

namespace SSTableColumnCursor

private theorem loadBlock_unprojected {reader : SSTableReader} {schema : List ValueType}
    {projection : List Nat} {i : Nat} (hunprojected : i ∉ projection) {keys : List Key}
    {columns : List (List NullableValue)} {block : ColumnBlockMeta}
    {loaded : List Key × List (List NullableValue)} {cache cache' : Option SSTableBlockCache}
    (h : loadBlock reader schema projection keys columns block cache = .ok (loaded, cache')) :
    loaded.2.getD i [] = columns.getD i [] := by
  unfold loadBlock at h
  split at h
  · cases h
  split at h
  · obtain ⟨⟨data, cache₁⟩, -, h⟩ := Result.bind_eq_ok.mp h
    obtain ⟨decoded, -, h⟩ := Result.bind_eq_ok.mp h
    cases h
    rfl
  split at h
  · cases h
    rfl
  · rename_i hprojected
    obtain ⟨⟨data, cache₁⟩, -, h⟩ := Result.bind_eq_ok.mp h
    obtain ⟨decoded, -, h⟩ := Result.bind_eq_ok.mp h
    cases h
    have hne : block.columnIdx ≠ i := by
      rintro rfl
      exact hprojected hunprojected
    rw [List.getD_eq_getElem?_getD, List.getElem?_set_ne hne, ← List.getD_eq_getElem?_getD]

private theorem loadBlocks_unprojected {reader : SSTableReader} {schema : List ValueType}
    {projection : List Nat} {i : Nat} (hunprojected : i ∉ projection)
    {blocks : List ColumnBlockMeta}
    {keys : List Key} {columns : List (List NullableValue)}
    {loaded : List Key × List (List NullableValue)} {cache cache' : Option SSTableBlockCache}
    (h : loadBlocks reader schema projection keys columns blocks cache = .ok (loaded, cache')) :
    loaded.2.getD i [] = columns.getD i [] := by
  induction blocks generalizing keys columns cache with
  | nil =>
    cases h
    rfl
  | cons block blocks ih =>
    rw [loadBlocks] at h
    obtain ⟨⟨first, cache₁⟩, hfirst, h⟩ := Result.bind_eq_ok.mp h
    rw [ih h, loadBlock_unprojected hunprojected hfirst]

private theorem getD_cleared (schema : List ValueType) (i : Nat) :
    (cleared schema).getD i [] = [] := by
  rw [List.getD_eq_getElem?_getD, cleared, List.getElem?_replicate]
  split <;> rfl

/-- A column outside of the projection stays empty. -/
theorem load_unprojected {reader : SSTableReader} {schema : List ValueType}
    {projection : List Nat} {i : Nat} (hunprojected : i ∉ projection)
    {blocks : List ColumnBlockMeta}
    {loaded : List Key × List (List NullableValue)} {cache cache' : Option SSTableBlockCache}
    (h : load reader schema projection blocks cache = .ok (loaded, cache')) :
    loaded.2.getD i [] = [] := by
  rw [loadBlocks_unprojected hunprojected h, getD_cleared]

end SSTableColumnCursor

/-! ## One cursor -/

/-- The memtables have whole rows. -/
theorem ActiveMemTableCursor.value_of_key {c : ActiveMemTableCursor} {w : World} {width i : Nat}
    {k : Key} (hcolumn : i < width) (hw : ∀ e ∈ w.memtable.data.entries, e.2.length = width)
    (h : ICursor.key c w = .ok k) : ∃ value, ICursor.value c w i = .ok value := by
  simp only [ICursor.key, ICursor.value] at h ⊢
  split at h
  · cases h
  rename_i hvalid
  obtain ⟨⟨key, row⟩, hentry, -⟩ := Result.bind_eq_ok.mp h
  have hmem : (key, row) ∈ w.memtable.data.entries := by
    unfold ActiveMemTableCursor.entry at hentry
    split at hentry
    · cases hentry
    split at hentry
    · cases hentry
    split at hentry
    · cases hentry
    · rename_i hfind
      cases hentry
      exact SortedMap.find?_eq_some_iff.mp hfind
  obtain ⟨value, hvalue⟩ : ∃ value, row[i]? = some value :=
    ⟨_, List.getElem?_eq_getElem ((hw _ hmem).symm ▸ hcolumn)⟩
  refine ⟨value, ?_⟩
  rw [if_neg hvalid, hentry, Result.ok_bind]
  dsimp only
  rw [hvalue]
  rfl

theorem ImmutableMemTableCursor.value_of_key {c : ImmutableMemTableCursor} (w : World)
    {width i : Nat} {k : Key} (hcolumn : i < width) (hc : ∀ row ∈ c.data, row.length = width)
    (h : ICursor.key c w = .ok k) : ∃ value, ICursor.value c w i = .ok value := by
  simp only [ICursor.key, ICursor.value] at h ⊢
  split at h
  · cases h
  rename_i hvalid
  obtain ⟨row, hrow, -⟩ := Result.bind_eq_ok.mp h
  have hmem : row ∈ c.data := by
    unfold ImmutableMemTableCursor.row at hrow
    split at hrow
    · rename_i hget
      cases hrow
      exact List.mem_of_getElem? hget
    · cases hrow
  obtain ⟨value, hvalue⟩ : ∃ value, row[i]? = some value :=
    ⟨_, List.getElem?_eq_getElem ((hc _ hmem).symm ▸ hcolumn)⟩
  refine ⟨value, ?_⟩
  rw [if_neg hvalid, hrow, Result.ok_bind, hvalue]
  rfl

namespace SSTableRowCursor

variable {reader : SSTableReader} {schema : List ValueType} {mask : List Bool} {i : Nat}

private theorem load_unprojected (hcolumn : i < schema.length) (hkey : i ≠ keyColumnIndex)
    (hmask : mask[i]? = some false) {block : RowBlockMeta} {loaded : List Key × List Row}
    {cache cache' : Option SSTableBlockCache}
    (h : load reader schema mask block cache = .ok (loaded, cache')) :
    loaded.1.length = loaded.2.length ∧ ∀ row ∈ loaded.2, row[i]? = some none := by
  obtain ⟨⟨data, cache₁⟩, -, h⟩ := Result.bind_eq_ok.mp h
  obtain ⟨rows, hdecode, h⟩ := Result.bind_eq_ok.mp h
  cases h
  exact ⟨List.length_map _, RowBlock.decode_unprojected hcolumn hkey hmask hdecode⟩

/-- The loaded rows have NULL in the column. -/
def Nulls (i : Nat) (keys : List Key) (rows : List Row) : Prop :=
  keys.length = rows.length ∧ ∀ row ∈ rows, row[i]? = some none

theorem create_unprojected {blocks : List RowBlockMeta} {range : KeyRange}
    {projection : List Nat} {c : SSTableRowCursor} {cache cache' : Option SSTableBlockCache}
    (hcolumn : i < schema.length) (hkey : i ≠ keyColumnIndex) (hunprojected : i ∉ projection)
    (h : create reader blocks range schema projection cache = .ok (c, cache')) :
    c.schema = schema ∧ c.projectedColumns[i]? = some false ∧
      Nulls i c.scan.keys c.scan.payload := by
  obtain ⟨mask, hmask, h⟩ := Result.bind_eq_ok.mp h
  have hfalse := makeProjectionMask_unprojected hcolumn hkey hunprojected hmask
  split at h
  · cases h
  split at h
  · cases h
  split at h
  · cases h
  · obtain ⟨⟨scan, cache₁⟩, hscan, h⟩ := Result.bind_eq_ok.mp h
    cases h
    refine ⟨rfl, hfalse, ?_⟩
    exact BlockScan.loadNextNonEmptyBlock_keeps (P := Nulls i) ⟨rfl, by simp⟩
      (fun _ _ _ _ hload => load_unprojected hcolumn hkey hfalse hload) hscan

theorem next_unprojected {range : KeyRange} {scan scan' : BlockScan RowBlockMeta (List Row)}
    {cache cache' : Option SSTableBlockCache} (hcolumn : i < schema.length)
    (hkey : i ≠ keyColumnIndex) (hmask : mask[i]? = some false)
    (hscan : Nulls i scan.keys scan.payload)
    (h : scan.next range (load reader schema mask) [] cache = .ok (scan', cache')) :
    Nulls i scan'.keys scan'.payload :=
  BlockScan.next_keeps (P := Nulls i) ⟨rfl, by simp⟩
    (fun _ _ _ _ hload => load_unprojected hcolumn hkey hmask hload) hscan h

/-- A row cursor returns NULL. -/
theorem value_unprojected {c : SSTableRowCursor} (w : World) {k : Key}
    (hcolumn : i < c.schema.length) (hc : Nulls i c.scan.keys c.scan.payload)
    (h : ICursor.key c w = .ok k) : ICursor.value c w i = .ok none := by
  obtain ⟨hlength, hnull⟩ := hc
  simp only [ICursor.key] at h
  split at h
  · rename_i key hget
    have hlt := (List.getElem?_eq_some_iff.mp hget).1
    have hvalid : c.scan.valid = true := decide_eq_true hlt
    obtain ⟨row, hrow⟩ : ∃ row, c.scan.payload[c.scan.index]? = some row :=
      ⟨_, List.getElem?_eq_getElem (hlength ▸ hlt)⟩
    have hnone := hnull row (List.mem_of_getElem? hrow)
    simp only [ICursor.value, hvalid, Bool.not_true, Bool.false_eq_true, if_false,
      if_neg (not_le.mpr hcolumn), List.getD_eq_getElem?_getD, hrow, Option.getD_some, hnone]
  · cases h

end SSTableRowCursor

namespace SSTableColumnCursor

variable {reader : SSTableReader} {schema : List ValueType} {projection : List Nat} {i : Nat}

theorem create_unprojected {blocks : List ColumnBlockMeta} {range : KeyRange}
    {c : SSTableColumnCursor} {cache cache' : Option SSTableBlockCache}
    (hunprojected : i ∉ projection)
    (h : create reader blocks range schema projection cache = .ok (c, cache')) :
    c.projection = projection ∧ c.scan.payload.getD i [] = [] := by
  unfold create at h
  split at h
  · cases h
  split at h
  · cases h
  split at h
  · cases h
  · obtain ⟨⟨scan, cache₁⟩, hscan, h⟩ := Result.bind_eq_ok.mp h
    cases h
    refine ⟨rfl, ?_⟩
    exact BlockScan.loadNextNonEmptyBlock_keeps (P := fun _ columns => columns.getD i [] = [])
      (getD_cleared schema i) (fun _ _ _ _ hload => load_unprojected hunprojected hload) hscan

theorem next_unprojected {range : KeyRange}
    {scan scan' : BlockScan (List ColumnBlockMeta) (List (List NullableValue))}
    {cache cache' : Option SSTableBlockCache} (hunprojected : i ∉ projection)
    (hscan : scan.payload.getD i [] = [])
    (h : scan.next range (load reader schema projection) (cleared schema) cache =
      .ok (scan', cache')) : scan'.payload.getD i [] = [] :=
  BlockScan.next_keeps (P := fun _ columns => columns.getD i [] = []) (getD_cleared schema i)
    (fun _ _ _ _ hload => load_unprojected hunprojected hload) hscan h

/-- A column cursor throws. -/
theorem value_unprojected {c : SSTableColumnCursor} (w : World) {k : Key}
    (hkey : i ≠ keyColumnIndex) (hc : c.scan.payload.getD i [] = [])
    (h : ICursor.key c w = .ok k) : ∃ e, ICursor.value c w i = .error e := by
  simp only [ICursor.key] at h
  split at h
  · rename_i key hget
    simp only [ICursor.value, hget]
    by_cases hrange : c.schema.length ≤ i
    · exact ⟨_, if_pos hrange⟩
    · refine ⟨.logicError "Column is not loaded", ?_⟩
      rw [if_neg hrange, if_neg hkey, hc]
      rfl
  · cases h

end SSTableColumnCursor

/-! ## Cursors of a scan -/

namespace ScanCursor

/-- What a cursor keeps of a column `i` that is not projected: the rows of a memtable have
it, a row cursor has only NULL for it, a column cursor has nothing loaded for it. -/
def Hides (width i : Nat) : ScanCursor → Prop
  | .activeMemTable _ => True
  | .immutableMemTable c => ∀ row ∈ c.data, row.length = width
  | .sstableRow c => c.schema.length = width ∧ c.projectedColumns[i]? = some false ∧
      SSTableRowCursor.Nulls i c.scan.keys c.scan.payload
  | .sstableColumn c => i ∉ c.projection ∧ c.scan.payload.getD i [] = []

/-- The rows of the active memtable are of this width. -/
def ActiveWidth (width : Nat) (w : World) : Prop :=
  ∀ e ∈ w.memtable.data.entries, e.2.length = width

/-- The row comes from a COLUMN SSTable. -/
def OfColumnSSTable : ScanCursor → Prop
  | .sstableColumn _ => True
  | .activeMemTable _ | .immutableMemTable _ | .sstableRow _ => False

section

variable {width i : Nat} {c c' : ScanCursor} {w w' : World}

/-- Moving a cursor on keeps what it hides. -/
theorem Hides.next (hcolumn : i < width) (hkey : i ≠ keyColumnIndex) (hc : Hides width i c)
    (h : ICursor.next c w = .ok (c', w')) : Hides width i c' := by
  cases c with
  | activeMemTable c =>
    obtain ⟨⟨moved, w₁⟩, -, h⟩ := Result.bind_eq_ok.mp h
    cases h
    trivial
  | immutableMemTable c =>
    obtain ⟨⟨moved, w₁⟩, hmoved, h⟩ := Result.bind_eq_ok.mp h
    cases h
    simp only [ICursor.next] at hmoved
    split at hmoved
    · cases hmoved
      exact hc
    · cases hmoved
      exact hc
  | sstableRow c =>
    obtain ⟨hschema, hmask, hpayload⟩ := hc
    obtain ⟨⟨moved, w₁⟩, hmoved, h⟩ := Result.bind_eq_ok.mp h
    cases h
    obtain ⟨⟨scan, cache⟩, hscan, hmoved⟩ := Result.bind_eq_ok.mp hmoved
    cases hmoved
    exact ⟨hschema, hmask, SSTableRowCursor.next_unprojected (hschema.symm ▸ hcolumn) hkey hmask
      hpayload hscan⟩
  | sstableColumn c =>
    obtain ⟨hunprojected, hpayload⟩ := hc
    obtain ⟨⟨moved, w₁⟩, hmoved, h⟩ := Result.bind_eq_ok.mp h
    cases h
    obtain ⟨⟨scan, cache⟩, hscan, hmoved⟩ := Result.bind_eq_ok.mp hmoved
    cases hmoved
    exact ⟨hunprojected, SSTableColumnCursor.next_unprojected hunprojected hpayload hscan⟩

private theorem not_throws {result : Result NullableValue} {value : NullableValue}
    (h : result = .ok value) : ¬∃ e, result = .error e := by
  rintro ⟨e, herror⟩
  rw [h] at herror
  cases herror

/-- Where a cursor has a row, the column is read without an exception, unless the row comes
from a COLUMN SSTable. -/
theorem Hides.value_throws_iff (hcolumn : i < width) (hkey : i ≠ keyColumnIndex)
    (hc : Hides width i c) (hw : ActiveWidth width w) {k : Key}
    (hrow : ICursor.key c w = .ok k) :
    (∃ e, ICursor.value c w i = .error e) ↔ OfColumnSSTable c := by
  cases c with
  | activeMemTable c =>
    obtain ⟨value, hvalue⟩ := ActiveMemTableCursor.value_of_key hcolumn hw hrow
    exact iff_of_false (not_throws hvalue) id
  | immutableMemTable c =>
    obtain ⟨value, hvalue⟩ := ImmutableMemTableCursor.value_of_key w hcolumn hc hrow
    exact iff_of_false (not_throws hvalue) id
  | sstableRow c =>
    obtain ⟨hschema, -, hnull⟩ := hc
    have hvalue := SSTableRowCursor.value_unprojected w (hschema.symm ▸ hcolumn) hnull hrow
    exact iff_of_false (not_throws hvalue) id
  | sstableColumn c =>
    have hthrows := SSTableColumnCursor.value_unprojected w hkey hc.2 hrow
    exact iff_of_true hthrows trivial

end

end ScanCursor

end Htap.Cursor
