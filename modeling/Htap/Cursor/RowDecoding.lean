import Htap.Cursor.CheckedReads
import Htap.Cursor.SSTableRow

/-!
`decode_row_block` with the position, the length checks and the loads of the
source. It follows `RowBlock.decode`, so it never loads a byte from outside of
the block.
-/

namespace Htap.Cursor.RowDecoding

open Storage SSTable Read ByteFormat ByteWalk Words
open RowBlock (blockEnd decodeCells)
open CheckedReads

def skipBytes (size : Nat) : Walk Exception Unit := do
  Walk.require blockEnd size
  Walk.advance size

def skipString : Walk Exception Unit := do
  let size ← readWord blockEnd 4
  skipBytes size

def skipValue : ValueType → Walk Exception Unit
  | .int64 => skipBytes 8
  | .double => skipBytes 8
  | .string => skipString

/-- The body of the loop over the value columns. -/
def decodeColumn (schema : List ValueType) (projectedColumns : List Bool) (isNullBitmap : Bytes)
    (columnIdx : Nat) (row : Row) : Walk Exception Row := do
  let byteIdx := (columnIdx - 1) / 8
  let bitIdx := (columnIdx - 1) % 8
  let byte ← Walk.access isNullBitmap byteIdx
  let isProjected ← Walk.access projectedColumns columnIdx
  if byte.toNat.testBit bitIdx then
    if isProjected then Walk.assign row columnIdx none
    else return row
  else do
    let type ← Walk.access schema columnIdx
    if !isProjected then do
      skipValue type
      return row
    else do
      let value ← CheckedReads.readValue blockEnd type
      Walk.assign row columnIdx (some value)

/-- The loop over the `remaining` columns from `columnIdx` on. -/
def decodeColumns (schema : List ValueType) (projectedColumns : List Bool) (isNullBitmap : Bytes)
    (columnIdx : Nat) (row : Row) : Nat → Walk Exception Row
  | 0 => return row
  | remaining + 1 => do
    let row ← decodeColumn schema projectedColumns isNullBitmap columnIdx row
    decodeColumns schema projectedColumns isNullBitmap (columnIdx + 1) row remaining

def decodeRow (schema : List ValueType) (projectedColumns : List Bool) : Walk Exception Row := do
  let key ← readInt64 blockEnd
  let row ← Walk.assign (List.replicate schema.length none) keyColumnIndex (some (.int64 key))
  let isNullBitmap ← readBytes blockEnd (Bitmap.byteCount (schema.length - 1))
  decodeColumns schema projectedColumns isNullBitmap 1 row (schema.length - 1)

/-- `decode_row_block`. -/
def decodeRowBlock (blockData : Bytes) (rowCount : Nat) (schema : List ValueType)
    (projectedColumns : List Bool) : Except (Fault Exception) (List Row) :=
  ((Walk.times (decodeRow schema projectedColumns) rowCount).run blockData 0).map Prod.fst

/-! ## The parser it follows -/

theorem follows_skipValue (type : ValueType) :
    Follows (skipValue type) (RowBlock.skipValue type) := by
  cases type with
  | int64 => exact Follows.skip blockEnd 8
  | double => exact Follows.skip blockEnd 8
  | string => exact (follows_readWord blockEnd 4).bind fun size => Follows.skip blockEnd size

/-- One column of `decodeCells`. -/
def decodeCell (bitmap : Bytes) (i : Nat) (type : ValueType) (isProjected : Bool) :
    Parser Exception NullableValue :=
  if Bitmap.testBit bitmap i then return none
  else if !isProjected then do
    RowBlock.skipValue type
    return none
  else do
    let value ← Htap.SSTable.readValue blockEnd type
    return some value

theorem decodeCells_cons (bitmap : Bytes) (i : Nat) (type : ValueType) (isProjected : Bool)
    (columns : List (ValueType × Bool)) :
    decodeCells bitmap i ((type, isProjected) :: columns) = do
      let value ← decodeCell bitmap i type isProjected
      let rest ← decodeCells bitmap (i + 1) columns
      return value :: rest := by
  rw [decodeCells, decodeCell]
  split
  · rfl
  · split
    · rw [bind_assoc]
      rfl
    · rw [bind_assoc]
      rfl

section Columns

variable {schema : List ValueType} {mask : List Bool} {bitmap : Bytes}

private theorem follows_decodeColumn {i : Nat} {row : Row} {type : ValueType} {isProjected : Bool}
    (hschema : schema[i + 1]? = some type) (hmask : mask[i + 1]? = some isProjected)
    (hbitmap : i / 8 < bitmap.length) (hrow : row[i + 1]? = some none) :
    Follows (decodeColumn schema mask bitmap (i + 1) row) (do
      let value ← decodeCell bitmap i type isProjected
      return row.set (i + 1) value) := by
  have hbyte := List.getElem?_eq_getElem hbitmap
  have hbit : Bitmap.testBit bitmap i = (bitmap[i / 8]).toNat.testBit (i % 8) := by
    rw [Bitmap.testBit, List.getD_eq_getElem?_getD, hbyte]
    rfl
  obtain ⟨hlt, hget⟩ := List.getElem?_eq_some_iff.mp hrow
  have hsame : row.set (i + 1) none = row := by
    conv_lhs => rw [← hget]
    exact List.set_getElem_self hlt
  unfold decodeColumn decodeCell
  simp only [Nat.add_sub_cancel]
  rw [Walk.access_eq hbyte, Walk.access_eq hmask, Walk.access_eq hschema, Walk.pure_bind,
    Walk.pure_bind, hbit]
  split
  · rw [pure_bind, hsame]
    cases isProjected with
    | false => exact Follows.pure row
    | true =>
      rw [if_pos rfl, Walk.assign_eq none hlt, hsame]
      exact Follows.pure row
  · rw [Walk.pure_bind]
    cases isProjected with
    | false =>
      have hskip := (follows_skipValue type).map fun _ => row
      rw [if_pos Bool.not_false, if_pos Bool.not_false, bind_assoc]
      simpa only [pure_bind, hsame] using hskip
    | true =>
      rw [if_neg (by simp), if_neg (by simp), bind_assoc]
      simp only [pure_bind, Walk.assign_eq _ hlt]
      exact (follows_readValue blockEnd type).map fun value => row.set (i + 1) (some value)

/-- The columns from `columnIdx` on, by induction on those that are left. -/
private theorem follows_decodeColumns {types : List ValueType} {flags : List Bool} {done : Row}
    {i : Nat} {before : List ValueType} {earlier : List Bool}
    (hschema : schema = before ++ types) (hmask : mask = earlier ++ flags)
    (hbefore : before.length = i + 1) (hearlier : earlier.length = i + 1)
    (hdone : done.length = i + 1) (hflags : flags.length = types.length)
    (hbitmap : i + types.length ≤ 8 * bitmap.length) :
    Follows (decodeColumns schema mask bitmap (i + 1)
      (done ++ List.replicate types.length none) types.length) (do
        let cells ← decodeCells bitmap i (types.zip flags)
        return done ++ cells) := by
  induction types generalizing i flags done before earlier with
  | nil =>
    rw [List.zip_nil_left, decodeCells, pure_bind]
    exact Follows.pure (done ++ [])
  | cons type types ih =>
    cases flags with
    | nil => simp at hflags
    | cons isProjected flags =>
      rw [List.length_cons] at hbitmap
      have hcolumn := @follows_decodeColumn schema mask bitmap i
        (done ++ List.replicate (types.length + 1) none) type isProjected
        (by rw [hschema, List.getElem?_append_right hbefore.le, hbefore, Nat.sub_self]; rfl)
        (by rw [hmask, List.getElem?_append_right hearlier.le, hearlier, Nat.sub_self]; rfl)
        (by omega)
        (by rw [List.getElem?_append_right hdone.le, hdone, Nat.sub_self]; rfl)
      rw [List.zip_cons_cons, decodeCells_cons, List.length_cons, decodeColumns, bind_assoc]
      have hset : ∀ value : NullableValue,
          (done ++ List.replicate (types.length + 1) none).set (i + 1) value =
            (done ++ [value]) ++ List.replicate types.length none := by
        intro value
        rw [List.set_append_right _ _ hdone.le, hdone, Nat.sub_self, List.replicate_succ,
          List.set_cons_zero, List.append_assoc, List.singleton_append]
      refine Follows.bind_map hcolumn fun value _ => ?_
      have hrest := @ih flags (done ++ [value]) (i + 1) (before ++ [type])
        (earlier ++ [isProjected]) (by rw [hschema, List.append_assoc]; rfl)
        (by rw [hmask, List.append_assoc]; rfl) (by simp [hbefore]) (by simp [hearlier])
        (by simp [hdone]) (by simpa using hflags) (by omega)
      rw [hset, bind_assoc]
      simpa only [pure_bind, List.append_assoc, List.singleton_append] using hrest

/-- Every row of the loop follows the row parser. -/
theorem follows_decodeRow (hschema : schema ≠ []) (hmask : mask.length = schema.length) :
    Follows (decodeRow schema mask) (RowBlock.decodeRow schema mask) := by
  obtain ⟨keyType, types, rfl⟩ := List.exists_cons_of_ne_nil hschema
  obtain ⟨isKeyProjected, flags, rfl⟩ :=
    List.exists_cons_of_length_pos (by rw [hmask]; simp : 0 < mask.length)
  unfold decodeRow RowBlock.decodeRow
  refine (follows_readInt64 blockEnd).bind fun key => ?_
  rw [Walk.assign_eq _ (by simp [keyColumnIndex]), Walk.pure_bind]
  refine Follows.bind_map (by rw [bind_pure]; exact follows_readBytes blockEnd _) ?_
  rintro bitmap ⟨raw, rest, hread⟩
  have hbitmap := Parser.length_of_run_bytes hread
  have hcolumns := @follows_decodeColumns (keyType :: types) (isKeyProjected :: flags) bitmap types
    flags [some (.int64 key)] 0 [keyType] [isKeyProjected] rfl rfl rfl rfl rfl
      (by simpa using hmask)
    (by
      rw [hbitmap, Bitmap.byteCount, List.length_cons]
      omega)
  simpa [keyColumnIndex, List.replicate_succ] using hcolumns

end Columns

/-- The source's decoder is the parser of the block, and never faults. -/
theorem decodeRowBlock_eq {schema : List ValueType} {mask : List Bool} (hschema : schema ≠ [])
    (hmask : mask.length = schema.length) (blockData : Bytes) (rowCount : Nat) :
    decodeRowBlock blockData rowCount schema mask =
      (RowBlock.decode blockData rowCount schema mask).mapError Fault.thrown := by
  have hrun := ((follows_decodeRow hschema hmask).times rowCount).run_eq blockData
  rw [decodeRowBlock, hrun, RowBlock.decode, parse]
  cases (Parser.times (RowBlock.decodeRow schema mask) rowCount).run blockData <;> rfl

end Htap.Cursor.RowDecoding
