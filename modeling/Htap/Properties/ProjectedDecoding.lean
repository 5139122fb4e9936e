import Htap.Cursor.RowDecoding

/-!
Decoding under a projection mask, over arbitrary bytes: skipping a value takes
the bytes that reading it takes and fails where reading it fails, so the mask
only decides which cells are kept.
-/

namespace Htap.Properties

open Storage SSTable Read Cursor ByteFormat ByteWalk
open Cursor.RowBlock (blockEnd decodeCells skipValue)
open Cursor.RowDecoding (decodeCell decodeCells_cons decodeRowBlock decodeRowBlock_eq)

/-- Skipping is reading without looking. -/
private theorem skipValue_eq (type : ValueType) :
    skipValue type = (readValue blockEnd type >>= fun _ => pure ()) := by
  cases type with
  | int64 => simp only [skipValue, readValue, readI64, Parser.word, bind_assoc, pure_bind]
  | double => simp only [skipValue, readValue, readDouble, Parser.word, bind_assoc, pure_bind]
  | string => simp only [skipValue, readValue, readString, bind_assoc, pure_bind]

private theorem decodeCell_eq (bitmap : Bytes) (i : Nat) (type : ValueType) (isProjected : Bool) :
    decodeCell bitmap i type isProjected = do
      let value ← decodeCell bitmap i type true
      return if isProjected then value else none := by
  unfold decodeCell
  split
  · rw [pure_bind, ite_self]
  · cases isProjected with
    | true => simp
    | false => simp [skipValue_eq]

private theorem decodeCells_eq (bitmap : Bytes) {i : Nat} {types : List ValueType}
    {flags : List Bool} (hflags : flags.length = types.length) :
    decodeCells bitmap i (types.zip flags) = do
      let cells ← decodeCells bitmap i (types.zip (List.replicate types.length true))
      return maskRow flags cells := by
  induction types generalizing i flags with
  | nil =>
    rw [List.length_eq_zero_iff.mp hflags]
    rfl
  | cons type types ih =>
    cases flags with
    | nil => simp at hflags
    | cons isProjected flags =>
      have hrest := @ih (i + 1) flags (by simpa using hflags)
      rw [List.zip_cons_cons, decodeCells_cons, decodeCell_eq, hrest, List.length_cons,
        List.replicate_succ, List.zip_cons_cons, decodeCells_cons]
      simp only [bind_assoc, pure_bind]
      rfl

private theorem decodeRow_eq {types : List ValueType} {flags : List Bool}
    (hflags : flags.length = types.length) :
    RowBlock.decodeRow (.int64 :: types) (true :: flags) = do
      let row ← RowBlock.decodeRow (.int64 :: types) (List.replicate (types.length + 1) true)
      return maskRow (true :: flags) row := by
  unfold RowBlock.decodeRow
  simp only [bind_assoc, pure_bind, List.tail_cons, List.replicate_succ, decodeCells_eq _ hflags]
  rfl

private theorem decode_eq {types : List ValueType} {flags : List Bool}
    (hflags : flags.length = types.length) (blockData : Bytes) (rowCount : Nat) :
    RowBlock.decode blockData rowCount (.int64 :: types) (true :: flags) =
      (RowBlock.decode blockData rowCount (.int64 :: types)
        (List.replicate (types.length + 1) true)).map (List.map (maskRow (true :: flags))) := by
  rw [RowBlock.decode, decodeRow_eq hflags, Parser.times_bind_pure, RowBlock.decode, parse, parse]
  generalize Parser.times (RowBlock.decodeRow (.int64 :: types)
    (List.replicate (types.length + 1) true)) rowCount = rows
  change (Parser.bind rows _ blockData >>= _) = Except.map _ (rows blockData >>= _)
  unfold Parser.bind
  cases rows blockData <;> rfl

private theorem length_decodeCells {bitmap raw rest : Bytes} {i : Nat}
    {columns : List (ValueType × Bool)} {cells : List NullableValue}
    (h : (decodeCells bitmap i columns).run raw = .ok (cells, rest)) :
    cells.length = columns.length := by
  induction columns generalizing i raw rest cells with
  | nil =>
    cases h
    rfl
  | cons column columns ih =>
    rw [decodeCells_cons] at h
    obtain ⟨value, left, -, h⟩ := Parser.run_bind_eq_ok.mp h
    obtain ⟨others, left', hothers, hpure⟩ := Parser.run_bind_eq_ok.mp h
    cases hpure
    rw [List.length_cons, List.length_cons, ih hothers]

/-- Every decoded row has a cell for every column. -/
private theorem length_decodeRow {types : List ValueType} {mask : List Bool}
    (hmask : mask.length = types.length + 1) {raw rest : Bytes} {row : Row}
    (h : (RowBlock.decodeRow (.int64 :: types) mask).run raw = .ok (row, rest)) :
    row.length = types.length + 1 := by
  obtain ⟨key, left, -, h⟩ := Parser.run_bind_eq_ok.mp h
  obtain ⟨bitmap, left', -, h⟩ := Parser.run_bind_eq_ok.mp h
  obtain ⟨cells, left'', hcells, hpure⟩ := Parser.run_bind_eq_ok.mp h
  cases hpure
  have hlength := length_decodeCells hcells
  rw [List.length_zip, List.tail_cons, List.length_tail, hmask, Nat.add_sub_cancel,
    Nat.min_self] at hlength
  rw [List.length_cons, hlength]

/-- The row under a projection mask: the cells of the projected columns, and
NULL in the others. -/
structure Projects (mask : List Bool) (row projected : Row) : Prop where
  rowWidth : row.length = mask.length
  projectedWidth : projected.length = mask.length
  cells : ∀ column : Nat, column < mask.length →
    projected[column]? = if mask.getD column false then row[column]? else some none

private theorem projects_maskRow {mask : List Bool} {row : Row} (h : row.length = mask.length) :
    Projects mask row (maskRow mask row) where
  rowWidth := h
  projectedWidth := by simp [maskRow, h]
  cells := by
    intro column hcolumn
    have hlt : column < row.length := h.symm ▸ hcolumn
    rw [maskRow, List.getElem?_zipWith, List.getElem?_eq_getElem hlt,
      List.getElem?_eq_getElem hcolumn, List.getD_eq_getElem?_getD,
      List.getElem?_eq_getElem hcolumn]
    cases mask[column] <;> rfl

/-- Rows of any bytes, of a schema that starts with the key. The mask must have a flag for
each column, with the key's set, as the cursors make it; then both decoders throw the same
or agree on the cells of the mask, and neither reads outside the block. -/
theorem projected_decoding_agrees {types : List ValueType} {mask : List Bool}
    (hmask : mask.length = types.length + 1) (hkey : mask[keyColumnIndex]? = some true)
    (blockData : Bytes) (rowCount : Nat) :
    (∃ e, decodeRowBlock blockData rowCount (.int64 :: types) mask = .error (.thrown e) ∧
      decodeRowBlock blockData rowCount (.int64 :: types)
        (List.replicate (types.length + 1) true) = .error (.thrown e)) ∨
    ∃ projected full,
      decodeRowBlock blockData rowCount (.int64 :: types) mask = .ok projected ∧
      decodeRowBlock blockData rowCount (.int64 :: types)
        (List.replicate (types.length + 1) true) = .ok full ∧
      List.Forall₂ (Projects mask) full projected := by
  obtain ⟨isKeyProjected, flags, rfl⟩ :=
    List.exists_cons_of_length_pos (by rw [hmask]; omega : 0 < mask.length)
  obtain rfl : isKeyProjected = true := by simpa [keyColumnIndex] using hkey
  have hflags : flags.length = types.length := by simpa using hmask
  rw [decodeRowBlock_eq (List.cons_ne_nil _ _) hmask,
    decodeRowBlock_eq (List.cons_ne_nil _ _) (by simp), decode_eq hflags]
  cases hfull : RowBlock.decode blockData rowCount (.int64 :: types)
      (List.replicate (types.length + 1) true) with
  | error e => exact Or.inl ⟨e, rfl, rfl⟩
  | ok full =>
    refine Or.inr ⟨full.map (maskRow (true :: flags)), full, rfl, rfl, ?_⟩
    have hwidth : ∀ row ∈ full, row.length = types.length + 1 := by
      obtain ⟨⟨rows, rest⟩, hrun, hpure⟩ := Result.bind_eq_ok.mp hfull
      cases hpure
      exact forall_of_times (fun raw row rest => length_decodeRow (by simp)) hrun
    rw [List.forall₂_map_right_iff, List.forall₂_same]
    intro row hrow
    exact projects_maskRow (by rw [hwidth row hrow, List.length_cons, hflags])

/-- A key, a cleared bitmap and the string that the mask leaves out. -/
theorem projected_decoding_agrees_string :
    (∃ e, decodeRowBlock [7, 0, 0, 0, 0, 0, 0, 0, 0, 2, 0, 0, 0, 104, 105] 1 [.int64, .string]
        [true, false] = .error (.thrown e) ∧
      decodeRowBlock [7, 0, 0, 0, 0, 0, 0, 0, 0, 2, 0, 0, 0, 104, 105] 1 [.int64, .string]
        [true, true] = .error (.thrown e)) ∨
    ∃ projected full,
      decodeRowBlock [7, 0, 0, 0, 0, 0, 0, 0, 0, 2, 0, 0, 0, 104, 105] 1 [.int64, .string]
        [true, false] = .ok projected ∧
      decodeRowBlock [7, 0, 0, 0, 0, 0, 0, 0, 0, 2, 0, 0, 0, 104, 105] 1 [.int64, .string]
        [true, true] = .ok full ∧
      List.Forall₂ (Projects [true, false]) full projected :=
  @projected_decoding_agrees [.string] [true, false] rfl rfl
    [7, 0, 0, 0, 0, 0, 0, 0, 0, 2, 0, 0, 0, 104, 105] 1

end Htap.Properties
