import Htap.Executor.RowSemantics

/-!
The mock storage engine: an ordered map per table, and cursors that are a pair
of an iterator and an upper bound. It serves its tables as the executor expects,
as long as no row has the greatest key: `get` scans up to `key + 1`.
-/

namespace Htap.Executor

open Storage SSTable Read Cursor Words

/-- `it_` as the rows from it to the end of the map, and `to_`. -/
structure MockCursor where
  rows : List Row
  toKey : Option Key
  deriving DecidableEq

namespace MockCursor

def invalid : Exception := .runtimeError "Cursor invalid"

def create (data : MemTable) (fromKey toKey : Option Key) : MockCursor :=
  ⟨data.rows.dropWhile fun r => !SortedMap.atOrAfter fromKey (rowKey r), toKey⟩

instance : ICursor MockCursor where
  valid c :=
    match c.rows with
    | [] => false
    | row :: _ => SortedMap.before c.toKey (rowKey row)
  next c w :=
    match c.rows with
    | [] => .ok (c, w)
    | row :: rest => .ok (if SortedMap.before c.toKey (rowKey row) then ⟨rest, c.toKey⟩ else c, w)
  key c _ :=
    match c.rows with
    | [] => .error invalid
    | row :: _ => if SortedMap.before c.toKey (rowKey row) then .ok (rowKey row) else .error invalid
  value c _ columnIdx :=
    match c.rows with
    | [] => .error invalid
    | row :: _ =>
      if SortedMap.before c.toKey (rowKey row) then
        match row[columnIdx]? with
        | some value => .ok value
        | none => .error (.outOfRange "Column index out of range")
      else .error invalid

/-- The cursor reads the rows before its bound. -/
theorem reads (rows : List Row) (toKey : Option Key) (w : World) {projection : List Nat}
    (hwidth : ∀ row ∈ rows, ∀ i ∈ projection, i < row.length) :
    Reads projection (⟨rows, toKey⟩ : MockCursor) w
      (rows.takeWhile fun r => SortedMap.before toKey (rowKey r)) := by
  induction rows with
  | nil => exact Reads.done rfl
  | cons row rest ih =>
    cases hbefore : SortedMap.before toKey (rowKey row) with
    | false =>
      rw [List.takeWhile_cons, hbefore]
      exact Reads.done hbefore
    | true =>
      rw [List.takeWhile_cons, hbefore, if_pos rfl]
      refine Reads.row hbefore ?_ ?_ (ih fun r hr => hwidth r (List.mem_cons_of_mem row hr))
      · intro i hi
        have hlt := hwidth row List.mem_cons_self i hi
        simp [ICursor.value, hbefore, List.getElem?_eq_getElem hlt, cell,
          List.getD_eq_getElem?_getD]
      · simp [ICursor.next, hbefore]

end MockCursor

structure MockTable where
  schema : Schema
  data : MemTable

def tableDoesNotExist : Exception := .runtimeError "Table does not exist"

/-- What the cursors of the mock read beside their table: nothing. -/
def emptyWorld : World := ⟨0, MemTable.empty, none⟩

/-- `MockStorageEngine`; `tables_` is an unordered map. -/
def mockStorageEngine (tables : Bytes → Option MockTable) : IStorageEngine MockCursor where
  tableExists name := (tables name).isSome
  getTableSchema name :=
    match tables name with
    | none => .error tableDoesNotExist
    | some table => .ok table.schema
  get name key _ :=
    match tables name with
    | none => .error tableDoesNotExist
    | some table => .ok (MockCursor.create table.data (some key) (some (key + 1)), emptyWorld)
  scan name fromKey toKey _ _ _ :=
    match tables name with
    | none => .error tableDoesNotExist
    | some table => .ok (MockCursor.create table.data fromKey toKey, emptyWorld)

/-- A cursor over `[fromKey, toKey)` reads the rows of that range. -/
private theorem reads_create (data : MemTable) (fromKey toKey : Option Key) {projection : List Nat}
    (hwidth : ∀ row ∈ data.rows, ∀ i ∈ projection, i < row.length) :
    Reads projection (MockCursor.create data fromKey toKey) emptyWorld
      (data.rows.filter fun r => KeyRange.contains ⟨fromKey, toKey⟩ (rowKey r)) := by
  have hsorted := data.sorted_rows
  have hdrop := (dropWhile_sorted (fun k => !SortedMap.atOrAfter fromKey k) hsorted (by
    intro a b hab hb
    exact SortedMap.not_atOrAfter_of_lt hab hb)).2
  have hrest : (data.rows.dropWhile fun r => !SortedMap.atOrAfter fromKey (rowKey r)).Pairwise
      fun a b => rowKey a < rowKey b := hsorted.sublist (List.dropWhile_sublist _)
  have htake := (dropWhile_sorted (SortedMap.before toKey) hrest
    fun a b => SortedMap.before_of_lt).1
  have hrows : (data.rows.dropWhile fun r => !SortedMap.atOrAfter fromKey (rowKey r)).takeWhile
      (fun r => SortedMap.before toKey (rowKey r)) =
      data.rows.filter fun r => KeyRange.contains ⟨fromKey, toKey⟩ (rowKey r) := by
    rw [htake, hdrop, List.filter_filter]
    apply List.filter_congr
    intro row _
    rw [KeyRange.contains_eq, Bool.not_not, Bool.and_comm]
  rw [← hrows]
  apply MockCursor.reads
  intro row hrow
  exact hwidth row ((List.dropWhile_sublist _).subset hrow)

/-- The mock serves a table of rows as wide as its schema, none of which has the
greatest key. -/
theorem servesTable_mock {tables : Bytes → Option MockTable} {name : Bytes} {table : MockTable}
    (htable : tables name = some table)
    (hwidth : ∀ row ∈ table.data.rows, row.length = table.schema.size)
    (hmax : ∀ row ∈ table.data.rows, rowKey row ≠ Int64.maxValue) :
    ServesTable (mockStorageEngine tables) name table.schema table.data.rows := by
  have hin : ∀ projection, validateProjection table.schema projection = .ok () →
      ∀ row ∈ table.data.rows, ∀ i ∈ projection, i < row.length := by
    intro projection hprojection row hrow i hi
    rw [hwidth row hrow]
    exact (validateProjection_ok hprojection).2 i hi
  constructor
  · intro key projection hprojection
    refine ⟨_, _, _, by simp only [mockStorageEngine, htable],
      reads_create table.data (some key) (some (key + 1)) (hin projection hprojection), ?_⟩
    apply List.Perm.of_eq
    apply List.filter_congr
    intro row hrow
    rw [Bool.eq_iff_iff, KeyRange.contains_iff, beq_iff_eq]
    constructor
    · rintro ⟨hge, hlt⟩
      have hge := hge key rfl
      have hlt := hlt (key + 1) rfl
      by_cases hkey : key = Int64.maxValue
      · exact absurd (le_antisymm (le_maxValue _) (hkey ▸ hge)) (hmax row hrow)
      · exact le_antisymm ((lt_add_one_iff key _ hkey).mp hlt) hge
    · rintro rfl
      refine ⟨fun f hf => by cases hf; exact le_rfl, fun t ht => ?_⟩
      cases ht
      exact (lt_add_one_iff _ _ (hmax row hrow)).mpr le_rfl
  · intro fromKey toKey projection order filter _ hprojection
    refine ⟨_, _, _, by simp only [mockStorageEngine, htable],
      reads_create table.data fromKey toKey (hin projection hprojection), List.Perm.refl _, ?_⟩
    intro _
    exact (table.data.sorted_rows.sublist List.filter_sublist).imp fun h => h.le

/-! ## A table of pairs -/

/-- `id INT64 PRIMARY KEY, v INT64`. -/
def pairSchema : Schema :=
  ⟨[⟨[105, 100], .int64, true, false⟩, ⟨[118], .int64, false, true⟩]⟩

theorem pairSchema_fromBuilder : pairSchema.FromBuilder :=
  ⟨[⟨[105, 100], .int64, true, false⟩, ⟨[118], .int64, false, true⟩], rfl⟩

def pairRow (pair : Int64 × Int64) : Row := [some (.int64 pair.1), some (.int64 pair.2)]

theorem validRow_pairRow (pair : Int64 × Int64) : ValidRow pairSchema (pairRow pair) :=
  validRow_of_validateRow pairSchema_fromBuilder.wellFormed rfl

/-- The name of the table of pairs, `t`. -/
def pairTable : Bytes := [116]

/-- The table after its rows were inserted. -/
def pairData (pairs : List (Int64 × Int64)) : MemTable :=
  (pairs.map pairRow).foldl MemTable.insert MemTable.empty

def pairTables (pairs : List (Int64 × Int64)) (name : Bytes) : Option MockTable :=
  if name = pairTable then some ⟨pairSchema, pairData pairs⟩ else none

/-- A mock engine with one table of pairs. -/
def pairEngine (pairs : List (Int64 × Int64)) : IStorageEngine MockCursor :=
  mockStorageEngine (pairTables pairs)

/-- Pairs in key order, none of them with the greatest key, are served as they are. -/
theorem servesTable_pairEngine {pairs : List (Int64 × Int64)}
    (hrows : (pairData pairs).rows = pairs.map pairRow)
    (hmax : (pairs.all fun pair => decide (pair.1 ≠ Int64.maxValue)) = true) :
    ServesTable (pairEngine pairs) pairTable pairSchema (pairs.map pairRow) := by
  have htable : pairTables pairs pairTable = some ⟨pairSchema, pairData pairs⟩ := if_pos rfl
  have hserves := servesTable_mock htable
  dsimp only at hserves
  rw [hrows] at hserves
  apply hserves
  · intro row hrow
    obtain ⟨pair, -, rfl⟩ := List.mem_map.mp hrow
    rfl
  · intro row hrow
    obtain ⟨pair, hpair, rfl⟩ := List.mem_map.mp hrow
    exact of_decide_eq_true (List.all_eq_true.mp hmax pair hpair)

end Htap.Executor
