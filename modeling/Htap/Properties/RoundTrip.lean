import Htap.Cursor.Factory
import Htap.Read.SingleRows

/-!
An SSTable gives back what was written to it: the cursor of a built SSTable
yields the rows of the requested key range with the projected cells.
-/

namespace Htap.Properties

open Storage SSTable Read Cursor Words

/-- Reading a cursor to its end; no cursor stands for no rows. -/
def YieldsOption (projection : List Nat) (cursor : Option ScanCursor) (w : World)
    (views : List RowView) : Prop :=
  match cursor with
  | none => views = []
  | some c => Yields projection c w views

/-- Rows for an SSTable, and how it is to be built. -/
structure SSTableInput where
  layout : SSTLayout
  schema : Schema
  options : SparseIndexOptions
  targets : BlockTargets
  rows : List Row

namespace SSTableInput

/-- The SSTable that the builders make of it. -/
def table (r : SSTableInput) : Table := tableOf r.layout r.schema r.targets r.rows

def build (r : SSTableInput) : Result (SSTableBuildResult × SSTableFiles) :=
  buildSSTable r.layout r.schema r.options r.targets r.rows

/-- Block and row counters are 32 bits wide, and the size of a column block's
NULL bitmap is computed in 32 bits. -/
def Countable (r : SSTableInput) : Prop := r.table.Counted

/-- The registry entry made from the build's result. -/
def info (r : SSTableInput) (result : SSTableBuildResult) (files : SSTableFiles) (id level : Nat)
    (path : Bytes) : SSTableInfo where
  id := id
  path := path
  level := level
  minKey := result.minKey
  maxKey := result.maxKey
  fileSizeBytes := files.sizeBytes
  numBlocks := result.numBlocks
  layout := r.layout.code

@[simp] theorem table_rows (r : SSTableInput) : r.table.rows = r.rows :=
  tableOf_rows r.layout r.schema r.targets r.rows

end SSTableInput

/-- Rows that are written to an SSTable, and what is read back of them. -/
structure RoundTrip extends SSTableInput where
  range : KeyRange
  projection : List Nat

namespace RoundTrip

/-- What a memtable flush and a validated scan supply. -/
structure Accepted (r : RoundTrip) : Prop where
  schema : r.schema.FromBuilder
  columns : r.schema.size ≤ 65535
  nonempty : r.rows ≠ []
  valid : ∀ row ∈ r.rows, validateRow r.schema row = .ok ()
  strings : ∀ row ∈ r.rows, StorableRow row
  ascending : StrictRows r.rows
  targets : r.targets.Positive
  options : r.options.Accepted
  projection : validateProjection r.schema r.projection = .ok ()

/-- The build succeeds, and whatever block cache holding true blocks is used,
the cursor made under the filter yields rows that are as expected. -/
def Reads (r : RoundTrip) (filter : DataSkippingFilter) (expected : List Row → Prop) : Prop :=
  ∃ result files, r.build = .ok (result, files) ∧
    ∀ (disk : Disk) (id level : Nat) (path : Bytes) (contents : CacheKey → Option Bytes)
      (w : World),
      disk.sstables path = some files →
      (∀ key, key.sstableId = id → contents key = r.table.contents key) →
      CacheCoherent contents w.blockCache →
      ∃ metadataCache cursor metadataCache' w' found,
        SSTableMetadataCache.create disk (r.info result files id level path) (u32 r.schema.size) =
          .ok metadataCache ∧
        makeSSTableCursor disk (r.info result files id level path) metadataCache r.range
          r.schema.types r.projection filter w = .ok (cursor, metadataCache', w') ∧
        expected found ∧ YieldsOption r.projection cursor w' (found.map (viewRow r.projection))

/-- Without a filter the cursor yields the rows of the range. -/
def GivesBack (r : RoundTrip) : Prop :=
  r.Reads {} fun found => found = inRange r.range r.rows

theorem Accepted.buildable {r : RoundTrip} (h : r.Accepted) (hcount : r.Countable) :
    Buildable r.layout r.schema r.targets r.rows where
  keyed := h.schema.wellFormed
  narrow := fun _ => by
    have := h.columns
    omega
  nonempty := h.nonempty
  valid := fun row hrow => validRow_of_validateRow h.schema.wellFormed (h.valid row hrow)
  storable := h.strings
  sorted := h.ascending.sorted
  counted := hcount

theorem yieldsOption_of_holds {schema : Schema} {projection : List Nat}
    {contents : CacheKey → Option Bytes} (hbound : ∀ i ∈ projection, i < schema.size)
    {cursor : Option ScanCursor} {w : World} {rows : List Row}
    (hcache : CacheCoherent contents w.blockCache)
    (h : HoldsOption schema projection contents w cursor rows) :
    YieldsOption projection cursor w (rows.map (viewRow projection)) := by
  cases cursor with
  | none =>
    have hrows : rows = [] := h
    rw [hrows]
    exact List.map_nil
  | some c => exact (ScanCursor.model hbound contents).yields hcache h

/-- What a cursor over a metadata cache that serves the SSTable holds is read back. -/
theorem Accepted.reads {r : RoundTrip} (h : r.Accepted) (hcount : r.Countable)
    (hio : Result.IoSucceeds r.build) {filter : DataSkippingFilter} {expected : List Row → Prop}
    (hmade : ∀ {disk : Disk} {contents : CacheKey → Option Bytes} {info : SSTableInfo}
      {metadataCache : SSTableMetadataCache} {w : World},
      Serves r.schema r.options disk contents r.table info metadataCache →
      CacheCoherent contents w.blockCache → ∃ cursor metadataCache' w' found,
        makeSSTableCursor disk info metadataCache r.range r.schema.types r.projection filter w =
          .ok (cursor, metadataCache', w') ∧
        HoldsOption r.schema r.projection contents w' cursor found ∧ expected found) :
    r.Reads filter expected := by
  have hbuildable := h.buildable hcount
  have hbuild := (buildSSTable_returns hbuildable h.options h.targets).eq_ok hio
  obtain ⟨-, -, hwf⟩ := of_buildSSTable hbuildable h.options h.targets hbuild
  obtain ⟨hnodup, hbound⟩ := validateProjection_ok h.projection
  refine ⟨_, _, hbuild, ?_⟩
  intro disk id level path contents w hdisk hcontents hcache
  have hdescribes : r.table.Describes (r.info (buildResult r.table.blocks)
      (r.table.files r.schema r.options) id level path) := ⟨rfl, rfl, rfl, rfl⟩
  obtain ⟨metadataCache, hcreate, hserves⟩ := serves_create hwf hdescribes hdisk hcontents
  obtain ⟨cursor, metadataCache', w', found, hmake, hholds, hfound⟩ := hmade hserves hcache
  obtain ⟨-, hcache', -⟩ := makeSSTableCursor_of_ok hserves hnodup hbound hcache hmake
  exact ⟨metadataCache, cursor, metadataCache', w', found, hcreate, hmake, hfound,
    yieldsOption_of_holds hbound hcache' hholds⟩

end RoundTrip

/-- Rows written to an SSTable come back from its cursor, as long as the formats can count its
blocks and the rows of each, and no file operation of the build fails. The block cache may hold
anything that is true of the SSTables. -/
theorem sstable_gives_back (r : RoundTrip) (h : r.Accepted) (hcount : r.Countable)
    (hio : Result.IoSucceeds r.build) : r.GivesBack := by
  obtain ⟨hnodup, hbound⟩ := validateProjection_ok h.projection
  apply h.reads hcount hio
  intro disk contents info metadataCache w hserves hcache
  have hstrict : StrictRows r.table.rows := by
    rw [SSTableInput.table_rows]
    exact h.ascending
  have hempty : DataSkippingFilter.empty {} = true := rfl
  obtain ⟨cursor, metadataCache', w', hmake, hholds⟩ := makeSSTableCursor_spec hserves hnodup
    hbound hcache hempty (Or.inr hstrict : r.range.fromKey = none ∨ _)
  rw [SSTableInput.table_rows] at hholds
  exact ⟨cursor, metadataCache', w', _, hmake, hholds, rfl⟩

/-- Two rows, one of them with a NULL, in a COLUMN SSTable. -/
def smallRoundTrip : RoundTrip where
  layout := .column
  schema := ⟨[{ name := [107], type := .int64, isKey := true, nullable := false },
    { name := [118], type := .string }]⟩
  options := {}
  targets := ⟨1, 1, 1⟩
  rows := [[some (.int64 1), none], [some (.int64 2), some (.string [104, 105])]]
  range := ⟨some 1, some 2⟩
  projection := [1]

theorem smallRoundTrip_gives_back : smallRoundTrip.GivesBack :=
  sstable_gives_back smallRoundTrip
    { schema := ⟨[⟨[107], .int64, true, false⟩, ⟨[118], .string, false, true⟩], rfl⟩
      columns := by decide
      nonempty := by decide
      valid := by decide +kernel
      strings := by
        intro row hrow value hvalue s hs
        simp only [smallRoundTrip, List.mem_cons, List.not_mem_nil, or_false] at hrow
        rcases hrow with rfl | rfl <;> simp at hvalue <;> rcases hvalue with rfl | rfl <;> cases hs
        decide
      ascending := by decide +kernel
      targets := by decide
      options := by decide
      projection := by decide +kernel }
    (counted_tableOf _ _ _ (by decide))
    (Result.IoSucceeds.of_isOk (by decide +kernel))

/-! ## More blocks than a counter counts -/

/-- A table of nothing but keys. -/
def keySchema : Schema :=
  ⟨[{ name := [107], type := .int64, isKey := true, nullable := false }]⟩

def keyRow (i : Nat) : Row := [some (.int64 (Int64.ofNat i))]

def keyRows (count : Nat) : List Row := (List.range count).map keyRow

theorem keySchema_fromBuilder : keySchema.FromBuilder := ⟨[⟨[107], .int64, true, false⟩], rfl⟩

@[simp] theorem length_keyRows (count : Nat) : (keyRows count).length = count := by
  simp [keyRows]

theorem validateRow_keyRow (i : Nat) : validateRow keySchema (keyRow i) = .ok () := rfl

theorem storableRow_keyRow (i : Nat) : StorableRow (keyRow i) := by
  intro value hvalue s hs
  rw [List.mem_singleton.mp hvalue] at hs
  cases hs

theorem strictRows_keyRows {count : Nat} (h : count ≤ 2 ^ 63) : StrictRows (keyRows count) :=
  strictRows_numbered (fun _ => rfl) h

theorem validRow_keyRow (i : Nat) : ValidRow keySchema (keyRow i) :=
  validRow_of_validateRow keySchema_fromBuilder.wellFormed (validateRow_keyRow i)

theorem valid_keyRows (count : Nat) : ∀ row ∈ keyRows count, ValidRow keySchema row := by
  intro row hrow
  obtain ⟨i, -, rfl⟩ := List.mem_map.mp hrow
  exact validRow_keyRow i

theorem blocks_keyRows (schema : Schema) (count : Nat) :
    (tableOf .row schema ⟨1, 1, 1⟩ (keyRows count)).blocks =
      (keyRows count).map fun row => [row] := split_rowBlockFull_one _

private theorem short_keyRows (count : Nat) :
    ∀ row ∈ keyRows count, (rowBytes row).length ≤ 2 ^ 16 := by
  intro row hrow
  obtain ⟨i, -, rfl⟩ := List.mem_map.mp hrow
  simp [rowBytes, keyRow, Bitmap.byteCount, Bitmap.mark]

theorem fit_keyRows (options : SparseIndexOptions) {count : Nat} (h : count ≤ 2 ^ 40) :
    (rowSSTable keySchema options ((keyRows count).map fun row => [row])).Fit :=
  fit_singletons options (valid_keyRows count) (by decide) (short_keyRows count)
    (by rwa [length_keyRows])

/-- An SSTable of single-row blocks. -/
def keyRoundTrip (count : Nat) : RoundTrip where
  layout := .row
  schema := keySchema
  options := {}
  targets := ⟨1, 1, 1⟩
  rows := keyRows count
  range := KeyRange.full
  projection := []

theorem keyRoundTrip_accepted {count : Nat} (hpos : 0 < count) (hcount : count ≤ 2 ^ 40) :
    (keyRoundTrip count).Accepted where
  schema := keySchema_fromBuilder
  columns := (by decide : keySchema.size ≤ 65535)
  nonempty := List.ne_nil_of_length_pos (by rwa [keyRoundTrip, length_keyRows])
  valid := by
    intro row hrow
    obtain ⟨i, -, rfl⟩ := List.mem_map.mp hrow
    exact validateRow_keyRow i
  strings := by
    intro row hrow
    obtain ⟨i, -, rfl⟩ := List.mem_map.mp hrow
    exact storableRow_keyRow i
  ascending := strictRows_keyRows (by omega)
  targets := (by decide : (BlockTargets.mk 1 1 1).Positive)
  options := (by decide : SparseIndexOptions.Accepted {})
  projection := rfl

theorem keyRoundTrip_build {count : Nat} (hpos : 0 < count) (hcount : count ≤ 2 ^ 40) :
    (keyRoundTrip count).build =
      .ok (buildResult ((keyRows count).map fun row => [row]),
        rowSSTable keySchema {} ((keyRows count).map fun row => [row])) := by
  have h := keyRoundTrip_accepted hpos hcount
  have hlength : (keyRows count).length ≤ 2 ^ 40 := by rwa [length_keyRows]
  exact buildRowSSTable_singletons h.options h.nonempty (valid_keyRows count) h.ascending.sorted
    h.columns (short_keyRows count) hlength

/-- When the block counter is back at 0, a reader takes the SSTable for empty. -/
theorem keyRoundTrip_loses_rows {count : Nat} (hpos : 0 < count) (hcount : count ≤ 2 ^ 40)
    (hwrap : u32 count = 0) : ¬ (keyRoundTrip count).GivesBack := by
  rintro ⟨result, files, hok, hread⟩
  rw [keyRoundTrip_build hpos hcount, Except.ok.injEq, Prod.mk.injEq] at hok
  obtain ⟨rfl, rfl⟩ := hok
  obtain ⟨metadataCache, cursor, metadataCache', w', found, hcreate, hmake, rfl, hyields⟩ :=
    hread ⟨fun _ => some _, none⟩ 0 0 [] _ ⟨0, MemTable.empty, none⟩ rfl (fun _ _ => rfl)
      (by simp [CacheCoherent])
  have hblocks : u32 ((keyRows count).map fun row => [row]).length = 0 := by
    rw [List.length_map, length_keyRows, hwrap]
  have hnone : cursor = none := by
    unfold makeSSTableCursor at hmake
    simp only [SSTableReader.open, Result.ok_bind, SSTableInput.info, buildResult, hblocks,
      selectMetadataRange, if_true, Result.pure_eq] at hmake
    cases hmake
    rfl
  rw [hnone] at hyields
  have hrows : (inRange (keyRoundTrip count).range (keyRoundTrip count).rows).map
      (viewRow (keyRoundTrip count).projection) = [] := hyields
  rw [show (keyRoundTrip count).range = KeyRange.full from rfl, inRange_full,
    List.map_eq_nil_iff] at hrows
  exact (keyRoundTrip_accepted hpos hcount).nonempty hrows

theorem not_every_sstable_gives_back :
    ¬ ∀ r : RoundTrip, r.Accepted → Result.IoSucceeds r.build → r.GivesBack := by
  intro hclaim
  have hpos : 0 < 2 ^ 32 := by norm_num
  have hcount : 2 ^ 32 ≤ 2 ^ 40 := by norm_num
  refine keyRoundTrip_loses_rows hpos hcount rfl
    (hclaim _ (keyRoundTrip_accepted hpos hcount) ?_)
  rw [keyRoundTrip_build hpos hcount]
  exact Result.IoSucceeds.of_isOk rfl

end Htap.Properties
