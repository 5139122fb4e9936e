import Htap.Basis.Pruning
import Htap.Read.MetadataPages
import Htap.Read.Statistics
import Htap.Read.Table

/-!
Data skipping drops no block with a row that passes the filter. A predicate compares a
column with a literal; the least and the greatest value of a block tell whether some row
of it may pass.
-/

namespace Htap.Read

open Storage SSTable ByteFormat Words

/-! ## Predicates on values and on bounds -/

namespace NumericComparisonOp

variable {κ : Type} [LinearOrder κ]

/-- A value compared with a literal. -/
def relates (op : NumericComparisonOp) (value literal : κ) : Bool :=
  match op with
  | .equal => decide (value = literal)
  | .less => decide (value < literal)
  | .lessEqual => decide (value ≤ literal)
  | .greater => decide (literal < value)
  | .greaterEqual => decide (literal ≤ value)

/-- Whether a value between two bounds may compare so. -/
def mayRelate (op : NumericComparisonOp) (low high literal : κ) : Bool :=
  match op with
  | .equal => !(decide (literal < low) || decide (high < literal))
  | .less => decide (low < literal)
  | .lessEqual => decide (low ≤ literal)
  | .greater => decide (literal < high)
  | .greaterEqual => decide (literal ≤ high)

theorem mayRelate_of_relates {op : NumericComparisonOp} {low high value literal : κ}
    (hlow : low ≤ value) (hhigh : value ≤ high) (h : op.relates value literal = true) :
    op.mayRelate low high literal = true := by
  cases op with
  | equal =>
    obtain rfl : value = literal := of_decide_eq_true h
    simp [mayRelate, hlow, hhigh]
  | less => exact decide_eq_true (hlow.trans_lt (of_decide_eq_true h))
  | lessEqual => exact decide_eq_true (hlow.trans (of_decide_eq_true h))
  | greater => exact decide_eq_true ((of_decide_eq_true h).trans_le hhigh)
  | greaterEqual => exact decide_eq_true ((of_decide_eq_true h).trans hhigh)

end NumericComparisonOp

/-- A predicate on a cell. An INT64 meets a DOUBLE as a double. -/
def NumericColumnPredicate.passes (predicate : NumericColumnPredicate) (cell : NullableValue) :
    Bool :=
  match cell, predicate.value with
  | some (.int64 value), .int64 literal => predicate.op.relates value literal
  | some (.int64 value), .double literal =>
    predicate.op.relates (Binary64.ofInt64 value).rank literal.rank
  | some (.double value), literal =>
    predicate.op.relates value.rank (numericValueAsDouble literal).rank
  | _, _ => false

namespace DataSkippingFilter

/-- All predicates pass on the row. -/
def passes (filter : DataSkippingFilter) (row : Row) : Bool :=
  filter.predicates.all fun predicate => predicate.passes (cell row predicate.columnIdx)

/-- No literal of a predicate is NaN. -/
def Ordered (filter : DataSkippingFilter) : Prop :=
  ∀ predicate ∈ filter.predicates, (numericValueAsDouble predicate.value).isNaN = false

end DataSkippingFilter

/-! ## The bounds of a block -/

/-- The double branch of the interval test. -/
private theorem test_doubles {op : NumericComparisonOp} {low high literal : Binary64}
    (hlow : low.isNaN = false) (hhigh : high.isNaN = false) (hliteral : literal.isNaN = false) :
    (match op with
      | .equal => !(Binary64.lt literal low || Binary64.lt high literal)
      | .greater => Binary64.lt literal high
      | .greaterEqual => Binary64.le literal high
      | .less => Binary64.lt low literal
      | .lessEqual => Binary64.le low literal) = op.mayRelate low.rank high.rank literal.rank := by
  cases op <;>
    simp [NumericComparisonOp.mayRelate, Binary64.lt, Binary64.le, hlow, hhigh, hliteral]

/-- The bounds of a block with a cell that passes let the predicate through. -/
theorem blockMaySatisfyPredicate_of_passes {stats : NumericBlockStats}
    {predicate : NumericColumnPredicate} {cell : NullableValue} (htyped : stats.Typed)
    (hcovers : stats.Covers cell)
    (hliteral : (numericValueAsDouble predicate.value).isNaN = false)
    (h : predicate.passes cell = true) : blockMaySatisfyPredicate stats predicate = true := by
  obtain ⟨columnIdx, type, hasValue, minValue, maxValue⟩ := stats
  obtain ⟨columnIdx', op, literal⟩ := predicate
  obtain ⟨hnumeric, hmin, hmax⟩ := htyped
  simp only at hnumeric hmin hmax hliteral
  cases cell with
  | none => cases h
  | some v =>
    obtain ⟨rfl, hbounds⟩ : hasValue = true ∧ _ := hcovers v rfl
    cases v with
    | string _ => cases h
    | int64 value =>
      cases minValue with
      | double _ => cases hbounds
      | int64 low =>
        cases maxValue with
        | double _ => cases hbounds
        | int64 high =>
          subst hmin
          obtain ⟨hlow, hhigh⟩ : low ≤ value ∧ value ≤ high := hbounds
          cases literal with
          | int64 literal =>
            have hmay := NumericComparisonOp.mayRelate_of_relates hlow hhigh h
            cases op <;> exact hmay
          | double literal =>
            have hmay := NumericComparisonOp.mayRelate_of_relates
              (Binary64.rank_ofInt64_mono hlow) (Binary64.rank_ofInt64_mono hhigh) h
            exact (test_doubles (Binary64.isNaN_ofInt64 low) (Binary64.isNaN_ofInt64 high)
              hliteral).trans hmay
    | double value =>
      cases minValue with
      | int64 _ => cases hbounds
      | double low =>
        cases maxValue with
        | int64 _ => cases hbounds
        | double high =>
          subst hmin
          obtain ⟨hlowNaN, hhighNaN, hlow, hhigh⟩ : low.isNaN = false ∧ high.isNaN = false ∧
            low.rank ≤ value.rank ∧ value.rank ≤ high.rank := hbounds
          have hmay := NumericComparisonOp.mayRelate_of_relates hlow hhigh h
          exact (test_doubles hlowNaN hhighNaN hliteral).trans hmay

/-! ## The statistics of a range of blocks -/

section Statistics

variable {schema : Schema} {blocks : List (List Row)} {first count : Nat}
  {stats : NumericStatsRange} {filter : DataSkippingFilter}

/-- What the reader found out about some blocks. -/
structure StatsOf (schema : Schema) (blocks : List (List Row)) (first count : Nat)
    (requested : List Nat) (stats : NumericStatsRange) : Prop where
  firstBlockId : stats.firstBlockId = first
  blockCount : stats.blockCount = count
  column : ∀ columnIdx, stats.column columnIdx =
    if columnIdx ∈ requested then
      ((statsColumns schema).find? fun c => c.1 == columnIdx).map fun column =>
        ((blocks.drop first).take count).map fun rows => columnStats rows column
    else none

private theorem maySatisfyAll_of_passes {requested : List Nat}
    (hstats : StatsOf schema blocks first count requested stats) {i : Nat} {rows : List Row}
    (hrows : ((blocks.drop first).take count)[i]? = some rows)
    (hvalid : ∀ row ∈ rows, ValidRow schema row)
    (hnan : ∀ row ∈ rows, ∀ d, some (Value.double d) ∈ row → d.isNaN = false) {row : Row}
    (hrow : row ∈ rows) {predicates : List NumericColumnPredicate}
    (hliterals : ∀ p ∈ predicates, (numericValueAsDouble p.value).isNaN = false)
    (h : ∀ p ∈ predicates, p.passes (cell row p.columnIdx) = true) :
    maySatisfyAll i stats predicates = true := by
  induction predicates with
  | nil => rfl
  | cons p predicates ih =>
    have hrest := ih (fun q hq => hliterals q (List.mem_cons_of_mem p hq))
      fun q hq => h q (List.mem_cons_of_mem p hq)
    unfold maySatisfyAll
    cases hcolumn : stats.column p.columnIdx with
    | none => exact hrest
    | some columnStats =>
      rw [hstats.column] at hcolumn
      split at hcolumn
      · obtain ⟨column, hfind, rfl⟩ := Option.map_eq_some_iff.mp hcolumn
        have hmem := List.mem_of_find?_eq_some hfind
        have hidx : column.1 = p.columnIdx := by simpa using List.find?_some hfind
        have hcell : ∀ r ∈ rows, ∀ d, r.getD column.1 none = some (.double d) →
            d.isNaN = false := by
          intro r hr d hd
          apply hnan r hr
          rw [List.getD_eq_getElem?_getD] at hd
          cases hget : r[column.1]? with
          | none => rw [hget] at hd; cases hd
          | some c =>
            rw [hget, Option.getD_some] at hd
            exact hd ▸ List.mem_of_getElem? hget
        obtain ⟨htyped, -, -⟩ := typed_columnStats hmem hvalid
        obtain ⟨-, hcovers⟩ := covers_columnStats hmem hvalid hcell
        have hcovered := hcovers row hrow
        rw [hidx] at hcovered
        have hmay := blockMaySatisfyPredicate_of_passes htyped hcovered
          (hliterals p List.mem_cons_self) (h p List.mem_cons_self)
        dsimp only
        rw [List.getElem?_map, hrows, Option.map_some]
        dsimp only
        rw [if_pos hmay]
        exact hrest
      · cases hcolumn

/-- A block with a row that passes the filter is kept. -/
theorem maySatisfy_of_passes {requested : List Nat}
    (hstats : StatsOf schema blocks first count requested stats) (hliterals : filter.Ordered)
    {i : Nat} {rows : List Row} (hrows : blocks[i]? = some rows)
    (hvalid : ∀ row ∈ rows, ValidRow schema row)
    (hnan : ∀ row ∈ rows, ∀ d, some (Value.double d) ∈ row → d.isNaN = false) {row : Row}
    (hrow : row ∈ rows) (h : filter.passes row = true) : maySatisfy i stats filter = true := by
  unfold maySatisfy
  rw [hstats.firstBlockId, hstats.blockCount]
  split
  · rfl
  · rename_i hge
    dsimp only
    split
    · rfl
    · rename_i hlt
      apply maySatisfyAll_of_passes hstats _ hvalid hnan hrow hliterals
      · exact fun p hp => List.all_eq_true.mp h p hp
      · rw [List.getElem?_take, if_pos (not_le.mp hlt), List.getElem?_drop,
          Nat.add_sub_cancel' (not_lt.mp hge)]
        exact hrows

end Statistics

/-! ## Reading the statistics of an SSTable -/

section Table

variable {schema : Schema} {options : SparseIndexOptions} {t : Table}

/-- The statistics of more blocks than a counter counts still fit into a file. -/
theorem length_statsFileBytes_le {blocks : List (List Row)}
    (hvalid : ∀ rows ∈ blocks, ∀ row ∈ rows, ValidRow schema row) (hsize : schema.size ≤ 65535)
    (hblocks : blocks.length ≤ 2 ^ 40) :
    (statsFileBytes schema blocks).length ≤ maxFileSize := by
  have hcolumns : (statsColumns schema).length ≤ 65535 := by
    have hle : (statsColumns schema).length ≤ schema.size := by
      rw [statsColumns, List.length_map]
      exact (List.length_filter_le _ _).trans (by simp [Schema.size])
    exact hle.trans hsize
  have hentries : ∀ column ∈ statsColumns schema,
      (blocks.flatMap fun rows => statsEntryBytes (columnStats rows column)).length =
        blocks.length * numericStatsEntrySize := fun column hcolumn =>
    length_records blocks fun rows hrows => length_statsEntryBytes hcolumn (hvalid rows hrows)
  have hbody : ((statsColumns schema).flatMap fun column => blocks.flatMap fun rows =>
      statsEntryBytes (columnStats rows column)).length =
        (statsColumns schema).length * (blocks.length * numericStatsEntrySize) :=
    length_records _ hentries
  have hdescriptors : ∀ dataStart numBlocks, ((((statsColumns schema).take
      (u32 (statsColumns schema).length)).zipIdx.map fun c =>
        statsDescriptor dataStart numBlocks c.2 c.1).flatten).length ≤
          65535 * statsColumnDescriptorSize := by
    intro dataStart numBlocks
    rw [← List.flatMap_def, length_records _ fun c _ => length_statsDescriptor _ _ _ _,
      List.length_zipIdx, List.length_take]
    exact Nat.mul_le_mul_right _ ((Nat.min_le_right _ _).trans hcolumns)
  have hall := hdescriptors (statsHeaderSize + u32 (statsColumns schema).length *
    statsColumnDescriptorSize) (u32 blocks.length)
  have hproduct : (statsColumns schema).length * (blocks.length * numericStatsEntrySize) ≤
      65535 * (2 ^ 40 * numericStatsEntrySize) :=
    Nat.mul_le_mul hcolumns (Nat.mul_le_mul_right _ hblocks)
  rw [statsFileBytes]
  simp only [List.length_append, length_leBytes, hbody]
  simp only [statsColumnDescriptorSize, numericStatsEntrySize, maxFileSize] at *
  omega

theorem Table.stats_files (schema : Schema) (options : SparseIndexOptions) (t : Table) :
    (t.files schema options).stats = statsFileBytes schema t.blocks := by
  unfold Table.files
  split <;> rfl

/-- The metadata cache gives the statistics of the blocks, whatever it holds already. -/
theorem readNumericStatsRange_of_stats {blocks : List (List Row)} {files : SSTableFiles}
    (hstats : files.stats = statsFileBytes schema blocks)
    (hfits : files.stats.length ≤ maxFileSize)
    (hvalid : ∀ rows ∈ blocks, ∀ row ∈ rows, ValidRow schema row) (hsize : schema.size < 2 ^ 32)
    (hblocks : blocks.length < 2 ^ 32) {disk : Disk} {cache : SSTableMetadataCache}
    (hcoherent : cache.Coherent disk files) (hinfo : cache.info.numBlocks = blocks.length)
    {first count : Nat} (hpos : 0 < count) (hrange : first + count ≤ blocks.length)
    (requested : List Nat) :
    ∃ stats cache', cache.readNumericStatsRange disk first count requested = .ok (stats, cache') ∧
      StatsOf schema blocks first count requested stats ∧
      cache'.Coherent disk files ∧ SSTableMetadataCache.SameTable cache' cache := by
  have hlt : cache.info.numBlocks < 2 ^ 32 := hinfo ▸ hblocks
  have hload := loadNumericStatsIndex_eq
    ((statsFile_of_valid blocks hvalid).trans (congrArg Except.ok hstats.symm)) hfits
  obtain ⟨column, hreads⟩ := exists_statsColumns hload
  rw [List.length_map, u32_of_lt hblocks, ← hinfo] at hreads
  obtain ⟨stats, cache', hread, hdirect, hcoherent', hsame⟩ :=
    SSTableMetadataCache.readNumericStatsRange_of_reads hcoherent hreads hlt requested
      (by rw [hinfo]; exact hrange)
  obtain ⟨range, hrangeRead, hfirst, hcount, hcolumns⟩ := readNumericStatsRange_eq hstats hfits
    hvalid hsize hblocks hpos hrange requested
  rw [hdirect, Except.ok.injEq] at hrangeRead
  subst hrangeRead
  exact ⟨stats, cache', hread, ⟨hfirst, hcount, hcolumns⟩, hcoherent', hsame⟩

theorem Table.WellFormed.readNumericStatsRange (h : t.WellFormed schema options)
    (hsize : schema.size ≤ 65535) {disk : Disk} {cache : SSTableMetadataCache}
    (hcoherent : cache.Coherent disk (t.files schema options))
    (hinfo : cache.info.numBlocks = t.blocks.length) {first count : Nat} (hpos : 0 < count)
    (hrange : first + count ≤ t.blocks.length) (requested : List Nat) :
    ∃ stats cache', cache.readNumericStatsRange disk first count requested = .ok (stats, cache') ∧
      StatsOf schema t.blocks first count requested stats ∧
      cache'.Coherent disk (t.files schema options) ∧
      SSTableMetadataCache.SameTable cache' cache := by
  have hvalid : ∀ rows ∈ t.blocks, ∀ row ∈ rows, ValidRow schema row := fun rows hrows row hrow =>
    h.valid row (List.mem_flatten_of_mem hrows hrow)
  have hstats := t.stats_files schema options
  have hfits : (t.files schema options).stats.length ≤ maxFileSize := by
    rw [hstats]
    apply length_statsFileBytes_le hvalid hsize
    have hblocks := h.counted.blocks
    omega
  exact readNumericStatsRange_of_stats hstats hfits hvalid (by omega) h.counted.blocks hcoherent
    hinfo hpos hrange requested

end Table

end Htap.Read
