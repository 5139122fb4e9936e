import Htap.Executor.PairTable
import Htap.Properties.RoundTrip

/-!
Data skipping loses no row and changes no result. A block is dropped when its statistics
rule out every row; the filter asks for less than WHERE does; and what the executor makes
of the rows it reads does not depend on rows that fail WHERE.
-/

namespace Htap.Properties

open Storage SSTable Read Cursor Words Executor Htap.Tree Htap.Tree.Session Htap.Parser

/-! ## One SSTable -/

/-- The cursor under the filter of the statement goes through rows of the range, through all of
them on which WHERE is true. -/
def RoundTrip.KeepsPassing (r : RoundTrip) (statement : BoundSelectStatement) : Prop :=
  r.Reads (buildDataSkippingFilter statement) (Pruned (holds statement) (inRange r.range r.rows))

/-- Pruning the blocks of an SSTable by its statistics leaves every row of the range on which
WHERE is true. Neither the rows nor the literals of WHERE may be NaN, which compares as equal to
every number and need not show in the statistics of its block. -/
theorem no_passing_row_is_skipped (r : RoundTrip) (h : r.Accepted) (hcount : r.Countable)
    (hio : Result.IoSucceeds r.build) (hnumbers : Numbers r.rows)
    (statement : BoundSelectStatement)
    (hliterals : (buildDataSkippingFilter statement).Ordered) : r.KeepsPassing statement := by
  obtain ⟨hnodup, hbound⟩ := validateProjection_ok h.projection
  apply h.reads hcount hio
  intro disk contents info metadataCache w hserves hcache
  have hskips : Skips r.schema r.options r.table (buildDataSkippingFilter statement) :=
    ⟨hserves.wellFormed, h.columns, by rwa [SSTableInput.table_rows], hliterals⟩
  have hstrict : StrictRows r.table.rows := by
    rw [SSTableInput.table_rows]
    exact h.ascending
  obtain ⟨cursor, metadataCache', w', found, hmake, hholds, hpruned⟩ := makeSSTableCursor_skipping
    hserves hskips hnodup hbound hcache (Or.inr hstrict : r.range.fromKey = none ∨ _)
  rw [SSTableInput.table_rows] at hpruned
  refine ⟨cursor, metadataCache', w', found, hmake, hholds, Pruned.holds hliterals ?_ hpruned⟩
  intro row hrow
  exact hnumbers row (List.mem_filter.mp hrow).1

/-- Two rows of the table of pairs, each a block of its own. -/
def pairRoundTrip : RoundTrip where
  layout := .column
  schema := pairSchema
  options := {}
  targets := ⟨1, 1, 1⟩
  rows := [pairRow (1, 10), pairRow (2, 20)]
  range := KeyRange.full
  projection := [0]

theorem pairRoundTrip_accepted : pairRoundTrip.Accepted where
  schema := pairSchema_fromBuilder
  columns := (by decide : pairSchema.size ≤ 65535)
  nonempty := List.cons_ne_nil _ _
  valid := by
    intro row hrow
    have hpairs : row ∈ ([(1, 10), (2, 20)] : List (Int64 × Int64)).map pairRow := hrow
    obtain ⟨pair, -, rfl⟩ := List.mem_map.mp hpairs
    rfl
  strings := storable_pairs [(1, 10), (2, 20)]
  ascending := by decide +kernel
  targets := (by decide : (BlockTargets.mk 1 1 1).Positive)
  options := (by decide : SparseIndexOptions.Accepted {})
  projection := rfl

theorem no_passing_row_is_skipped_pairs : pairRoundTrip.KeepsPassing boundSelectIdAbove :=
  no_passing_row_is_skipped pairRoundTrip pairRoundTrip_accepted
    (counted_tableOf _ _ _ (by decide)) (Result.IoSucceeds.of_isOk (by decide +kernel))
    (numbers_pairs [(1, 10), (2, 20)]) boundSelectIdAbove ordered_selectIdAbove

end Htap.Properties
