import Htap.Tree.Draining
import Htap.Tree.Reading
import Htap.Tree.SkippingScan

/-!
The rows of a table, seen from outside. Every scan and every lookup of a table reads one
list of rows, whatever its range, projection, order and filter, and wherever the rows are.
-/

namespace Htap.Tree

open Storage SSTable Read Cursor Words

/-- A scan succeeds and yields these rows. -/
def ScanReads (tree : LSMTree) (range : KeyRange) (projection : List Nat) (order : ScanOrder)
    (filter : DataSkippingFilter) (rows : List Row) : Prop :=
  ∃ cursor tree', LSMStorageEngine.scan tree range.fromKey range.toKey projection order filter =
      .ok (cursor, tree') ∧
    Yields projection cursor tree'.world (rows.map (viewRow projection))

/-- A lookup succeeds and yields these rows. -/
def GetReads (tree : LSMTree) (key : Key) (projection : List Nat) (rows : List Row) : Prop :=
  ∃ cursor tree', LSMStorageEngine.get tree key projection = .ok (cursor, tree') ∧
    Yields projection cursor tree'.world (rows.map (viewRow projection))

/-- All reads of the tree are reads of `rows`. -/
structure Stores (tree : LSMTree) (rows : List Row) : Prop where
  valid : ∀ row ∈ rows, ValidRow tree.schema row
  scan : ∀ (range : KeyRange) (projection : List Nat) (order : ScanOrder), range.Ordered →
    validateProjection tree.schema projection = .ok () →
    ScanReads tree range projection order {} (arrange order (inRange range rows))
  skipping : ∀ (range : KeyRange) (projection : List Nat) (order : ScanOrder)
    (filter : DataSkippingFilter), range.Ordered → filter.Ordered → Numbers rows →
    validateProjection tree.schema projection = .ok () →
    ∃ found, Pruned filter.passes (arrange order (inRange range rows)) found ∧
      ScanReads tree range projection order filter found
  get : ∀ key projection, validateProjection tree.schema projection = .ok () →
    GetReads tree key projection (rows.filter fun row => rowKey row == key)

section

variable {built : Nat → Option Table} {tree : LSMTree}

/-- Sorted rows of distinct keys are in strict order. -/
theorem Invariant.strict_of_nodup (h : Invariant built tree)
    (hkeys : ((rowsOf built tree).map rowKey).Nodup) :
    ∀ info ∈ tree.registry.entries, StrictRows (builtRows built info) := by
  intro info hinfo
  have hsub : (builtRows built info).Sublist (rowsOf built tree) := by
    rw [rowsOf, List.flatMap_def]
    exact (List.sublist_flatten_of_mem (List.mem_map_of_mem hinfo)).trans
      (List.sublist_append_right _ _)
  have hdistinct := List.pairwise_map.mp (hkeys.sublist (hsub.map rowKey))
  exact (h.sorted_builtRows hinfo).imp₂ (fun a b hle hne => lt_of_le_of_ne hle hne) hdistinct

/-- A tree that keeps the invariant stores its rows. -/
theorem Invariant.stores (h : Invariant built tree) (hlevels : tree.registry.levelCount ≤ 2 ^ 32)
    (hstrict : ∀ info ∈ tree.registry.entries, StrictRows (builtRows built info)) :
    Stores tree (rowsOf built tree) := by
  constructor
  · exact fun row hrow => (h.rows_valid hrow).1
  · intro range projection order hordered hprojection
    obtain ⟨hnodup, hbound⟩ := validateProjection_ok hprojection
    obtain ⟨cursor, tree', hscan, hinvariant, hsame, hholds⟩ :=
      h.scan_spec hlevels hordered hnodup hbound empty_noFilter (Or.inr hstrict) order
    refine ⟨cursor, tree', ?_, hinvariant.yields hsame hbound hholds⟩
    rw [LSMStorageEngine.scan, hprojection]
    exact hscan
  · intro range projection order filter hordered hfilter hnumbers hprojection
    obtain ⟨hnodup, hbound⟩ := validateProjection_ok hprojection
    obtain ⟨cursor, tree', found, hscan, hinvariant, hsame, hholds, hpruned⟩ :=
      h.scan_skipping hlevels hordered hnodup hbound hfilter hnumbers (Or.inr hstrict) order
    refine ⟨arrange order found, Pruned.arrange hpruned order, cursor, tree', ?_,
      hinvariant.yields hsame hbound hholds⟩
    rw [LSMStorageEngine.scan, hprojection]
    exact hscan
  · intro key projection hprojection
    obtain ⟨hnodup, hbound⟩ := validateProjection_ok hprojection
    obtain ⟨cursor, tree', hscan, hinvariant, hsame, hholds⟩ := h.scan_spec hlevels
      (ordered_keyRange key) hnodup hbound empty_noFilter (Or.inr hstrict) .unordered
    have hrows : inRange (LSMStorageEngine.keyRange key) (rowsOf built tree) =
        (rowsOf built tree).filter fun row => rowKey row == key := by
      apply List.filter_congr
      intro row _
      rw [Bool.eq_iff_iff, contains_keyRange, beq_iff_eq]
    rw [arrange, hrows] at hholds
    refine ⟨cursor, tree', ?_, hinvariant.yields hsame hbound hholds⟩
    rw [LSMStorageEngine.get, hprojection]
    exact hscan

/-- A full scan yields all of them. -/
theorem Stores.full {rows : List Row} (h : Stores tree rows) (order : ScanOrder) :
    ScanYields tree none none order ((arrange order rows).map (viewAll tree.schema)) := by
  have hordered : KeyRange.full.Ordered := by
    intro f hf
    cases hf
  have hscan := h.scan KeyRange.full _ order hordered (validateProjection_range tree.schema)
  rwa [inRange_full] at hscan

/-- A tree stores one list of rows only. -/
theorem Stores.unique {rows rows' : List Row} (h : Stores tree rows) (h' : Stores tree rows') :
    rows' = rows := by
  have hviews := (h'.full .unordered).unique (h.full .unordered)
  have hcells := congrArg (List.map RowView.cells) hviews
  rwa [arrange, arrange, map_cells_viewAll fun row hrow => (h'.valid row hrow).length,
    map_cells_viewAll fun row hrow => (h.valid row hrow).length] at hcells

end

namespace Session

variable {built : Nat → Option Table} {s : Session}

/-- A session in which no key was inserted twice. -/
theorem Sound.stores (h : Sound built s) (hsub : (rowsOf built s.tree).Subperm s.inserted)
    (hkeys : (s.inserted.map rowKey).Nodup) :
    Stores s.tree (rowsOf built s.tree) ∧ ((rowsOf built s.tree).map rowKey).Nodup := by
  obtain ⟨some, hperm, hsome⟩ := hsub
  have hdistinct : ((rowsOf built s.tree).map rowKey).Nodup :=
    (hperm.map rowKey).nodup_iff.mp (hkeys.sublist (hsome.map rowKey))
  refine ⟨?_, hdistinct⟩
  exact h.invariant.stores h.levelCount_le (h.invariant.strict_of_nodup hdistinct)

end Session

end Htap.Tree
