import Htap.Tree.Sound

/-!
What a reader gets from a table: the views of all columns that a scan or a lookup
yields when its cursor is read to the end at once.
-/

namespace Htap.Tree

open Storage SSTable Read Cursor Words

/-- A scan succeeds and yields these rows. -/
def ScanYields (tree : LSMTree) (fromKey toKey : Option Key) (order : ScanOrder)
    (views : List RowView) : Prop :=
  ∃ cursor tree', LSMStorageEngine.scan tree fromKey toKey (List.range tree.schema.size) order {} =
      .ok (cursor, tree') ∧
    Yields (List.range tree.schema.size) cursor tree'.world views

/-- A lookup succeeds and yields these rows. -/
def GetYields (tree : LSMTree) (key : Key) (views : List RowView) : Prop :=
  ∃ cursor tree', LSMStorageEngine.get tree key (List.range tree.schema.size) =
      .ok (cursor, tree') ∧
    Yields (List.range tree.schema.size) cursor tree'.world views

/-- All columns of a row. -/
def viewAll (schema : Schema) (row : Row) : RowView := viewRow (List.range schema.size) row

/-- Full scans of both trees yield the same rows, whatever their orders. -/
def SameFullScan (a b : LSMTree) : Prop :=
  ∀ order order', ∃ views views', ScanYields a none none order views ∧
    ScanYields b none none order' views' ∧ views'.Perm views

theorem ScanYields.unique {tree : LSMTree} {fromKey toKey : Option Key} {order : ScanOrder}
    {xs ys : List RowView} (hx : ScanYields tree fromKey toKey order xs)
    (hy : ScanYields tree fromKey toKey order ys) : xs = ys := by
  obtain ⟨c, tree', hscan, hyields⟩ := hx
  obtain ⟨c', tree'', hscan', hyields'⟩ := hy
  rw [hscan] at hscan'
  cases hscan'
  exact hyields.unique hyields'

/-- No cell of a row is missing from its view. -/
theorem cells_viewAll {schema : Schema} {row : Row} (h : row.length = schema.size) :
    (viewAll schema row).cells = row := by
  apply List.ext_getElem
  · simp [viewAll, viewRow, h]
  · intro i hi hrow
    simp [viewAll, viewRow, cell, hrow]

theorem map_cells_viewAll {schema : Schema} {rows : List Row}
    (h : ∀ row ∈ rows, row.length = schema.size) :
    (rows.map (viewAll schema)).map RowView.cells = rows := by
  rw [List.map_map]
  conv_rhs => rw [← List.map_id rows]
  apply List.map_congr_left
  intro row hrow
  exact cells_viewAll (h row hrow)

theorem validateProjection_range (schema : Schema) :
    validateProjection schema (List.range schema.size) = .ok () := by
  apply validateProjection_eq_ok.mpr
  constructor
  · exact List.nodup_range
  · intro i hi
    exact List.mem_range.mp hi

theorem empty_noFilter : ({} : DataSkippingFilter).empty = true := rfl

section

variable {built built' : Nat → Option Table} {tree tree' : LSMTree}

/-- A scan that may meet equal keys in one SSTable has no lower bound. -/
theorem Invariant.scanYields (h : Invariant built tree)
    (hlevels : tree.registry.levelCount ≤ 2 ^ 32) {range : KeyRange} (hordered : range.Ordered)
    (hrange : range.fromKey = none ∨
      ∀ info ∈ tree.registry.entries, StrictRows (builtRows built info)) (order : ScanOrder) :
    ScanYields tree range.fromKey range.toKey order
      ((arrange order (inRange range (rowsOf built tree))).map (viewAll tree.schema)) := by
  have hprojection := validateProjection_range tree.schema
  obtain ⟨hnodup, hbound⟩ := validateProjection_ok hprojection
  obtain ⟨cursor, tree', hscan, hinvariant, hsame, hholds⟩ :=
    h.scan_spec hlevels hordered hnodup hbound empty_noFilter hrange order
  refine ⟨cursor, tree', ?_, hinvariant.yields hsame hbound hholds⟩
  rw [LSMStorageEngine.scan, hprojection]
  exact hscan

theorem Invariant.scanYields_full (h : Invariant built tree)
    (hlevels : tree.registry.levelCount ≤ 2 ^ 32) (order : ScanOrder) :
    ScanYields tree none none order
      ((arrange order (rowsOf built tree)).map (viewAll tree.schema)) := by
  have hall : inRange KeyRange.full (rowsOf built tree) = rowsOf built tree := by
    apply List.filter_eq_self.mpr
    intro row _
    exact KeyRange.contains_full _
  have hordered : KeyRange.full.Ordered := by
    intro f hf
    cases hf
  have hyields := h.scanYields hlevels hordered (Or.inl rfl) order
  rw [hall] at hyields
  exact hyields

/-- The range of a lookup holds its key, and no other. -/
theorem contains_keyRange (key other : Key) :
    (LSMStorageEngine.keyRange key).contains other = true ↔ other = key := by
  rw [KeyRange.contains_iff]
  by_cases hmax : key = Int64.maxValue
  · constructor
    · rintro ⟨hfrom, -⟩
      have hle : key ≤ other := hfrom key rfl
      exact le_antisymm (hmax ▸ le_maxValue other) hle
    · rintro rfl
      rw [LSMStorageEngine.keyRange, if_neg (not_not.mpr hmax)]
      simp
  · rw [LSMStorageEngine.keyRange, if_pos hmax]
    simp only [Option.mem_some_iff, forall_eq', lt_add_one_iff key other hmax]
    constructor
    · rintro ⟨hge, hle⟩
      exact le_antisymm hle hge
    · rintro rfl
      exact ⟨le_rfl, le_rfl⟩

theorem ordered_keyRange (key : Key) : (LSMStorageEngine.keyRange key).Ordered := by
  intro f hf upper hupper
  cases hf
  by_cases hmax : key = Int64.maxValue
  · rw [LSMStorageEngine.keyRange, if_neg (not_not.mpr hmax)] at hupper
    cases hupper
  · rw [LSMStorageEngine.keyRange, if_pos hmax] at hupper
    cases hupper
    exact ((lt_add_one_iff key key hmax).mpr le_rfl).le

theorem Invariant.getYields (h : Invariant built tree)
    (hlevels : tree.registry.levelCount ≤ 2 ^ 32)
    (hstrict : ∀ info ∈ tree.registry.entries, StrictRows (builtRows built info)) (key : Key) :
    GetYields tree key
      (((rowsOf built tree).filter fun row => decide (rowKey row = key)).map
        (viewAll tree.schema)) := by
  have hprojection := validateProjection_range tree.schema
  obtain ⟨hnodup, hbound⟩ := validateProjection_ok hprojection
  obtain ⟨cursor, tree', hscan, hinvariant, hsame, hholds⟩ :=
    h.scan_spec hlevels (ordered_keyRange key) hnodup hbound empty_noFilter (Or.inr hstrict)
      .unordered
  have hrows : inRange (LSMStorageEngine.keyRange key) (rowsOf built tree) =
      (rowsOf built tree).filter fun row => decide (rowKey row = key) := by
    apply List.filter_congr
    intro row _
    rw [Bool.eq_iff_iff, contains_keyRange, decide_eq_true_eq]
  rw [arrange, hrows] at hholds
  refine ⟨cursor, tree', ?_, hinvariant.yields hsame hbound hholds⟩
  rw [LSMStorageEngine.get, hprojection]
  exact hscan

/-- Full scans compare as the rows of the trees do. -/
theorem sameFullScan_iff (h : Invariant built tree) (h' : Invariant built' tree')
    (hlevels : tree.registry.levelCount ≤ 2 ^ 32) (hlevels' : tree'.registry.levelCount ≤ 2 ^ 32)
    (hschema : tree'.schema = tree.schema) :
    SameFullScan tree tree' ↔ (rowsOf built' tree').Perm (rowsOf built tree) := by
  have hwidth : ∀ row ∈ rowsOf built tree, row.length = tree.schema.size :=
    fun row hrow => (h.rows_valid hrow).1.length
  have hwidth' : ∀ row ∈ rowsOf built' tree', row.length = tree.schema.size := by
    intro row hrow
    rw [← hschema]
    exact (h'.rows_valid hrow).1.length
  constructor
  · intro hsame
    obtain ⟨views, views', hviews, hviews', hperm⟩ := hsame .unordered .unordered
    rw [hviews.unique (h.scanYields_full hlevels .unordered),
      hviews'.unique (h'.scanYields_full hlevels' .unordered), hschema] at hperm
    have hcells := hperm.map RowView.cells
    rwa [arrange, arrange, map_cells_viewAll hwidth, map_cells_viewAll hwidth'] at hcells
  · intro hperm order order'
    refine ⟨_, _, h.scanYields_full hlevels order, h'.scanYields_full hlevels' order', ?_⟩
    rw [hschema]
    apply List.Perm.map
    exact (arrange_perm order' _).trans (hperm.trans (arrange_perm order _).symm)

end

end Htap.Tree
