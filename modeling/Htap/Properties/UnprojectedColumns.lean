import Htap.Cursor.Unprojected
import Htap.Tree.Scan

/-!
Reading a column outside of the projection at any position of a scan. `ICursor` demands an
error; only the rows of COLUMN SSTables give one.
-/

namespace Htap.Properties

open Storage SSTable Read Cursor Htap.Tree

/-- A cursor moved on any number of times, with the world it reads. -/
def ReadsOn : ComposedCursor ScanCursor × World → ComposedCursor ScanCursor × World → Prop :=
  Relation.ReflTransGen fun here there => ICursor.next here.1 here.2 = .ok there

section

variable {tree tree' : LSMTree} {range : KeyRange} {projection : List Nat}
  {filter : DataSkippingFilter} {i : Nat}

/-! ## Opening a scan -/

private theorem hides_makeSSTableCursor {disk : Disk} {info : SSTableInfo}
    {metadataCache metadataCache' : SSTableMetadataCache} {schema : List ValueType}
    {w w' : World} {c : ScanCursor} (hcolumn : i < schema.length) (hkey : i ≠ keyColumnIndex)
    (hunprojected : i ∉ projection)
    (h : makeSSTableCursor disk info metadataCache range schema projection filter w =
      .ok (some c, metadataCache', w')) : c.Hides schema.length i := by
  obtain ⟨reader, -, h⟩ := Result.bind_eq_ok.mp h
  obtain ⟨window, -, h⟩ := Result.bind_eq_ok.mp h
  split at h
  · cases h
  split at h
  · obtain ⟨⟨blocks, cache⟩, -, h⟩ := Result.bind_eq_ok.mp h
    dsimp only at h
    split at h
    · cases h
    · obtain ⟨⟨cursor, blockCache⟩, hcreate, h⟩ := Result.bind_eq_ok.mp h
      cases h
      obtain ⟨hschema, hmask, hnulls⟩ :=
        SSTableRowCursor.create_unprojected hcolumn hkey hunprojected hcreate
      exact ⟨congrArg List.length hschema, hmask, hnulls⟩
  split at h
  · obtain ⟨⟨blocks, cache⟩, -, h⟩ := Result.bind_eq_ok.mp h
    dsimp only at h
    split at h
    · cases h
    · obtain ⟨⟨cursor, blockCache⟩, hcreate, h⟩ := Result.bind_eq_ok.mp h
      cases h
      obtain ⟨hprojection, hempty⟩ :=
        SSTableColumnCursor.create_unprojected hunprojected hcreate
      exact ⟨hprojection.symm ▸ hunprojected, hempty⟩
  · cases h

/-- What has been opened so far hides the column, and only caches have changed. -/
private structure Opening (tree : LSMTree) (i : Nat) (cursors : List ScanCursor)
    (tree' : LSMTree) : Prop where
  same : SameData tree tree'
  hides : ∀ c ∈ cursors, c.Hides tree.schema.size i

private theorem Opening.scanSSTable {cursors cursors' : List ScanCursor} {next : LSMTree}
    (h : Opening tree i cursors tree') (hcolumn : i < tree.schema.size) (hkey : i ≠ keyColumnIndex)
    (hunprojected : i ∉ projection) {info : SSTableInfo}
    (hstep : LSMTree.scanSSTable range projection filter (cursors, tree') info =
      .ok (cursors', next)) : Opening tree i cursors' next := by
  obtain ⟨⟨cursor, opened⟩, hopen, hstep⟩ := Result.bind_eq_ok.mp hstep
  obtain ⟨metadataCache, -, hopen⟩ := Result.bind_eq_ok.mp hopen
  obtain ⟨⟨found, metadataCache', w⟩, hmake, hopen⟩ := Result.bind_eq_ok.mp hopen
  cases hopen
  have hsame := h.same.trans (c := { tree'.setMetadataCache info.id metadataCache' with
    blockCache := w.blockCache }) rfl
  cases cursor with
  | none =>
    cases hstep
    exact ⟨hsame, h.hides⟩
  | some cursor =>
    cases hstep
    refine ⟨hsame, ?_⟩
    have hschema : tree'.schema = tree.schema := by rw [h.same]
    have hnew : cursor.Hides tree.schema.size i := by
      rw [hschema] at hmake
      rw [← Schema.length_types] at hcolumn ⊢
      exact hides_makeSSTableCursor hcolumn hkey hunprojected hmake
    split
    · intro c hc
      rcases List.mem_append.mp hc with hold | hlast
      · exact h.hides c hold
      · rw [List.mem_singleton.mp hlast]
        exact hnew
    · exact h.hides

private theorem Opening.foldlM {infos : List SSTableInfo} {cursors cursors' : List ScanCursor}
    {next : LSMTree} (h : Opening tree i cursors tree') (hcolumn : i < tree.schema.size)
    (hkey : i ≠ keyColumnIndex) (hunprojected : i ∉ projection)
    (hfold : infos.foldlM (LSMTree.scanSSTable range projection filter) (cursors, tree') =
      .ok (cursors', next)) : Opening tree i cursors' next := by
  have hkept : ∀ (opened : List ScanCursor × LSMTree) (info : SSTableInfo)
      (next : List ScanCursor × LSMTree), Opening tree i opened.1 opened.2 →
      LSMTree.scanSSTable range projection filter opened info = .ok next →
      Opening tree i next.1 next.2 := by
    intro opened info next hopening hstep
    exact hopening.scanSSTable hcolumn hkey hunprojected hstep
  exact Result.foldlM_invariant (fun opened => Opening tree i opened.1 opened.2) hkept infos h hfold

private theorem hides_memtableCursors (hwidth : MemoryWidth tree) (range : KeyRange) (i : Nat) :
    ∀ c ∈ memtableCursors tree range, c.Hides tree.schema.size i := by
  intro c hc
  rcases List.mem_append.mp hc with hin | hin
  · unfold LSMTree.scanActive at hin
    dsimp only at hin
    split at hin
    · rw [List.mem_singleton.mp hin]
      trivial
    · cases hin
  · obtain ⟨imm, himm, hin⟩ := List.mem_flatMap.mp hin
    unfold LSMTree.scanImmutable at hin
    dsimp only at hin
    split at hin
    · rw [List.mem_singleton.mp hin]
      intro row hrow
      apply hwidth
      exact List.mem_append_right _ (List.mem_flatMap.mpr ⟨imm, himm, hrow⟩)
    · cases hin

/-! ## Reading on -/

/-- At a position of a scan all cursors hide the column, and the heap is that of their
keys. -/
private structure Stands (width i : Nat) (c : ComposedCursor ScanCursor) (w : World) : Prop where
  hides : ∀ leaf ∈ c.leaves, leaf.Hides width i
  active : ScanCursor.ActiveWidth width w
  keyed : c.Keyed w

private theorem stands_scan (hwidth : MemoryWidth tree) (hcolumn : i < tree.schema.size)
    (hkey : i ≠ keyColumnIndex) (hunprojected : i ∉ projection) {fromKey toKey : Option Key}
    {order : ScanOrder} {cursor : ComposedCursor ScanCursor}
    (hscan : LSMStorageEngine.scan tree fromKey toKey projection order filter =
      .ok (cursor, tree')) : Stands tree.schema.size i cursor tree'.world := by
  obtain ⟨⟨⟩, -, hscan⟩ := Result.bind_eq_ok.mp hscan
  obtain ⟨⟨cursors, last⟩, hfold, hscan⟩ := Result.bind_eq_ok.mp hscan
  obtain ⟨composed, hcompose, hscan⟩ := Result.bind_eq_ok.mp hscan
  cases hscan
  have hstart : Opening tree i (memtableCursors tree ⟨fromKey, toKey⟩) tree :=
    ⟨SameData.refl tree, hides_memtableCursors hwidth _ i⟩
  have hlast := hstart.foldlM hcolumn hkey hunprojected hfold
  refine ⟨?_, ?_, ComposedCursor.keyed_composeCursors hcompose⟩
  · intro leaf hleaf
    exact hlast.hides leaf (ComposedCursor.leaves_composeCursors hcompose leaf hleaf)
  · intro e he
    rw [hlast.same.sameMemory.2] at he
    exact hwidth e.2 (List.mem_append_left _ (List.mem_map_of_mem he))

private theorem Stands.next {width : Nat} {c c' : ComposedCursor ScanCursor} {w w' : World}
    (h : Stands width i c w) (hcolumn : i < width) (hkey : i ≠ keyColumnIndex)
    (hnext : ICursor.next c w = .ok (c', w')) : Stands width i c' w' := by
  have hstep : ∀ (leaf : ScanCursor) (w : World) (leaf' : ScanCursor) (w' : World),
      leaf.Hides width i → ScanCursor.ActiveWidth width w →
      ICursor.next leaf w = .ok (leaf', w') →
      leaf'.Hides width i ∧ ScanCursor.ActiveWidth width w' := by
    intro leaf w leaf' w' hleaf hw hmoved
    refine ⟨hleaf.next hcolumn hkey hmoved, ?_⟩
    rw [ScanCursor.ActiveWidth, (ScanCursor.next_sameMemory hmoved).2]
    exact hw
  have hkept := ComposedCursor.next_leaves hstep h.hides h.active hnext
  refine ⟨hkept.1, hkept.2, h.keyed.next ?_ ?_ hnext⟩
  · exact fun leaf leaf' w w' hstep => ScanCursor.next_sameMemory hstep
  · exact fun leaf w w' hsame => ScanCursor.key_of_sameMemory leaf hsame

private theorem Stands.readsOn {width : Nat} {here there : ComposedCursor ScanCursor × World}
    (h : Stands width i here.1 here.2) (hcolumn : i < width) (hkey : i ≠ keyColumnIndex)
    (hmoves : ReadsOn here there) : Stands width i there.1 there.2 := by
  induction hmoves with
  | refl => exact h
  | tail _ hnext ih => exact ih.next hcolumn hkey hnext

/-- Wherever a scan has a row, reading a column that is not projected throws exactly if the
row comes from a COLUMN SSTable. The key column is left out, which every cursor can give;
the position is any that calls of `next` come to, on any layer. -/
theorem unprojected_value_throws_iff {fromKey toKey : Option Key} {order : ScanOrder}
    {cursor c : ComposedCursor ScanCursor} {w : World} {k : Key} (hwidth : MemoryWidth tree)
    (hscan : LSMStorageEngine.scan tree fromKey toKey projection order filter =
      .ok (cursor, tree'))
    (hposition : ReadsOn (cursor, tree'.world) (c, w)) (hrow : ICursor.key c w = .ok k)
    (hcolumn : i < tree.schema.size) (hkey : i ≠ keyColumnIndex) (hunprojected : i ∉ projection) :
    (∃ e, ICursor.value c w i = .error e) ↔
      ∃ leaf, c.current = some leaf ∧ leaf.OfColumnSSTable := by
  have hopened := stands_scan hwidth hcolumn hkey hunprojected hscan
  have hstands : Stands tree.schema.size i c w := hopened.readsOn hcolumn hkey hposition
  obtain ⟨leaf, hleaf, hcurrent, hleafKey, hvalue⟩ :=
    ComposedCursor.exists_current hstands.keyed hrow
  rw [hvalue, (hstands.hides leaf hleaf).value_throws_iff hcolumn hkey hstands.active hleafKey]
  constructor
  · intro hlayer
    exact ⟨leaf, hcurrent, hlayer⟩
  · rintro ⟨other, hother, hlayer⟩
    rw [hcurrent] at hother
    cases hother
    exact hlayer

end

/-- A table of two columns with the row (5, 7) in its active memtable. -/
def twoColumnTree : LSMTree where
  schema := ⟨[⟨[105, 100], .int64, true, false⟩, ⟨[118], .int64, false, true⟩]⟩
  config := { rootPath := [47, 100] }
  memoryLayer :=
    ({ threshold := 10000 } : MemoryLayer).insert [some (.int64 5), some (.int64 7)]
  opened := ⟨fun _ => none, none⟩

/-- A scan of its key column stands on the row in the memtable. -/
private def keyColumnScan : ComposedCursor ScanCursor := .single (.activeMemTable ⟨0, some 5, none⟩)

private theorem twoColumnTree_width : MemoryWidth twoColumnTree := by
  intro row hrow
  have hrows : twoColumnTree.memoryLayer.rows = [[some (.int64 5), some (.int64 7)]] := rfl
  rw [hrows] at hrow
  rw [List.mem_singleton.mp hrow]
  rfl

private theorem twoColumnTree_scan :
    LSMStorageEngine.scan twoColumnTree none none [0] .unordered {} =
      .ok (keyColumnScan, twoColumnTree) := rfl

theorem unprojected_value_throws_iff_memtable :
    (∃ e, ICursor.value keyColumnScan twoColumnTree.world 1 = .error e) ↔
      ∃ leaf, keyColumnScan.current = some leaf ∧ leaf.OfColumnSSTable := by
  apply unprojected_value_throws_iff twoColumnTree_width twoColumnTree_scan .refl
  · exact (rfl : ICursor.key keyColumnScan twoColumnTree.world = .ok 5)
  · decide
  · decide
  · decide

/-- The stored value of the other column is read. -/
theorem unprojected_value_in_memtable :
    MemoryWidth twoColumnTree ∧
      LSMStorageEngine.scan twoColumnTree none none [0] .unordered {} =
        .ok (keyColumnScan, twoColumnTree) ∧
      ICursor.key keyColumnScan twoColumnTree.world = .ok 5 ∧
      ICursor.value keyColumnScan twoColumnTree.world 1 = .ok (some (.int64 7)) :=
  ⟨twoColumnTree_width, twoColumnTree_scan, rfl, rfl⟩

end Htap.Properties
