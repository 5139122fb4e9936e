import Htap.Cursor.Skipping
import Htap.Tree.Scan

/-!
A scan with a data-skipping filter. Every layer may leave out rows that fail the filter;
the memory never does, and no layer leaves out a row that passes.
-/

namespace Htap.Tree

open Storage SSTable Read Cursor Words

section

variable {built : Nat → Option Table} {tree tree' : LSMTree} {range : KeyRange}
  {projection : List Nat} {filter : DataSkippingFilter}

/-- One SSTable, under a filter. -/
theorem Invariant.openSSTable_skipping (h : Invariant built tree) (hnodup : projection.Nodup)
    (hbound : ∀ i ∈ projection, i < tree.schema.size) (hfilter : filter.Ordered)
    {info : SSTableInfo} (hinfo : info ∈ tree.registry.entries)
    (hnumbers : Numbers (builtRows built info))
    (hrange : range.fromKey = none ∨ StrictRows (builtRows built info)) :
    ∃ cursor tree' rows, tree.openSSTable range projection filter info = .ok (cursor, tree') ∧
      HoldsOption tree.schema projection (contentsOf built tree.nextSstId) tree'.world cursor
        rows ∧
      Pruned filter.passes (inRange range (builtRows built info)) rows := by
  obtain ⟨metadataCache, t, hget, hbuilt, hserves⟩ := h.getOrCreateMetadataCache hinfo
  have hbuiltRows : builtRows built info = t.rows := by
    rw [builtRows, hbuilt]
    rfl
  have hcache : CacheCoherent (contentsOf built tree.nextSstId)
      { tree.world with blockCache := some tree.getOrCreateBlockCache }.blockCache :=
    h.getOrCreateBlockCache
  rw [hbuiltRows] at hrange hnumbers ⊢
  obtain ⟨cursor, next, w, rows, hmake, hholds, hpruned⟩ := makeSSTableCursor_skipping hserves
    ⟨hserves.wellFormed, h.narrow, hnumbers, hfilter⟩ hnodup hbound hcache hrange
  obtain ⟨-, -, hsame, -⟩ := makeSSTableCursor_of_ok hserves hnodup hbound hcache hmake
  refine ⟨cursor, { tree.setMetadataCache info.id next with blockCache := w.blockCache }, rows, ?_,
    ?_, hpruned⟩
  · simp only [LSMTree.openSSTable, hget, Result.ok_bind, hmake, Result.pure_eq]
  · rw [world_of_sameMemory hsame]
    exact hholds

/-- All SSTables of a list, one after another. -/
theorem Scanning.foldlM_skipping (hnodup : projection.Nodup)
    (hbound : ∀ i ∈ projection, i < tree.schema.size) (hfilter : filter.Ordered)
    {infos : List SSTableInfo} (hinfos : ∀ info ∈ infos, info ∈ tree.registry.entries)
    (hnumbers : ∀ info ∈ infos, Numbers (builtRows built info))
    (hrange : range.fromKey = none ∨ ∀ info ∈ infos, StrictRows (builtRows built info))
    {cursors : List ScanCursor} {sources : List (List Row)}
    (h : Scanning built projection tree tree' cursors sources) :
    ∃ cursors' last sources' found,
      infos.foldlM (LSMTree.scanSSTable range projection filter) (cursors, tree') =
        .ok (cursors', last) ∧
      Scanning built projection tree last cursors' sources' ∧
      sources'.flatten = sources.flatten ++ found ∧
      Pruned filter.passes (infos.flatMap fun info => inRange range (builtRows built info))
        found := by
  induction infos generalizing cursors sources tree' with
  | nil => exact ⟨cursors, tree', sources, [], rfl, h, (List.append_nil _).symm, Pruned.refl _ _⟩
  | cons info infos ih =>
    have hinfo : info ∈ tree'.registry.entries := by
      rw [h.same]
      exact hinfos info List.mem_cons_self
    have hbound' : ∀ i ∈ projection, i < tree'.schema.size := by
      rw [h.same]
      exact hbound
    obtain ⟨cursor, next, rows, hopen, hholds, hpruned⟩ := h.invariant.openSSTable_skipping hnodup
      hbound' hfilter hinfo (hnumbers info List.mem_cons_self)
      (hrange.imp_right fun hstrict => hstrict info List.mem_cons_self)
    obtain ⟨hinvariant, hsame, -⟩ := h.invariant.of_openSSTable hnodup hbound' hinfo hopen
    have hsorted := (h.invariant.sorted_builtRows hinfo).sublist
      (hpruned.sub.trans List.filter_sublist)
    obtain ⟨sources1, hflat1, hnext⟩ := h.append hbound hinvariant hsame
      (by rw [h.same] at hholds; exact hholds) hsorted
    obtain ⟨cursors', last, sources', found, hfold, hlast, hflat, hfound⟩ :=
      ih (fun other hother => hinfos other (List.mem_cons_of_mem info hother))
        (fun other hother => hnumbers other (List.mem_cons_of_mem info hother))
        (hrange.imp_right fun hstrict other hother =>
          hstrict other (List.mem_cons_of_mem info hother)) hnext
    refine ⟨cursors', last, sources', rows ++ found, ?_, hlast, ?_, ?_⟩
    · rw [List.foldlM_cons, scanSSTable_eq, hopen, Result.ok_bind]
      exact hfold
    · rw [hflat, hflat1, List.append_assoc]
    · rw [List.flatMap_cons]
      exact hpruned.append hfound

/-- A scan's order keeps its rows pruned. -/
theorem Pruned.arrange {test : Row → Bool} {all found : List Row} (h : Pruned test all found)
    (order : ScanOrder) : Pruned test (Tree.arrange order all) (Tree.arrange order found) := by
  cases order with
  | unordered => exact h
  | keyAscending => exact h.stableSort rowKey

/-- A scan with any filter succeeds. Its cursor holds rows of the range, and every row of
the range that passes the filter. -/
theorem Invariant.scan_skipping (h : Invariant built tree)
    (hlevels : tree.registry.levelCount ≤ 2 ^ 32) (hordered : range.Ordered)
    (hnodup : projection.Nodup) (hbound : ∀ i ∈ projection, i < tree.schema.size)
    (hfilter : filter.Ordered) (hnumbers : Numbers (rowsOf built tree))
    (hrange : range.fromKey = none ∨
      ∀ info ∈ tree.registry.entries, StrictRows (builtRows built info)) (order : ScanOrder) :
    ∃ cursor tree' found, tree.scan range projection order filter = .ok (cursor, tree') ∧
      Invariant built tree' ∧ SameData tree tree' ∧
      cursor.Holds (ScanCursor.Holds tree.schema projection (contentsOf built tree.nextSstId))
        tree'.world (arrange order found) ∧
      Pruned filter.passes (inRange range (rowsOf built tree)) found := by
  have hknown : ∀ info ∈ tree.scannedSSTables range, info ∈ tree.registry.entries :=
    fun info hinfo => Invariant.mem_scannedSSTables hlevels hinfo
  have hbuilt : ∀ info ∈ tree.scannedSSTables range, Numbers (builtRows built info) := by
    intro info hinfo
    apply hnumbers.sub
    intro row hrow
    exact List.mem_append_right _ (List.mem_flatMap.mpr ⟨info, hknown info hinfo, hrow⟩)
  obtain ⟨sources, hmemory, hflat⟩ :=
    h.scanning_memory (not_crosses_of_ordered tree hordered) projection
  obtain ⟨cursors, last, sources', found, hfold, hlast, hflat', hpruned⟩ :=
    hmemory.foldlM_skipping hnodup hbound hfilter hknown hbuilt
      (hrange.imp_right fun hstrict info hinfo => hstrict info (hknown info hinfo))
  obtain ⟨cursor, hcompose, hholds⟩ := composeCursors_spec
    (ScanCursor.model hbound (contentsOf built tree.nextSstId)) hlast.blocks hlast.held order
    fun _ => hlast.sorted
  rw [hflat] at hflat'
  refine ⟨cursor, last, inRange range tree.memoryLayer.rows ++ found, ?_, hlast.invariant,
    hlast.same, ?_, ?_⟩
  · rw [LSMTree.scan]
    dsimp only
    rw [← memtableCursors, hfold, Result.ok_bind]
    dsimp only
    rw [show composeCursors cursors order last.world = .ok cursor from hcompose]
    rfl
  · rw [ordered_eq, hflat'] at hholds
    exact hholds
  · rw [h.scanned_rows hlevels] at hpruned
    rw [rowsOf, inRange_append]
    exact (Pruned.refl _ _).append hpruned

end

end Htap.Tree
