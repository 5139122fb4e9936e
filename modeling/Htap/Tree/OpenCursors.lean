import Htap.Cursor.Truthful
import Htap.Tree.Scan

/-!
Cursors that stay open while the tree goes on. Whatever its range and filter, a
scan keeps the invariant and leaves cursors that load true blocks only, also
after later steps built more SSTables.
-/

namespace Htap.Tree

open Storage SSTable Read Cursor Words

/-- Now and after any later step the cursor loads true blocks. -/
def Lasting (built : Nat → Option Table) (nextSstId : Nat) (c : ScanCursor) : Prop :=
  ∀ built' nextSstId', Extends built nextSstId built' nextSstId' →
    c.Truthful (contentsOf built' nextSstId')

theorem Lasting.extends {built built' : Nat → Option Table} {n n' : Nat} {c : ScanCursor}
    (h : Lasting built n c) (hextends : Extends built n built' n') : Lasting built' n' c :=
  fun built'' n'' hlater => h built'' n'' (hextends.trans hlater)

section

variable {built : Nat → Option Table} {tree tree' : LSMTree} {range : KeyRange}
  {projection : List Nat} {filter : DataSkippingFilter}

/-- Metadata caches are kept for registered SSTables, then and since. -/
def CachesKnown (tree tree' : LSMTree) : Prop :=
  ∀ e ∈ tree'.metadataCaches,
    (∃ old ∈ tree.metadataCaches, old.1 = e.1) ∨ ∃ info ∈ tree.registry.entries, info.id = e.1

theorem Invariant.lasting_openSSTable (h : Invariant built tree) (hnodup : projection.Nodup)
    (hbound : ∀ i ∈ projection, i < tree.schema.size) {info : SSTableInfo}
    (hinfo : info ∈ tree.registry.entries) {cursor : ScanCursor}
    (hopen : tree.openSSTable range projection filter info = .ok (some cursor, tree')) :
    Lasting built tree.nextSstId cursor := by
  intro built' nextSstId' hextends
  obtain ⟨metadataCache, t, hget, hbuilt, hserves⟩ := h.getOrCreateMetadataCache hinfo
  rw [LSMTree.openSSTable, hget, Result.ok_bind] at hopen
  obtain ⟨⟨found, next, w⟩, hmake, hopen⟩ := Result.bind_eq_ok.mp hopen
  cases hopen
  have hserves' : Serves tree.schema (sparseIndexOptions tree.config) tree.disk
      (contentsOf built' nextSstId') t info metadataCache :=
    hserves.changed rfl fun key hkey => hextends.contentsOf_eq (hkey ▸ h.issued info hinfo)
  obtain ⟨-, -, -, rows, -, hholds⟩ := makeSSTableCursor_of_ok hserves' hnodup hbound
    (hextends.cacheCoherent h.getOrCreateBlockCache) hmake
  exact ScanCursor.truthful_of_holds hholds

/-- The cursors opened so far, for any range and filter. -/
structure Opened (built : Nat → Option Table) (tree tree' : LSMTree) (cursors : List ScanCursor) :
    Prop where
  invariant : Invariant built tree'
  same : SameData tree tree'
  known : CachesKnown tree tree'
  lasting : ∀ c ∈ cursors, Lasting built tree.nextSstId c

theorem Opened.scanSSTable {cursors cursors' : List ScanCursor} {next : LSMTree}
    (h : Opened built tree tree' cursors) (hnodup : projection.Nodup)
    (hbound : ∀ i ∈ projection, i < tree.schema.size) {info : SSTableInfo}
    (hinfo : info ∈ tree.registry.entries)
    (hstep : LSMTree.scanSSTable range projection filter (cursors, tree') info =
      .ok (cursors', next)) : Opened built tree next cursors' := by
  have hinfo' : info ∈ tree'.registry.entries := by
    rw [h.same]
    exact hinfo
  have hbound' : ∀ i ∈ projection, i < tree'.schema.size := by
    rw [h.same]
    exact hbound
  obtain ⟨⟨cursor, opened⟩, hopen, hstep⟩ := Result.bind_eq_ok.mp hstep
  obtain ⟨hinvariant, hsame, -⟩ := h.invariant.of_openSSTable hnodup hbound' hinfo' hopen
  have hnext : tree'.nextSstId = tree.nextSstId := by rw [h.same]
  have hknown : CachesKnown tree opened := by
    obtain ⟨metadataCache, -, hopen⟩ := Result.bind_eq_ok.mp hopen
    obtain ⟨⟨found, cache, w⟩, -, hopen⟩ := Result.bind_eq_ok.mp hopen
    cases hopen
    intro e he
    rcases List.mem_cons.mp he with rfl | hold
    · exact Or.inr ⟨info, hinfo, rfl⟩
    · exact h.known e (List.mem_of_mem_filter hold)
  cases cursor with
  | none =>
    cases hstep
    exact ⟨hinvariant, h.same.trans hsame, hknown, h.lasting⟩
  | some cursor =>
    cases hstep
    refine ⟨hinvariant, h.same.trans hsame, hknown, ?_⟩
    have hnew := h.invariant.lasting_openSSTable hnodup hbound' hinfo' hopen
    rw [hnext] at hnew
    split
    · intro c hc
      rcases List.mem_append.mp hc with hold | hlast
      · exact h.lasting c hold
      · rw [List.mem_singleton.mp hlast]
        exact hnew
    · exact h.lasting

theorem Opened.foldlM {infos : List SSTableInfo} {cursors cursors' : List ScanCursor}
    {next : LSMTree} (h : Opened built tree tree' cursors) (hnodup : projection.Nodup)
    (hbound : ∀ i ∈ projection, i < tree.schema.size)
    (hinfos : ∀ info ∈ infos, info ∈ tree.registry.entries)
    (hfold : infos.foldlM (LSMTree.scanSSTable range projection filter) (cursors, tree') =
      .ok (cursors', next)) : Opened built tree next cursors' := by
  induction infos generalizing cursors tree' with
  | nil =>
    cases hfold
    exact h
  | cons info infos ih =>
    rw [List.foldlM_cons] at hfold
    obtain ⟨⟨kept, opened⟩, hstep, hfold⟩ := Result.bind_eq_ok.mp hfold
    exact ih (h.scanSSTable hnodup hbound (hinfos info List.mem_cons_self) hstep)
      (fun other hother => hinfos other (List.mem_cons_of_mem info hother)) hfold

private theorem lasting_memtableCursors (built : Nat → Option Table) (tree : LSMTree)
    (range : KeyRange) : ∀ c ∈ memtableCursors tree range, Lasting built tree.nextSstId c := by
  intro c hc built' nextSstId' _
  rcases List.mem_append.mp hc with hin | hin
  · unfold LSMTree.scanActive at hin
    dsimp only at hin
    split at hin
    · rw [List.mem_singleton.mp hin]
      trivial
    · cases hin
  · obtain ⟨imm, -, hin⟩ := List.mem_flatMap.mp hin
    unfold LSMTree.scanImmutable at hin
    dsimp only at hin
    split at hin
    · rw [List.mem_singleton.mp hin]
      trivial
    · cases hin

/-- Any scan that returns keeps the invariant and leaves a lasting cursor. -/
theorem Invariant.opened_scan (h : Invariant built tree)
    (hlevels : tree.registry.levelCount ≤ 2 ^ 32) {fromKey toKey : Option Key} {order : ScanOrder}
    {cursor : ComposedCursor ScanCursor}
    (hscan : LSMStorageEngine.scan tree fromKey toKey projection order filter =
      .ok (cursor, tree')) : Opened built tree tree' cursor.leaves := by
  obtain ⟨⟨⟩, hprojection, hscan⟩ := Result.bind_eq_ok.mp hscan
  obtain ⟨hnodup, hbound⟩ := validateProjection_ok hprojection
  obtain ⟨⟨cursors, last⟩, hfold, hscan⟩ := Result.bind_eq_ok.mp hscan
  obtain ⟨composed, hcompose, hscan⟩ := Result.bind_eq_ok.mp hscan
  cases hscan
  have hstart : Opened built tree tree (memtableCursors tree ⟨fromKey, toKey⟩) :=
    ⟨h, SameData.refl tree, fun e he => Or.inl ⟨e, he, rfl⟩, lasting_memtableCursors built tree _⟩
  have hlast := hstart.foldlM hnodup hbound
    (fun info hinfo => Invariant.mem_scannedSSTables hlevels hinfo) hfold
  exact ⟨hlast.invariant, hlast.same, hlast.known, fun c hc =>
    hlast.lasting c (ComposedCursor.leaves_composeCursors hcompose c hc)⟩

/-- Moving an open cursor on. -/
theorem Invariant.next_cursor (h : Invariant built tree) {c c' : ComposedCursor ScanCursor}
    {w : World} (hc : ∀ leaf ∈ c.leaves, Lasting built tree.nextSstId leaf)
    (hnext : ICursor.next c tree.world = .ok (c', w)) :
    Invariant built { tree with blockCache := w.blockCache } ∧
      ∀ leaf ∈ c'.leaves, Lasting built tree.nextSstId leaf := by
  have hstep : ∀ built' nextSstId', Extends built tree.nextSstId built' nextSstId' →
      (∀ leaf ∈ c'.leaves, leaf.Truthful (contentsOf built' nextSstId')) ∧
        CacheCoherent (contentsOf built' nextSstId') w.blockCache :=
    fun built' nextSstId' hextends => ComposedCursor.truthful_next
      (fun leaf hleaf => hc leaf hleaf built' nextSstId' hextends)
      (hextends.cacheCoherent h.blocks) hnext
  constructor
  · exact h.advanced (hstep built tree.nextSstId (Extends.refl built _)).2
  · exact fun leaf hleaf built' nextSstId' hextends =>
      (hstep built' nextSstId' hextends).1 leaf hleaf

end

end Htap.Tree
