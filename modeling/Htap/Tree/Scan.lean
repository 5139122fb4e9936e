import Htap.Tree.Invariant

/-!
What a scan of an LSM tree yields. A scan of a tree that keeps the invariant
composes cursors that hold rows of its layers; without a data-skipping filter
these are the rows of the key range, each once.
-/

namespace Htap.Tree

open Storage SSTable Read Cursor Words

/-- The trees differ in their caches only. -/
def SameData (tree tree' : LSMTree) : Prop :=
  tree' = { tree with metadataCaches := tree'.metadataCaches, blockCache := tree'.blockCache }

theorem SameData.refl (tree : LSMTree) : SameData tree tree := rfl

theorem SameData.trans {a b c : LSMTree} (hab : SameData a b) (hbc : SameData b c) :
    SameData a c := by
  rw [SameData] at *
  rw [hbc, hab]

theorem SameData.sameMemory {tree tree' : LSMTree} (h : SameData tree tree') :
    SameMemory tree.world tree'.world := by
  rw [h]
  exact ⟨rfl, rfl⟩

theorem SameData.rowsOf_eq {tree tree' : LSMTree} (h : SameData tree tree')
    (built : Nat → Option Table) : rowsOf built tree' = rowsOf built tree := by
  rw [h]
  rfl

section

variable {built : Nat → Option Table} {tree tree' : LSMTree}

/-- What holds of the caches is all there is to show after a read. -/
theorem Invariant.read (h : Invariant built tree) (hsame : SameData tree tree')
    (hmetadata : ∀ info ∈ tree.registry.entries, ∀ e ∈ tree'.metadataCaches, e.1 = info.id →
      ∃ t, built info.id = some t ∧
        Serves tree.schema (sparseIndexOptions tree.config) tree.disk
          (contentsOf built tree.nextSstId) t info e.2)
    (hcached : ∀ e ∈ tree'.metadataCaches, e.1 < tree.nextSstId)
    (hblocks : CacheCoherent (contentsOf built tree.nextSstId) tree'.blockCache) :
    Invariant built tree' := by
  rw [hsame]
  exact ⟨h.keyed, h.narrow, h.options, h.targets, h.valid, h.storable, h.stored, h.paths, h.issued,
    h.next, h.distinct, h.filed, hmetadata, hcached, hblocks⟩

/-- Reading on through a cursor changes the block cache. -/
theorem Invariant.advanced (h : Invariant built tree) {cache : Option SSTableBlockCache}
    (hcache : CacheCoherent (contentsOf built tree.nextSstId) cache) :
    Invariant built { tree with blockCache := cache } :=
  h.read rfl h.metadata h.cached hcache

/-! ## One SSTable -/

theorem Invariant.getOrCreateMetadataCache (h : Invariant built tree) {info : SSTableInfo}
    (hinfo : info ∈ tree.registry.entries) :
    ∃ metadataCache t, tree.getOrCreateMetadataCache info = .ok metadataCache ∧
      built info.id = some t ∧
      Serves tree.schema (sparseIndexOptions tree.config) tree.disk
        (contentsOf built tree.nextSstId) t info metadataCache := by
  unfold LSMTree.getOrCreateMetadataCache
  split
  · rename_i e hfind
    have hid : e.1 = info.id := by simpa using List.find?_some hfind
    obtain ⟨t, hbuilt, hserves⟩ := h.metadata info hinfo e (List.mem_of_find?_eq_some hfind) hid
    exact ⟨e.2, t, rfl, hbuilt, hserves⟩
  · obtain ⟨t, hbuilt, hstored⟩ := h.stored info hinfo
    obtain ⟨metadataCache, hcreate, hserves⟩ := serves_create hstored.wellFormed hstored.describes
      hstored.onDisk (contentsOf_eq (h.issued info hinfo) hbuilt)
    exact ⟨metadataCache, t, hcreate, hbuilt, hserves⟩

theorem Invariant.getOrCreateBlockCache (h : Invariant built tree) :
    CacheCoherent (contentsOf built tree.nextSstId) (some tree.getOrCreateBlockCache) := by
  intro cache hcache
  cases hcache
  unfold LSMTree.getOrCreateBlockCache
  cases hblock : tree.blockCache with
  | none =>
    intro e he
    cases he
  | some cache => exact h.blocks cache hblock

variable {range : KeyRange} {projection : List Nat} {filter : DataSkippingFilter}

theorem world_of_sameMemory {w : World} {id : Nat}
    {cache : SSTableMetadataCache}
    (hsame : SameMemory { tree.world with blockCache := some tree.getOrCreateBlockCache } w) :
    ({ tree.setMetadataCache id cache with blockCache := w.blockCache } : LSMTree).world = w := by
  obtain ⟨generation, memtable, blockCache⟩ := w
  obtain ⟨hgeneration, hmemtable⟩ := hsame
  simp only at hgeneration hmemtable
  rw [hgeneration, hmemtable]
  rfl

/-- Whatever the filter, the cursor goes through rows of the SSTable. -/
theorem Invariant.of_openSSTable (h : Invariant built tree) (hnodup : projection.Nodup)
    (hbound : ∀ i ∈ projection, i < tree.schema.size) {info : SSTableInfo}
    (hinfo : info ∈ tree.registry.entries) {cursor : Option ScanCursor}
    (hopen : tree.openSSTable range projection filter info = .ok (cursor, tree')) :
    Invariant built tree' ∧ SameData tree tree' ∧
      ∃ rows, rows.Sublist (builtRows built info) ∧
        HoldsOption tree.schema projection (contentsOf built tree.nextSstId) tree'.world cursor
          rows := by
  obtain ⟨metadataCache, t, hget, hbuilt, hserves⟩ := h.getOrCreateMetadataCache hinfo
  rw [LSMTree.openSSTable, hget, Result.ok_bind] at hopen
  obtain ⟨⟨found, next, w⟩, hmake, hopen⟩ := Result.bind_eq_ok.mp hopen
  cases hopen
  obtain ⟨hserves', hcache', hsame, rows, hrows, hholds⟩ := makeSSTableCursor_of_ok hserves hnodup
    hbound h.getOrCreateBlockCache hmake
  have hbuiltRows : builtRows built info = t.rows := by
    rw [builtRows, hbuilt]
    rfl
  refine ⟨h.read rfl ?_ ?_ hcache', rfl, rows, hbuiltRows ▸ hrows, ?_⟩
  · intro other hother e he heq
    rcases List.mem_cons.mp he with rfl | hold
    · have hothers : other = info := by
        have hids := List.inj_on_of_nodup_map h.distinct hother hinfo
        exact hids heq.symm
      rw [hothers]
      exact ⟨t, hbuilt, hserves'⟩
    · exact h.metadata other hother e (List.mem_of_mem_filter hold) heq
  · intro e he
    rcases List.mem_cons.mp he with rfl | hold
    · exact h.issued info hinfo
    · exact h.cached e (List.mem_of_mem_filter hold)
  · rw [world_of_sameMemory hsame]
    exact hholds

/-- Without a filter the cursor goes through the rows of the range. -/
theorem Invariant.openSSTable_spec (h : Invariant built tree) (hnodup : projection.Nodup)
    (hbound : ∀ i ∈ projection, i < tree.schema.size) (hfilter : filter.empty = true)
    {info : SSTableInfo} (hinfo : info ∈ tree.registry.entries)
    (hrange : range.fromKey = none ∨ StrictRows (builtRows built info)) :
    ∃ cursor tree', tree.openSSTable range projection filter info = .ok (cursor, tree') ∧
      HoldsOption tree.schema projection (contentsOf built tree.nextSstId) tree'.world cursor
        (inRange range (builtRows built info)) := by
  obtain ⟨metadataCache, t, hget, hbuilt, hserves⟩ := h.getOrCreateMetadataCache hinfo
  have hbuiltRows : builtRows built info = t.rows := by
    rw [builtRows, hbuilt]
    rfl
  have hcache : CacheCoherent (contentsOf built tree.nextSstId)
      { tree.world with blockCache := some tree.getOrCreateBlockCache }.blockCache :=
    h.getOrCreateBlockCache
  rw [hbuiltRows] at hrange ⊢
  obtain ⟨cursor, next, w, hmake, hholds⟩ := makeSSTableCursor_spec hserves hnodup hbound hcache
    hfilter hrange
  obtain ⟨-, -, hsame, -⟩ := makeSSTableCursor_of_ok hserves hnodup hbound hcache hmake
  refine ⟨cursor, { tree.setMetadataCache info.id next with blockCache := w.blockCache }, ?_, ?_⟩
  · simp only [LSMTree.openSSTable, hget, Result.ok_bind, hmake, Result.pure_eq]
  · rw [world_of_sameMemory hsame]
    exact hholds

/-! ## All SSTables -/

/-- The cursors opened so far, and the tree with its caches. -/
structure Scanning (built : Nat → Option Table) (projection : List Nat) (tree : LSMTree)
    (tree' : LSMTree) (cursors : List ScanCursor) (sources : List (List Row)) : Prop where
  invariant : Invariant built tree'
  same : SameData tree tree'
  held : List.Forall₂ (ScanCursor.Holds tree.schema projection (contentsOf built tree.nextSstId)
    tree'.world) cursors sources
  sorted : ∀ source ∈ sources, SortedRows source

theorem Scanning.blocks {cursors : List ScanCursor} {sources : List (List Row)}
    (h : Scanning built projection tree tree' cursors sources) :
    CacheCoherent (contentsOf built tree.nextSstId) tree'.blockCache := by
  have hblocks := h.invariant.blocks
  have hnext : tree'.nextSstId = tree.nextSstId := by rw [h.same]
  rwa [hnext] at hblocks

/-- The cursor of one more SSTable, dropped when it has no rows. -/
theorem Scanning.append (hbound : ∀ i ∈ projection, i < tree.schema.size)
    {cursors : List ScanCursor} {sources : List (List Row)}
    (h : Scanning built projection tree tree' cursors sources) {next : LSMTree}
    {cursor : Option ScanCursor} {rows : List Row} (hinvariant : Invariant built next)
    (hsame : SameData tree' next)
    (hholds : HoldsOption tree.schema projection (contentsOf built tree.nextSstId) next.world cursor
      rows) (hrows : SortedRows rows) :
    ∃ sources', sources'.flatten = sources.flatten ++ rows ∧
      Scanning built projection tree next
        (match cursor with
          | none => cursors
          | some cursor => if ICursor.valid cursor then cursors ++ [cursor] else cursors)
        sources' := by
  have hmodel := ScanCursor.model hbound (contentsOf built tree.nextSstId)
  have hkept := h.held.imp fun c rows hc => hmodel.stable hc hsame.sameMemory
  have hsame' := h.same.trans hsame
  have hblocks : CacheCoherent (contentsOf built tree.nextSstId) next.world.blockCache := by
    have hnext : next.nextSstId = tree.nextSstId := by rw [hsame']
    rw [← hnext]
    exact hinvariant.blocks
  cases cursor with
  | none =>
    have hnone : rows = [] := hholds
    exact ⟨sources, by rw [hnone, List.append_nil], hinvariant, hsame', hkept, h.sorted⟩
  | some cursor =>
    have hvalid := hmodel.valid_eq hblocks hholds
    dsimp only
    split
    · refine ⟨sources ++ [rows], by simp, hinvariant, hsame',
        List.rel_append hkept (List.Forall₂.cons hholds List.Forall₂.nil), ?_⟩
      intro source hsource
      rcases List.mem_append.mp hsource with hold | hnew
      · exact h.sorted source hold
      · rw [List.mem_singleton.mp hnew]
        exact hrows
    · rename_i hinvalid
      have hnone : rows = [] := by simpa [hvalid] using hinvalid
      exact ⟨sources, by rw [hnone, List.append_nil], hinvariant, hsame', hkept, h.sorted⟩

theorem Invariant.sorted_builtRows (h : Invariant built tree) {info : SSTableInfo}
    (hinfo : info ∈ tree.registry.entries) : SortedRows (builtRows built info) := by
  obtain ⟨t, -, hstored, hrows⟩ := h.exists_built hinfo
  rw [hrows]
  exact hstored.wellFormed.sorted

theorem scanSSTable_eq (tree : LSMTree) (cursors : List ScanCursor) (info : SSTableInfo) :
    LSMTree.scanSSTable range projection filter (cursors, tree) info =
      (do
        let (cursor, tree) ← tree.openSSTable range projection filter info
        return (match cursor with
          | none => cursors
          | some cursor => if ICursor.valid cursor then cursors ++ [cursor] else cursors,
            tree)) := by
  rw [LSMTree.scanSSTable]
  congr 1
  funext opened
  obtain ⟨cursor, next⟩ := opened
  cases cursor <;> rfl

/-- Opening SSTables one after another, as far as it succeeds. -/
theorem Scanning.of_foldlM (hnodup : projection.Nodup)
    (hbound : ∀ i ∈ projection, i < tree.schema.size) {infos : List SSTableInfo}
    (hinfos : ∀ info ∈ infos, info ∈ tree.registry.entries) {cursors cursors' : List ScanCursor}
    {sources : List (List Row)} (h : Scanning built projection tree tree' cursors sources)
    {last : LSMTree}
    (hfold : infos.foldlM (LSMTree.scanSSTable range projection filter) (cursors, tree') =
      .ok (cursors', last)) :
    ∃ sources', Scanning built projection tree last cursors' sources' := by
  induction infos generalizing cursors sources tree' with
  | nil =>
    cases hfold
    exact ⟨sources, h⟩
  | cons info infos ih =>
    have hinfo : info ∈ tree'.registry.entries := by
      rw [h.same]
      exact hinfos info List.mem_cons_self
    rw [List.foldlM_cons, scanSSTable_eq] at hfold
    obtain ⟨⟨kept, next⟩, hstep, hfold⟩ := Result.bind_eq_ok.mp hfold
    obtain ⟨⟨cursor, next⟩, hopen, hstep⟩ := Result.bind_eq_ok.mp hstep
    cases hstep
    obtain ⟨hinvariant, hsame, rows, hrows, hholds⟩ := h.invariant.of_openSSTable hnodup
      (by rw [h.same]; exact hbound) hinfo hopen
    have hsorted := (h.invariant.sorted_builtRows hinfo).sublist hrows
    obtain ⟨sources', -, hnext⟩ := h.append hbound hinvariant hsame
      (by rw [h.same] at hholds; exact hholds) hsorted
    exact ih (fun other hother => hinfos other (List.mem_cons_of_mem info hother)) hnext hfold

/-- Without a filter all SSTables are opened, and their cursors hold the rows
of the range. -/
theorem Scanning.foldlM_spec (hnodup : projection.Nodup)
    (hbound : ∀ i ∈ projection, i < tree.schema.size) (hfilter : filter.empty = true)
    {infos : List SSTableInfo} (hinfos : ∀ info ∈ infos, info ∈ tree.registry.entries)
    (hrange : range.fromKey = none ∨ ∀ info ∈ infos, StrictRows (builtRows built info))
    {cursors : List ScanCursor} {sources : List (List Row)}
    (h : Scanning built projection tree tree' cursors sources) :
    ∃ cursors' last sources',
      infos.foldlM (LSMTree.scanSSTable range projection filter) (cursors, tree') =
        .ok (cursors', last) ∧
      Scanning built projection tree last cursors' sources' ∧
      sources'.flatten = sources.flatten ++ infos.flatMap fun info =>
        inRange range (builtRows built info) := by
  induction infos generalizing cursors sources tree' with
  | nil => exact ⟨cursors, tree', sources, rfl, h, by simp⟩
  | cons info infos ih =>
    have hinfo : info ∈ tree'.registry.entries := by
      rw [h.same]
      exact hinfos info List.mem_cons_self
    have hbound' : ∀ i ∈ projection, i < tree'.schema.size := by
      rw [h.same]
      exact hbound
    obtain ⟨cursor, next, hopen, hholds⟩ :=
      h.invariant.openSSTable_spec hnodup hbound' hfilter hinfo
      (hrange.imp_right fun hstrict => hstrict info List.mem_cons_self)
    obtain ⟨hinvariant, hsame, -⟩ := h.invariant.of_openSSTable hnodup hbound' hinfo hopen
    have hsorted := (h.invariant.sorted_builtRows hinfo).sublist
      (List.filter_sublist (p := fun row => range.contains (rowKey row)))
    obtain ⟨sources1, hflat1, hnext⟩ := h.append hbound hinvariant hsame
      (by rw [h.same] at hholds; exact hholds) hsorted
    obtain ⟨cursors', last, sources', hfold, hlast, hflat⟩ :=
      ih (fun other hother => hinfos other (List.mem_cons_of_mem info hother))
        (hrange.imp_right fun hstrict other hother =>
          hstrict other (List.mem_cons_of_mem info hother)) hnext
    refine ⟨cursors', last, sources', ?_, hlast, ?_⟩
    · rw [List.foldlM_cons, scanSSTable_eq, hopen, Result.ok_bind]
      exact hfold
    · rw [hflat, hflat1, List.flatMap_cons, List.append_assoc]
      rfl

/-! ## The memory -/

/-- A scan's order of rows. -/
def arrange (order : ScanOrder) (rows : List Row) : List Row :=
  match order with
  | .unordered => rows
  | .keyAscending => Merging.stableSort rowKey rows

theorem arrange_perm (order : ScanOrder) (rows : List Row) : (arrange order rows).Perm rows := by
  cases order with
  | unordered => exact List.Perm.refl rows
  | keyAscending => exact Merging.stableSort_perm rowKey rows

theorem ordered_eq (order : ScanOrder) (sources : List (List Row)) :
    ordered order sources = arrange order sources.flatten := by
  cases order <;> rfl

private theorem sortedRows_of_strict {rows : List Row}
    (h : rows.Pairwise fun a b => rowKey a < rowKey b) : SortedRows rows :=
  h.imp fun hab => hab.le

/-- Rows of the schema's width are in the memory, as `insert` validated them. -/
def MemoryWidth (tree : LSMTree) : Prop :=
  ∀ row ∈ tree.memoryLayer.rows, row.length = tree.schema.size

/-- The cursors over the memory, as `scan` builds them. -/
def memtableCursors (tree : LSMTree) (range : KeyRange) : List ScanCursor :=
  tree.scanActive range ++ tree.memoryLayer.immutables.flatMap (LSMTree.scanImmutable range)

theorem scanActive_holds (hwidth : MemoryWidth tree) (hordered : range.Ordered)
    (projection : List Nat) (contents : CacheKey → Option Bytes) :
    ∃ sources, List.Forall₂ (ScanCursor.Holds tree.schema projection contents tree.world)
        (tree.scanActive range) sources ∧
      sources.flatten = inRange range tree.memoryLayer.active.rows ∧
      ∀ source ∈ sources, SortedRows source := by
  have hwalk := SortedMap.walks_range tree.memoryLayer.active.data range.fromKey range.toKey
    hordered
  have hrows : (tree.memoryLayer.active.data.entries.filter fun e =>
      SortedMap.atOrAfter range.fromKey e.1 && SortedMap.before range.toKey e.1).map Prod.snd =
      inRange range tree.memoryLayer.active.rows := by
    rw [inRange, MemTable.rows, List.filter_map]
    congr 1
    apply List.filter_congr
    intro e he
    rw [Function.comp_apply, tree.memoryLayer.active.keyed e he, KeyRange.contains_eq]
  have hsorted : SortedRows (inRange range tree.memoryLayer.active.rows) :=
    (sortedRows_of_strict tree.memoryLayer.active.sorted_rows).sublist List.filter_sublist
  unfold LSMTree.scanActive
  dsimp only
  split
  · refine ⟨[inRange range tree.memoryLayer.active.rows], List.Forall₂.cons ?_ List.Forall₂.nil,
      by simp, by simpa using hsorted⟩
    refine ⟨rfl, ?_, _, hwalk, hrows⟩
    intro row hrow
    exact hwidth row (List.mem_append_left _ (List.mem_of_mem_filter hrow))
  · rename_i hempty
    refine ⟨[], List.Forall₂.nil, ?_, by simp⟩
    rw [not_not] at hempty
    rw [hempty] at hwalk
    rw [← hrows]
    cases hentries : tree.memoryLayer.active.data.entries.filter fun e =>
        SortedMap.atOrAfter range.fromKey e.1 && SortedMap.before range.toKey e.1 with
    | nil => rfl
    | cons e rest =>
      rw [hentries] at hwalk
      exact absurd rfl hwalk.1

theorem scanImmutable_holds (hwidth : MemoryWidth tree) (hordered : range.Ordered)
    (projection : List Nat) (contents : CacheKey → Option Bytes) {imm : ImmutableMemTable}
    (himm : imm ∈ tree.memoryLayer.immutables) :
    ∃ sources, List.Forall₂ (ScanCursor.Holds tree.schema projection contents tree.world)
        (LSMTree.scanImmutable range imm) sources ∧
      sources.flatten = inRange range imm.data ∧ ∀ source ∈ sources, SortedRows source := by
  have hslice := imm.slice_range hordered
  have hsorted : SortedRows (inRange range imm.data) :=
    (sortedRows_of_strict imm.sorted).sublist List.filter_sublist
  unfold LSMTree.scanImmutable
  dsimp only
  split
  · refine ⟨[inRange range imm.data], List.Forall₂.cons ?_ List.Forall₂.nil, by simp,
      by simpa using hsorted⟩
    refine ⟨imm.rangeBegin_le_rangeEnd hordered, imm.rangeEnd_le range.toKey, ?_, hslice.symm⟩
    intro row hrow
    exact hwidth row (List.mem_append_right _
      (List.mem_flatMap.mpr ⟨imm, himm, List.mem_of_mem_filter hrow⟩))
  · rename_i hempty
    refine ⟨[], List.Forall₂.nil, ?_, by simp⟩
    rw [not_not] at hempty
    rw [hempty, Splitting.slice_self] at hslice
    exact hslice

private theorem scanImmutables_holds (hwidth : MemoryWidth tree)
    (hordered : range.Ordered) (projection : List Nat) (contents : CacheKey → Option Bytes)
    (imms : List ImmutableMemTable) (himms : ∀ imm ∈ imms, imm ∈ tree.memoryLayer.immutables) :
    ∃ sources, List.Forall₂ (ScanCursor.Holds tree.schema projection contents tree.world)
        (imms.flatMap (LSMTree.scanImmutable range)) sources ∧
      sources.flatten = inRange range (imms.flatMap ImmutableMemTable.data) ∧
      ∀ source ∈ sources, SortedRows source := by
  induction imms with
  | nil => exact ⟨[], List.Forall₂.nil, rfl, by simp⟩
  | cons imm imms ih =>
    obtain ⟨first, hfirst, hflat, hsorted⟩ :=
      scanImmutable_holds hwidth hordered projection contents
      (himms imm List.mem_cons_self)
    obtain ⟨rest, hrest, hflats, hsorteds⟩ := ih fun other hother =>
      himms other (List.mem_cons_of_mem imm hother)
    refine ⟨first ++ rest, List.rel_append hfirst hrest, ?_, ?_⟩
    · rw [List.flatten_append, hflat, hflats, List.flatMap_cons, inRange_append]
    · intro source hsource
      rcases List.mem_append.mp hsource with hin | hin
      · exact hsorted source hin
      · exact hsorteds source hin

private theorem memtableCursors_hold_of_ordered (hwidth : MemoryWidth tree)
    (hordered : range.Ordered)
    (projection : List Nat) (contents : CacheKey → Option Bytes) :
    ∃ sources, List.Forall₂ (ScanCursor.Holds tree.schema projection contents tree.world)
        (memtableCursors tree range) sources ∧
      sources.flatten = inRange range tree.memoryLayer.rows ∧
      ∀ source ∈ sources, SortedRows source := by
  obtain ⟨first, hfirst, hflat, hsorted⟩ := scanActive_holds hwidth hordered projection contents
  obtain ⟨rest, hrest, hflats, hsorteds⟩ := scanImmutables_holds hwidth hordered projection contents
    tree.memoryLayer.immutables fun _ himm => himm
  refine ⟨first ++ rest, List.rel_append hfirst hrest, ?_, ?_⟩
  · rw [List.flatten_append, hflat, hflats, MemoryLayer.rows, inRange_append]
  · intro source hsource
    rcases List.mem_append.mp hsource with hin | hin
    · exact hsorted source hin
    · exact hsorteds source hin

/-- The bounds are swapped and the memory stores a key between them. -/
def Crosses (tree : LSMTree) (range : KeyRange) : Prop :=
  ∃ f ∈ range.fromKey, ∃ t ∈ range.toKey,
    ∃ row ∈ tree.memoryLayer.rows, t ≤ rowKey row ∧ rowKey row < f

theorem not_crosses_of_ordered (tree : LSMTree) (hordered : range.Ordered) :
    ¬ Crosses tree range := by
  rintro ⟨f, hf, t, ht, row, -, hlow, hhigh⟩
  exact absurd (hlow.trans_lt hhigh) (not_lt.mpr (hordered f hf t ht))

theorem lowerBound_eq_countP (imm : ImmutableMemTable) (key : Key) :
    imm.lowerBound key = imm.data.countP fun row => rowKey row < key := by
  have hsplit := (dropWhile_sorted (fun k => decide (k < key)) imm.sorted (by
    intro a b hab hb
    simp only [decide_eq_true_eq] at hb ⊢
    exact hab.trans hb)).1
  rw [ImmutableMemTable.lowerBound, hsplit, List.countP_eq_length_filter]

/-- Swapped bounds with no stored key between them open no cursor. -/
private theorem memtableCursors_eq_nil {f t : Key} (hle : t ≤ f)
    (hnone : ∀ row ∈ tree.memoryLayer.rows, t ≤ rowKey row → f ≤ rowKey row) :
    memtableCursors tree ⟨some f, some t⟩ = [] := by
  apply List.append_eq_nil_iff.mpr
  constructor
  · have hsame : tree.memoryLayer.active.data.start (some f) =
        tree.memoryLayer.active.data.stop (some t) := by
      apply SortedMap.start_eq_stop hle
      intro e he
      have hkeyed := tree.memoryLayer.active.keyed e he
      rw [← hkeyed]
      exact hnone e.2 (List.mem_append_left _ (List.mem_map_of_mem he))
    unfold LSMTree.scanActive
    dsimp only
    rw [if_neg (not_not.mpr hsame)]
  · apply List.flatMap_eq_nil_iff.mpr
    intro imm himm
    have hsame : imm.rangeBegin (some f) = imm.rangeEnd (some t) := by
      change imm.lowerBound f = imm.lowerBound t
      rw [lowerBound_eq_countP, lowerBound_eq_countP]
      apply List.countP_congr
      intro row hrow
      have hrow' := hnone row (List.mem_append_right _ (List.mem_flatMap.mpr ⟨imm, himm, hrow⟩))
      simp only [decide_eq_true_eq]
      constructor
      · intro hf
        by_contra ht
        exact absurd (hrow' (not_lt.mp ht)) (not_le.mpr hf)
      · intro ht
        exact ht.trans_le hle
    unfold LSMTree.scanImmutable
    dsimp only
    rw [if_neg (not_not.mpr hsame)]

/-- The cursors over the memory hold its rows of the range, unless a stored key lies between
swapped bounds. -/
theorem memtableCursors_hold (hwidth : MemoryWidth tree) (hcrosses : ¬ Crosses tree range)
    (projection : List Nat) (contents : CacheKey → Option Bytes) :
    ∃ sources, List.Forall₂ (ScanCursor.Holds tree.schema projection contents tree.world)
        (memtableCursors tree range) sources ∧
      sources.flatten = inRange range tree.memoryLayer.rows ∧
      ∀ source ∈ sources, SortedRows source := by
  by_cases hordered : range.Ordered
  · exact memtableCursors_hold_of_ordered hwidth hordered projection contents
  · obtain ⟨lower, upper⟩ := range
    simp only [KeyRange.Ordered, not_forall, not_le] at hordered
    obtain ⟨f, hf, t, ht, hlt⟩ := hordered
    obtain rfl : lower = some f := hf
    obtain rfl : upper = some t := ht
    have hcursors : memtableCursors tree ⟨some f, some t⟩ = [] := by
      apply memtableCursors_eq_nil hlt.le
      intro row hrow hlow
      by_contra hhigh
      exact hcrosses ⟨f, rfl, t, rfl, row, hrow, hlow, not_le.mp hhigh⟩
    have hrows : inRange ⟨some f, some t⟩ tree.memoryLayer.rows = [] := by
      apply List.filter_eq_nil_iff.mpr
      intro row _ hcontains
      obtain ⟨hfrom, hto⟩ := KeyRange.contains_iff.mp hcontains
      exact absurd ((hfrom f rfl).trans_lt (hto t rfl)) hlt.asymm
    rw [hcursors, hrows]
    exact ⟨[], List.Forall₂.nil, rfl, by simp⟩

theorem Invariant.memoryWidth (h : Invariant built tree) : MemoryWidth tree :=
  fun row hrow => (h.valid row hrow).length

/-- Before any SSTable is opened. -/
theorem Invariant.scanning_memory (h : Invariant built tree) (hcrosses : ¬ Crosses tree range)
    (projection : List Nat) :
    ∃ sources, Scanning built projection tree tree (memtableCursors tree range) sources ∧
      sources.flatten = inRange range tree.memoryLayer.rows := by
  obtain ⟨sources, hheld, hflat, hsorted⟩ := memtableCursors_hold h.memoryWidth hcrosses projection
    (contentsOf built tree.nextSstId)
  exact ⟨sources, ⟨h, SameData.refl tree, hheld, hsorted⟩, hflat⟩

/-! ## Whole scans -/

/-- An SSTable whose key bounds miss the range has no row in it. -/
theorem Invariant.inRange_of_not_meets (h : Invariant built tree) {info : SSTableInfo}
    (hinfo : info ∈ tree.registry.entries) (hmiss : SSTableRegistry.meets range info = false) :
    inRange range (builtRows built info) = [] := by
  obtain ⟨t, -, hstored, hrows⟩ := h.exists_built hinfo
  rw [hrows]
  refine List.filter_eq_nil_iff.mpr ?_
  intro row hrow hcontains
  obtain ⟨hfrom, hto⟩ := KeyRange.contains_iff.mp hcontains
  have hlow := minKeyOf_le hrow
  have hhigh := le_maxKeyOf hrow
  rw [← hstored.describes.minKey] at hlow
  rw [← hstored.describes.maxKey] at hhigh
  rw [SSTableRegistry.meets, Bool.and_eq_false_iff, Bool.not_eq_false', Bool.not_eq_false'] at hmiss
  rcases hmiss with hbelow | habove
  · obtain ⟨f, hf, hlt⟩ := (Option.any_eq_true _ _).mp hbelow
    exact absurd ((hfrom f hf).trans hhigh) (not_le.mpr (by simpa using hlt))
  · obtain ⟨upper, hupper, hle⟩ := (Option.any_eq_true _ _).mp habove
    exact absurd ((hto upper hupper).trans_le (by simpa using hle)) (not_lt.mpr hlow)

theorem Invariant.mem_scannedSSTables (hlevels : tree.registry.levelCount ≤ 2 ^ 32)
    {info : SSTableInfo} (hinfo : info ∈ tree.scannedSSTables range) :
    info ∈ tree.registry.entries := by
  rw [LSMTree.scannedSSTables, SSTableRegistry.flatMap_overlapping _ hlevels] at hinfo
  exact List.mem_of_mem_filter hinfo

theorem Invariant.scanned_rows (h : Invariant built tree)
    (hlevels : tree.registry.levelCount ≤ 2 ^ 32) :
    (tree.scannedSSTables range).flatMap (fun info => inRange range (builtRows built info)) =
      inRange range (tree.registry.entries.flatMap (builtRows built)) := by
  rw [LSMTree.scannedSSTables, SSTableRegistry.flatMap_overlapping _ hlevels]
  have hall : ∀ infos : List SSTableInfo, (∀ info ∈ infos, info ∈ tree.registry.entries) →
      (infos.filter (SSTableRegistry.meets range)).flatMap
          (fun info => inRange range (builtRows built info)) =
        inRange range (infos.flatMap (builtRows built)) := by
    intro infos
    induction infos with
    | nil => exact fun _ => rfl
    | cons info infos ih =>
      intro hinfos
      have hrest := ih fun other hother => hinfos other (List.mem_cons_of_mem info hother)
      rw [List.flatMap_cons, inRange_append, ← hrest, List.filter_cons]
      split
      · rw [List.flatMap_cons]
      · rename_i hmiss
        rw [h.inRange_of_not_meets (hinfos info List.mem_cons_self) (by simpa using hmiss),
          List.nil_append]
  exact hall _ fun _ hinfo => hinfo

/-- The cursor of any scan holds some rows, whatever is filtered. -/
theorem Invariant.of_scan (h : Invariant built tree) (hlevels : tree.registry.levelCount ≤ 2 ^ 32)
    (hcrosses : ¬ Crosses tree range) (hnodup : projection.Nodup)
    (hbound : ∀ i ∈ projection, i < tree.schema.size) {order : ScanOrder}
    {cursor : ComposedCursor ScanCursor}
    (hscan : tree.scan range projection order filter = .ok (cursor, tree')) :
    Invariant built tree' ∧ SameData tree tree' ∧
      ∃ rows, cursor.Holds (ScanCursor.Holds tree.schema projection
        (contentsOf built tree.nextSstId)) tree'.world rows := by
  obtain ⟨sources, hmemory, -⟩ := h.scanning_memory hcrosses projection
  rw [LSMTree.scan] at hscan
  obtain ⟨⟨cursors, last⟩, hfold, hscan⟩ := Result.bind_eq_ok.mp hscan
  obtain ⟨composed, hcompose, hscan⟩ := Result.bind_eq_ok.mp hscan
  cases hscan
  obtain ⟨sources', hlast⟩ := hmemory.of_foldlM hnodup hbound
    (fun info hinfo => Invariant.mem_scannedSSTables hlevels hinfo) hfold
  obtain ⟨c, hc, hholds⟩ := composeCursors_spec
    (ScanCursor.model hbound (contentsOf built tree.nextSstId)) hlast.blocks hlast.held order
    fun _ => hlast.sorted
  rw [hcompose, Except.ok.injEq] at hc
  exact ⟨hlast.invariant, hlast.same, _, hc ▸ hholds⟩

/-- Without a filter a scan succeeds, and its cursor holds the rows of the tree
that are in the range. -/
theorem Invariant.scan_spec (h : Invariant built tree)
    (hlevels : tree.registry.levelCount ≤ 2 ^ 32) (hordered : range.Ordered)
    (hnodup : projection.Nodup) (hbound : ∀ i ∈ projection, i < tree.schema.size)
    (hfilter : filter.empty = true)
    (hrange : range.fromKey = none ∨
      ∀ info ∈ tree.registry.entries, StrictRows (builtRows built info)) (order : ScanOrder) :
    ∃ cursor tree', tree.scan range projection order filter = .ok (cursor, tree') ∧
      Invariant built tree' ∧ SameData tree tree' ∧
      cursor.Holds (ScanCursor.Holds tree.schema projection (contentsOf built tree.nextSstId))
        tree'.world (arrange order (inRange range (rowsOf built tree))) := by
  obtain ⟨sources, hmemory, hflat⟩ :=
    h.scanning_memory (not_crosses_of_ordered tree hordered) projection
  obtain ⟨cursors, last, sources', hfold, hlast, hflat'⟩ :=
    hmemory.foldlM_spec hnodup hbound hfilter
    (fun info hinfo => Invariant.mem_scannedSSTables hlevels hinfo)
    (hrange.imp_right fun hstrict info hinfo =>
      hstrict info (Invariant.mem_scannedSSTables hlevels hinfo))
  obtain ⟨cursor, hcompose, hholds⟩ := composeCursors_spec
    (ScanCursor.model hbound (contentsOf built tree.nextSstId)) hlast.blocks hlast.held order
    fun _ => hlast.sorted
  refine ⟨cursor, last, ?_, hlast.invariant, hlast.same, ?_⟩
  · rw [LSMTree.scan]
    dsimp only
    rw [← memtableCursors, hfold, Result.ok_bind]
    dsimp only
    rw [show composeCursors cursors order last.world = .ok cursor from hcompose]
    rfl
  · rw [ordered_eq, hflat', hflat, h.scanned_rows hlevels, ← inRange_append] at hholds
    exact hholds

/-- What reading a cursor to its end yields in the tree it was opened on. -/
theorem Invariant.yields (h : Invariant built tree') (hsame : SameData tree tree')
    (hbound : ∀ i ∈ projection, i < tree.schema.size) {cursor : ComposedCursor ScanCursor}
    {rows : List Row}
    (hholds : cursor.Holds (ScanCursor.Holds tree.schema projection
      (contentsOf built tree.nextSstId)) tree'.world rows) :
    Yields projection cursor tree'.world (rows.map (viewRow projection)) := by
  have hblocks := h.blocks
  have hnext : tree'.nextSstId = tree.nextSstId := by rw [hsame]
  rw [hnext] at hblocks
  exact (ComposedCursor.model (ScanCursor.model hbound _)).yields hblocks hholds

end

end Htap.Tree
