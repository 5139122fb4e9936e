import Htap.Tree.Reading

/-!
What an open cursor has left while the table goes on. The rows of a cursor over SSTables
or immutable memtables are settled when it is opened. A cursor over the active memtable
holds iterators into it: it notices an insertion into the stretch it has left, and a
freeze unless it is used up.
-/

namespace Htap.Tree

open Storage SSTable Read Cursor Words

/-! ## One cursor -/

/-- The cursor holds rows, or is used up and does not look at its memtable again. -/
def Keeps (schema : Schema) (projection : List Nat) (contents : CacheKey → Option Bytes)
    (w : World) (c : ScanCursor) (rows : List Row) : Prop :=
  ScanCursor.Holds schema projection contents w c rows ∨
    rows = [] ∧ ∃ a, c = .activeMemTable a ∧ a.current = a.stop

section

variable {schema : Schema} {projection : List Nat}

theorem keeps_model (hprojection : ∀ i ∈ projection, i < schema.size)
    (contents : CacheKey → Option Bytes) :
    CursorModel projection contents (Keeps schema projection contents) where
  stable := by
    intro w w' c rows h hsame
    exact h.imp_left fun hholds => (ScanCursor.model hprojection contents).stable hholds hsame
  done := by
    rintro w c (hholds | ⟨-, a, rfl, hused⟩)
    · exact (ScanCursor.model hprojection contents).done hholds
    · simp [ICursor.valid, hused]
  row := by
    rintro w c row rest hcache (hholds | ⟨hnil, -⟩)
    · obtain ⟨hvalid, hkey, hvalue, c', w', hnext, hcache', hsame, hrest⟩ :=
        (ScanCursor.model hprojection contents).row hcache hholds
      exact ⟨hvalid, hkey, hvalue, c', w', hnext, hcache', hsame, Or.inl hrest⟩
    · cases hnil

/-- What the cursor has left is the same in both worlds. -/
def Unmoved (w w' : World) (c : ScanCursor) : Prop :=
  ∀ a, c = .activeMemTable a → a.current ≠ a.stop →
    w'.generation = w.generation ∧ (w'.memtable = w.memtable ∨
      ∃ row, w'.memtable = w.memtable.insert row ∧
        SortedMap.Clear a.stop a.current (rowKey row))

theorem Unmoved.of_sameMemory {w w' : World} (h : SameMemory w w') (c : ScanCursor) :
    Unmoved w w' c :=
  fun _ _ _ => ⟨h.1, Or.inl h.2⟩

theorem Keeps.moved {contents : CacheKey → Option Bytes} {w w' : World} {c : ScanCursor}
    {rows : List Row} (h : Keeps schema projection contents w c rows) (hmoved : Unmoved w w' c) :
    Keeps schema projection contents w' c rows := by
  rcases h with hholds | hused
  · cases c with
    | activeMemTable a =>
      by_cases hleft : a.current = a.stop
      · obtain ⟨-, -, entries, hwalk, hrows⟩ := hholds
        cases entries with
        | nil => exact Or.inr ⟨hrows.symm, a, rfl, hleft⟩
        | cons e entries => exact absurd hleft hwalk.1
      · obtain ⟨hgeneration, hmemory⟩ := hmoved a rfl hleft
        obtain ⟨hsame, hwidth, entries, hwalk, hrows⟩ := hholds
        refine Or.inl ⟨hgeneration.trans hsame, hwidth, entries, ?_, hrows⟩
        rcases hmemory with heq | ⟨row, heq, hclear⟩
        · rw [heq]
          exact hwalk
        · rw [heq]
          exact SortedMap.walks_insert row hwalk hclear
    | immutableMemTable c => exact Or.inl hholds
    | sstableRow c => exact Or.inl hholds
    | sstableColumn c => exact Or.inl hholds
  · exact Or.inr hused

/-! ## The cursor of a scan -/

/-- Whatever else is built, the cursor has these views left. -/
def HasLeft (schema : Schema) (projection : List Nat) (built : Nat → Option Table)
    (nextSstId : Nat) (w : World) (c : ComposedCursor ScanCursor) (views : List RowView) : Prop :=
  ∀ built' nextSstId', Extends built nextSstId built' nextSstId' → nextSstId' < 2 ^ 64 →
    ∃ rows, c.Holds (Keeps schema projection (contentsOf built' nextSstId')) w rows ∧
      rows.map (viewRow projection) = views

section

variable {built built' : Nat → Option Table} {n n' : Nat} {w w' : World}
  {c c' : ComposedCursor ScanCursor} {views : List RowView}

theorem HasLeft.extends (h : HasLeft schema projection built n w c views)
    (hextends : Extends built n built' n') : HasLeft schema projection built' n' w c views :=
  fun built'' n'' hlater hn => h built'' n'' (hextends.trans hlater) hn

theorem HasLeft.moved (h : HasLeft schema projection built n w c views)
    (hmoved : ∀ leaf ∈ c.leaves, Unmoved w w' leaf) :
    HasLeft schema projection built n w' c views := by
  intro built' n' hextends hn
  obtain ⟨rows, hholds, hviews⟩ := h built' n' hextends hn
  exact ⟨rows, hholds.mono fun leaf hleaf rows hkeeps => hkeeps.moved (hmoved leaf hleaf), hviews⟩

theorem HasLeft.yields (h : HasLeft schema projection built n w c views) (hn : n < 2 ^ 64)
    (hprojection : ∀ i ∈ projection, i < schema.size)
    (hcache : CacheCoherent (contentsOf built n) w.blockCache) : Yields projection c w views := by
  obtain ⟨rows, hholds, rfl⟩ := h built n (Extends.refl built n) hn
  exact (ComposedCursor.model (keeps_model hprojection _)).yields hcache hholds

/-- Reading a row takes it off what is left. -/
theorem HasLeft.next (h : HasLeft schema projection built n w c views) (hn : n < 2 ^ 64)
    (hprojection : ∀ i ∈ projection, i < schema.size)
    (hcache : CacheCoherent (contentsOf built n) w.blockCache) (hvalid : ICursor.valid c = true)
    {key : Key} (hkey : ICursor.key c w = .ok key) {cells : List NullableValue}
    (hcells : projection.mapM (ICursor.value c w) = .ok cells)
    (hnext : ICursor.next c w = .ok (c', w')) :
    ∃ rest, views = ⟨key, cells⟩ :: rest ∧ HasLeft schema projection built n w' c' rest ∧
      SameMemory w w' ∧ CacheCoherent (contentsOf built n) w'.blockCache := by
  have hstep : ∀ built' n', Extends built n built' n' → n' < 2 ^ 64 →
      ∃ rows, c'.Holds (Keeps schema projection (contentsOf built' n')) w' rows ∧
        views = ⟨key, cells⟩ :: rows.map (viewRow projection) ∧
        SameMemory w w' ∧ CacheCoherent (contentsOf built' n') w'.blockCache := by
    intro built' n' hextends hn'
    have hmodel := ComposedCursor.model (keeps_model hprojection (contentsOf built' n'))
    obtain ⟨rows, hholds, rfl⟩ := h built' n' hextends hn'
    cases rows with
    | nil =>
      rw [hmodel.done hholds] at hvalid
      cases hvalid
    | cons row rows =>
      obtain ⟨-, hkey', hvalue, c'', w'', hnext', hcache', hsame, hrest⟩ :=
        hmodel.row (hextends.cacheCoherent hcache) hholds
      rw [hkey, Except.ok.injEq] at hkey'
      rw [Result.mapM_eq_map projection hvalue, Except.ok.injEq] at hcells
      rw [hnext] at hnext'
      cases hnext'
      refine ⟨rows, hrest, ?_, hsame, hcache'⟩
      rw [hkey', ← hcells]
      rfl
  obtain ⟨rows, -, hviews, hsame, hcache'⟩ := hstep built n (Extends.refl built n) hn
  refine ⟨_, hviews, ?_, hsame, hcache'⟩
  intro built' n' hextends hn'
  obtain ⟨rows', hholds, hviews', -⟩ := hstep built' n' hextends hn'
  rw [hviews, List.cons.injEq] at hviews'
  exact ⟨rows', hholds, hviews'.2.symm⟩

end

end

/-! ## Opening it -/

section

variable {built : Nat → Option Table} {tree tree' : LSMTree} {range : KeyRange}
  {projection : List Nat} {filter : DataSkippingFilter}

/-- A scan does not look at the id counter. -/
private theorem openSSTable_later (n : Nat) {info : SSTableInfo} {cursor : Option ScanCursor}
    (h : tree.openSSTable range projection filter info = .ok (cursor, tree')) :
    { tree with nextSstId := n }.openSSTable range projection filter info =
      .ok (cursor, { tree' with nextSstId := n }) := by
  obtain ⟨cache, hget, h⟩ := Result.bind_eq_ok.mp h
  obtain ⟨⟨found, cache', w⟩, hmake, h⟩ := Result.bind_eq_ok.mp h
  cases h
  have hget' : { tree with nextSstId := n }.getOrCreateMetadataCache info = .ok cache := hget
  rw [LSMTree.openSSTable, hget', Result.ok_bind]
  exact Result.bind_eq_ok.mpr ⟨_, hmake, rfl⟩

private theorem foldlM_later (n : Nat) {infos : List SSTableInfo}
    {cursors cursors' : List ScanCursor}
    (h : infos.foldlM (LSMTree.scanSSTable range projection filter) (cursors, tree) =
      .ok (cursors', tree')) :
    infos.foldlM (LSMTree.scanSSTable range projection filter)
        (cursors, { tree with nextSstId := n }) =
      .ok (cursors', { tree' with nextSstId := n }) := by
  induction infos generalizing cursors tree with
  | nil =>
    cases h
    rfl
  | cons info infos ih =>
    rw [List.foldlM_cons] at h ⊢
    obtain ⟨⟨kept, opened⟩, hstep, h⟩ := Result.bind_eq_ok.mp h
    obtain ⟨⟨cursor, next⟩, hopen, hstep⟩ := Result.bind_eq_ok.mp hstep
    refine Result.bind_eq_ok.mpr ⟨(kept, { opened with nextSstId := n }), ?_, ih h⟩
    rw [LSMTree.scanSSTable, openSSTable_later n hopen, Result.ok_bind]
    cases cursor with
    | none =>
      cases hstep
      rfl
    | some cursor =>
      cases hstep
      rfl

private theorem scan_later (n : Nat) {order : ScanOrder} {cursor : ComposedCursor ScanCursor}
    (h : tree.scan range projection order filter = .ok (cursor, tree')) :
    { tree with nextSstId := n }.scan range projection order filter =
      .ok (cursor, { tree' with nextSstId := n }) := by
  obtain ⟨⟨cursors, last⟩, hfold, h⟩ := Result.bind_eq_ok.mp h
  obtain ⟨composed, hcompose, h⟩ := Result.bind_eq_ok.mp h
  cases h
  exact Result.bind_eq_ok.mpr ⟨_, foldlM_later n hfold, Result.bind_eq_ok.mpr ⟨_, hcompose, rfl⟩⟩

/-- The cursor of a scan, whatever is filtered. -/
theorem Invariant.hasLeft_scan (h : Invariant built tree)
    (hlevels : tree.registry.levelCount ≤ 2 ^ 32) (hcrosses : ¬ Crosses tree range)
    (hnodup : projection.Nodup) (hbound : ∀ i ∈ projection, i < tree.schema.size)
    {order : ScanOrder} {cursor : ComposedCursor ScanCursor}
    (hscan : tree.scan range projection order filter = .ok (cursor, tree')) :
    ∃ views, HasLeft tree.schema projection built tree.nextSstId tree'.world cursor views := by
  have hlater : ∀ built' n', Extends built tree.nextSstId built' n' → n' < 2 ^ 64 →
      ∃ rows, cursor.Holds (Keeps tree.schema projection (contentsOf built' n')) tree'.world rows ∧
        Yields projection cursor tree'.world (rows.map (viewRow projection)) := by
    intro built' n' hextends hn
    have hinvariant : Invariant built' { tree with nextSstId := n' } :=
      h.step ⟨rfl, rfl, rfl, rfl, hextends, hn, h.valid, h.storable⟩
        (fun _ hinfo => Or.inl ⟨hinfo, rfl⟩) h.distinct h.filed
    obtain ⟨hlast, hsame, rows, hholds⟩ :=
      hinvariant.of_scan hlevels hcrosses hnodup hbound (scan_later n' hscan)
    refine ⟨rows, hholds.mono fun leaf _ rows hleaf => Or.inl hleaf, ?_⟩
    exact hlast.yields hsame hbound hholds
  obtain ⟨rows, -, hyields⟩ := hlater built _ (Extends.refl built _) h.next
  refine ⟨rows.map (viewRow projection), ?_⟩
  intro built' n' hextends hn
  obtain ⟨rows', hholds, hyields'⟩ := hlater built' n' hextends hn
  exact ⟨rows', hholds, hyields'.unique hyields⟩

end

end Htap.Tree
