import Htap.Cursor.Compose

/-!
`MergeCursor` merges stably: over sources with non-decreasing keys it yields
every row once, in key order, rows with equal keys in the order of their
sources, and reads each row from the cursor it belongs to.
-/

namespace Htap.Properties

open Storage Read Cursor

variable {α : Type} [ICursor α]

/-- Reading a merge to its end. Each row is marked with the index of the source
the merge reads it from, whose own key and cells it has. -/
inductive Draws (projection : List Nat) :
    MergeCursor α → World → List (Nat × RowView) → Prop where
  | done {c : MergeCursor α} {w : World} (h : ICursor.valid c = false) : Draws projection c w []
  | row {c c' : MergeCursor α} {w w' : World} {i : Nat} {source : α} {k : Key}
      {cells : List NullableValue} {rest : List (Nat × RowView)}
      (hvalid : ICursor.valid c = true) (hsource : c.cursors[i]? = some source)
      (hown : ICursor.valid source = true ∧ ICursor.key source w = .ok k ∧
        projection.mapM (ICursor.value source w) = .ok cells)
      (hkey : ICursor.key c w = .ok k)
      (hcells : projection.mapM (ICursor.value c w) = .ok cells)
      (hnext : ICursor.next c w = .ok (c', w')) (hrest : Draws projection c' w' rest) :
      Draws projection c w ((i, ⟨k, cells⟩) :: rest)

/-- Without the marks, that is what the merge yields. -/
theorem Draws.yields {projection : List Nat} {c : MergeCursor α} {w : World}
    {views : List (Nat × RowView)} (h : Draws projection c w views) :
    Yields projection c w (views.map Prod.snd) := by
  induction h with
  | done h => exact Yields.done h
  | row hvalid _ _ hkey hcells hnext _ ih => exact Yields.row hvalid hkey hcells hnext ih

variable {projection : List Nat} {contents : CacheKey → Option Bytes}
  {Leaf : World → α → List Row → Prop}

/-- From any state of the merge on, the rows left come as a stable merge. -/
private theorem draws_merge (hmodel : CursorModel projection contents Leaf) {c : MergeCursor α}
    {w : World} {sources : List (List Row)} (hcache : CacheCoherent contents w.blockCache)
    (hleaves : List.Forall₂ (Leaf w) c.cursors sources)
    (hsorted : ∀ source ∈ sources, Merging.SortedBy rowKey source)
    (hheap : Merging.HeapOf (Merging.headKey rowKey sources) c.heap) :
    ∃ out, Merging.IsStableMerge rowKey sources out ∧ (out.map Prod.snd).Perm sources.flatten ∧
      Draws projection c w (out.map fun item => (item.1, viewRow projection item.2)) := by
  -- on the rows that are left: a step takes one of them
  generalize hrows : Merging.stableSort rowKey sources.flatten = rows
  induction rows generalizing c w sources with
  | nil =>
    have hperm := Merging.stableSort_perm rowKey sources.flatten
    rw [hrows] at hperm
    have hnone := List.nil_perm.mp hperm
    refine ⟨[], Merging.IsStableMerge.nil hnone, by rw [hnone]; exact List.Perm.refl _, ?_⟩
    apply Draws.done
    have hholds : MergeCursor.Holds Leaf w c [] := ⟨sources, hleaves, hsorted, hheap, hrows.symm⟩
    exact (MergeCursor.model hmodel).done hholds
  | cons row rest ih =>
    have hholds : MergeCursor.Holds Leaf w c (row :: rest) :=
      ⟨sources, hleaves, hsorted, hheap, hrows.symm⟩
    obtain ⟨hvalid, hkey, hvalue, -⟩ := (MergeCursor.model hmodel).row hcache hholds
    cases hitems : c.heap with
    | nil => simp [ICursor.valid, hitems] at hvalid
    | cons top heap =>
      obtain ⟨k, i⟩ := top
      obtain ⟨first, more, cursor, hsource, rfl, hfirst, hget, hleaf⟩ :=
        MergeCursor.top_spec hleaves hheap hitems
      have hpop := Merging.stableSort_flatten_pop rowKey sources i first more hsorted hsource hfirst
      rw [hrows, List.cons.injEq] at hpop
      obtain ⟨rfl, hleft⟩ := hpop
      obtain ⟨c', w', hnext, hcache', -, hleaves', hheap'⟩ :=
        MergeCursor.next_spec hmodel hcache hleaves hheap hitems hsource
      have hsorted' := Merging.sortedBy_set rowKey sources i _ more hsorted hsource
      obtain ⟨out, hmerge, hperm, hdraws⟩ := ih hcache' hleaves' hsorted' hheap' hleft.symm
      obtain ⟨hown, hownKey, hownValue, -⟩ := hmodel.row hcache hleaf
      refine ⟨(i, row) :: out, hmerge.cons hsorted hsource hfirst, ?_, ?_⟩
      · have hsort := Merging.stableSort_perm rowKey sources.flatten
        have hsort' := Merging.stableSort_perm rowKey (sources.set i more).flatten
        rw [hrows] at hsort
        rw [← hleft] at hsort'
        exact ((hperm.trans hsort'.symm).cons row).trans hsort
      · exact Draws.row hvalid hget
          ⟨hown, hownKey, Result.mapM_eq_map projection hownValue⟩ hkey
          (Result.mapM_eq_map projection hvalue) hnext hdraws

/-- Over sources that yield sorted rows a merge is stable, a chain yields the same rows, and
so does `compose_cursors` in both scan orders. The cursors may be of any kind, also
compositions: `hmodel` is what the interface promises of a cursor in a world whose cache is
coherent. -/
theorem merge_is_stable (hmodel : CursorModel projection contents Leaf) {w : World}
    (hcache : CacheCoherent contents w.blockCache) {cursors : List α} {sources : List (List Row)}
    (hsources : List.Forall₂ (Leaf w) cursors sources)
    (hsorted : ∀ source ∈ sources, Merging.SortedBy rowKey source) :
    (∃ c out, MergeCursor.create cursors w = .ok c ∧
      Draws projection c w (out.map fun item => (item.1, viewRow projection item.2)) ∧
      Merging.IsStableMerge rowKey sources out ∧ (out.map Prod.snd).Perm sources.flatten) ∧
    Yields projection (ChainCursor.create cursors) w
      (sources.flatten.map (viewRow projection)) ∧
    ∀ order, ∃ (c : ComposedCursor α) (rows : List Row), composeCursors cursors order w = .ok c ∧
      Yields projection c w (rows.map (viewRow projection)) ∧ rows.Perm sources.flatten := by
  refine ⟨?_, ?_, fun order => ?_⟩
  · obtain ⟨heap, hcreate, hheap⟩ := MergeCursor.create_heap hmodel hcache hsources
    obtain ⟨out, hmerge, hperm, hdraws⟩ := @draws_merge α _ projection contents Leaf hmodel
      ⟨cursors, heap⟩ w sources hcache hsources hsorted hheap
    exact ⟨_, out, hcreate, hdraws, hmerge, hperm⟩
  · have hskip := @ChainCursor.holds_skip α _ projection contents Leaf hmodel cursors 0 sources w
      hcache hsources
    exact (ChainCursor.model hmodel).yields hcache hskip
  · obtain ⟨c, hcompose, hholds⟩ :=
      composeCursors_spec hmodel hcache hsources order fun _ => hsorted
    exact ⟨c, ordered order sources, hcompose,
      (ComposedCursor.model hmodel).yields hcache hholds, ordered_perm order sources⟩

/-- Three memtables, one of them empty, the others with a key in common. -/
private def threeSources : List (List Row) :=
  [[[some (.int64 1), none], [some (.int64 3), some (.int64 7)]], [],
    [[some (.int64 1), some (.int64 8)]]]

private def threeCursors : List ImmutableMemTableCursor :=
  threeSources.map fun rows => ⟨rows, 0, rows.length⟩

theorem merge_is_stable_three :
    ∃ c out, MergeCursor.create threeCursors ⟨0, MemTable.empty, none⟩ = .ok c ∧
      Draws [1] c ⟨0, MemTable.empty, none⟩
        (out.map fun item => (item.1, viewRow [1] item.2)) ∧
      Merging.IsStableMerge rowKey threeSources out := by
  have hmodel := @ImmutableMemTableCursor.model [1] 2 (by decide) fun _ => none
  have hcache : CacheCoherent (fun _ => none) none := fun c hc => nomatch hc
  have hsources : List.Forall₂ (ImmutableMemTableCursor.Holds 2 ⟨0, MemTable.empty, none⟩)
      threeCursors threeSources := by
    refine .cons ?_ (.cons ?_ (.cons ?_ .nil))
    · exact ⟨by decide, by decide, by decide, rfl⟩
    · exact ⟨by decide, by decide, by decide, rfl⟩
    · exact ⟨by decide, by decide, by decide, rfl⟩
  have hsorted : ∀ source ∈ threeSources, Merging.SortedBy rowKey source := by
    unfold Merging.SortedBy
    decide
  obtain ⟨⟨c, out, hcreate, hdraws, hmerge, -⟩, -⟩ :=
    merge_is_stable hmodel hcache hsources hsorted
  exact ⟨c, out, hcreate, hdraws, hmerge⟩

end Htap.Properties
