import Htap.Tree.KeyTable
import Htap.Tree.Snapshot

/-!
A cursor that stays open. Its iterators into the active memtable are those of a map that
later insertions change, and that a freeze moves away.
-/

namespace Htap.Properties

open Storage SSTable Read Cursor Htap.Tree Htap.Tree.Session

/-- A cursor after some rows were read, the table going on by steps that are allowed. -/
inductive Watched (Allowed : ComposedCursor ScanCursor → Session → Session → Prop)
    (projection : List Nat) (opened : Session) (cursor : ComposedCursor ScanCursor) :
    Session → ComposedCursor ScanCursor → List RowView → Prop
  | opened : Watched Allowed projection opened cursor opened cursor []
  | step {s s' : Session} {c : ComposedCursor ScanCursor} {views : List RowView}
    (h : Watched Allowed projection opened cursor s c views) (hstep : Step s s')
    (hallowed : Allowed c s s') (halone : s'.Alone) (hbounded : s'.Bounded) :
    Watched Allowed projection opened cursor s' c views
  | read {s : Session} {c c' : ComposedCursor ScanCursor} {w : World} {key : Key}
    {cells : List NullableValue} {views : List RowView}
    (h : Watched Allowed projection opened cursor s c views) (hvalid : ICursor.valid c = true)
    (hkey : ICursor.key c s.tree.world = .ok key)
    (hcells : projection.mapM (ICursor.value c s.tree.world) = .ok cells)
    (hnext : ICursor.next c s.tree.world = .ok (c', w)) :
    Watched Allowed projection opened cursor
      { s with tree := { s.tree with blockCache := w.blockCache } } c' (views ++ [⟨key, cells⟩])

/-- The rows that were read and those that are left are the rows that were there when the
scan returned. -/
def IsSnapshot (projection : List Nat) (opened : Session) (cursor : ComposedCursor ScanCursor)
    (s : Session) (c : ComposedCursor ScanCursor) (views : List RowView) : Prop :=
  ∃ rest, Yields projection cursor opened.tree.world (views ++ rest) ∧
    Yields projection c s.tree.world rest

/-- If iterators into the active memtable are not used up, an insertion does not freeze
the memtable, and its key is outside of the stretch they have left. -/
def Spares (c : ComposedCursor ScanCursor) (s s' : Session) : Prop :=
  ∀ row, s'.inserted = s.inserted ++ [row] → ∀ a, .activeMemTable a ∈ c.leaves →
    a.current ≠ a.stop →
    (s.tree.memoryLayer.active.insert row).size < s.tree.memoryLayer.threshold ∧
      SortedMap.Clear a.stop a.current (rowKey row)

section

variable {built : Nat → Option Table} {s s' : Session} {c : ComposedCursor ScanCursor}

private theorem unmoved_insertRow {row : Row} {a : ActiveMemTableCursor}
    (hfits : (s.tree.memoryLayer.active.insert row).size < s.tree.memoryLayer.threshold)
    (hclear : SortedMap.Clear a.stop a.current (rowKey row)) :
    Unmoved s.tree.world (s.tree.insertRow row).world (.activeMemTable a) := by
  rintro other heq -
  cases heq
  have hlayer : s.tree.memoryLayer.insert row =
      { s.tree.memoryLayer with active := s.tree.memoryLayer.active.insert row } := by
    unfold MemoryLayer.insert
    exact if_pos hfits
  rw [LSMTree.insertRow, LSMTree.world, hlayer]
  exact ⟨rfl, Or.inr ⟨row, rfl, hclear⟩⟩

/-- A step that spares the cursor leaves what its leaves have left. -/
theorem unmoved_of_spares (h : Working built s) (hstep : Step s s')
    (hspares : Spares c s s') : ∀ leaf ∈ c.leaves, Unmoved s.tree.world s'.tree.world leaf := by
  intro leaf hleaf
  obtain ⟨-, ⟨row, htree, hinserted⟩ | ⟨-, hsame⟩⟩ := h.memory_step hstep
  · rw [htree]
    intro a ha hleft
    subst ha
    obtain ⟨hfits, hclear⟩ := hspares row hinserted a hleaf hleft
    exact unmoved_insertRow hfits hclear a rfl hleft
  · exact Unmoved.of_sameMemory hsame leaf

/-- The run behind a cursor: the rows read and the rows left make up the whole. -/
private theorem watched_keeps {opened : Session} {cursor : ComposedCursor ScanCursor}
    {projection : List Nat} {all views : List RowView} (hopened : Working built opened)
    (hbound : ∀ i ∈ projection, i < opened.tree.schema.size)
    (hall : HasLeft opened.tree.schema projection built opened.tree.nextSstId opened.tree.world
      cursor all)
    (hwatched : Watched Spares projection opened cursor s c views) :
    ∃ built' rest, Working built' s ∧ s.tree.schema = opened.tree.schema ∧ all = views ++ rest ∧
      HasLeft opened.tree.schema projection built' s.tree.nextSstId s.tree.world c rest := by
  induction hwatched with
  | opened => exact ⟨built, all, hopened, rfl, rfl, hall⟩
  | step _ hstep hspares halone hbounded ih =>
    obtain ⟨built', rest, hworking, hschema, hviews, hleft⟩ := ih
    obtain ⟨built'', hextends, hworking', -⟩ := hworking.step hstep halone hbounded
    obtain ⟨hschema', -⟩ := hworking.memory_step hstep
    exact ⟨built'', rest, hworking', hschema'.trans hschema, hviews,
      (hleft.extends hextends).moved (unmoved_of_spares hworking hstep hspares)⟩
  | @read s c c' w key cells views _ hvalid hkey hcells hnext ih =>
    obtain ⟨built', rest, hworking, hschema, hviews, hleft⟩ := ih
    obtain ⟨rest', rfl, hleft', hsame, hcache⟩ := hleft.next hworking.invariant.next hbound
      hworking.invariant.blocks hvalid hkey hcells hnext
    have hcached : SameData s.tree { s.tree with blockCache := w.blockCache } := rfl
    obtain ⟨hworking', -⟩ := hworking.read hcached (hworking.invariant.advanced hcache)
      (fun e he => Or.inl ⟨e, he, rfl⟩) hworking.cursors
    refine ⟨built', rest', hworking', hschema, ?_, ?_⟩
    · rw [hviews, List.append_assoc]
      rfl
    · exact hleft'.moved fun leaf _ =>
        Unmoved.of_sameMemory ⟨hsame.1.symm, hsame.2.symm⟩ leaf

end

/-- A cursor is a snapshot as long as every insertion spares its iterators into the active
memtable: flushes, compactions and other scans may do what they like. When the scan is opened, no
key of the memory may lie between swapped bounds, as its iterators would start behind their end. -/
theorem scan_is_snapshot {start s s' : Session} (hstart : Starts start) (hlife : Life start s)
    {fromKey toKey : Option Key} (hcrosses : ¬ Crosses s.tree ⟨fromKey, toKey⟩)
    {projection : List Nat} {order : ScanOrder} {filter : DataSkippingFilter}
    {cursor c : ComposedCursor ScanCursor} {tree : LSMTree}
    (hscan : LSMStorageEngine.scan s.tree fromKey toKey projection order filter =
      .ok (cursor, tree)) {views : List RowView}
    (hwatched : Watched Spares projection { s with tree := tree } cursor s' c views) :
    IsSnapshot projection { s with tree := tree } cursor s' c views := by
  obtain ⟨built, hsound⟩ := hlife.sound hstart
  obtain ⟨⟨⟩, hprojection, htree⟩ := Result.bind_eq_ok.mp hscan
  obtain ⟨hnodup, hbound⟩ := validateProjection_ok hprojection
  have hopened := hsound.invariant.opened_scan hsound.levelCount_le hscan
  obtain ⟨hworking, -⟩ := hsound.read hopened.same hopened.invariant hopened.known hsound.cursors
  have hschema : tree.schema = s.tree.schema := by rw [hopened.same]
  have hnext : tree.nextSstId = s.tree.nextSstId := by rw [hopened.same]
  obtain ⟨all, hall⟩ := hsound.invariant.hasLeft_scan hsound.levelCount_le hcrosses hnodup hbound
    htree
  rw [← hschema, ← hnext] at hall
  rw [← hschema] at hbound
  obtain ⟨built', rest, hworking', -, rfl, hleft⟩ := watched_keeps hworking hbound hall hwatched
  refine ⟨rest, ?_, ?_⟩
  · exact hall.yields hworking.invariant.next hbound hworking.invariant.blocks
  · exact hleft.yields hworking'.invariant.next hbound hworking'.invariant.blocks

/-! ## One open cursor -/

private def openConfig : StorageConfig := { rootPath := [47, 100] }

private def oneKey : Session := (keyTable openConfig).insertKey 1

/-- The cursor of a full scan over the one row in the active memtable. -/
private def overOneKey : ComposedCursor ScanCursor := .single (.activeMemTable ⟨0, some 1, none⟩)

private theorem oneKey_bounded : oneKey.Bounded :=
  bounded_insertKey (bounded_keyTable _) 1 (by norm_num [keyTable])

private theorem oneKey_life : Life (keyTable openConfig) oneKey :=
  .step (.start (bounded_keyTable _)) (step_insertKey rfl 1) (Nat.zero_le 1) oneKey_bounded

private theorem oneKey_scan :
    LSMStorageEngine.scan oneKey.tree none none [0] .unordered {} =
      .ok (overOneKey, oneKey.tree) := rfl

/-- A key below the stretch that is left. -/
theorem scan_is_snapshot_below :
    IsSnapshot [0] oneKey overOneKey (oneKey.insertKey 0) overOneKey [] := by
  have hbounded : (oneKey.insertKey 0).Bounded :=
    bounded_insertKey oneKey_bounded 0 (by norm_num [oneKey, keyTable, insertKey])
  have hspares : Spares overOneKey oneKey (oneKey.insertKey 0) := by
    intro row hrow a ha _
    obtain rfl := List.singleton_injective (List.append_cancel_left hrow)
    cases List.mem_singleton.mp ha
    refine ⟨by decide, Or.inr (Or.inl ?_)⟩
    intro key hkey
    cases hkey
    decide
  have hwatched : Watched Spares [0] oneKey overOneKey (oneKey.insertKey 0) overOneKey [] :=
    .step .opened (step_insertKey rfl 0) hspares (Nat.zero_le 1) hbounded
  have hcrosses : ¬ Crosses oneKey.tree ⟨none, none⟩ := by
    rintro ⟨lower, hlower, -⟩
    cases hlower
  exact scan_is_snapshot (starts_keyTable rfl) oneKey_life hcrosses oneKey_scan hwatched

/-- A row inserted after the scan returned, before the first row was read, is read too. -/
theorem later_insertion_is_read : Starts (keyTable openConfig) ∧
    Life (keyTable openConfig) oneKey ∧
    LSMStorageEngine.scan oneKey.tree none none [0] .unordered {} =
      .ok (overOneKey, oneKey.tree) ∧
    Watched (fun _ _ _ => True) [0] oneKey overOneKey (oneKey.insertKey 2) overOneKey [] ∧
    ¬ IsSnapshot [0] oneKey overOneKey (oneKey.insertKey 2) overOneKey [] := by
  have hbounded : (oneKey.insertKey 2).Bounded :=
    bounded_insertKey oneKey_bounded 2 (by norm_num [oneKey, keyTable, insertKey])
  refine ⟨starts_keyTable rfl, oneKey_life, oneKey_scan,
    .step .opened (step_insertKey rfl 2) trivial (Nat.zero_le 1) hbounded, ?_⟩
  rintro ⟨rest, hbefore, hafter⟩
  have hone : Yields [0] overOneKey oneKey.tree.world [⟨1, [some (.int64 1)]⟩] :=
    .row rfl rfl rfl rfl (.done rfl)
  have htwo : Yields [0] overOneKey (oneKey.insertKey 2).tree.world
      [⟨1, [some (.int64 1)]⟩, ⟨2, [some (.int64 2)]⟩] :=
    .row rfl rfl rfl rfl (.row rfl rfl rfl rfl (.done rfl))
  have hlength := congrArg List.length ((hbefore.unique hone).symm.trans (hafter.unique htwo))
  exact absurd hlength (by decide)

end Htap.Properties
