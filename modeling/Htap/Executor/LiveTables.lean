import Htap.Executor.LSMEngine
import Htap.Executor.SameReads
import Htap.Properties.ScanSnapshot

/-!
A SELECT while other threads are at work. Between any two calls of its cursor the table goes
on, so that every call may find another state of it than the one before.
-/

namespace Htap.Executor

open Storage SSTable Read Cursor Words Htap.Tree Htap.Tree.Session
open Htap.Properties (Spares unmoved_of_spares)

/-- The calls of a cursor that read what it shares with other threads. -/
inductive CursorCall
  | key
  | value (columnIdx : Nat)
  | next
  deriving DecidableEq

/-- The state that a call finds, by the number of rows passed and the state that the cursor
came to its row in. -/
abbrev Schedule : Type := Nat → CursorCall → ComposedCursor ScanCursor → Session → Session

/-- A cursor of a table that does not stand still. -/
structure LiveCursor where
  cursor : ComposedCursor ScanCursor
  table : Session
  schedule : Schedule
  passed : Nat

/-- A cursor was moved, and blocks that it read are cached. -/
def cached (s : Session) (w : World) : Session :=
  { s with tree := { s.tree with blockCache := w.blockCache } }

namespace LiveCursor

/-- The table when the call is made. -/
def finds (c : LiveCursor) (call : CursorCall) : Session :=
  c.schedule c.passed call c.cursor c.table

-- The worlds that are handed around are not looked at: a call reads the table it finds.
instance : ICursor LiveCursor where
  valid c := ICursor.valid c.cursor
  next c w := do
    let s := c.finds .next
    let (cursor, after) ← ICursor.next c.cursor s.tree.world
    return ({ c with cursor := cursor, table := cached s after, passed := c.passed + 1 }, w)
  key c _ := ICursor.key c.cursor (c.finds .key).tree.world
  value c _ columnIdx := ICursor.value c.cursor (c.finds (.value columnIdx)).tree.world columnIdx

theorem next_eq {c : LiveCursor} {moved : ComposedCursor ScanCursor} {after : World}
    (h : ICursor.next c.cursor (c.finds .next).tree.world = .ok (moved, after)) (w : World) :
    ICursor.next c w =
      .ok (⟨moved, cached (c.finds .next) after, c.schedule, c.passed + 1⟩, w) :=
  Result.bind_eq_ok.mpr ⟨_, h, rfl⟩

end LiveCursor

/-- `LSMStorageEngine`, its tables in the hands of other threads as well. -/
def liveStorageEngine (tables : Bytes → Option Session) (schedule : Schedule) :
    IStorageEngine LiveCursor where
  tableExists tableName := (tables tableName).isSome
  getTableSchema tableName :=
    match tables tableName with
    | none => .error tableDoesNotExist
    | some s => .ok s.tree.schema
  get tableName key projection :=
    match tables tableName with
    | none => .error tableDoesNotExist
    | some s => do
      let (cursor, tree) ← LSMStorageEngine.get s.tree key projection
      return (⟨cursor, { s with tree := tree }, schedule, 0⟩, tree.world)
  scan tableName fromKey toKey projection order filter :=
    match tables tableName with
    | none => .error tableDoesNotExist
    | some s => do
      let (cursor, tree) ← LSMStorageEngine.scan s.tree fromKey toKey projection order filter
      return (⟨cursor, { s with tree := tree }, schedule, 0⟩, tree.world)

/-- What other threads may do while the cursor is open: anything that spares the iterators
it has into the active memtable. -/
def Meanwhile (c : ComposedCursor ScanCursor) : Session → Session → Prop :=
  Relation.ReflTransGen fun s s' => Step s s' ∧ Spares c s s' ∧ s'.Alone ∧ s'.Bounded

/-- Only such things happen between two calls. -/
def Schedule.Spares (schedule : Schedule) : Prop :=
  ∀ passed call c s, s.Alone → s.Bounded → Meanwhile c s (schedule passed call c s)

/-! ## What is left to read -/

section

variable {built : Nat → Option Table} {s s' : Session} {schema : Schema} {projection : List Nat}
  {c : ComposedCursor ScanCursor} {views : List RowView}

/-- The cursor of a table that is in order, and what it has left. -/
structure Left (built : Nat → Option Table) (s : Session) (schema : Schema)
    (projection : List Nat) (c : ComposedCursor ScanCursor) (views : List RowView) : Prop where
  working : Working built s
  same : s.tree.schema = schema
  left : HasLeft schema projection built s.tree.nextSstId s.tree.world c views

/-- What a cursor has left does not change while others are at work. -/
theorem Left.meanwhile (h : Left built s schema projection c views)
    (hmeanwhile : Meanwhile c s s') : ∃ built', Left built' s' schema projection c views := by
  induction hmeanwhile with
  | refl => exact ⟨built, h⟩
  | tail _ hstep ih =>
    obtain ⟨built', hworking, hschema, hleft⟩ := ih
    obtain ⟨hstep, hspares, halone, hbounded⟩ := hstep
    obtain ⟨built'', hextends, hworking', -⟩ := hworking.step hstep halone hbounded
    obtain ⟨hschema', -⟩ := hworking.memory_step hstep
    exact ⟨built'', hworking', hschema'.trans hschema,
      (hleft.extends hextends).moved (unmoved_of_spares hworking hstep hspares)⟩

theorem Left.yields (h : Left built s schema projection c views)
    (hbound : ∀ i ∈ projection, i < schema.size) : Yields projection c s.tree.world views :=
  h.left.yields h.working.invariant.next hbound h.working.invariant.blocks

/-- A row is read, and what is left after it. -/
theorem Left.next {key : Key} {cells : List NullableValue} {rest : List RowView}
    (h : Left built s schema projection c (⟨key, cells⟩ :: rest))
    (hbound : ∀ i ∈ projection, i < schema.size) :
    ∃ c' w, ICursor.next c s.tree.world = .ok (c', w) ∧
      Left built (cached s w) schema projection c' rest := by
  cases h.yields hbound with
  | @row _ c' _ w _ _ _ hvalid hkey hcells hnext _ =>
    obtain ⟨hworking, hschema, hleft⟩ := h
    obtain ⟨rest', hviews, hleft', hsame, hcache⟩ := hleft.next hworking.invariant.next hbound
      hworking.invariant.blocks hvalid hkey hcells hnext
    obtain ⟨-, rfl⟩ := List.cons.inj hviews
    have hcached : SameData s.tree { s.tree with blockCache := w.blockCache } := rfl
    obtain ⟨hworking', -⟩ := hworking.read hcached (hworking.invariant.advanced hcache)
      (fun e he => Or.inl ⟨e, he, rfl⟩) hworking.cursors
    refine ⟨c', w, hnext, hworking', hschema, ?_⟩
    exact hleft'.moved fun leaf _ => Unmoved.of_sameMemory ⟨hsame.1.symm, hsame.2.symm⟩ leaf

/-- The values that calls find in states of their own make up one row. -/
private theorem mapM_of_worlds {α : Type} [ICursor α] {c : α} {world : Nat → World}
    {key : Key} {cells : List NullableValue} {rest : List RowView}
    (h : ∀ i, Yields projection c (world i) (⟨key, cells⟩ :: rest)) :
    (projection.mapM fun i => ICursor.value c (world i) i) = .ok cells := by
  have hcells : ∀ i, projection.mapM (ICursor.value c (world i)) = .ok cells := by
    intro i
    cases h i with
    | row _ _ hcells _ _ => exact hcells
  rw [← hcells 0]
  apply Result.mapM_congr
  intro i hi
  exact values_eq (hcells i) (hcells 0) i hi

/-- Whatever the others do, the cursor yields what it has left. -/
theorem Left.yields_live {schedule : Schedule} (hspares : schedule.Spares)
    (hbound : ∀ i ∈ projection, i < schema.size) (h : Left built s schema projection c views)
    (passed : Nat) (w : World) :
    Yields projection (⟨c, s, schedule, passed⟩ : LiveCursor) w views := by
  induction views generalizing built s c passed with
  | nil =>
    cases h.yields hbound with
    | done hinvalid => exact .done hinvalid
  | cons view rest ih =>
    obtain ⟨key, cells⟩ := view
    have hfinds : ∀ call, ∃ built',
        Left built' (schedule passed call c s) schema projection c (⟨key, cells⟩ :: rest) :=
      fun call => h.meanwhile (hspares passed call c s h.working.alone h.working.bounded)
    have hyields : ∀ call,
        Yields projection c (schedule passed call c s).tree.world (⟨key, cells⟩ :: rest) := by
      intro call
      obtain ⟨built', hleft⟩ := hfinds call
      exact hleft.yields hbound
    have hcells := mapM_of_worlds fun i => hyields (.value i)
    obtain ⟨built', hleft⟩ := hfinds .next
    obtain ⟨c', w', hnext, hrest⟩ := hleft.next hbound
    have hmoves := @LiveCursor.next_eq ⟨c, s, schedule, passed⟩ c' w' hnext w
    cases hyields .key with
    | row hvalid hkey _ _ _ => exact .row hvalid hkey hcells hmoves (ih hrest (passed + 1))

/-! ## Opening a cursor -/

variable {tables : Bytes → Option Session} {schedule : Schedule} {tableName : Bytes}

private theorem openAlike_scan (hsound : Sound built s) (hspares : schedule.Spares)
    {range : KeyRange} (hordered : range.Ordered) {order : ScanOrder}
    {filter : DataSkippingFilter} :
    OpenAlike projection
      (do
        let (cursor, tree) ←
          LSMStorageEngine.scan s.tree range.fromKey range.toKey projection order filter
        return ((⟨cursor, { s with tree := tree }, schedule, 0⟩ : LiveCursor), tree.world))
      (do
        let (cursor, tree) ←
          LSMStorageEngine.scan s.tree range.fromKey range.toKey projection order filter
        return (cursor, tree.world)) := by
  cases hscan : LSMStorageEngine.scan s.tree range.fromKey range.toKey projection order filter with
  | error e => exact .fails e
  | ok opened =>
    obtain ⟨cursor, tree⟩ := opened
    obtain ⟨⟨⟩, hprojection, htree⟩ := Result.bind_eq_ok.mp hscan
    obtain ⟨hnodup, hbound⟩ := validateProjection_ok hprojection
    have hopened := hsound.invariant.opened_scan hsound.levelCount_le hscan
    obtain ⟨hworking, -⟩ := hsound.read hopened.same hopened.invariant hopened.known hsound.cursors
    obtain ⟨views, hviews⟩ := hsound.invariant.hasLeft_scan hsound.levelCount_le
      (not_crosses_of_ordered s.tree hordered) hnodup hbound htree
    have hschema : tree.schema = s.tree.schema := by rw [hopened.same]
    have hnext : tree.nextSstId = s.tree.nextSstId := by rw [hopened.same]
    rw [← hnext] at hviews
    have hleft : Left built { s with tree := tree } s.tree.schema projection cursor views :=
      ⟨hworking, hschema, hviews⟩
    exact .opens (hleft.yields_live hspares hbound 0 tree.world) (hleft.yields hbound)

private theorem get_eq_scan (tree : LSMTree) (key : Key) :
    LSMStorageEngine.get tree key projection =
      LSMStorageEngine.scan tree (LSMStorageEngine.keyRange key).fromKey
        (LSMStorageEngine.keyRange key).toKey projection .unordered {} := rfl

/-- Other threads do not show in what the engine reads. -/
theorem servesAlike_live (hsound : ∀ s, tables tableName = some s → ∃ built, Sound built s)
    (hspares : schedule.Spares) :
    ServesAlike (liveStorageEngine tables schedule)
      (lsmStorageEngine fun name => (tables name).map Session.tree) tableName := by
  cases htable : tables tableName with
  | none =>
    constructor
    · intro key projection
      simp only [liveStorageEngine, lsmStorageEngine, htable, Option.map_none]
      exact .fails tableDoesNotExist
    · intro fromKey toKey projection order filter _
      simp only [liveStorageEngine, lsmStorageEngine, htable, Option.map_none]
      exact .fails tableDoesNotExist
  | some s =>
    obtain ⟨built, hsound⟩ := hsound s htable
    constructor
    · intro key projection
      simp only [liveStorageEngine, lsmStorageEngine, htable, Option.map_some, get_eq_scan]
      exact openAlike_scan hsound hspares (ordered_keyRange key)
    · intro fromKey toKey projection order filter hordered
      simp only [liveStorageEngine, lsmStorageEngine, htable, Option.map_some]
      exact openAlike_scan hsound hspares hordered

end

end Htap.Executor
