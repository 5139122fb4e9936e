import Htap.Executor.LSMEngine
import Htap.Tree.WholeSteps

/-!
The table of pairs in the LSM engine: any pairs of distinct keys can be inserted into it.
-/

namespace Htap.Executor

open Storage SSTable Read Cursor Words Htap.Tree Htap.Tree.Session Htap.Parser

theorem numbers_pairs (pairs : List (Int64 × Int64)) : Numbers (pairs.map pairRow) := by
  intro row hrow d hd
  obtain ⟨pair, -, rfl⟩ := List.mem_map.mp hrow
  rcases List.mem_cons.mp hd with h | h
  · cases h
  · cases List.mem_singleton.mp h

theorem storable_pairs (pairs : List (Int64 × Int64)) :
    ∀ row ∈ pairs.map pairRow, StorableRow row := by
  intro row hrow value hvalue text htext
  obtain ⟨pair, -, rfl⟩ := List.mem_map.mp hrow
  rcases List.mem_cons.mp hvalue with h | h
  · rw [h] at htext
    cases htext
  · rw [List.mem_singleton.mp h] at htext
    cases htext

/-- The session of a new table of pairs. -/
def newPairs (config : StorageConfig) : Session where
  tree := {
    schema := pairSchema
    config := config
    memoryLayer := { threshold := config.memtableThreshold }
    opened := ⟨fun _ => none, none⟩ }

def insertPair (s : Session) (pair : Int64 × Int64) : Session :=
  { s with tree := s.tree.insertRow (pairRow pair), inserted := s.inserted ++ [pairRow pair] }

/-- The session after the pairs were inserted one after another. -/
def pairSession (config : StorageConfig) (pairs : List (Int64 × Int64)) : Session :=
  pairs.foldl insertPair (newPairs config)

/-- The only table of an engine. -/
def onlyTable (tableName : Bytes) (s : Session) (name : Bytes) : Option LSMTree :=
  if name = tableName then some s.tree else none

section

variable {config : StorageConfig} {pairs : List (Int64 × Int64)}

theorem pairSession_concat (pair : Int64 × Int64) :
    pairSession config (pairs ++ [pair]) = insertPair (pairSession config pairs) pair := by
  rw [pairSession, List.foldl_append]
  rfl

private theorem schema_pairSession : (pairSession config pairs).tree.schema = pairSchema := by
  induction pairs using List.reverseRecOn with
  | nil => rfl
  | append_singleton pairs pair ih =>
    rw [pairSession_concat]
    exact ih

theorem inserted_pairSession : (pairSession config pairs).inserted = pairs.map pairRow := by
  induction pairs using List.reverseRecOn with
  | nil => rfl
  | append_singleton pairs pair ih =>
    rw [pairSession_concat, List.map_append, ← ih]
    rfl

private theorem idle_pairSession : (pairSession config pairs).jobs = [] ∧
    (pairSession config pairs).tree.nextSstId = 0 := by
  induction pairs using List.reverseRecOn with
  | nil => exact ⟨rfl, rfl⟩
  | append_singleton pairs pair ih =>
    rw [pairSession_concat]
    exact ih

theorem alone_pairSession : (pairSession config pairs).Alone := by
  rw [Alone, idle_pairSession.1]
  exact Nat.zero_le 1

theorem bounded_pairSession (hfew : pairs.length + 7 < 2 ^ 32) :
    (pairSession config pairs).Bounded := by
  constructor
  · rw [schema_pairSession]
    change 2 ≤ 65535
    norm_num
  · rw [inserted_pairSession]
    exact storable_pairs pairs
  · rw [inserted_pairSession, List.length_map]
    exact hfew
  · rw [idle_pairSession.2]
    norm_num

theorem step_insertPair (pair : Int64 × Int64) :
    Step (pairSession config pairs) (insertPair (pairSession config pairs) pair) := by
  apply Step.insert
  rw [LSMStorageEngine.insert, schema_pairSession]
  rfl

theorem run_pairSession (hfew : pairs.length + 7 < 2 ^ 32) :
    Run (fun _ _ => True) (newPairs config) (pairSession config pairs) := by
  induction pairs using List.reverseRecOn with
  | nil =>
    apply Run.start
    exact bounded_pairSession hfew
  | append_singleton pairs pair ih =>
    rw [List.length_append, List.length_singleton] at hfew
    rw [pairSession_concat]
    apply Run.step (ih (by omega)) (step_insertPair pair) trivial
    · rw [← pairSession_concat]
      exact alone_pairSession
    · rw [← pairSession_concat]
      apply bounded_pairSession
      rw [List.length_append, List.length_singleton]
      exact hfew

theorem starts_newPairs (hcreate : LSMTree.create pairSchema config ⟨fun _ => none, none⟩ =
    .ok (newPairs config).tree) : Starts (newPairs config) :=
  .create pairSchema_fromBuilder.wellFormed hcreate

theorem keys_pairSession (hkeys : (pairs.map Prod.fst).Nodup) :
    ((pairSession config pairs).inserted.map rowKey).Nodup := by
  rw [inserted_pairSession, List.map_map]
  exact hkeys

/-- Pairs of distinct keys make a table in use. -/
theorem reached_pairs (hcreate : LSMTree.create pairSchema config ⟨fun _ => none, none⟩ =
      .ok (newPairs config).tree) (hkeys : (pairs.map Prod.fst).Nodup)
    (hfew : pairs.length + 7 < 2 ^ 32) :
    Reached (onlyTable pairTable (pairSession config pairs)) pairTable (newPairs config)
      (pairSession config pairs) := by
  constructor
  · exact starts_newPairs hcreate
  · exact (run_pairSession hfew).life.history
  · exact if_pos rfl
  · exact keys_pairSession hkeys
  · rw [inserted_pairSession]
    exact numbers_pairs pairs

/-- So does whatever flushes and compactions make of it. -/
theorem reached_run {s : Session}
    (hcreate : LSMTree.create pairSchema config ⟨fun _ => none, none⟩ =
      .ok (newPairs config).tree) (hkeys : (pairs.map Prod.fst).Nodup)
    (hfew : pairs.length + 7 < 2 ^ 32)
    (hrun : Run (fun _ _ => True) (pairSession config pairs) s)
    (hinserted : s.inserted = (pairSession config pairs).inserted) :
    Reached (onlyTable pairTable s) pairTable (newPairs config) s := by
  have hreached := reached_pairs hcreate hkeys hfew
  constructor
  · exact hreached.starts
  · exact ((run_pairSession hfew).trans hrun).life.history
  · exact if_pos rfl
  · rw [hinserted]
    exact hreached.keys
  · rw [hinserted]
    exact hreached.numbers

/-- The rows of such a table are the pairs. -/
theorem exists_rowsOf_run {s : Session}
    (hcreate : LSMTree.create pairSchema config ⟨fun _ => none, none⟩ =
      .ok (newPairs config).tree) (hkeys : (pairs.map Prod.fst).Nodup)
    (hfew : pairs.length + 7 < 2 ^ 32)
    (hrun : Run (fun _ _ => True) (pairSession config pairs) s)
    (hinserted : s.inserted = (pairSession config pairs).inserted) :
    ∃ rows, RowsOf s rows ∧ rows.Perm (pairs.map pairRow) := by
  have hdistinct := (reached_run hcreate hkeys hfew hrun hinserted).keys
  obtain ⟨built, -, hstores, hperm⟩ :=
    ((run_pairSession hfew).trans hrun).exists_stores (starts_newPairs hcreate) hdistinct
  refine ⟨_, ⟨hstores, hperm.subperm, (hperm.map rowKey).nodup_iff.mpr hdistinct⟩, ?_⟩
  rw [hinserted, inserted_pairSession] at hperm
  exact hperm

theorem exists_rowsOf_pairs (hcreate : LSMTree.create pairSchema config ⟨fun _ => none, none⟩ =
      .ok (newPairs config).tree) (hkeys : (pairs.map Prod.fst).Nodup)
    (hfew : pairs.length + 7 < 2 ^ 32) :
    ∃ rows, RowsOf (pairSession config pairs) rows ∧ rows.Perm (pairs.map pairRow) :=
  exists_rowsOf_run hcreate hkeys hfew (.start (bounded_pairSession hfew)) rfl

end

/-- What two flushes leave is found by running them. -/
theorem exists_flushedTwo {config : StorageConfig} {pairs : List (Int64 × Int64)}
    (hfew : pairs.length + 7 < 2 ^ 32) {α : Type} {check : LSMTree → α} {found : α}
    (h : (do return check (← flushTwo (pairSession config pairs).tree)) = (.ok found : Result α)) :
    ∃ s, Run (fun _ _ => True) (pairSession config pairs) s ∧ s.jobs = [] ∧
      s.inserted = (pairSession config pairs).inserted ∧
      flushTwo (pairSession config pairs).tree = .ok s.tree ∧ check s.tree = found := by
  obtain ⟨tree, hflush, hcheck⟩ := Result.bind_eq_ok.mp h
  obtain ⟨hidle, hnext⟩ := @idle_pairSession config pairs
  have hids : (pairSession config pairs).tree.nextSstId + 3 < 2 ^ 32 := by
    rw [hnext]
    norm_num
  obtain ⟨issued, hrun, -⟩ := @worked_flushTwo _ (fun _ _ => True) (bounded_pairSession hfew)
    hidle hids (fun _ => trivial) tree hflush
  exact ⟨_, hrun, hidle, rfl, hflush, Except.ok.inj hcheck⟩

/-! ## Two pairs -/

/-- The memtable is frozen after every row. -/
def freezingPairs : StorageConfig := { rootPath := [47, 100], memtableThreshold := 1 }

/-- Two pairs, each in a frozen memtable of its own. -/
def twoPairs : Session := pairSession freezingPairs [(2, 20), (1, 10)]

theorem starts_freezingPairs : Starts (newPairs freezingPairs) := starts_newPairs rfl

theorem run_twoPairs : Run (fun _ _ => True) (newPairs freezingPairs) twoPairs :=
  run_pairSession (by norm_num)

theorem reached_twoPairs : Reached (onlyTable pairTable twoPairs) pairTable
    (newPairs freezingPairs) twoPairs := reached_pairs rfl (by decide) (by norm_num)

/-! ## Two SSTables, a memtable and a crash -/

/-- Three pairs, each in a frozen memtable of its own. -/
def threePairs : Session := pairSession freezingPairs [(2, 20), (1, 10), (3, 30)]

theorem run_threePairs : Run (fun _ _ => True) (newPairs freezingPairs) threePairs :=
  run_pairSession (by norm_num)

theorem inserted_threePairs :
    threePairs.inserted = [pairRow (2, 20), pairRow (1, 10), pairRow (3, 30)] :=
  inserted_pairSession

theorem keys_threePairs : (threePairs.inserted.map rowKey).Nodup := keys_pairSession (by decide)

/-- The first two pairs are flushed, the third stays in memory. -/
def flushedPairs : Result LSMTree := flushTwo threePairs.tree

/-- What the flushes leave is found by running them. -/
theorem exists_flushedPairs {α : Type} {check : LSMTree → α} {found : α}
    (h : (do return check (← flushedPairs)) = (.ok found : Result α)) :
    ∃ s, Run (fun _ _ => True) threePairs s ∧ s.jobs = [] ∧ s.inserted = threePairs.inserted ∧
      flushedPairs = .ok s.tree ∧ check s.tree = found :=
  exists_flushedTwo (by norm_num) h

theorem reached_threePairs {s : Session} (hrun : Run (fun _ _ => True) threePairs s)
    (hinserted : s.inserted = threePairs.inserted) :
    Reached (onlyTable pairTable s) pairTable (newPairs freezingPairs) s :=
  reached_run rfl (by decide) (by norm_num) hrun hinserted

/-- The tree has two SSTables, these rows in memory, and sizes that fit into the manifest. -/
private def holdsTwo (tree : LSMTree) (memory : List Row) : Bool :=
  decide (tree.registry.entries.length = 2 ∧ tree.memoryLayer.rows = memory) && sizesFit tree

/-- After the flushes the process dies, and another opens the directory. -/
private def reopensPairs : Result Bool := do
  let tree ← flushedPairs
  let opened ← LSMTree.create tree.schema tree.config tree.disk
  return holdsTwo tree [pairRow (3, 30)] && holdsTwo opened []

/-- Two SSTables, and these rows in memory. -/
structure TwoTables (s : Session) (memory : List Row) : Prop where
  inserted : s.inserted = [pairRow (2, 20), pairRow (1, 10), pairRow (3, 30)]
  tables : s.tree.registry.entries.length = 2
  memory : s.tree.memoryLayer.rows = memory

theorem exists_reopenedPairs : ∃ s s', Run (fun _ _ => True) threePairs s ∧
    TwoTables s [pairRow (3, 30)] ∧ History s s' ∧ TwoTables s' [] := by
  have hreopens : reopensPairs = .ok true := by decide +kernel
  obtain ⟨tree, hflush, hreopens⟩ := Result.bind_eq_ok.mp hreopens
  obtain ⟨opened, hopen, hreopens⟩ := Result.bind_eq_ok.mp hreopens
  obtain ⟨htwo, htwo'⟩ := Bool.and_eq_true_iff.mp (Except.ok.inj hreopens)
  obtain ⟨hholds, hsizes⟩ := Bool.and_eq_true_iff.mp htwo
  obtain ⟨hholds', -⟩ := Bool.and_eq_true_iff.mp htwo'
  obtain ⟨htables, hmemory⟩ := of_decide_eq_true hholds
  obtain ⟨htables', hmemory'⟩ := of_decide_eq_true hholds'
  have hreflects : (do return id (← flushedPairs)) = (.ok tree : Result LSMTree) := by
    rw [hflush]
    rfl
  obtain ⟨s, hrun, -, hinserted, -, hsame⟩ := exists_flushedPairs hreflects
  obtain rfl : s.tree = tree := hsame
  have hconfig := hrun.life.frame.2
  have hfits := fits_of_sizesFit (s := s) (by rw [hconfig]; decide) hsizes
  have hreboot : Reboot s { tree := opened, inserted := s.inserted } :=
    .reopen (Leaves.refl _) hopen
  have hthree := hinserted.trans inserted_threePairs
  have hbounded := (run_threePairs.trans hrun).life.bounded starts_freezingPairs
  exact ⟨s, _, hrun, ⟨hthree, htables, hmemory⟩, .reboot (.start hbounded) hreboot hfits,
    ⟨hthree, htables', hmemory'⟩⟩

/-! ## A SELECT from it -/

/-- `SELECT id FROM t WHERE v > 15`. -/
def selectIdAbove : SelectStatement where
  tableName := pairTable
  selectItems := [.expression (.column [105, 100])]
  whereExpression := some (.binary .greater (.column [118]) (.intLiteral 15))

def boundSelectIdAbove : BoundSelectStatement where
  tableName := pairTable
  schema := pairSchema
  selectItems := [.expression (.column 0 .int64)]
  whereExpression :=
    some (.binary .greater (.column 1 .int64) (.literal (some (.int64 15)) .int64))

theorem bind_selectIdAbove : bindSelectOver pairSchema selectIdAbove = .ok boundSelectIdAbove := rfl

/-- Binding over the table of two pairs is binding over its schema. -/
theorem bind_twoPairs {source : SelectStatement} (htable : source.tableName = pairTable) :
    bindSelect (lsmStorageEngine (onlyTable pairTable twoPairs)) source =
      bindSelectOver pairSchema source := by
  have hreached : Reached (onlyTable pairTable twoPairs) source.tableName
      (newPairs freezingPairs) twoPairs := by
    rw [htable]
    exact reached_twoPairs
  exact hreached.bindSelect_eq

theorem ordered_selectIdAbove : (buildDataSkippingFilter boundSelectIdAbove).Ordered := by
  intro predicate hpredicate
  have hfilter : (buildDataSkippingFilter boundSelectIdAbove).predicates =
      [⟨1, .greater, .int64 15⟩] := rfl
  rw [hfilter] at hpredicate
  rw [List.mem_singleton.mp hpredicate]
  exact Binary64.isNaN_ofInt64 15

theorem evaluates_selectIdAbove (pairs : List (Int64 × Int64)) : ∀ row ∈ pairs.map pairRow,
    ∀ e ∈ boundSelectIdAbove.expressions, ∃ v, evaluateExpression (rowValue row) e = .ok v := by
  intro row hrow e he
  obtain ⟨pair, -, rfl⟩ := List.mem_map.mp hrow
  rcases List.mem_cons.mp he with rfl | he
  · exact ⟨_, rfl⟩
  · obtain rfl := List.mem_singleton.mp he
    exact ⟨_, rfl⟩

end Htap.Executor
