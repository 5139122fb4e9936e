import Htap.Tree.Session

/-!
Every step of a session with one job at a time keeps what holds of the session, and says
what becomes of the rows. One theorem for each step, then one for them all.
-/

namespace Htap.Tree.Session

open Storage SSTable Read Cursor Words

variable {built : Nat → Option Table} {s s' : Session}

/-! ## The start -/

theorem sound_of_starts (h : Starts s) (hbounded : s.Bounded) : Sound (fun _ => none) s := by
  obtain ⟨hschema, hcreate⟩ := h
  obtain ⟨hoptions, htargets, registry, nextSstId, hload, rfl⟩ := tree_of_create hcreate
  cases hload
  refine ⟨?_, fun _ => Or.inr ⟨rfl, rfl, rfl⟩⟩
  constructor
  · constructor
    · exact hschema
    · exact hbounded.columns
    · exact hoptions
    · exact htargets
    · intro row hrow
      cases hrow
    · intro row hrow
      cases hrow
    · intro info hinfo
      cases hinfo
    · intro info hinfo
      cases hinfo
    · intro info hinfo
      cases hinfo
    · exact Nat.two_pow_pos 64
    · exact List.nodup_nil
    · exact SSTableRegistry.filed_empty
    · intro info hinfo
      cases hinfo
    · intro e he
      cases he
    · intro cache hcache
      cases hcache
  · exact Nat.zero_le 1
  · exact hbounded
  · intro job hjob
    cases hjob
  · intro c hc
    cases hc
  · exact Nat.zero_le _
  · intro imm himm
    cases himm
  · exact le_rfl

/-! ## Reads and insertions -/

private theorem insert_eq {tree tree' : LSMTree} {row : Row} (hschema : tree.schema.WellFormed)
    (h : LSMStorageEngine.insert tree row = .ok tree') :
    ValidRow tree.schema row ∧ tree' = tree.insertRow row := by
  obtain ⟨⟨⟩, hvalid, h⟩ := Result.bind_eq_ok.mp h
  cases h
  exact ⟨validRow_of_validateRow hschema hvalid, rfl⟩

private theorem length_rows_insert (layer : MemoryLayer) (row : Row) :
    (layer.insert row).rows.length ≤ layer.rows.length + 1 := by
  have hfilter := List.length_filter_le (fun r => decide (rowKey r ≠ rowKey row))
    layer.active.rows
  rw [(layer.rows_insert_perm row).length_eq, MemoryLayer.rows]
  simp only [List.cons_append, List.length_cons, List.length_append]
  omega

theorem Working.insert (h : Working built s) {row : Row} {tree : LSMTree}
    (hinsert : LSMStorageEngine.insert s.tree row = .ok tree)
    (hbounded : Bounded { s with tree := tree, inserted := s.inserted ++ [row] }) :
    ValidRow s.tree.schema row ∧ tree = s.tree.insertRow row ∧
      Working built { s with tree := tree, inserted := s.inserted ++ [row] } := by
  obtain ⟨hvalid, rfl⟩ := insert_eq h.invariant.keyed hinsert
  have hstorable : StorableRow row :=
    hbounded.strings row (List.mem_append_right _ (List.mem_singleton_self row))
  refine ⟨hvalid, rfl, h.invariant.insertRow hvalid hstorable, h.alone, hbounded, ?_, h.cursors,
    h.levels, ?_, ?_⟩
  · intro job hjob
    refine (h.jobs job hjob).undisturbed ⟨rfl, rfl, rfl, rfl, rfl, ?_, ?_⟩
    · intro imm rest hqueue
      rcases queue_insert s.tree.memoryLayer row with ⟨hsame, -⟩ | ⟨new, -, -, hnew, -⟩
      · exact ⟨rest, hsame.trans hqueue⟩
      · refine ⟨rest ++ [new], ?_⟩
        rw [LSMTree.insertRow, hnew, hqueue, List.cons_append]
    · exact fun e he => Or.inl ⟨e, he, rfl⟩
  · intro imm himm
    rcases queue_insert s.tree.memoryLayer row with ⟨hsame, -⟩ | ⟨new, hne, -, hnew, -⟩
    · exact h.frozen imm (hsame ▸ himm)
    · rcases List.mem_append.mp (hnew ▸ himm) with hold | hlast
      · exact h.frozen imm hold
      · rw [List.mem_singleton.mp hlast]
        exact hne
  · have hrows := h.rows
    have hone := length_rows_insert s.tree.memoryLayer row
    rw [rowsOf, List.length_append] at hrows ⊢
    rw [List.length_append, List.length_singleton]
    change (s.tree.memoryLayer.insert row).rows.length +
      (s.tree.registry.entries.flatMap (builtRows built)).length ≤ _
    omega

/-- Reading changes nothing but the caches. -/
theorem Working.read (h : Working built s) {tree : LSMTree}
    {cursors : List (ComposedCursor ScanCursor)} (hsame : SameData s.tree tree)
    (hinvariant : Invariant built tree) (hknown : CachesKnown s.tree tree)
    (hcursors : ∀ c ∈ cursors, ∀ leaf ∈ c.leaves, Lasting built s.tree.nextSstId leaf) :
    Working built { s with tree := tree, cursors := cursors } ∧
      rowsOf built tree = rowsOf built s.tree := by
  have hrows := hsame.rowsOf_eq built
  have hundisturbed : Undisturbed s.tree tree := by
    rw [hsame] at hknown ⊢
    exact ⟨rfl, rfl, rfl, rfl, rfl, fun imm rest hqueue => ⟨rest, hqueue⟩, hknown⟩
  refine ⟨⟨hinvariant, h.alone, ?_, ?_, ?_, ?_, ?_, ?_⟩, hrows⟩
  · refine ⟨?_, h.bounded.strings, h.bounded.rows, ?_⟩
    · rw [hundisturbed.schema]
      exact h.bounded.columns
    · rw [hundisturbed.nextSstId]
      exact h.bounded.ids
  · exact fun job hjob => (h.jobs job hjob).undisturbed hundisturbed
  · rw [hundisturbed.nextSstId]
    exact hcursors
  · rw [hundisturbed.registry, hundisturbed.nextSstId]
    exact h.levels
  · rw [hsame]
    exact h.frozen
  · rw [hrows]
    exact h.rows

theorem Working.levelCount_le (h : Working built s) :
    s.tree.registry.levelCount ≤ 2 ^ 32 := by
  have hlevels := h.levels
  have hids := h.bounded.ids
  omega

theorem Working.scan (h : Working built s) {fromKey toKey : Option Key} {projection : List Nat}
    {order : ScanOrder} {filter : DataSkippingFilter} {cursor : ComposedCursor ScanCursor}
    {tree : LSMTree}
    (hscan : LSMStorageEngine.scan s.tree fromKey toKey projection order filter =
      .ok (cursor, tree)) :
    Working built { s with tree := tree, cursors := cursor :: s.cursors } ∧
      rowsOf built tree = rowsOf built s.tree := by
  have hopened := h.invariant.opened_scan h.levelCount_le hscan
  refine h.read hopened.same hopened.invariant hopened.known ?_
  intro c hc
  rcases List.mem_cons.mp hc with rfl | hold
  · exact hopened.lasting
  · exact h.cursors c hold

theorem Working.next (h : Working built s) {before after : List (ComposedCursor ScanCursor)}
    {cursor moved : ComposedCursor ScanCursor} {w : World}
    (hcursors : s.cursors = before ++ cursor :: after)
    (hnext : ICursor.next cursor s.tree.world = .ok (moved, w)) :
    Working built { s with
        tree := { s.tree with blockCache := w.blockCache }
        cursors := before ++ moved :: after } ∧
      rowsOf built { s.tree with blockCache := w.blockCache } = rowsOf built s.tree := by
  have hmem : ∀ c ∈ before ++ cursor :: after, ∀ leaf ∈ c.leaves,
      Lasting built s.tree.nextSstId leaf := by
    rw [← hcursors]
    exact h.cursors
  have hcursor := hmem cursor (List.mem_append_right _ List.mem_cons_self)
  obtain ⟨hinvariant, hmoved⟩ := h.invariant.next_cursor hcursor hnext
  refine h.read rfl hinvariant (fun e he => Or.inl ⟨e, he, rfl⟩) ?_
  intro c hc
  rcases List.mem_append.mp hc with hold | hc
  · exact hmem c (List.mem_append_left _ hold)
  rcases List.mem_cons.mp hc with rfl | hold
  · exact hmoved
  · exact hmem c (List.mem_append_right _ (List.mem_cons_of_mem _ hold))

/-! ## Taking an id -/

private theorem rowsOf_takeId (h : Invariant built s.tree) (t : Table) (nextSstId : Nat) :
    rowsOf (Function.update built s.tree.nextSstId (some t))
      { s.tree with nextSstId := nextSstId } = rowsOf built s.tree := by
  unfold rowsOf
  congr 1
  apply List.flatMap_congr
  intro info hinfo
  rw [builtRows, builtRows, Function.update_of_ne (h.issued info hinfo).ne]

private theorem unregistered_takeId (h : Invariant built s.tree) :
    Invariant.Unregistered { s.tree with nextSstId := s.tree.nextSstId + 1 } s.tree.nextSstId := by
  constructor
  · exact Nat.lt_succ_self _
  · exact fun info hinfo => (h.issued info hinfo).ne
  · exact fun e he => (h.cached e he).ne

/-- A job that starts when none is on its way. -/
private theorem Working.takeId (h : Working built s) {job : Job} {issued : List Nat} {t : Table}
    (hidle : s.jobs = [])
    (hbounded : Bounded { s with
      tree := { s.tree with nextSstId := s.tree.nextSstId + 1 }
      jobs := job :: s.jobs
      issued := issued })
    (hjob : JobGood (Function.update built s.tree.nextSstId (some t))
      { s.tree with nextSstId := s.tree.nextSstId + 1 } job) :
    Working (Function.update built s.tree.nextSstId (some t)) { s with
      tree := { s.tree with nextSstId := s.tree.nextSstId + 1 }
      jobs := job :: s.jobs
      issued := issued } := by
  have hids := h.bounded.ids
  have hextends := Extends.update built s.tree.nextSstId t
  constructor
  · exact h.invariant.takeId (by omega) t
  · rw [Alone, hidle]
    exact le_rfl
  · exact hbounded
  · intro other hother
    rw [hidle, List.mem_singleton] at hother
    rw [hother]
    exact hjob
  · exact fun c hc leaf hleaf => (h.cursors c hc leaf hleaf).extends hextends
  · exact h.levels.trans (Nat.le_succ _)
  · exact h.frozen
  · rw [rowsOf_takeId h.invariant]
    exact h.rows

private theorem idle_of_cons {job : Job} {jobs : List Job} (h : (job :: jobs).length ≤ 1) :
    jobs = [] := by
  rw [List.length_cons] at h
  exact List.length_eq_zero_iff.mp (by omega)

theorem alone_split {before after : List Job} {job : Job}
    (h : (before ++ job :: after).length ≤ 1) : before = [] ∧ after = [] := by
  rw [List.length_append, List.length_cons] at h
  exact ⟨List.length_eq_zero_iff.mp (by omega), List.length_eq_zero_iff.mp (by omega)⟩

/-! ## Flushes -/

theorem Working.not_dropped (h : Working built s) {tree : LSMTree} :
    s.tree.beginFlush ≠ (.dropped, tree) := by
  intro hdropped
  rcases beginFlush_cases s.tree with
    ⟨-, heq⟩ | ⟨imm, rest, hqueue, hempty, heq⟩ | ⟨imm, rest, -, -, heq⟩
  · rw [heq] at hdropped
    cases hdropped
  · exact h.frozen imm (hqueue ▸ List.mem_cons_self) hempty
  · rw [heq] at hdropped
    cases hdropped

theorem Working.beginFlush (h : Working built s) {task : LSMTree.FlushTask} {tree : LSMTree}
    (hbegin : s.tree.beginFlush = (.writing task, tree))
    (halone : Alone { s with
      tree := tree, jobs := .flush task :: s.jobs, issued := task.sstId :: s.issued })
    (hbounded : Bounded { s with
      tree := tree, jobs := .flush task :: s.jobs, issued := task.sstId :: s.issued }) :
    ∃ built', Extends built s.tree.nextSstId built' tree.nextSstId ∧
      Working built' { s with
        tree := tree, jobs := .flush task :: s.jobs, issued := task.sstId :: s.issued } ∧
      rowsOf built' tree = rowsOf built s.tree ∧ task.sstId = s.tree.nextSstId ∧
      tree = { s.tree with nextSstId := s.tree.nextSstId + 1 } := by
  have hids := h.bounded.ids
  rcases beginFlush_cases s.tree with
    ⟨-, heq⟩ | ⟨imm, rest, -, -, heq⟩ | ⟨imm, rest, hqueue, hne, heq⟩
  · rw [heq] at hbegin
    cases hbegin
  · rw [heq] at hbegin
    cases hbegin
  · rw [heq] at hbegin
    cases hbegin
    have hnext : u64 (s.tree.nextSstId + 1) = s.tree.nextSstId + 1 := u64_of_lt (by omega)
    rw [hnext] at hbounded ⊢
    refine ⟨Function.update built s.tree.nextSstId (some (flushTable s.tree imm)),
      Extends.update built _ _, ?_, rowsOf_takeId h.invariant _ _, rfl, rfl⟩
    refine h.takeId (idle_of_cons halone) hbounded ?_
    exact ⟨unregistered_takeId h.invariant, ⟨rest, hqueue⟩, hne, Function.update_self _ _ _⟩

theorem Working.few (h : Working built s) : (rowsOf built s.tree).length + 7 < 2 ^ 32 := by
  have hrows := h.rows
  have hinserted := h.bounded.rows
  omega

/-- A job that has written its SSTable. -/
private theorem Working.written (h : Working built s) {id : Nat} {t : Table} {job : Job}
    (hid : Invariant.Unregistered s.tree id)
    (hjob : JobGood built (writtenTable s.tree id t) job) :
    Working built { s with tree := writtenTable s.tree id t, jobs := [job] } := by
  constructor
  · exact h.invariant.writeSSTable hid _
  · exact le_rfl
  · exact ⟨h.bounded.columns, h.bounded.strings, h.bounded.rows, h.bounded.ids⟩
  · intro other hother
    rw [List.mem_singleton.mp hother]
    exact hjob
  · exact h.cursors
  · exact h.levels
  · exact h.frozen
  · exact h.rows

private theorem unregistered_writtenTable {id other : Nat} {t : Table} {tree : LSMTree}
    (h : Invariant.Unregistered tree id) :
    Invariant.Unregistered (writtenTable tree other t) id := ⟨h.issued, h.fresh, h.unread⟩

theorem Working.writeFlush (h : Working built s) {before after : List Job}
    {task : LSMTree.FlushTask} {info : SSTableInfo} {tree : LSMTree}
    (hjobs : s.jobs = before ++ .flush task :: after)
    (hwrite : s.tree.writeFlush task = .ok (info, tree)) :
    Working built { s with tree := tree, jobs := before ++ .flushed task info :: after } ∧
      rowsOf built tree = rowsOf built s.tree ∧ tree.nextSstId = s.tree.nextSstId := by
  have halone := h.alone
  rw [Alone, hjobs] at halone
  obtain ⟨rfl, rfl⟩ := alone_split halone
  have htask : FlushGood built s.tree task := h.jobs (.flush task) (hjobs ▸ List.mem_cons_self)
  have hfew := h.few
  obtain ⟨rfl, rfl, hwf⟩ := h.invariant.of_writeFlush (by omega) htask hwrite
  refine ⟨h.written htask.id ⟨?_, rfl, stored_writtenTable 0 hwf⟩, rfl, rfl⟩
  exact ⟨unregistered_writtenTable htask.id, htask.front, htask.nonempty, htask.table⟩

/-- A job that is done leaves the manifest of the registry behind. -/
private theorem Working.ended (h : Working built s) {tree : LSMTree}
    (hinvariant : Invariant built tree)
    (hschema : tree.schema = s.tree.schema) (hnext : tree.nextSstId = s.tree.nextSstId)
    (hlevels : tree.registry.levelCount ≤ s.tree.nextSstId + 1)
    (hfrozen : ∀ imm ∈ tree.memoryLayer.immutables, imm ∈ s.tree.memoryLayer.immutables)
    (hrows : (rowsOf built tree).Perm (rowsOf built s.tree)) :
    Working built { s with tree := manifested tree, jobs := [] } := by
  constructor
  · exact hinvariant.manifested
  · exact Nat.zero_le 1
  · refine ⟨?_, h.bounded.strings, h.bounded.rows, ?_⟩
    · exact hschema ▸ h.bounded.columns
    · exact hnext ▸ h.bounded.ids
  · intro job hjob
    cases hjob
  · exact hnext ▸ h.cursors
  · exact hnext ▸ hlevels
  · exact fun imm himm => h.frozen imm (hfrozen imm himm)
  · rw [rowsOf_manifested, hrows.length_eq]
    exact h.rows

theorem Working.endFlush (h : Working built s) {before after : List Job}
    {task : LSMTree.FlushTask} {info : SSTableInfo} {tree : LSMTree}
    (hjobs : s.jobs = before ++ .flushed task info :: after)
    (hend : s.tree.endFlush info = .ok tree) :
    Working built { s with tree := tree, jobs := before ++ after } ∧
      (rowsOf built tree).Perm (rowsOf built s.tree) ∧ before ++ after = [] ∧
      tree = manifested (flushedTree s.tree info) := by
  have halone := h.alone
  rw [Alone, hjobs] at halone
  obtain ⟨rfl, rfl⟩ := alone_split halone
  have hjob : JobGood built s.tree (.flushed task info) :=
    h.jobs (.flushed task info) (hjobs ▸ List.mem_cons_self)
  obtain ⟨htask, rfl, hstored⟩ := hjob
  have hfew := h.few
  rw [h.invariant.endFlush (by omega) htask hstored] at hend
  cases hend
  obtain ⟨hinvariant, hperm⟩ := h.invariant.flushedTree htask hstored
  refine ⟨h.ended hinvariant rfl rfl ?_ ?_ hperm, hperm, rfl, rfl⟩
  · rw [flushedTree, SSTableRegistry.levelCount_add _ (by norm_num : 0 + 1 < 2 ^ 32)]
    exact max_le h.levels (Nat.le_add_left _ _)
  · intro imm himm
    exact List.mem_of_mem_tail himm

/-! ## Compactions -/

theorem Working.beginCompact (h : Working built s) {job : LSMTree.CompactTask} {tree : LSMTree}
    (hbegin : s.tree.beginCompact = .ok (some job, tree))
    (halone : Alone { s with
      tree := tree, jobs := .compact job :: s.jobs, issued := job.newId :: s.issued })
    (hbounded : Bounded { s with
      tree := tree, jobs := .compact job :: s.jobs, issued := job.newId :: s.issued }) :
    ∃ built', Extends built s.tree.nextSstId built' tree.nextSstId ∧
      Working built' { s with
        tree := tree, jobs := .compact job :: s.jobs, issued := job.newId :: s.issued } ∧
      rowsOf built' tree = rowsOf built s.tree ∧ job.newId = s.tree.nextSstId ∧
      tree = { s.tree with nextSstId := s.tree.nextSstId + 1 } := by
  have hids := h.bounded.ids
  have hlevels := h.levels
  rcases beginCompact_cases hbegin with
    ⟨hnone, -⟩ | ⟨task, candidates, hpick, hlevel, hne, hstarted, rfl⟩
  · cases hnone
  cases hstarted
  have hnext : u64 (s.tree.nextSstId + 1) = s.tree.nextSstId + 1 := u64_of_lt (by omega)
  rw [hnext] at hbounded ⊢
  have hcandidates : builtTables (Function.update built s.tree.nextSstId
      (some (mergeTable s.tree task.outputLayout (builtTables built candidates)))) candidates =
      builtTables built candidates := by
    apply List.filterMap_congr
    intro old hold
    have hknown := (h.invariant.chosen_level hlevel).known old hold
    rw [Function.update_of_ne (h.invariant.issued old hknown).ne]
  have hids' : s.tree.nextSstId + 1 + 1 < 2 ^ 32 := hbounded.ids
  obtain ⟨hdst, hsrc⟩ := CompactionPolicy.of_pick (by omega) hpick
  refine ⟨Function.update built s.tree.nextSstId
      (some (mergeTable s.tree task.outputLayout (builtTables built candidates))),
    Extends.update built _ _, ?_, rowsOf_takeId h.invariant _ _, rfl, rfl⟩
  refine h.takeId (idle_of_cons halone) hbounded ⟨?_, ?_⟩
  · refine ⟨unregistered_takeId h.invariant, hne, ?_, ?_, ?_⟩
    · have hchosen := h.invariant.chosen_level hlevel
      exact ⟨hchosen.known, hchosen.distinct⟩
    · change task.dstLevel + 1 < 2 ^ 32
      omega
    · rw [hcandidates]
      exact Function.update_self _ _ _
  · change task.dstLevel ≤ s.tree.nextSstId + 1
    omega

theorem Working.writeCompact (h : Working built s) {before after : List Job}
    {job : LSMTree.CompactTask} {info : SSTableInfo} {tree : LSMTree}
    (hjobs : s.jobs = before ++ .compact job :: after)
    (hwrite : s.tree.writeCompact job = .ok (info, tree)) :
    Working built { s with tree := tree, jobs := before ++ .compacted job info :: after } ∧
      rowsOf built tree = rowsOf built s.tree ∧ tree.nextSstId = s.tree.nextSstId := by
  have halone := h.alone
  rw [Alone, hjobs] at halone
  obtain ⟨rfl, rfl⟩ := alone_split halone
  have hjob : JobGood built s.tree (.compact job) :=
    h.jobs (.compact job) (hjobs ▸ List.mem_cons_self)
  obtain ⟨htask, hlevel⟩ := hjob
  obtain ⟨rfl, rfl, hwf⟩ := h.invariant.of_writeCompact h.few htask hwrite
  refine ⟨h.written htask.id ⟨?_, hlevel, rfl, stored_writtenTable _ hwf⟩, rfl, rfl⟩
  exact ⟨unregistered_writtenTable htask.id, htask.nonempty,
    ⟨htask.chosen.known, htask.chosen.distinct⟩, htask.level, htask.table⟩

/-- Dropping SSTables concerns the registry and the directory only. -/
theorem frame_dropSstables (olds : List SSTableInfo) (tree : LSMTree) :
    (olds.foldl LSMTree.dropSstable tree).schema = tree.schema ∧
      (olds.foldl LSMTree.dropSstable tree).config = tree.config ∧
      (olds.foldl LSMTree.dropSstable tree).nextSstId = tree.nextSstId := by
  induction olds generalizing tree with
  | nil => exact ⟨rfl, rfl, rfl⟩
  | cons old olds ih => exact ih (tree.dropSstable old)

theorem Working.endCompact (h : Working built s) {before after : List Job}
    {job : LSMTree.CompactTask} {info : SSTableInfo} {tree : LSMTree}
    (hjobs : s.jobs = before ++ .compacted job info :: after)
    (hend : s.tree.endCompact job info = .ok tree) :
    Working built { s with tree := tree, jobs := before ++ after } ∧
      (rowsOf built tree).Perm (rowsOf built s.tree) ∧ before ++ after = [] ∧
      tree = manifested (compactedTree s.tree job info) := by
  have halone := h.alone
  rw [Alone, hjobs] at halone
  obtain ⟨rfl, rfl⟩ := alone_split halone
  have hjob : JobGood built s.tree (.compacted job info) :=
    h.jobs (.compacted job info) (hjobs ▸ List.mem_cons_self)
  obtain ⟨htask, hlevel, rfl, hstored⟩ := hjob
  have hfew := h.few
  rw [h.invariant.endCompact (by omega) htask hstored] at hend
  cases hend
  obtain ⟨hinvariant, hperm⟩ := h.invariant.compactedTree htask hstored
  obtain ⟨hschema, -, hnext⟩ := frame_dropSstables job.candidates
    { s.tree with registry := s.tree.registry.add (compactedInfo built s.tree job) }
  refine ⟨h.ended hinvariant hschema hnext ?_ ?_ hperm, hperm, rfl, rfl⟩
  · have hadded : (compactedInfo built s.tree job).level + 1 < 2 ^ 32 := htask.level
    rw [compactedTree, registry_dropSstables, SSTableRegistry.levelCount_removeAll,
      SSTableRegistry.levelCount_add _ hadded]
    exact max_le h.levels (Nat.succ_le_succ hlevel)
  · intro imm himm
    rw [compactedTree, memoryLayer_dropSstables] at himm
    exact himm

/-! ## Any step -/

/-- A step of a session with one job at a time. -/
theorem Working.step (h : Working built s) (hstep : Step s s') (halone : s'.Alone)
    (hbounded : s'.Bounded) :
    ∃ built', Extends built s.tree.nextSstId built' s'.tree.nextSstId ∧ Working built' s' ∧
      RowsAfter built built' s s' := by
  cases hstep with
  | insert hinsert =>
    obtain ⟨hvalid, rfl, hsound⟩ := h.insert hinsert hbounded
    exact ⟨built, Extends.refl built _, hsound, .insert _ hvalid rfl rfl rfl⟩
  | scan hscan =>
    obtain ⟨hsound, hrows⟩ := h.scan hscan
    have hnext := (h.invariant.opened_scan h.levelCount_le hscan).same
    refine ⟨built, ?_, hsound, .same (List.Perm.of_eq hrows) rfl⟩
    rw [hnext]
    exact Extends.refl built _
  | next hcursors hnext =>
    obtain ⟨hsound, hrows⟩ := h.next hcursors hnext
    exact ⟨built, Extends.refl built _, hsound, .same (List.Perm.of_eq hrows) rfl⟩
  | dropEmpty hdropped => exact absurd hdropped h.not_dropped
  | beginFlush hbegin =>
    obtain ⟨built', hextends, hsound, hrows, -, -⟩ := h.beginFlush hbegin halone hbounded
    exact ⟨built', hextends, hsound, .same (List.Perm.of_eq hrows) rfl⟩
  | writeFlush hjobs hwrite =>
    obtain ⟨hsound, hrows, hnext⟩ := h.writeFlush hjobs hwrite
    exact ⟨built, ⟨hnext.ge, fun _ _ => rfl⟩, hsound, .same (List.Perm.of_eq hrows) rfl⟩
  | endFlush hjobs hend =>
    obtain ⟨hsound, hrows, -, rfl⟩ := h.endFlush hjobs hend
    exact ⟨built, Extends.refl built _, hsound, .same hrows rfl⟩
  | beginCompact hbegin =>
    obtain ⟨built', hextends, hsound, hrows, -, -⟩ := h.beginCompact hbegin halone hbounded
    exact ⟨built', hextends, hsound, .same (List.Perm.of_eq hrows) rfl⟩
  | writeCompact hjobs hwrite =>
    obtain ⟨hsound, hrows, hnext⟩ := h.writeCompact hjobs hwrite
    exact ⟨built, ⟨hnext.ge, fun _ _ => rfl⟩, hsound, .same (List.Perm.of_eq hrows) rfl⟩
  | @endCompact before after job info tree hjobs hend =>
    obtain ⟨hsound, hrows, -, rfl⟩ := h.endCompact hjobs hend
    obtain ⟨-, -, hnext⟩ := frame_dropSstables job.candidates
      { s.tree with registry := s.tree.registry.add info }
    exact ⟨built, ⟨hnext.ge, fun _ _ => rfl⟩, hsound, .same hrows rfl⟩

/-- A step leaves the schema and, unless it inserts a row, what cursors over the active
memtable read. -/
theorem Working.memory_step (h : Working built s) (hstep : Step s s') :
    s'.tree.schema = s.tree.schema ∧
      ((∃ row, s'.tree = s.tree.insertRow row ∧ s'.inserted = s.inserted ++ [row]) ∨
        s'.inserted = s.inserted ∧ SameMemory s.tree.world s'.tree.world) := by
  cases hstep with
  | insert hinsert =>
    obtain ⟨-, rfl⟩ := insert_eq h.invariant.keyed hinsert
    exact ⟨rfl, Or.inl ⟨_, rfl, rfl⟩⟩
  | scan hscan =>
    have hsame := (h.invariant.opened_scan h.levelCount_le hscan).same
    refine ⟨?_, Or.inr ⟨rfl, hsame.sameMemory⟩⟩
    dsimp only
    rw [hsame]
  | next _ _ => exact ⟨rfl, Or.inr ⟨rfl, rfl, rfl⟩⟩
  | dropEmpty hdropped => exact absurd hdropped h.not_dropped
  | beginFlush hbegin =>
    rcases beginFlush_cases s.tree with
      ⟨-, heq⟩ | ⟨imm, rest, -, -, heq⟩ | ⟨imm, rest, -, -, heq⟩
    all_goals
      rw [heq] at hbegin
      cases hbegin
    exact ⟨rfl, Or.inr ⟨rfl, rfl, rfl⟩⟩
  | writeFlush _ hwrite =>
    obtain ⟨ops, rfl⟩ := exists_perform_of_writeFlush hwrite
    exact ⟨rfl, Or.inr ⟨rfl, rfl, rfl⟩⟩
  | endFlush hjobs hend =>
    obtain ⟨-, -, -, rfl⟩ := h.endFlush hjobs hend
    exact ⟨rfl, Or.inr ⟨rfl, rfl, rfl⟩⟩
  | beginCompact hbegin =>
    rcases beginCompact_cases hbegin with ⟨hnone, -⟩ | ⟨task, candidates, -, -, -, -, rfl⟩
    · cases hnone
    · exact ⟨rfl, Or.inr ⟨rfl, rfl, rfl⟩⟩
  | writeCompact _ hwrite =>
    obtain ⟨ops, rfl⟩ := exists_perform_of_writeCompact hwrite
    exact ⟨rfl, Or.inr ⟨rfl, rfl, rfl⟩⟩
  | endCompact hjobs hend =>
    obtain ⟨-, -, -, rfl⟩ := h.endCompact hjobs hend
    refine ⟨(frame_dropSstables _ _).1, Or.inr ⟨rfl, ?_, ?_⟩⟩
    · exact congrArg MemoryLayer.generation (memoryLayer_dropSstables _ _)
    · exact congrArg MemoryLayer.active (memoryLayer_dropSstables _ _)

/-! ## The manifest -/

theorem saved_manifested (tree : LSMTree) : Saved (manifested tree) := by
  left
  rw [manifested, Invariant.disk_perform]
  rfl

private theorem Sound.saved_step (h : Sound built s) (hstep : Step s s')
    (hidle : s'.jobs = []) : Saved s'.tree := by
  cases hstep with
  | insert hinsert =>
    obtain ⟨-, rfl⟩ := insert_eq h.invariant.keyed hinsert
    exact h.saved hidle
  | scan hscan =>
    have hsame := (h.invariant.opened_scan h.levelCount_le hscan).same
    dsimp only
    rw [hsame]
    exact h.saved hidle
  | next _ _ => exact h.saved hidle
  | dropEmpty hdropped => exact absurd hdropped h.not_dropped
  | beginFlush _ => exact absurd hidle (List.cons_ne_nil _ _)
  | writeFlush _ _ =>
      exact absurd hidle (List.append_ne_nil_of_right_ne_nil _ (List.cons_ne_nil _ _))
  | endFlush hjobs hend =>
    obtain ⟨-, -, -, rfl⟩ := h.endFlush hjobs hend
    exact saved_manifested _
  | beginCompact _ => exact absurd hidle (List.cons_ne_nil _ _)
  | writeCompact _ _ =>
    exact absurd hidle (List.append_ne_nil_of_right_ne_nil _ (List.cons_ne_nil _ _))
  | endCompact hjobs hend =>
    obtain ⟨-, -, -, rfl⟩ := h.endCompact hjobs hend
    exact saved_manifested _

theorem Sound.step (h : Sound built s) (hstep : Step s s') (halone : s'.Alone)
    (hbounded : s'.Bounded) :
    ∃ built', Extends built s.tree.nextSstId built' s'.tree.nextSstId ∧ Sound built' s' ∧
      RowsAfter built built' s s' := by
  obtain ⟨built', hextends, hworking, hrows⟩ := h.toWorking.step hstep halone hbounded
  exact ⟨built', hextends, ⟨hworking, h.saved_step hstep⟩, hrows⟩

/-! ## Restarts -/

private theorem manifestFits (h : Sound built s) (hfits : s.FitsManifest) :
    ∀ info ∈ s.tree.registry.entries, ManifestFits info := by
  intro info hinfo
  have hids := h.bounded.ids
  have hlevels := h.levels
  obtain ⟨t, -, hstored, -⟩ := h.invariant.exists_built hinfo
  constructor
  · exact (h.invariant.issued info hinfo).trans h.invariant.next
  · have hlevel := h.invariant.filed.level_lt hinfo
    omega
  · rw [hstored.describes.numBlocks]
    exact u32_lt _
  · exact hfits.sizes info hinfo
  · rw [h.invariant.paths info hinfo, length_sstPath]
    exact hfits.path

/-- A registry that was read from the manifest of a session. -/
structure Loaded (s : Session) (registry : SSTableRegistry) : Prop where
  load : loadManifest s.tree.disk = .ok (registry, s.tree.nextSstId)
  entries : registry.entries = s.tree.registry.entries
  filed : registry.Filed
  levels : registry.levelCount ≤ s.tree.nextSstId + 1
  new : s.tree.disk.manifest = none → registry = {}

/-- What was saved can be loaded. -/
theorem Sound.exists_loaded (h : Sound built s) (hfits : s.FitsManifest) (hidle : s.jobs = []) :
    ∃ registry, Loaded s registry := by
  have hids := h.bounded.ids
  have hlevels := h.levels
  have hlevel : ∀ info ∈ s.tree.registry.entries, info.level < s.tree.nextSstId + 1 := by
    intro info hinfo
    have hlt := h.invariant.filed.level_lt hinfo
    omega
  rcases h.saved hidle with hsaved | ⟨hnone, hempty, hzero⟩
  · have hcount : s.tree.registry.entries.length < 2 ^ 32 := by
      have hle := h.invariant.length_entries_le
      have hfew := h.few
      omega
    have hcounted : ∀ info ∈ s.tree.registry.entries, info.level + 1 < 2 ^ 32 := by
      intro info hinfo
      have hlt := hlevel info hinfo
      omega
    obtain ⟨-, hfiled, hle⟩ := foldl_add s.tree.registry.entries SSTableRegistry.filed_empty
      hcounted
    refine ⟨_, loadManifest_saved hsaved (manifestFits h hfits) hcount h.invariant.next, ?_, hfiled,
      hle _ (Nat.zero_le _) hlevel, ?_⟩
    · apply SSTableRegistry.entries_eq_of_getD
      intro level
      rw [SSTableRegistry.getD_foldl_add _ _ hcounted, h.invariant.filed.filter_entries]
      rfl
    · intro hnone
      rw [hsaved] at hnone
      cases hnone
  · refine ⟨{}, ?_, ?_, SSTableRegistry.filed_empty, Nat.zero_le _, fun _ => rfl⟩
    · rw [loadManifest, hnone, hzero]
    · rw [hempty]

/-- What a restart finds: the registry that was saved, and nothing in memory. -/
theorem of_restart (h : Sound built s) (hfits : s.FitsManifest)
    (hrestart : Restart s s') :
    ∃ registry, Loaded s registry ∧ s' = {
        tree := {
          schema := s.tree.schema
          config := s.tree.config
          memoryLayer := { threshold := s.tree.config.memtableThreshold }
          registry := registry
          nextSstId := s.tree.nextSstId
          opened := s.tree.disk }
        inserted := s.inserted } := by
  obtain ⟨hidle, hcreate⟩ := hrestart
  obtain ⟨-, -, registry, nextSstId, hload, rfl⟩ := tree_of_create hcreate
  obtain ⟨registry', hloaded⟩ := h.exists_loaded hfits hidle
  rw [hloaded.load] at hload
  cases hload
  exact ⟨registry, hloaded, rfl⟩

/-- A restart keeps what is in SSTables and forgets what is in memory. -/
theorem Sound.restart (h : Sound built s) (hfits : s.FitsManifest) (hrestart : Restart s s') :
    Sound built s' ∧ s'.tree.schema = s.tree.schema ∧ s'.tree.nextSstId = s.tree.nextSstId ∧
      rowsOf built s'.tree = s.tree.registry.entries.flatMap (builtRows built) := by
  have hidle : s.jobs = [] := by
    obtain ⟨hidle, -⟩ := hrestart
    exact hidle
  obtain ⟨registry, ⟨-, hentries, hfiled, hlevels, hnew⟩, rfl⟩ := of_restart h hfits hrestart
  have hrows : rowsOf built { s.tree with
      memoryLayer := { threshold := s.tree.config.memtableThreshold }
      registry := registry
      metadataCaches := []
      blockCache := none
      opened := s.tree.disk
      diskOps := [] } = s.tree.registry.entries.flatMap (builtRows built) := by
    rw [rowsOf, hentries]
    rfl
  refine ⟨⟨?_, ?_⟩, rfl, rfl, hrows⟩
  rotate_left
  · intro _
    rcases h.saved hidle with hsaved | ⟨hnone, hempty, hzero⟩
    · left
      change s.tree.disk.manifest = some (encodeManifest registry s.tree.nextSstId)
      rw [encodeManifest, hentries]
      exact hsaved
    · right
      exact ⟨hnone, hnew hnone, hzero⟩
  constructor
  · constructor
    · exact h.invariant.keyed
    · exact h.invariant.narrow
    · exact h.invariant.options
    · exact h.invariant.targets
    · intro row hrow
      cases hrow
    · intro row hrow
      cases hrow
    · rw [hentries]
      exact h.invariant.stored
    · rw [hentries]
      exact h.invariant.paths
    · rw [hentries]
      exact h.invariant.issued
    · exact h.invariant.next
    · rw [hentries]
      exact h.invariant.distinct
    · exact hfiled
    · intro info _ e he
      cases he
    · intro e he
      cases he
    · intro cache hcache
      cases hcache
  · exact Nat.zero_le 1
  · exact ⟨h.bounded.columns, h.bounded.strings, h.bounded.rows, h.bounded.ids⟩
  · intro job hjob
    cases hjob
  · intro c hc
    cases hc
  · exact hlevels
  · intro imm himm
    cases himm
  · have hall := h.rows
    rw [rowsOf, List.length_append] at hall
    exact hrows ▸ (Nat.le_add_left _ _).trans hall

/-! ## Whole runs -/

theorem Sound.life (h : Sound built s) (hlife : Life s s') : ∃ built', Sound built' s' := by
  induction hlife with
  | start _ => exact ⟨built, h⟩
  | step _ hstep halone hbounded ih =>
    obtain ⟨built', hsound⟩ := ih
    obtain ⟨built'', -, hsound', -⟩ := hsound.step hstep halone hbounded
    exact ⟨built'', hsound'⟩
  | restart _ hrestart hfits ih =>
    obtain ⟨built', hsound⟩ := ih
    obtain ⟨hsound', -⟩ := hsound.restart hfits hrestart
    exact ⟨built', hsound'⟩

/-- Every session is sound. -/
theorem Life.sound (h : Life s s') (hstart : Starts s) : ∃ built, Sound built s' :=
  (sound_of_starts hstart h.bounded_start).life h

end Htap.Tree.Session
