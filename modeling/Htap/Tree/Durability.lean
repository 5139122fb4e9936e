import Htap.Basis.CrashStore
import Htap.Tree.Crashes
import Htap.Tree.StoredRows

/-!
A table is a store that can crash. Rows in memory are volatile, rows in SSTables durable;
the end of a flush saves a memtable, the death of the process forgets what is in memory, and
everything else the table does changes nothing.
-/

namespace Htap.Tree

open Storage SSTable Read Cursor Words

/-- The rows of a tree as a store that can crash. -/
def storeOf (built : Nat → Option Table) (tree : LSMTree) : CrashStore Row where
  durable := ↑(registeredRows built tree)
  volatile := ↑tree.memoryLayer.rows

theorem all_storeOf (built : Nat → Option Table) (tree : LSMTree) :
    (storeOf built tree).all = ↑(rowsOf built tree) := by
  rw [CrashStore.all, storeOf, add_comm, Multiset.coe_add]
  rfl

namespace Session

variable {built : Nat → Option Table} {s s' : Session}

/-! ## What steps are to the store -/

/-- An insertion adds the row, the end of a flush saves the rows of its memtable, and no other
step is anything to the store. -/
inductive StepEvent (s s' : Session) : CrashStore.Event Row → Prop
  | insert (row : Row) (hinserted : s'.inserted = s.inserted ++ [row]) : StepEvent s s' (.add row)
  | endFlush {before after : List Job} {task : LSMTree.FlushTask} {info : SSTableInfo}
    (hinserted : s'.inserted = s.inserted) (hjobs : s.jobs = before ++ .flushed task info :: after)
    (hended : s'.jobs = before ++ after) : StepEvent s s' (.save ↑task.imm.data)
  | other (hinserted : s'.inserted = s.inserted)
    (hjobs : ∀ task info, .flushed task info ∈ s.jobs → .flushed task info ∈ s'.jobs) :
    StepEvent s s' (.save 0)

theorem StepEvent.ne_crash {event : CrashStore.Event Row} (h : StepEvent s s' event) :
    event ≠ .crash := by
  cases h <;> simp

/-- The only job of the session is this one. -/
private theorem Working.jobs_eq (h : Working built s) {before after : List Job} {job : Job}
    (hjobs : s.jobs = before ++ job :: after) : s.jobs = [job] ∧ before ++ after = [] := by
  have hone := h.alone
  rw [Alone, hjobs, List.length_append, List.length_cons] at hone
  have hbefore : before = [] := List.eq_nil_of_length_eq_zero (by omega)
  have hafter : after = [] := List.eq_nil_of_length_eq_zero (by omega)
  rw [hjobs, hbefore, hafter]
  exact ⟨rfl, rfl⟩

private theorem Working.not_other (h : Working built s) {before after : List Job}
    {task : LSMTree.FlushTask} {info : SSTableInfo}
    (hjobs : s.jobs = before ++ .flushed task info :: after) (hended : s'.jobs = before ++ after)
    (hkept : ∀ task info, .flushed task info ∈ s.jobs → .flushed task info ∈ s'.jobs) : False := by
  have hmem := hkept task info (by simp [hjobs])
  rw [hended, (h.jobs_eq hjobs).2] at hmem
  cases hmem

/-- A step is one event to the store. -/
private theorem Working.stepEvent_unique (h : Working built s) {event event' : CrashStore.Event Row}
    (hevent : StepEvent s s' event) (hevent' : StepEvent s s' event') : event = event' := by
  cases hevent with
  | insert row hinserted =>
    cases hevent' with
    | insert row' hinserted' =>
      have hrows := List.append_cancel_left (hinserted.symm.trans hinserted')
      rw [List.cons.inj hrows |>.1]
    | endFlush hsame _ _ | other hsame _ =>
      rw [hsame] at hinserted
      simp at hinserted
  | endFlush hsame hjobs hended =>
    cases hevent' with
    | insert row' hinserted' =>
      rw [hsame] at hinserted'
      simp at hinserted'
    | endFlush _ hjobs' _ =>
      have hone := (h.jobs_eq hjobs).1.symm.trans (h.jobs_eq hjobs').1
      cases hone
      rfl
    | other _ hkept => exact (h.not_other hjobs hended hkept).elim
  | other hsame hkept =>
    cases hevent' with
    | insert row' hinserted' =>
      rw [hsame] at hinserted'
      simp at hinserted'
    | endFlush _ hjobs' hended' => exact (h.not_other hjobs' hended' hkept).elim
    | other _ _ => rfl

/-- A step that inserts nothing takes the rows that it saves out of memory. -/
private theorem Working.saved_step (h : Working built s) (hstep : Step s s')
    (hinserted : s'.inserted = s.inserted) : ∃ saved : List Row, StepEvent s s' (.save ↑saved) ∧
      s.tree.memoryLayer.rows.Perm (saved ++ s'.tree.memoryLayer.rows) := by
  cases hstep with
  | insert hinsert => exact absurd hinserted (by simp)
  | scan hscan =>
    have hsame := (h.invariant.opened_scan h.levelCount_le hscan).same
    refine ⟨[], .other rfl fun _ _ hmem => hmem, ?_⟩
    dsimp only
    rw [hsame]
    exact List.Perm.refl _
  | next _ _ => exact ⟨[], .other rfl fun _ _ hmem => hmem, List.Perm.refl _⟩
  | dropEmpty hdropped => exact absurd hdropped h.not_dropped
  | beginFlush hbegin =>
    rcases beginFlush_cases s.tree with
      ⟨-, heq⟩ | ⟨imm, rest, -, -, heq⟩ | ⟨imm, rest, -, -, heq⟩
    all_goals
      rw [heq] at hbegin
      cases hbegin
    exact ⟨[], .other rfl fun _ _ hmem => List.mem_cons_of_mem _ hmem, List.Perm.refl _⟩
  | writeFlush hjobs hwrite =>
    obtain ⟨ops, rfl⟩ := exists_perform_of_writeFlush hwrite
    refine ⟨[], .other rfl ?_, List.Perm.refl _⟩
    intro task info hmem
    rw [(h.jobs_eq hjobs).1] at hmem
    simp at hmem
  | @endFlush before after task info tree hjobs hend =>
    obtain ⟨-, -, -, rfl⟩ := h.endFlush hjobs hend
    have hjob : JobGood built s.tree (.flushed task info) := h.jobs _ (by simp [hjobs])
    obtain ⟨⟨-, ⟨rest, hfront⟩, -, -⟩, -, -⟩ := hjob
    refine ⟨task.imm.data, .endFlush rfl hjobs rfl, ?_⟩
    change s.tree.memoryLayer.rows.Perm
      (task.imm.data ++ (s.tree.memoryLayer.popFrontImmutable).rows)
    rw [MemoryLayer.rows, MemoryLayer.rows, MemoryLayer.popFrontImmutable, hfront]
    exact List.perm_append_comm_assoc _ _ _
  | beginCompact hbegin =>
    rcases beginCompact_cases hbegin with ⟨hnone, -⟩ | ⟨task, candidates, -, -, -, -, rfl⟩
    · cases hnone
    · exact ⟨[], .other rfl fun _ _ hmem => List.mem_cons_of_mem _ hmem, List.Perm.refl _⟩
  | writeCompact hjobs hwrite =>
    obtain ⟨ops, rfl⟩ := exists_perform_of_writeCompact hwrite
    refine ⟨[], .other rfl ?_, List.Perm.refl _⟩
    intro task info hmem
    rw [(h.jobs_eq hjobs).1] at hmem
    simp at hmem
  | endCompact hjobs hend =>
    obtain ⟨-, -, -, rfl⟩ := h.endCompact hjobs hend
    refine ⟨[], .other rfl ?_, ?_⟩
    · intro task info hmem
      rw [(h.jobs_eq hjobs).1] at hmem
      simp at hmem
    · change s.tree.memoryLayer.rows.Perm (compactedTree s.tree _ _).memoryLayer.rows
      rw [compactedTree, memoryLayer_dropSstables]

/-- What the steps of a table do to its store. -/
structure Simulates (built : Nat → Option Table) (s : Session)
    (events : List (CrashStore.Event Row)) (built' : Nat → Option Table) (s' : Session) : Prop where
  run : (storeOf built s.tree).Run events (storeOf built' s'.tree)
  added : s'.inserted = s.inserted ++ CrashStore.added events

/-- Rows that were inserted, each as often at most. -/
private theorem fresh_of_insert {row : Row} (hsub : (rowsOf built s.tree).Subperm s.inserted)
    (hkeys : ((s.inserted ++ [row]).map rowKey).Nodup) :
    ∀ r ∈ s.tree.memoryLayer.active.rows, rowKey r ≠ rowKey row := by
  intro r hr heq
  have hmem : r ∈ s.inserted := by
    apply hsub.subset
    rw [rowsOf, MemoryLayer.rows]
    exact List.mem_append_left _ (List.mem_append_left _ hr)
  rw [List.map_append, List.nodup_append] at hkeys
  exact hkeys.2.2 _ (List.mem_map_of_mem hmem) _ (by simp) heq

/-- What a step is to the store happens to the store. -/
theorem Sound.simulates_step (h : Sound built s) (hsub : (rowsOf built s.tree).Subperm s.inserted)
    (hstep : Step s s') (halone : s'.Alone) (hbounded : s'.Bounded)
    (hkeys : (s'.inserted.map rowKey).Nodup) :
    ∃ built' event, Sound built' s' ∧ StepEvent s s' event ∧
      Simulates built s [event] built' s' := by
  obtain ⟨built', -, hsound', hrows⟩ := h.step hstep halone hbounded
  cases hrows with
  | insert row hvalid htree hinserted hbuilt =>
    refine ⟨built', .add row, hsound', .insert row hinserted, ?_, hinserted⟩
    rw [hinserted] at hkeys
    have hfresh := fresh_of_insert hsub hkeys
    have hkept : (s.tree.memoryLayer.active.rows.filter fun r => rowKey r ≠ rowKey row) =
        s.tree.memoryLayer.active.rows :=
      List.filter_eq_self.mpr fun r hr => decide_eq_true (hfresh r hr)
    have hmemory := s.tree.memoryLayer.rows_insert_perm row
    rw [hkept, List.cons_append] at hmemory
    have hstore : storeOf built' s'.tree =
        ⟨(storeOf built s.tree).durable, row ::ₘ (storeOf built s.tree).volatile⟩ := by
      rw [htree, hbuilt]
      exact congrArg _ (Multiset.coe_eq_coe.mpr hmemory)
    rw [hstore]
    exact CrashStore.Run.nil.concat (.add _ _ row)
  | same hrows hinserted =>
    obtain ⟨saved, hevent, hsaved⟩ := h.toWorking.saved_step hstep hinserted
    refine ⟨built', .save saved, hsound', hevent, ?_, ?_⟩
    · refine CrashStore.Run.nil.concat (CrashStore.step_save ?_ ?_)
      · exact Multiset.coe_eq_coe.mpr hsaved
      · rw [all_storeOf, all_storeOf]
        exact Multiset.coe_eq_coe.mpr hrows
    · rw [hinserted]
      exact (List.append_nil _).symm

theorem Simulates.refl (built : Nat → Option Table) (s : Session) : Simulates built s [] built s :=
  ⟨.nil, (List.append_nil _).symm⟩

theorem Simulates.trans {built' built'' : Nat → Option Table} {s'' : Session}
    {events events' : List (CrashStore.Event Row)} (h : Simulates built s events built' s')
    (h' : Simulates built' s' events' built'' s'') :
    Simulates built s (events ++ events') built'' s'' := by
  refine ⟨h.run.trans h'.run, ?_⟩
  rw [h'.added, h.added, CrashStore.added_append, List.append_assoc]

/-- The rows of the store are rows that were inserted. -/
theorem Simulates.subperm {built' : Nat → Option Table} {events : List (CrashStore.Event Row)}
    (h : Simulates built s events built' s') (hsub : (rowsOf built s.tree).Subperm s.inserted) :
    (rowsOf built' s'.tree).Subperm s'.inserted := by
  have hle := h.run.all_le
  rw [all_storeOf, all_storeOf, Multiset.coe_add, Multiset.coe_le] at hle
  rw [h.added]
  exact hle.trans ((List.subperm_append_right _).mpr hsub)

/-- The death of the process is a crash. -/
private theorem Found.simulates (h : Found built s s') : Simulates built s [.crash] built s' := by
  have hstore : storeOf built s'.tree = ⟨(storeOf built s.tree).durable, 0⟩ := by
    rw [storeOf, h.registered, h.memory]
    rfl
  constructor
  · rw [hstore]
    exact CrashStore.Run.nil.concat (.crash _ _)
  · rw [h.inserted]
    exact (List.append_nil _).symm

private theorem keys_before_step (hstep : Step s s') (hkeys : (s'.inserted.map rowKey).Nodup) :
    (s.inserted.map rowKey).Nodup := by
  cases hstep with
  | insert _ =>
    rw [List.map_append] at hkeys
    exact (List.nodup_append.mp hkeys).1
  | _ => exact hkeys

private theorem inserted_reboot (h : Reboot s s') : s'.inserted = s.inserted := by
  obtain ⟨-, -⟩ := h
  rfl

theorem History.keys_before (h : History s s') (hkeys : (s'.inserted.map rowKey).Nodup) :
    (s.inserted.map rowKey).Nodup := by
  induction h with
  | start _ => exact hkeys
  | step _ hstep _ _ ih => exact ih (keys_before_step hstep hkeys)
  | reboot _ hreboot _ ih => exact ih (inserted_reboot hreboot ▸ hkeys)

theorem Run.schema_eq {Allowed : Session → Session → Prop} (h : Run Allowed s s') :
    s'.tree.schema = s.tree.schema := by
  induction h with
  | start _ => rfl
  | step _ hstep _ _ _ ih => exact hstep.confined.schema.trans ih

/-- A history, told as what its steps are to the store. -/
inductive Chronicle (start : Session) : List (CrashStore.Event Row) → Session → Prop
  | start (hbounded : start.Bounded) : Chronicle start [] start
  | step {events : List (CrashStore.Event Row)} {event : CrashStore.Event Row} {s s' : Session}
    (hchronicle : Chronicle start events s) (hstep : Step s s') (halone : s'.Alone)
    (hbounded : s'.Bounded) (hevent : StepEvent s s' event) : Chronicle start (events ++ [event]) s'
  | reboot {events : List (CrashStore.Event Row)} {s s' : Session}
    (hchronicle : Chronicle start events s) (hreboot : Reboot s s') (hfits : s.FitsManifest) :
    Chronicle start (events ++ [.crash]) s'

section

variable {built' : Nat → Option Table} {s'' : Session} {events : List (CrashStore.Event Row)}

private theorem Simulates.step (h : Simulates built s events built' s') (hsound : Sound built' s')
    (hsub : (rowsOf built s.tree).Subperm s.inserted) (hstep : Step s' s'') (halone : s''.Alone)
    (hbounded : s''.Bounded) (hkeys : (s''.inserted.map rowKey).Nodup) :
    ∃ built'' event, Sound built'' s'' ∧ StepEvent s' s'' event ∧
      Simulates built s (events ++ [event]) built'' s'' := by
  obtain ⟨built'', event, hsound', hevent, hnext⟩ :=
    hsound.simulates_step (h.subperm hsub) hstep halone hbounded hkeys
  exact ⟨built'', event, hsound', hevent, h.trans hnext⟩

/-- A history happens to the store as it is told. -/
theorem Sound.simulates_chronicle (h : Sound built s) {next : Nat}
    (hrecorded : Recorded s.tree next)
    (hsub : (rowsOf built s.tree).Subperm s.inserted) (hchronicle : Chronicle s events s')
    (hkeys : (s'.inserted.map rowKey).Nodup) :
    ∃ built' next', Sound built' s' ∧ Recorded s'.tree next' ∧
      Simulates built s events built' s' := by
  induction hchronicle with
  | start _ => exact ⟨built, next, h, hrecorded, Simulates.refl built s⟩
  | step _ hstep halone hbounded hevent ih =>
    obtain ⟨built', next', hsound, hbefore, hsim⟩ := ih (keys_before_step hstep hkeys)
    obtain ⟨-, next'', -, hafter, -⟩ := hsound.recorded_step hbefore hstep halone hbounded
    obtain ⟨built'', event, hsound', hevent', hsim'⟩ :=
      hsim.step hsound hsub hstep halone hbounded hkeys
    rw [hsound.toWorking.stepEvent_unique hevent hevent']
    exact ⟨built'', next'', hsound', hafter, hsim'⟩
  | reboot _ hreboot hfits ih =>
    rw [inserted_reboot hreboot] at hkeys
    obtain ⟨built', next', hsound, hbefore, hsim⟩ := ih hkeys
    have hfound := hsound.reboot hbefore hfits hreboot
    exact ⟨built', _, hfound.sound, hfound.recorded, hsim.trans hfound.simulates⟩

/-- Every history can be told. -/
theorem Sound.exists_chronicle (h : Sound built s) {next : Nat} (hrecorded : Recorded s.tree next)
    (hsub : (rowsOf built s.tree).Subperm s.inserted) (hhistory : History s s')
    (hkeys : (s'.inserted.map rowKey).Nodup) : ∃ events, Chronicle s events s' := by
  induction hhistory with
  | start hbounded => exact ⟨[], .start hbounded⟩
  | step _ hstep halone hbounded ih =>
    have hbefore := keys_before_step hstep hkeys
    obtain ⟨events, hchronicle⟩ := ih hbefore
    obtain ⟨built', -, hsound, -, hsim⟩ := h.simulates_chronicle hrecorded hsub hchronicle hbefore
    obtain ⟨-, event, -, hevent, -⟩ :=
      hsound.simulates_step (hsim.subperm hsub) hstep halone hbounded hkeys
    exact ⟨_, hchronicle.step hstep halone hbounded hevent⟩
  | reboot _ hreboot hfits ih =>
    obtain ⟨events, hchronicle⟩ := ih (inserted_reboot hreboot ▸ hkeys)
    exact ⟨_, hchronicle.reboot hreboot hfits⟩

/-- Whatever happens to a table happens to its store. -/
theorem Sound.simulates (h : Sound built s) {next : Nat} (hrecorded : Recorded s.tree next)
    (hsub : (rowsOf built s.tree).Subperm s.inserted) (hhistory : History s s')
    (hkeys : (s'.inserted.map rowKey).Nodup) :
    ∃ built' next' events, Sound built' s' ∧ Recorded s'.tree next' ∧
      Simulates built s events built' s' := by
  obtain ⟨events, hchronicle⟩ := h.exists_chronicle hrecorded hsub hhistory hkeys
  obtain ⟨built', next', hsim⟩ := h.simulates_chronicle hrecorded hsub hchronicle hkeys
  exact ⟨built', next', events, hsim⟩

/-- One process does not crash. -/
theorem Sound.simulates_run {Allowed : Session → Session → Prop} (h : Sound built s)
    (hsub : (rowsOf built s.tree).Subperm s.inserted) (hrun : Run Allowed s s')
    (hkeys : (s'.inserted.map rowKey).Nodup) :
    ∃ built' events, Sound built' s' ∧ .crash ∉ events ∧ Simulates built s events built' s' := by
  induction hrun with
  | start _ => exact ⟨built, [], h, List.not_mem_nil, Simulates.refl built s⟩
  | step _ hstep _ halone hbounded ih =>
    obtain ⟨built', events, hsound, hevents, hsim⟩ := ih (keys_before_step hstep hkeys)
    obtain ⟨built'', event, hsound', hevent, hsim'⟩ :=
      hsim.step hsound hsub hstep halone hbounded hkeys
    refine ⟨built'', _, hsound', ?_, hsim'⟩
    rw [List.mem_append, not_or, List.mem_singleton]
    exact ⟨hevents, Ne.symm hevent.ne_crash⟩

end

/-- A new table is an empty store. -/
theorem storeOf_starts (h : Starts s) (hbounded : s.Bounded) :
    Sound (fun _ => none) s ∧ storeOf (fun _ => none) s.tree = CrashStore.empty ∧
      s.inserted = [] ∧ (rowsOf (fun _ => none) s.tree).Subperm s.inserted := by
  refine ⟨sound_of_starts h hbounded, ?_⟩
  obtain ⟨-, hcreate⟩ := h
  obtain ⟨-, -, registry, nextSstId, hload, rfl⟩ := tree_of_create hcreate
  cases hload
  exact ⟨rfl, rfl, List.Subperm.refl _⟩

/-- What happened to a new table, as it is told, happened to an empty store. -/
theorem Chronicle.exists_store {start : Session} {events : List (CrashStore.Event Row)}
    (h : Chronicle start events s) (hbounded : start.Bounded) (hstart : Starts start)
    (hkeys : (s.inserted.map rowKey).Nodup) :
    ∃ built next, Sound built s ∧ Recorded s.tree next ∧
      CrashStore.empty.Run events (storeOf built s.tree) ∧
      CrashStore.added events = s.inserted ∧ (rowsOf built s.tree).Subperm s.inserted := by
  obtain ⟨hsound, hempty, hnil, hsub⟩ := storeOf_starts hstart hbounded
  obtain ⟨built, next, hsound', hrecorded, hsim⟩ :=
    hsound.simulates_chronicle (hsound.recorded hstart.idle) hsub h hkeys
  have hrun := hsim.run
  rw [hempty] at hrun
  have hadded := hsim.added
  rw [hnil, List.nil_append] at hadded
  exact ⟨built, next, hsound', hrecorded, hrun, hadded.symm, hsim.subperm hsub⟩

theorem History.exists_chronicle {start : Session} (h : History start s) (hstart : Starts start)
    (hkeys : (s.inserted.map rowKey).Nodup) : ∃ events, Chronicle start events s := by
  obtain ⟨hsound, -, -, hsub⟩ := storeOf_starts hstart h.bounded_start
  exact hsound.exists_chronicle (hsound.recorded hstart.idle) hsub h hkeys

theorem History.exists_store {start : Session} (h : History start s) (hstart : Starts start)
    (hkeys : (s.inserted.map rowKey).Nodup) :
    ∃ built next events, Sound built s ∧ Recorded s.tree next ∧
      CrashStore.empty.Run events (storeOf built s.tree) ∧
      CrashStore.added events = s.inserted ∧ (rowsOf built s.tree).Subperm s.inserted := by
  obtain ⟨events, hchronicle⟩ := h.exists_chronicle hstart hkeys
  obtain ⟨built, next, hstore⟩ := hchronicle.exists_store h.bounded_start hstart hkeys
  exact ⟨built, next, events, hstore⟩

/-- In one process every row that was inserted is stored, once. -/
theorem Run.exists_stores {Allowed : Session → Session → Prop} {start : Session}
    (h : Run Allowed start s) (hstart : Starts start) (hkeys : (s.inserted.map rowKey).Nodup) :
    ∃ built, Sound built s ∧ Stores s.tree (rowsOf built s.tree) ∧
      (rowsOf built s.tree).Perm s.inserted := by
  obtain ⟨hsound, hempty, hnil, hsub⟩ := storeOf_starts hstart h.life.bounded_start
  obtain ⟨built, events, hsound', hevents, hsim⟩ := hsound.simulates_run hsub h hkeys
  refine ⟨built, hsound', (hsound'.stores (hsim.subperm hsub) hkeys).1, ?_⟩
  have hall := hsim.run.all_eq hevents
  have hadded := hsim.added
  rw [hnil, List.nil_append] at hadded
  rw [all_storeOf, hempty, ← hadded] at hall
  apply Multiset.coe_eq_coe.mp
  rw [hall]
  exact zero_add _

end Session

end Htap.Tree
