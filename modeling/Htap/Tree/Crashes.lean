import Htap.Tree.Recovery

/-!
A process may die between any two steps of a table, with a job on its way. What the next
process opens are the SSTables that were registered.
-/

namespace Htap.Tree.Session

open Storage SSTable Read Cursor Words

variable {built : Nat → Option Table} {start s s' : Session}

/-- The process is gone, and another opens the directory. -/
inductive Reboot : Session → Session → Prop
  | reopen {s : Session} {disk : Disk} {tree : LSMTree} (hdisk : Leaves s disk)
    (h : LSMTree.create s.tree.schema s.tree.config disk = .ok tree) :
    Reboot s { tree := tree, inserted := s.inserted }

/-- Any number of processes, each of which may die at any time. -/
inductive History (start : Session) : Session → Prop
  | start (hbounded : start.Bounded) : History start start
  | step {s s' : Session} (hhistory : History start s) (hstep : Step s s') (halone : s'.Alone)
    (hbounded : s'.Bounded) : History start s'
  | reboot {s s' : Session} (hhistory : History start s) (hreboot : Reboot s s')
    (hfits : s.FitsManifest) : History start s'

/-- A restart leaves the directory as it is. -/
theorem Restart.reboot (h : Restart s s') : Reboot s s' := by
  obtain ⟨-, hcreate⟩ := h
  exact .reopen (Leaves.refl _) hcreate

theorem Life.history (h : Life start s) : History start s := by
  induction h with
  | start hbounded => exact .start hbounded
  | step _ hstep halone hbounded ih => exact .step ih hstep halone hbounded
  | restart _ hrestart hfits ih => exact .reboot ih hrestart.reboot hfits

theorem History.bounded_start (h : History start s) : start.Bounded := by
  induction h with
  | start hbounded => exact hbounded
  | step _ _ _ _ ih => exact ih
  | reboot _ _ _ ih => exact ih

theorem History.trans {s'' : Session} (h : History s s') (h' : History s' s'') :
    History s s'' := by
  induction h' with
  | start _ => exact h
  | step _ hstep halone hbounded ih => exact .step ih hstep halone hbounded
  | reboot _ hreboot hfits ih => exact .reboot ih hreboot hfits

/-- The schema stays as it is. -/
theorem History.schema_eq (h : History s s') : s'.tree.schema = s.tree.schema := by
  induction h with
  | start _ => rfl
  | step _ hstep _ _ ih => exact hstep.confined.schema.trans ih
  | reboot _ hreboot _ ih =>
    cases hreboot with
    | reopen _ hcreate =>
      obtain ⟨-, -, registry, nextSstId, -, rfl⟩ := tree_of_create hcreate
      exact ih

/-- What the next process finds: the registered SSTables, and nothing in memory. -/
structure Found (built : Nat → Option Table) (s s' : Session) : Prop where
  sound : Sound built s'
  recorded : Recorded s'.tree s'.tree.nextSstId
  registered : registeredRows built s'.tree = registeredRows built s.tree
  memory : s'.tree.memoryLayer.rows = []
  inserted : s'.inserted = s.inserted

theorem Sound.reboot (h : Sound built s) {next : Nat} (hrecorded : Recorded s.tree next)
    (hfits : s.FitsManifest) (hreboot : Reboot s s') : Found built s s' := by
  cases hreboot with
  | @reopen disk tree hdisk hcreate =>
    have hforgotten := sound_forgotten h hrecorded hdisk
    have hopened : Restart (s.forgotten next disk) { tree := tree, inserted := s.inserted } :=
      .reopen rfl hcreate
    obtain ⟨hsound, hrecorded', hrows⟩ :=
      hforgotten.recorded_restart ⟨hfits.path, hfits.sizes⟩ hopened
    obtain ⟨-, -, registry, nextSstId, -, rfl⟩ := tree_of_create hcreate
    exact ⟨hsound, hrecorded', hrows, rfl, rfl⟩

/-- Whatever processes died, the table is sound. -/
theorem History.sound (h : History start s) (hstart : Starts start) :
    ∃ built next, Sound built s ∧ Recorded s.tree next := by
  induction h with
  | start hbounded =>
    have hsound := sound_of_starts hstart hbounded
    exact ⟨_, _, hsound, hsound.recorded hstart.idle⟩
  | step _ hstep halone hbounded ih =>
    obtain ⟨built, next, hsound, hrecorded⟩ := ih
    obtain ⟨built', next', hsound', hrecorded', -⟩ :=
      hsound.recorded_step hrecorded hstep halone hbounded
    exact ⟨built', next', hsound', hrecorded'⟩
  | reboot _ hreboot hfits ih =>
    obtain ⟨built, next, hsound, hrecorded⟩ := ih
    have hfound := hsound.reboot hrecorded hfits hreboot
    exact ⟨built, _, hfound.sound, hfound.recorded⟩

end Htap.Tree.Session
