import Htap.Tree.Recovery
import Htap.Tree.Draining

/-!
Where `drain_work_locked` ends. Flushes empty the queue; then compactions make one pass down
the levels. The pass ends where a level can keep what it is brought.
-/

namespace Htap.Properties

open Storage SSTable Read Cursor Words Htap.Tree Htap.Tree.Session

/-- With nothing left to do. -/
structure Drained (tree : LSMTree) : Prop where
  flushed : tree.memoryLayer.immutables = []
  compacted : CompactionPolicy.pick tree.config tree.registry = none

/-- The drain returns after some number of rounds, before the ids of SSTables run out, with
nothing left to do. -/
def Quiesces (tree : LSMTree) : Prop :=
  ∃ rounds tree', tree.nextSstId + rounds + 2 < 2 ^ 32 ∧ tree.drainWork rounds = .ok tree' ∧
    Drained tree'

section

variable {built built' : Nat → Option Table} {tree tree' : LSMTree} {s s' : Session}

/-! ## Rounds -/

/-- Writing the files never fails. -/
def IoAlways (tree : LSMTree) : Prop := ∀ rounds, Result.IoSucceeds (tree.drainWork rounds)

private theorem drainWork_flushing (hqueue : tree.memoryLayer.immutables ≠ []) (rounds : Nat) :
    tree.drainWork (rounds + 1) = (do
      let (flushed, tree) ← tree.flushOne
      if flushed then tree.drainWork rounds
      else
        let (compacted, tree) ← tree.compactOne
        if compacted then tree.drainWork rounds else return tree) := by
  have hpending : tree.hasPendingWork = true := by
    rw [LSMTree.hasPendingWork, Bool.or_eq_true, decide_eq_true_eq]
    exact Or.inl (List.length_pos_of_ne_nil hqueue)
  rw [LSMTree.drainWork, hpending]
  rfl

private theorem drainWork_flushed (hqueue : tree.memoryLayer.immutables ≠ [])
    (hflush : tree.flushOne = .ok (true, tree')) (rounds : Nat) :
    tree.drainWork (rounds + 1) = tree'.drainWork rounds := by
  rw [drainWork_flushing hqueue, hflush]
  rfl

private theorem drainWork_compacting (hqueue : tree.memoryLayer.immutables = [])
    {task : CompactionTask}
    (hpick : CompactionPolicy.pick tree.config tree.registry = some task) (rounds : Nat) :
    tree.drainWork (rounds + 1) = (do
      let (compacted, tree) ← tree.compactOne
      if compacted then tree.drainWork rounds else return tree) := by
  have hpending : tree.hasPendingWork = true := by
    rw [LSMTree.hasPendingWork, Bool.or_eq_true, hpick]
    exact Or.inr rfl
  rw [LSMTree.drainWork, hpending, flushOne_nothing hqueue]
  rfl

private theorem drainWork_compacted (hqueue : tree.memoryLayer.immutables = [])
    {task : CompactionTask}
    (hpick : CompactionPolicy.pick tree.config tree.registry = some task)
    (hcompact : tree.compactOne = .ok (true, tree')) (rounds : Nat) :
    tree.drainWork (rounds + 1) = tree'.drainWork rounds := by
  rw [drainWork_compacting hqueue hpick, hcompact]
  rfl

private theorem IoAlways.of_round
    (hround : ∀ rounds, tree.drainWork (rounds + 1) = tree'.drainWork rounds)
    (h : IoAlways tree) : IoAlways tree' := fun rounds => hround rounds ▸ h (rounds + 1)

private theorem drainWork_drained (h : Drained tree) (rounds : Nat) :
    tree.drainWork (rounds + 1) = .ok tree := by
  have hpending : tree.hasPendingWork = false := by
    rw [LSMTree.hasPendingWork, h.compacted, MemoryLayer.immutableCount, h.flushed]
    rfl
  rw [LSMTree.drainWork, hpending]
  rfl

/-- The drain comes to an end within so many rounds. -/
private def Drains (tree : LSMTree) (rounds : Nat) : Prop :=
  ∃ tree', tree.drainWork rounds = .ok tree' ∧ Drained tree'

private theorem drains_of_round {rounds : Nat}
    (hround : tree.drainWork (rounds + 1) = tree'.drainWork rounds) :
    Drains tree (rounds + 1) ↔ Drains tree' rounds := by
  rw [Drains, Drains, hround]

/-! ## One round -/

/-- The rounds that are to come: one for each memtable of the queue, and one for each level that
the pass down the levels finds due. -/
noncomputable def roundsLeft (built : Nat → Option Table) (tree : LSMTree) : ℕ∞ :=
  tree.memoryLayer.immutables.length + (emptiedLevels built tree).encard

/-- A round leaves one round less to come. -/
private structure Round (built built' : Nat → Option Table) (s s' : Session) : Prop where
  sound : Sound built' s'
  idle : s'.jobs = []
  config : s'.tree.config = s.tree.config
  next : s'.tree.nextSstId = s.tree.nextSstId + 1
  drains : ∀ rounds, s.tree.drainWork (rounds + 1) = s'.tree.drainWork rounds
  left : roundsLeft built s.tree = roundsLeft built' s'.tree + 1

private theorem emptiedLevels_flushed {imm : ImmutableMemTable}
    (h : Rounded built built' tree tree' (flushTable tree imm))
    (hheld : heldAt built' tree' = heldAt built tree) :
    emptiedLevels built' tree' = emptiedLevels built tree := by
  rw [emptiedLevels, emptiedLevels, h.config, h.mergedHeld, hheld]

/-- A flush: the SSTable counts on level 0 as the memtable did. -/
private theorem exists_flushed (h : Sound built s) (hidle : s.jobs = [])
    (hids : s.tree.nextSstId + 2 < 2 ^ 32) (hio : IoAlways s.tree) {imm : ImmutableMemTable}
    {rest : List ImmutableMemTable} (hqueue : s.tree.memoryLayer.immutables = imm :: rest) :
    ∃ s' built', Round built built' s s' := by
  have hne : s.tree.memoryLayer.immutables ≠ [] := by
    rw [hqueue]
    exact List.cons_ne_nil imm rest
  have hwork := hio 1
  rw [drainWork_flushing hne] at hwork
  obtain ⟨tree', issued, built', hflush, hsound, hrounded, hrest, hregistry⟩ :=
    h.flushOne_ok hidle hids hqueue (IoSucceeds.of_bind hwork)
  have hheld := heldAt_flushed hrounded h.invariant hqueue hrest hregistry
  refine ⟨_, built', hsound, hidle, hrounded.config, hrounded.next,
    drainWork_flushed hne hflush, ?_⟩
  rw [roundsLeft, roundsLeft, emptiedLevels_flushed hrounded hheld, hrest, hqueue,
    List.length_cons, Nat.cast_add, Nat.cast_one]
  exact add_right_comm _ _ _

/-- A compaction: the levels are left as the pass leaves them. -/
private theorem exists_compacted (h : Sound built s) (hidle : s.jobs = [])
    (hids : s.tree.nextSstId + 2 < 2 ^ 32) (hio : IoAlways s.tree)
    (htrigger : 1 ≤ s.tree.config.level0CompactionTrigger)
    (hqueue : s.tree.memoryLayer.immutables = []) {task : CompactionTask}
    (hpick : CompactionPolicy.pick s.tree.config s.tree.registry = some task) :
    ∃ s' built', Round built built' s s' := by
  have hlevels := h.levels
  have hpicked := picked_of_pick htrigger (by omega) hpick
  have hwork := hio 1
  rw [drainWork_compacting hqueue hpick] at hwork
  obtain ⟨tree', issued, built', hcompact, hsound, hrounded, hmemory, hregistry⟩ :=
    h.compactOne_ok hidle hids hpick hpicked.source (IoSucceeds.of_bind hwork)
  rw [hpicked.layout] at hrounded hregistry
  rw [hpicked.next] at hregistry
  have hqueue' : tree'.memoryLayer.immutables = [] := by rw [hmemory, hqueue]
  have hsrc : task.srcLevel < s.tree.registry.levelCount := by
    by_contra hge
    exact hpicked.source (List.getD_eq_default _ _ (not_lt.mp hge))
  obtain ⟨info, hinfo⟩ : ∃ info, info = tableInfo s.tree s.tree.nextSstId (task.srcLevel + 1)
      (mergeTable s.tree (nextLayout s.tree.config task.srcLevel)
        (builtTables built (s.tree.registry.level task.srcLevel))) := ⟨_, rfl⟩
  have hdst : info.level = task.srcLevel + 1 := by rw [hinfo]; rfl
  have hid : info.id = s.tree.nextSstId := by rw [hinfo]; rfl
  rw [← hinfo] at hregistry
  have hmoved := heldAt_compacted hrounded h.invariant hqueue hqueue' hinfo fun level => by
    rw [hregistry]
    apply h.invariant.level_merged (by omega) (by omega)
    intro old hold
    rw [hid]
    exact (h.invariant.issued old hold).ne
  refine ⟨_, built', hsound, hidle, hrounded.config, hrounded.next,
    drainWork_compacted hqueue hpick hcompact, ?_⟩
  have hleast := leastDue_of_picked h.invariant hqueue hpicked
  have hcard : (Cascade.emptied _ (mergedHeld s.tree) (heldAt built s.tree)).encard = _ :=
    Cascade.encard_emptied hleast (dueLevel_nil htrigger)
  rw [roundsLeft, roundsLeft, emptiedLevels, emptiedLevels, hcard, hmoved, hrounded.config,
    hrounded.mergedHeld, hqueue, hqueue', add_assoc]

/-- With rounds to come, there is one that leaves one less; with none, nothing is left to do. -/
private theorem drained_or_round (h : Sound built s) (hidle : s.jobs = [])
    (hids : s.tree.nextSstId + 2 < 2 ^ 32) (hio : IoAlways s.tree)
    (htrigger : 1 ≤ s.tree.config.level0CompactionTrigger) :
    (Drained s.tree ∧ roundsLeft built s.tree = 0) ∨ ∃ s' built', Round built built' s s' := by
  cases hqueue : s.tree.memoryLayer.immutables with
  | cons imm rest => exact Or.inr (exists_flushed h hidle hids hio hqueue)
  | nil =>
    cases hpick : CompactionPolicy.pick s.tree.config s.tree.registry with
    | none =>
      have hlevels := h.levels
      have hnone := emptiedLevels_of_quiet h.invariant hqueue (by omega) hpick
      refine Or.inl ⟨⟨hqueue, hpick⟩, ?_⟩
      rw [roundsLeft, hqueue, hnone, Set.encard_empty, List.length_nil, Nat.cast_zero, add_zero]
    | some task => exact Or.inr (exists_compacted h hidle hids hio htrigger hqueue hpick)

/-! ## No trigger -/

private theorem config_drainWork {rounds : Nat} (h : tree.drainWork rounds = .ok tree') :
    tree'.config = tree.config := by
  obtain ⟨issued, hsteps⟩ := @drainWork_steps rounds { tree := tree } rfl tree' h
  have hsame : ∀ {s' : Session}, Steps { tree := tree } s' → s'.tree.config = tree.config := by
    intro s' hsteps
    induction hsteps with
    | refl => rfl
    | tail _ hlast ih => exact hlast.1.confined.config.trans ih
  exact hsame hsteps

/-- Where level 0 is due even when it is empty, there is always something to do. -/
private theorem trigger_of_quiesces (h : Quiesces tree) :
    1 ≤ tree.config.level0CompactionTrigger := by
  obtain ⟨rounds, tree', -, hdrain, -, hpick⟩ := h
  rw [← config_drainWork hdrain]
  by_contra hzero
  rw [CompactionPolicy.pick, if_pos (by omega)] at hpick
  cases hpick

/-! ## Rounds, one after another -/

private theorem drains_iff (rounds : Nat) {s : Session} {built : Nat → Option Table}
    (h : Sound built s) (hidle : s.jobs = []) (hio : IoAlways s.tree)
    (htrigger : 1 ≤ s.tree.config.level0CompactionTrigger)
    (hids : s.tree.nextSstId + rounds + 2 < 2 ^ 32) :
    Drains s.tree rounds ↔ roundsLeft built s.tree < rounds := by
  induction rounds generalizing s built with
  | zero =>
    apply iff_of_false
    · rintro ⟨tree', hdrain, -⟩
      cases hdrain
    · exact not_lt_bot
  | succ rounds ih =>
    rcases drained_or_round h hidle (by omega) hio htrigger with
      ⟨hquiet, hnone⟩ | ⟨s', built', hround⟩
    · apply iff_of_true
      · exact ⟨s.tree, drainWork_drained hquiet rounds, hquiet⟩
      · rw [hnone]
        exact_mod_cast Nat.succ_pos rounds
    · have hnext := hround.next
      rw [drains_of_round (hround.drains rounds), hround.left, Nat.cast_add, Nat.cast_one,
        ENat.add_lt_add_iff_right ENat.one_ne_top]
      exact ih hround.sound hround.idle (hio.of_round hround.drains)
        (hround.config.symm ▸ htrigger) (by omega)

end

/-- Draining ends with nothing left to do exactly if level 0 may hold an SSTable, and the rounds
to come are so few that the ids of SSTables do not run out: one round for each memtable of the
queue and one for each level that is due when the pass down the levels comes to it, so the pass
has to reach a level that can keep what it is brought. Any state that a life reaches with no job
on its way is meant; only that files can be written is assumed of it. -/
theorem drain_quiesces_iff {start s : Session} (hstart : Starts start) (hlife : Life start s)
    (hidle : s.jobs = []) (hio : IoAlways s.tree) :
    ∃ built, Sound built s ∧ (Quiesces s.tree ↔ 1 ≤ s.tree.config.level0CompactionTrigger ∧
      (s.tree.nextSstId + 3 : ℕ∞) + roundsLeft built s.tree < 2 ^ 32) := by
  obtain ⟨built, h⟩ := hlife.sound hstart
  refine ⟨built, h, ?_⟩
  constructor
  · intro hquiesces
    have htrigger := trigger_of_quiesces hquiesces
    obtain ⟨rounds, tree', hids, hdrain, hquiet⟩ := hquiesces
    have hleft := (drains_iff rounds h hidle hio htrigger hids).mp ⟨tree', hdrain, hquiet⟩
    refine ⟨htrigger, ?_⟩
    lift roundsLeft built s.tree to ℕ using hleft.ne_top with left
    have hlt : left < rounds := by exact_mod_cast hleft
    have hsum : s.tree.nextSstId + 3 + left < 2 ^ 32 := by omega
    exact_mod_cast hsum
  · rintro ⟨htrigger, hsum⟩
    have hfinite : roundsLeft built s.tree ≠ ⊤ := by
      rintro htop
      rw [htop, add_top] at hsum
      exact not_top_lt hsum
    lift roundsLeft built s.tree to ℕ using hfinite with left hleft
    have hsum : s.tree.nextSstId + 3 + left < 2 ^ 32 := by exact_mod_cast hsum
    have hids : s.tree.nextSstId + (left + 1) + 2 < 2 ^ 32 := by omega
    obtain ⟨tree', hdrain, hquiet⟩ := (drains_iff (left + 1) h hidle hio htrigger hids).mpr
      (by rw [← hleft]; exact_mod_cast Nat.lt_succ_self left)
    exact ⟨left + 1, tree', hids, hdrain, hquiet⟩

/-! ## No trigger -/

/-- Level 0 is due for compaction when it holds nothing. -/
private def eagerZero : StorageConfig := { rootPath := [47, 100], level0CompactionTrigger := 0 }

/-- A new table whose level 0 is always due: draining throws at once, as there is no level
0 yet. -/
theorem zero_trigger_throws : Starts (keyTable eagerZero) ∧
    Life (keyTable eagerZero) (keyTable eagerZero) ∧ (keyTable eagerZero).jobs = [] ∧
    (∀ rounds, (keyTable eagerZero).tree.drainWork (rounds + 1) =
      .error (.outOfRange "Invalid LSM level")) ∧
    ¬ Quiesces (keyTable eagerZero).tree := by
  have hthrows : ∀ rounds, (keyTable eagerZero).tree.drainWork (rounds + 1) =
      .error (.outOfRange "Invalid LSM level") := by
    intro rounds
    have hpick : CompactionPolicy.pick eagerZero {} = some ⟨0, 1, .row⟩ := rfl
    exact drainWork_compacting rfl hpick rounds
  refine ⟨starts_keyTable rfl, .start (bounded_keyTable _), rfl, hthrows, ?_⟩
  rintro ⟨rounds, tree', -, hdrain, -⟩
  cases rounds with
  | zero => cases hdrain
  | succ rounds =>
    rw [hthrows rounds] at hdrain
    cases hdrain

/-! ## One memtable to flush -/

private def frozenConfig : StorageConfig := { rootPath := [47, 100], memtableThreshold := 1 }

private def oneFrozen : Session := (keyTable frozenConfig).insertKey 5

private theorem oneFrozen_life : Life (keyTable frozenConfig) oneFrozen :=
  .step (.start (bounded_keyTable _)) (step_insertKey rfl 5) (Nat.zero_le 1)
    (bounded_insertKey (bounded_keyTable _) 5 (by norm_num [keyTable]))

/-- Whether one flush leaves nothing to do. -/
private def flushesAll : Result Bool := do
  let (done, tree) ← oneFrozen.tree.flushOne
  return done && !tree.hasPendingWork

private theorem oneFrozen_io : IoAlways oneFrozen.tree := by
  have hquiet : flushesAll = .ok true := by decide +kernel
  obtain ⟨⟨done, tree⟩, hflush, hquiet⟩ := Result.bind_eq_ok.mp hquiet
  obtain ⟨hdone, hpending⟩ := Bool.and_eq_true_iff.mp (Except.ok.inj hquiet)
  cases hdone
  have hround := drainWork_flushed (by rintro ⟨⟩) hflush
  intro rounds what hfails
  cases rounds with
  | zero => cases hfails
  | succ rounds =>
    rw [hround] at hfails
    cases rounds with
    | zero => cases hfails
    | succ rounds =>
      rw [LSMTree.drainWork, hpending] at hfails
      cases hfails

theorem drain_quiesces_iff_oneFrozen :
    ∃ built, Sound built oneFrozen ∧ (Quiesces oneFrozen.tree ↔
      1 ≤ oneFrozen.tree.config.level0CompactionTrigger ∧
        (oneFrozen.tree.nextSstId + 3 : ℕ∞) + roundsLeft built oneFrozen.tree < 2 ^ 32) :=
  drain_quiesces_iff (starts_keyTable rfl) oneFrozen_life rfl oneFrozen_io

end Htap.Properties
