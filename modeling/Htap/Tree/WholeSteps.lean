import Htap.Tree.KeyTable

/-!
`flush_one_locked` and `compact_one_locked` from their call to their return, on a thread
that is alone: three steps of a session.
-/

namespace Htap.Tree.Session

open Storage SSTable Read Cursor Words

variable {start s s' : Session}

theorem endFlush_frame {tree tree' : LSMTree} {info : SSTableInfo}
    (h : tree.endFlush info = .ok tree') :
    tree'.schema = tree.schema ∧ tree'.nextSstId = tree.nextSstId := by
  obtain ⟨contents, -, h⟩ := Result.bind_eq_ok.mp h
  cases h
  exact ⟨rfl, rfl⟩

theorem endCompact_frame {tree tree' : LSMTree} {job : LSMTree.CompactTask} {info : SSTableInfo}
    (h : tree.endCompact job info = .ok tree') :
    tree'.schema = tree.schema ∧ tree'.nextSstId = tree.nextSstId := by
  obtain ⟨contents, -, h⟩ := Result.bind_eq_ok.mp h
  cases h
  obtain ⟨hschema, -, hnext⟩ := frame_dropSstables job.candidates
    { tree with registry := tree.registry.add info }
  exact ⟨hschema, hnext⟩

theorem Life.bounded (h : Life start s) (hstart : Starts start) : s.Bounded := by
  obtain ⟨built, hsound⟩ := h.sound hstart
  exact hsound.bounded

/-- A session in which nothing counts more than before but the ids. -/
theorem Bounded.moved (h : s.Bounded) {tree : LSMTree} {jobs : List Job}
    {issued : List Nat} (hschema : tree.schema = s.tree.schema)
    (hids : tree.nextSstId + 1 < 2 ^ 32) :
    Bounded { s with tree := tree, jobs := jobs, issued := issued } :=
  ⟨hschema ▸ h.columns, h.strings, h.rows, hids⟩

/-- The tree of a session whose only job began in `s`. -/
structure JobTree (s : Session) (tree : LSMTree) : Prop where
  schema : tree.schema = s.tree.schema
  next : tree.nextSstId ≤ s.tree.nextSstId + 1

/-- An allowed step of the only job of a session that was `s` when the job began. -/
structure JobStep (Allowed : Session → Session → Prop) (s a b : Session) : Prop where
  step : Step a b
  allowed : Allowed a b
  alone : b.Alone
  inserted : b.inserted = s.inserted
  tree : JobTree s b.tree

/-- What the steps of a job leave. -/
theorem JobStep.last {Allowed : Session → Session → Prop}
    (hsteps : Relation.ReflTransGen (JobStep Allowed s) s s') :
    s'.inserted = s.inserted ∧ JobTree s s'.tree := by
  cases hsteps with
  | refl => exact ⟨rfl, rfl, Nat.le_succ _⟩
  | tail _ hlast => exact ⟨hlast.inserted, hlast.tree⟩

/-- The steps of a job stay within the counters. -/
theorem run_of_jobSteps {Stepped Allowed : Session → Session → Prop} (hbounded : s.Bounded)
    (hids : s.tree.nextSstId + 2 < 2 ^ 32)
    (hallowed : ∀ {a b : Session}, b.inserted = a.inserted → Allowed a b)
    (hsteps : Relation.ReflTransGen (JobStep Stepped s) s s') : Run Allowed s s' := by
  induction hsteps with
  | refl => exact .start hbounded
  | tail hsteps hlast ih =>
    have hbefore := (JobStep.last hsteps).1
    obtain ⟨hstep, -, halone, hinserted, hschema, hnext⟩ := hlast
    refine .step ih hstep (hallowed (hinserted.trans hbefore.symm)) halone ⟨?_, ?_, ?_, by omega⟩
    · rw [hschema]
      exact hbounded.columns
    · rw [hinserted]
      exact hbounded.strings
    · rw [hinserted]
      exact hbounded.rows

/-- A job takes the mutex, releases it to write, and takes it again. -/
private theorem job_steps {Allowed : Session → Session → Prop} (hidle : s.jobs = [])
    {job job' : Job} {begun written ended : LSMTree} {issued : List Nat}
    (hbegin : Step s { s with tree := begun, jobs := [job], issued := issued })
    (hwrite : Step { s with tree := begun, jobs := [job], issued := issued }
      { s with tree := written, jobs := [job'], issued := issued })
    (hend : Step { s with tree := written, jobs := [job'], issued := issued }
      { s with tree := ended, jobs := [], issued := issued })
    (htrees : JobTree s begun ∧ JobTree s written ∧ JobTree s ended)
    (hallowed : ∀ a b : Session, a.jobs = [] ∨ a.jobs = [job] ∨ a.jobs = [job'] → Allowed a b) :
    Relation.ReflTransGen (JobStep Allowed s) s { s with tree := ended, issued := issued } := by
  obtain ⟨hbegunTree, hwrittenTree, hendedTree⟩ := htrees
  have hbegun : JobStep Allowed s s _ :=
    ⟨hbegin, hallowed _ _ (Or.inl hidle), le_rfl, rfl, hbegunTree⟩
  have hwritten : JobStep Allowed s _ _ :=
    ⟨hwrite, hallowed _ _ (Or.inr (Or.inl rfl)), le_rfl, rfl, hwrittenTree⟩
  have hended : JobStep Allowed s _ _ :=
    ⟨hend, hallowed _ _ (Or.inr (Or.inr rfl)), Nat.zero_le 1, rfl, hendedTree⟩
  have hthree := ((Relation.ReflTransGen.single hbegun).tail hwritten).tail hended
  rw [hidle]
  exact hthree

/-- No compaction is about to end. -/
def NoMergeEnds (a _ : Session) : Prop := ∀ job info, Job.compacted job info ∉ a.jobs

/-- `flush_one_locked`, step by step. -/
theorem flushOne_steps (hidle : s.jobs = []) {done : Bool} {tree : LSMTree}
    (hflush : s.tree.flushOne = .ok (done, tree)) :
    ∃ issued, Relation.ReflTransGen (JobStep NoMergeEnds s) s
      { s with tree := tree, issued := issued } := by
  have hnext : u64 (s.tree.nextSstId + 1) ≤ s.tree.nextSstId + 1 := Nat.mod_le _ _
  rcases beginFlush_cases s.tree with
    ⟨-, heq⟩ | ⟨imm, rest, -, -, heq⟩ | ⟨imm, rest, -, -, heq⟩
  · rw [LSMTree.flushOne, heq] at hflush
    cases hflush
    exact ⟨s.issued, .refl⟩
  · rw [LSMTree.flushOne, heq] at hflush
    cases hflush
    refine ⟨s.issued, .single ⟨.dropEmpty heq, ?_, ?_, rfl, rfl, Nat.le_succ _⟩⟩
    · rw [NoMergeEnds, hidle]
      simp
    · rw [Alone, hidle]
      exact Nat.zero_le 1
  · rw [LSMTree.flushOne, heq] at hflush
    obtain ⟨⟨info, written⟩, hwrite, hflush⟩ := Result.bind_eq_ok.mp hflush
    obtain ⟨ended, hend, hflush⟩ := Result.bind_eq_ok.mp hflush
    cases hflush
    obtain ⟨ops, hwrote⟩ := exists_perform_of_writeFlush hwrite
    obtain ⟨hschema, hsame⟩ := endFlush_frame hend
    rw [hwrote] at hschema hsame
    obtain ⟨issued, hissued⟩ : ∃ issued, issued = s.tree.nextSstId :: s.issued := ⟨_, rfl⟩
    have hbegin := Step.beginFlush heq
    rw [hidle, ← hissued] at hbegin
    have hwritten := @Step.writeFlush { s with tree := _, jobs := _, issued := issued } [] []
      ⟨imm, s.tree.nextSstId⟩ _ _ rfl hwrite
    have hended := @Step.endFlush { s with tree := _, jobs := _, issued := issued } [] []
      ⟨imm, s.tree.nextSstId⟩ _ _ rfl hend
    refine ⟨issued, job_steps hidle hbegin hwritten hended
      ⟨⟨rfl, hnext⟩, ⟨hwrote ▸ rfl, hwrote ▸ hnext⟩, ⟨hschema, hsame.trans_le hnext⟩⟩ ?_⟩
    rintro a b (hjobs | hjobs | hjobs) <;> simp [NoMergeEnds, hjobs]

/-- `compact_one_locked`, step by step. -/
theorem compactOne_steps (hidle : s.jobs = []) {done : Bool} {tree : LSMTree}
    (hcompact : s.tree.compactOne = .ok (done, tree)) :
    ∃ issued, Relation.ReflTransGen (JobStep (fun _ _ => True) s) s
      { s with tree := tree, issued := issued } := by
  have hnext : u64 (s.tree.nextSstId + 1) ≤ s.tree.nextSstId + 1 := Nat.mod_le _ _
  obtain ⟨⟨started, begun⟩, hbegin, hcompact⟩ := Result.bind_eq_ok.mp hcompact
  rcases beginCompact_cases hbegin with ⟨rfl, rfl⟩ | ⟨task, candidates, -, -, -, rfl, hbegan⟩
  · cases hcompact
    exact ⟨s.issued, .refl⟩
  · dsimp only at hcompact
    obtain ⟨⟨info, written⟩, hwrite, hcompact⟩ := Result.bind_eq_ok.mp hcompact
    obtain ⟨ended, hend, hcompact⟩ := Result.bind_eq_ok.mp hcompact
    cases hcompact
    obtain ⟨ops, hwrote⟩ := exists_perform_of_writeCompact hwrite
    obtain ⟨hschema, hsame⟩ := endCompact_frame hend
    rw [hwrote, hbegan] at hschema hsame
    obtain ⟨issued, hissued⟩ : ∃ issued, issued = s.tree.nextSstId :: s.issued := ⟨_, rfl⟩
    have hbegun := Step.beginCompact hbegin
    rw [hidle, ← hissued] at hbegun
    have hwritten := @Step.writeCompact { s with tree := _, jobs := _, issued := issued } [] []
      _ _ _ rfl hwrite
    have hended := @Step.endCompact { s with tree := _, jobs := _, issued := issued } [] []
      _ _ _ rfl hend
    refine ⟨issued, job_steps hidle hbegun hwritten hended
      ⟨⟨hbegan ▸ rfl, hbegan ▸ hnext⟩, ⟨?_, ?_⟩, ⟨hschema, hsame.trans_le hnext⟩⟩
      fun _ _ _ => trivial⟩
    · rw [hwrote, hbegan]
      rfl
    · rw [hwrote, hbegan]
      exact hnext

/-- What a whole flush leaves. -/
structure Worked (Allowed : Session → Session → Prop) (s : Session) (tree : LSMTree)
    (issued : List Nat) : Prop extends JobTree s tree where
  run : Run Allowed s { s with tree := tree, issued := issued }

theorem worked_flushOne {Allowed : Session → Session → Prop} (hbounded : s.Bounded)
    (hidle : s.jobs = []) (hids : s.tree.nextSstId + 2 < 2 ^ 32)
    (hallowed : ∀ {a b : Session}, b.inserted = a.inserted → Allowed a b) {done : Bool}
    {tree : LSMTree} (hflush : s.tree.flushOne = .ok (done, tree)) :
    ∃ issued, Worked Allowed s tree issued := by
  obtain ⟨issued, hsteps⟩ := flushOne_steps hidle hflush
  exact ⟨issued, (JobStep.last hsteps).2, run_of_jobSteps hbounded hids hallowed hsteps⟩

/-- `compact_one_locked` up to taking the mutex again. -/
theorem Life.writtenCompact (h : Life start s) (hbounded : s.Bounded) (hidle : s.jobs = [])
    (hids : s.tree.nextSstId + 2 < 2 ^ 32) {job : LSMTree.CompactTask} {info : SSTableInfo}
    {begun written : LSMTree} (hbegin : s.tree.beginCompact = .ok (some job, begun))
    (hwrite : begun.writeCompact job = .ok (info, written)) :
    ∃ issued, Life start
      { s with tree := written, jobs := [.compacted job info], issued := issued } := by
  have hnext : u64 (s.tree.nextSstId + 1) = s.tree.nextSstId + 1 := u64_of_lt (by omega)
  rcases beginCompact_cases hbegin with ⟨hnone, -⟩ | ⟨task, candidates, -, -, -, -, hbegan⟩
  · cases hnone
  rw [hnext] at hbegan
  obtain ⟨ops, hwrote⟩ := exists_perform_of_writeCompact hwrite
  have hbegun := Life.step h (.beginCompact hbegin) (by rw [Alone, hidle]; exact le_rfl)
    (hbounded.moved (hbegan ▸ rfl) (hbegan ▸ hids))
  rw [hidle] at hbegun
  have hjobs : [Job.compact job] = [] ++ Job.compact job :: [] := rfl
  have hwritten := Life.step hbegun (.writeCompact hjobs hwrite) le_rfl
    (hbounded.moved (by rw [hwrote, hbegan]; rfl) (by rw [hwrote, hbegan]; exact hids))
  exact ⟨_, hwritten⟩

/-! ## Whole drains -/

/-- Steps of a session that never has more than one job. -/
def Steps : Session → Session → Prop := Relation.ReflTransGen fun a b => Step a b ∧ b.Alone

theorem steps_of_jobSteps {Allowed : Session → Session → Prop}
    (h : Relation.ReflTransGen (JobStep Allowed s) s s') : Steps s s' := by
  induction h with
  | refl => exact .refl
  | tail _ hlast ih => exact ih.tail ⟨hlast.step, hlast.alone⟩

/-- `drain_work_locked`, step by step. -/
theorem drainWork_steps (rounds : Nat) {s : Session} (hidle : s.jobs = []) {tree : LSMTree}
    (h : s.tree.drainWork rounds = .ok tree) :
    ∃ issued, Steps s { s with tree := tree, issued := issued } := by
  induction rounds generalizing s with
  | zero => cases h
  | succ rounds ih =>
    rw [LSMTree.drainWork] at h
    split at h
    · cases h
      exact ⟨s.issued, .refl⟩
    obtain ⟨⟨flushed, first⟩, hflush, h⟩ := Result.bind_eq_ok.mp h
    obtain ⟨issued, hflushed⟩ := flushOne_steps hidle hflush
    have hfirst := steps_of_jobSteps hflushed
    dsimp only at h
    split at h
    · obtain ⟨issued', hrest⟩ := @ih { s with tree := first, issued := issued } hidle h
      exact ⟨issued', hfirst.trans hrest⟩
    obtain ⟨⟨compacted, second⟩, hcompact, h⟩ := Result.bind_eq_ok.mp h
    obtain ⟨issued', hcompacted⟩ :=
      @compactOne_steps { s with tree := first, issued := issued } hidle compacted second hcompact
    have hsecond := hfirst.trans (steps_of_jobSteps hcompacted)
    dsimp only at h
    split at h
    · obtain ⟨issued'', hrest⟩ := @ih { s with tree := second, issued := issued' } hidle h
      exact ⟨issued'', hsecond.trans hrest⟩
    · cases h
      exact ⟨issued', hsecond⟩

/-- `LSMTree::insert` is an insertion and, when the thread does the background work itself, a
drain. -/
theorem insert_steps {rounds : Nat} {row : Row} (hidle : s.jobs = [])
    (hvalid : validateRow s.tree.schema row = .ok ()) {tree : LSMTree}
    (h : s.tree.insert rounds row = .ok tree) :
    ∃ issued, Steps s { s with
      tree := tree
      inserted := s.inserted ++ [row]
      issued := issued } := by
  have hinsert : LSMStorageEngine.insert s.tree row = .ok (s.tree.insertRow row) := by
    rw [LSMStorageEngine.insert, hvalid]
    rfl
  have halone : Alone { s with
      tree := s.tree.insertRow row
      inserted := s.inserted ++ [row] } := by
    rw [Alone, hidle]
    exact Nat.zero_le 1
  have hfirst : Steps s { s with
      tree := s.tree.insertRow row
      inserted := s.inserted ++ [row] } := .single ⟨.insert hinsert, halone⟩
  unfold LSMTree.insert at h
  split at h
  · cases h
    exact ⟨s.issued, hfirst⟩
  · obtain ⟨issued, hrest⟩ := @drainWork_steps rounds { s with
      tree := s.tree.insertRow row
      inserted := s.inserted ++ [row] } hidle tree h
    exact ⟨issued, hfirst.trans hrest⟩

/-! ## Two SSTables to merge -/

/-- Every insertion freezes the memtable, and two SSTables are merged. -/
def eagerConfig : StorageConfig :=
  { rootPath := [47, 100], memtableThreshold := 1, level0CompactionTrigger := 2 }

/-- Two insertions, each in a frozen memtable of its own. -/
def insertTwo (a b : Key) : Session := ((keyTable eagerConfig).insertKey a).insertKey b

def twoKeys : Session := insertTwo 1 2

theorem starts_eager : Starts (keyTable eagerConfig) := starts_keyTable rfl

theorem life_insertTwo (a b : Key) : Life (keyTable eagerConfig) (insertTwo a b) := by
  have hone := bounded_insertKey (bounded_keyTable eagerConfig) a (by norm_num [keyTable])
  have htwo := bounded_insertKey hone b (by norm_num [keyTable, insertKey])
  have hfirst := Life.step (.start (bounded_keyTable eagerConfig)) (step_insertKey rfl a)
    (Nat.zero_le 1) hone
  exact .step hfirst (step_insertKey rfl b) (Nat.zero_le 1) htwo

theorem life_twoKeys : Life (keyTable eagerConfig) twoKeys := life_insertTwo 1 2

/-- The first two memtables of the queue are flushed. -/
def flushTwo (tree : LSMTree) : Result LSMTree := do
  let (_, first) ← tree.flushOne
  let (_, second) ← first.flushOne
  return second

/-- Where both flushes succeed they are steps of the session. -/
theorem worked_flushTwo {Allowed : Session → Session → Prop} (hbounded : s.Bounded)
    (hidle : s.jobs = []) (hids : s.tree.nextSstId + 3 < 2 ^ 32)
    (hallowed : ∀ {a b : Session}, b.inserted = a.inserted → Allowed a b) {tree : LSMTree}
    (h : flushTwo s.tree = .ok tree) :
    ∃ issued, Run Allowed s { s with tree := tree, issued := issued } ∧
      tree.nextSstId ≤ s.tree.nextSstId + 2 := by
  obtain ⟨⟨done, first⟩, hfirst, h⟩ := Result.bind_eq_ok.mp h
  obtain ⟨⟨done', second⟩, hsecond, h⟩ := Result.bind_eq_ok.mp h
  cases h
  obtain ⟨issued, hone⟩ := worked_flushOne hbounded hidle (by omega) hallowed hfirst
  have hnext := hone.next
  have hbounded' : Bounded { s with tree := first, issued := issued } :=
    hbounded.moved hone.schema (by omega)
  obtain ⟨issued', htwo⟩ :=
    worked_flushOne hbounded' hidle (by dsimp only; omega) hallowed hsecond
  have hnext' : tree.nextSstId ≤ first.nextSstId + 1 := htwo.next
  exact ⟨issued', hone.run.trans htwo.run, by omega⟩

/-- Whether the sizes of all SSTables fit into the manifest. -/
def sizesFit (tree : LSMTree) : Bool :=
  tree.registry.entries.all fun info => decide (info.fileSizeBytes < 2 ^ 64)

theorem fits_of_sizesFit (hpath : s.tree.config.rootPath.length + 29 ≤ 65535)
    (hsizes : sizesFit s.tree = true) : s.FitsManifest :=
  ⟨hpath, fun info hinfo => of_decide_eq_true (List.all_eq_true.mp hsizes info hinfo)⟩

/-- Two SSTables of one key each. -/
theorem exists_flushedKeys {a b : Key} {tree : LSMTree}
    (h : flushTwo (insertTwo a b).tree = .ok tree) :
    ∃ issued, Life (keyTable eagerConfig) { insertTwo a b with tree := tree, issued := issued } ∧
      tree.nextSstId + 2 < 2 ^ 32 := by
  have hzero : (insertTwo a b).tree.nextSstId = 0 := rfl
  obtain ⟨issued, hrun, hnext⟩ := @worked_flushTwo (insertTwo a b) (fun _ _ => True)
    ((life_insertTwo a b).bounded starts_eager) rfl (by omega) (fun _ => trivial) tree h
  exact ⟨issued, (life_insertTwo a b).trans hrun.life, by omega⟩

end Htap.Tree.Session
