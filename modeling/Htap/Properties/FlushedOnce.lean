import Htap.Tree.Threads
import Htap.Tree.Frames
import Htap.Tree.WholeSteps

/-!
Every frozen memtable is written to one SSTable and leaves the queue when that SSTable is
registered, and every SSTable is merged once: as long as no two threads take from the queue,
or from one level, at once. A flush leaves its memtable in the queue while it writes, so
another thread that drains the table meanwhile takes the same memtable again.
-/

namespace Htap.Properties

open Storage SSTable Read Words Htap.Tree Htap.Tree.Threads

/-- The SSTable was written from the rows of the memtable. -/
def WrittenFrom (tree : LSMTree) (imm : ImmutableMemTable) (info : SSTableInfo) : Prop :=
  ∃ result files, buildRowSSTable tree.schema (sparseIndexOptions tree.config)
      tree.config.rowBlockTargetBytes imm.data = .ok (result, files) ∧
    info = builtInfo tree.config info.id 0 .row result files

/-- Nothing is lost and nothing is done twice. Memtables are numbered as they are frozen. -/
structure DoneOnce (s : Threads) : Prop where
  /-- A frozen memtable was flushed, once, or is still in the queue. -/
  frozen : s.flushes.map (fun f => f.written.ident) ++
    s.tree.memoryLayer.immutables.map ImmutableMemTable.ident =
      List.range s.tree.memoryLayer.generation
  /-- It left the queue when its own SSTable was registered. -/
  own : ∀ f ∈ s.flushes, f.removed = some f.written ∧ WrittenFrom s.tree f.written f.info
  consumed : s.consumed.Nodup

/-- In the background mode, any run; otherwise one in which no thread takes from where
another is still taking. No counter of ids has been exceeded. -/
inductive Separated (start : Threads) : Threads → Prop
  | start (hids : start.tree.nextSstId + 1 < 2 ^ 32) : Separated start start
  | step {s s' : Threads} (hrun : Separated start s) (hstep : Step s s')
    (hapart : s'.tree.config.isCompactionBackground = true ∨ s'.Separate)
    (hids : s'.tree.nextSstId + 1 < 2 ^ 32) : Separated start s'

section

/-! ## What holds of a job -/

/-- An id that was taken for an SSTable that is not registered yet. -/
private structure Unused (s : Threads) (id : Nat) : Prop where
  issued : id < s.tree.nextSstId
  fresh : ∀ info ∈ s.tree.registry.entries, info.id ≠ id
  new : id ∉ s.consumed

/-- SSTables to be merged. -/
private structure Merging (s : Threads) (task : LSMTree.CompactTask) : Prop where
  unused : Unused s task.newId
  known : ∀ old ∈ task.candidates, old ∈ s.tree.registry.entries
  source : ∀ old ∈ task.candidates, old.level = task.task.srcLevel
  distinct : (task.candidates.map SSTableInfo.id).Nodup
  level : task.task.dstLevel ≤ s.tree.nextSstId

private def JobKnown (s : Threads) : Job → Prop
  | .flush task => Unused s task.sstId ∧ s.tree.memoryLayer.frontImmutable = some task.imm
  | .flushed task info => Unused s info.id ∧
      s.tree.memoryLayer.frontImmutable = some task.imm ∧ WrittenFrom s.tree task.imm info
  | .compact task => Merging s task
  | .compacted task info => Merging s task ∧ info.id = task.newId ∧
      info.level = task.task.dstLevel

private def newIdOf : Job → Nat
  | .flush task => task.sstId
  | .flushed _ info => info.id
  | .compact task | .compacted task _ => task.newId

/-- What every step keeps. -/
private structure Ledger (s : Threads) : Prop extends DoneOnce s where
  numbered : Numbered s.tree
  next : s.tree.nextSstId + 1 < 2 ^ 32
  nonempty : ∀ imm ∈ s.tree.memoryLayer.immutables, imm.data ≠ []
  gone : ∀ id ∈ s.consumed, id < s.tree.nextSstId ∧
    ∀ info ∈ s.tree.registry.entries, info.id ≠ id
  jobs : ∀ thread job, s.job thread = some job → JobKnown s job
  separate : s.Separate
  ids : ∀ a b job job', s.job a = some job → s.job b = some job' → newIdOf job = newIdOf job' →
    a = b
  worker : s.tree.config.isCompactionBackground = true → ∀ n, s.job (.client n) = none

variable {s s' : Threads} {thread other : Thread}

private theorem JobKnown.unused {job : Job} (h : JobKnown s job) : Unused s (newIdOf job) := by
  cases job with
  | flush task => exact h.1
  | flushed task info => exact h.1
  | compact task => exact Merging.unused h
  | compacted task info => exact h.1.unused

/-- A job goes on as before when its input is still there and its id still free. -/
private theorem JobKnown.carry {job : Job} (h : JobKnown s job)
    (hschema : s'.tree.schema = s.tree.schema) (hconfig : s'.tree.config = s.tree.config)
    (hnext : s.tree.nextSstId ≤ s'.tree.nextSstId) (hunused : Unused s' (newIdOf job))
    (hfront : job.source = none → ∀ imm, s.tree.memoryLayer.frontImmutable = some imm →
      s'.tree.memoryLayer.frontImmutable = some imm)
    (hold : ∀ level, job.source = some level → ∀ old ∈ s.tree.registry.entries,
      old.level = level → old ∈ s'.tree.registry.entries) : JobKnown s' job := by
  have hmerging : ∀ {task : LSMTree.CompactTask}, job.source = some task.task.srcLevel →
      Unused s' task.newId → Merging s task → Merging s' task := by
    intro task hsource hid htask
    refine ⟨hid, ?_, htask.source, htask.distinct, htask.level.trans hnext⟩
    exact fun old hmem => hold _ hsource old (htask.known old hmem) (htask.source old hmem)
  have hwritten : ∀ {imm : ImmutableMemTable} {info : SSTableInfo},
      WrittenFrom s.tree imm info → WrittenFrom s'.tree imm info := by
    intro imm info hinfo
    rw [WrittenFrom, hschema, hconfig]
    exact hinfo
  cases job with
  | flush task => exact ⟨hunused, hfront rfl _ h.2⟩
  | flushed task info => exact ⟨hunused, hfront rfl _ h.2.1, hwritten h.2.2⟩
  | compact task => exact hmerging rfl hunused h
  | compacted task info => exact ⟨hmerging rfl hunused h.1, h.2⟩

private theorem job_resume_self (job : Option Job) (tree : LSMTree) :
    (s.resume thread job tree).job thread = job := Function.update_self _ _ _

private theorem job_resume_of_ne (hother : other ≠ thread) (job : Option Job) (tree : LSMTree) :
    (s.resume thread job tree).job other = s.job other := Function.update_of_ne hother _ _

/-! ## Steps -/

/-- A row is inserted. -/
private theorem Ledger.insertRow (h : Ledger s) (row : Row) :
    Ledger { s with tree := s.tree.insertRow row } := by
  have hqueue := Session.queue_insert s.tree.memoryLayer row
  refine ⟨⟨?_, h.own, h.consumed⟩, ⟨h.numbered.distinct, h.numbered.issued, h.numbered.levels,
    h.numbered.filed⟩, h.next, ?_, h.gone, ?_, h.separate, h.ids, h.worker⟩
  · change s.flushes.map (fun f => f.written.ident) ++
      (s.tree.memoryLayer.insert row).immutables.map ImmutableMemTable.ident =
        List.range (s.tree.memoryLayer.insert row).generation
    rcases hqueue with ⟨hsame, hgeneration⟩ | ⟨imm, -, hident, hnew, hgeneration⟩
    · rw [hsame, hgeneration]
      exact h.frozen
    · rw [hnew, hgeneration, List.range_succ, ← h.frozen, List.map_append, ← List.append_assoc,
        ← hident]
      rfl
  · intro imm himm
    rcases hqueue with ⟨hsame, -⟩ | ⟨new, hne, -, hnew, -⟩
    · exact h.nonempty imm (hsame ▸ himm)
    · rcases List.mem_append.mp (hnew ▸ himm) with hold | hlast
      · exact h.nonempty imm hold
      · rw [List.mem_singleton.mp hlast]
        exact hne
  · intro thread job hjob
    have hknown := h.jobs thread job hjob
    have hunused := hknown.unused
    refine hknown.carry rfl rfl le_rfl ⟨hunused.issued, hunused.fresh, hunused.new⟩ ?_
      fun _ _ _ hold _ => hold
    intro _ imm hfront
    change (s.tree.memoryLayer.insert row).immutables.head? = some imm
    have hfront : s.tree.memoryLayer.immutables.head? = some imm := hfront
    rcases hqueue with ⟨hsame, -⟩ | ⟨new, -, -, hnew, -⟩
    · rw [hsame]
      exact hfront
    · rw [hnew, List.head?_append, hfront]
      rfl

/-- Where only the worker drains, no other thread has a job. -/
private theorem separate_of_worker (h : ∀ n, s.job (.client n) = none) : s.Separate := by
  have hworker : ∀ a job, s.job a = some job → a = .worker := by
    intro a job ha
    cases a with
    | worker => rfl
    | client n =>
      rw [h n] at ha
      cases ha
  intro a b job job' ha hb _
  rw [hworker a job ha, hworker b job' hb]

private theorem worker_resume (hworker : ∀ n, s.job (.client n) = none) (hthread : thread = .worker)
    (job : Option Job) (tree : LSMTree) (n : Nat) :
    (s.resume thread job tree).job (.client n) = none := by
  rw [job_resume_of_ne (by rw [hthread]; rintro ⟨⟩)]
  exact hworker n

/-- The next id is taken for a job. -/
private theorem Ledger.begin (h : Ledger s) {job : Job}
    (hthread : s.tree.config.isCompactionBackground = true → thread = .worker)
    (hapart : s.tree.config.isCompactionBackground = true ∨
      (s.resume thread (some job) { s.tree with nextSstId := s.tree.nextSstId + 1 }).Separate)
    (hids : s.tree.nextSstId + 1 + 1 < 2 ^ 32) (hid : newIdOf job = s.tree.nextSstId)
    (hjob : JobKnown
      (s.resume thread (some job) { s.tree with nextSstId := s.tree.nextSstId + 1 }) job) :
    Ledger (s.resume thread (some job) { s.tree with nextSstId := s.tree.nextSstId + 1 }) := by
  have hworker : s.tree.config.isCompactionBackground = true → ∀ n,
      (s.resume thread (some job) { s.tree with nextSstId := s.tree.nextSstId + 1 }).job
        (.client n) = none :=
    fun hmode => worker_resume (h.worker hmode) (hthread hmode) _ _
  have hseparate := hapart.elim (fun hmode => separate_of_worker (hworker hmode)) id
  have hearlier : ∀ a known, s.job a = some known → newIdOf known ≠ newIdOf job := by
    intro a known hknown
    rw [hid]
    exact (h.jobs a known hknown).unused.issued.ne
  refine ⟨⟨h.frozen, h.own, h.consumed⟩, ⟨h.numbered.distinct, ?_, ?_, h.numbered.filed⟩, hids,
    h.nonempty, ?_, ?_, hseparate, ?_, hworker⟩
  · exact fun info hinfo => (h.numbered.issued info hinfo).trans (Nat.lt_succ_self _)
  · exact h.numbered.levels.trans (Nat.le_succ _)
  · intro id hid
    obtain ⟨hlt, hfresh⟩ := h.gone id hid
    exact ⟨hlt.trans (Nat.lt_succ_self _), hfresh⟩
  · intro other known hknown
    by_cases hother : other = thread
    · rw [hother, job_resume_self] at hknown
      cases hknown
      exact hjob
    · rw [job_resume_of_ne hother] at hknown
      have hold := h.jobs other known hknown
      have hunused := hold.unused
      exact hold.carry rfl rfl (Nat.le_succ _)
        ⟨hunused.issued.trans (Nat.lt_succ_self _), hunused.fresh, hunused.new⟩
        (fun _ _ hfront => hfront) fun _ _ _ hold _ => hold
  · intro a b known known' ha hb heq
    by_cases hfirst : a = thread <;> by_cases hsecond : b = thread
    · rw [hfirst, hsecond]
    · rw [hfirst, job_resume_self] at ha
      rw [job_resume_of_ne hsecond] at hb
      cases ha
      exact absurd heq.symm (hearlier b known' hb)
    · rw [hsecond, job_resume_self] at hb
      rw [job_resume_of_ne hfirst] at ha
      cases hb
      exact absurd heq (hearlier a known ha)
    · rw [job_resume_of_ne hfirst] at ha
      rw [job_resume_of_ne hsecond] at hb
      exact h.ids a b known known' ha hb heq

private theorem resume_idle (hidle : s.job thread = none) :
    s.resume thread none s.tree = s := by
  rw [resume, Function.update_eq_self_iff.mpr hidle.symm]

/-- An id that nobody has. -/
private theorem Ledger.unused (h : Ledger s) (job : Option Job) :
    Unused (s.resume thread job { s.tree with nextSstId := s.tree.nextSstId + 1 })
      s.tree.nextSstId := by
  constructor
  · exact Nat.lt_succ_self _
  · exact fun info hinfo => (h.numbered.issued info hinfo).ne
  · exact fun hmem => absurd (h.gone _ hmem).1 (lt_irrefl _)

private theorem level_of_sstablesAtLevel {registry : SSTableRegistry} {level : Nat}
    {olds : List SSTableInfo} (hfiled : registry.Filed)
    (h : registry.sstablesAtLevel level = .ok olds) : ∀ old ∈ olds, old.level = level := by
  unfold SSTableRegistry.sstablesAtLevel at h
  split at h
  · rename_i sstables hfound
    cases h
    intro old hold
    apply hfiled level old
    rw [List.getD_eq_getElem?_getD, hfound]
    exact hold
  · cases h

/-- A thread that drains the table goes on with what it finds. -/
private theorem Ledger.resume (h : Ledger s) (hidle : s.job thread = none) {job : Option Job}
    {tree : LSMTree} (hdrain : s.tree.drainLocked = .ok (job, tree))
    (hthread : s.tree.config.isCompactionBackground = true → thread = .worker)
    (hapart : (s.resume thread job tree).tree.config.isCompactionBackground = true ∨
      (s.resume thread job tree).Separate)
    (hids : tree.nextSstId + 1 < 2 ^ 32) : Ledger (s.resume thread job tree) := by
  have hbound := h.next
  have hnext : u64 (s.tree.nextSstId + 1) = s.tree.nextSstId + 1 := u64_of_lt (by omega)
  rcases LSMTree.drainHeld_cases h.nonempty hdrain with
    ⟨rfl, rfl⟩ | ⟨imm, rest, hqueue, rfl, rfl⟩ | ⟨task, candidates, hpick, hlevel, hne, rfl, rfl⟩
  · rw [resume_idle hidle]
    exact h
  · rw [hnext] at hapart hids ⊢
    refine h.begin hthread hapart hids rfl ⟨h.unused _, ?_⟩
    exact congrArg List.head? hqueue
  · rw [hnext] at hapart hids ⊢
    have hmem := mem_levels_of_sstablesAtLevel hlevel
    have hlevels := h.numbered.levels
    have hids : s.tree.nextSstId + 1 + 1 < 2 ^ 32 := hids
    obtain ⟨hdst, hsrc⟩ := CompactionPolicy.of_pick (by omega) hpick
    refine h.begin hthread hapart hids rfl ⟨h.unused _, ?_, ?_, ?_, ?_⟩
    · exact fun old hold => List.mem_flatten_of_mem hmem hold
    · exact level_of_sstablesAtLevel h.numbered.filed hlevel
    · exact h.numbered.distinct.sublist ((List.sublist_flatten_of_mem hmem).map _)
    · change task.dstLevel ≤ s.tree.nextSstId + 1
      omega

/-- In the background mode, a thread with a job is the worker. -/
private theorem Ledger.thread_of_job (h : Ledger s) {job : Job} (hjob : s.job thread = some job)
    (hmode : s.tree.config.isCompactionBackground = true) : thread = .worker := by
  cases thread with
  | worker => rfl
  | client n =>
    rw [h.worker hmode n] at hjob
    cases hjob

/-- A job that goes on to its next stage. -/
private theorem Ledger.advance (h : Ledger s) {job next : Job} (hjob : s.job thread = some job)
    (hnext : JobKnown s next) (hsource : job.source = next.source)
    (hid : newIdOf job = newIdOf next) (ops : List DiskOp) :
    Ledger (s.resume thread (some next) (s.tree.perform ops)) := by
  have hbefore : ∀ a known,
      (s.resume thread (some next) (s.tree.perform ops)).job a = some known →
        JobKnown s known ∧ ∃ before, s.job a = some before ∧ before.source = known.source ∧
          newIdOf before = newIdOf known := by
    intro a known hknown
    by_cases hthread : a = thread
    · rw [hthread, job_resume_self] at hknown
      cases hknown
      exact ⟨hnext, job, hthread ▸ hjob, hsource, hid⟩
    · rw [job_resume_of_ne hthread] at hknown
      exact ⟨h.jobs a known hknown, known, hknown, rfl, rfl⟩
  refine ⟨⟨h.frozen, h.own, h.consumed⟩, ⟨h.numbered.distinct, h.numbered.issued,
    h.numbered.levels, h.numbered.filed⟩, h.next, h.nonempty, h.gone, ?_, ?_, ?_, ?_⟩
  · intro other known hknown
    have hold := (hbefore other known hknown).1
    have hunused := hold.unused
    exact hold.carry rfl rfl le_rfl ⟨hunused.issued, hunused.fresh, hunused.new⟩
      (fun _ _ hfront => hfront) fun _ _ _ hold _ => hold
  · intro a b known known' ha hb heq
    obtain ⟨-, before, hfirst, hsame, -⟩ := hbefore a known ha
    obtain ⟨-, before', hsecond, hsame', -⟩ := hbefore b known' hb
    exact h.separate a b before before' hfirst hsecond (hsame.trans (heq.trans hsame'.symm))
  · intro a b known known' ha hb heq
    obtain ⟨-, before, hfirst, -, hsame⟩ := hbefore a known ha
    obtain ⟨-, before', hsecond, -, hsame'⟩ := hbefore b known' hb
    exact h.ids a b before before' hfirst hsecond (hsame.trans (heq.trans hsame'.symm))
  · exact fun hmode => worker_resume (h.worker hmode) (h.thread_of_job hjob hmode) _ _

/-- The jobs of the other threads, when one ends. -/
private theorem Ledger.others (h : Ledger s) {job : Job} (hjob : s.job thread = some job)
    (tree : LSMTree) {known : Job}
    (hknown : (s.resume thread none tree).job other = some known) :
    s.job other = some known ∧ known.source ≠ job.source ∧ newIdOf known ≠ newIdOf job := by
  by_cases hother : other = thread
  · rw [hother, job_resume_self] at hknown
    cases hknown
  · rw [job_resume_of_ne hother] at hknown
    exact ⟨hknown, fun heq => hother (h.separate other thread known job hknown hjob heq),
      fun heq => hother (h.ids other thread known job hknown hjob heq)⟩

private theorem apart_ended {α : Type} {f : Job → α} (h : ∀ a b job job', s.job a = some job →
      s.job b = some job' → f job = f job' → a = b) (tree : LSMTree) (a b : Thread)
    (job job' : Job) (ha : (s.resume thread none tree).job a = some job)
    (hb : (s.resume thread none tree).job b = some job') (heq : f job = f job') : a = b := by
  by_cases hfirst : a = thread
  · rw [hfirst, job_resume_self] at ha
    cases ha
  by_cases hsecond : b = thread
  · rw [hsecond, job_resume_self] at hb
    cases hb
  rw [job_resume_of_ne hfirst] at ha
  rw [job_resume_of_ne hsecond] at hb
  exact h a b job job' ha hb heq

private theorem Ledger.worker_ended (h : Ledger s)
    (hmode : s.tree.config.isCompactionBackground = true) (tree : LSMTree) (n : Nat) :
    (s.resume thread none tree).job (.client n) = none := by
  by_cases hthread : .client n = thread
  · rw [hthread]
    exact job_resume_self none tree
  · rw [job_resume_of_ne hthread]
    exact h.worker hmode n

/-- A flush that ends registers the SSTable of the memtable it removes. -/
private theorem Ledger.endFlush (h : Ledger s) {task : LSMTree.FlushTask} {info : SSTableInfo}
    {ended : LSMTree} (hjob : s.job thread = some (.flushed task info))
    (hend : s.tree.endFlush info = .ok ended) :
    Ledger { s.resume thread none ended with
      flushes := s.flushes ++ [⟨task.imm, s.tree.memoryLayer.frontImmutable, info⟩] } := by
  obtain ⟨hunused, hfront, hwritten⟩ : JobKnown s (.flushed task info) := h.jobs thread _ hjob
  obtain ⟨contents, -, hend⟩ := Result.bind_eq_ok.mp hend
  cases hend
  have hlevel : info.level + 1 < 2 ^ 32 := by
    obtain ⟨result, files, -, hinfo⟩ := hwritten
    rw [hinfo]
    exact (by norm_num : 0 + 1 < 2 ^ 32)
  obtain ⟨rest, hqueue⟩ : ∃ rest, s.tree.memoryLayer.immutables = task.imm :: rest :=
    List.head?_eq_some_iff.mp hfront
  have hentries := s.tree.registry.entries_add hlevel
  refine ⟨⟨?_, ?_, h.consumed⟩, ⟨?_, ?_, ?_, h.numbered.filed.add info⟩, h.next, ?_, ?_, ?_,
    apart_ended h.separate s.tree, apart_ended h.ids s.tree,
    fun hmode => h.worker_ended hmode s.tree⟩
  · change (s.flushes ++ [_]).map (fun f : FlushRecord => f.written.ident) ++
      s.tree.memoryLayer.immutables.tail.map ImmutableMemTable.ident = _
    have hfrozen := h.frozen
    rw [hqueue, List.map_cons] at hfrozen
    rw [hqueue, List.tail_cons, List.map_append, List.append_assoc]
    exact hfrozen
  · intro f hf
    rcases List.mem_append.mp hf with hold | hlast
    · exact h.own f hold
    · rw [List.mem_singleton.mp hlast]
      exact ⟨hfront, hwritten⟩
  · apply (hentries.map SSTableInfo.id).nodup_iff.mpr
    refine List.nodup_cons.mpr ⟨?_, h.numbered.distinct⟩
    intro hmem
    obtain ⟨old, hold, heq⟩ := List.mem_map.mp hmem
    exact hunused.fresh old hold heq
  · intro other hother
    rcases List.mem_cons.mp (hentries.mem_iff.mp hother) with rfl | hold
    · exact hunused.issued
    · exact h.numbered.issued other hold
  · change (s.tree.registry.add info).levelCount ≤ s.tree.nextSstId + 1
    rw [SSTableRegistry.levelCount_add _ hlevel]
    obtain ⟨result, files, -, hinfo⟩ := hwritten
    rw [hinfo]
    exact max_le h.numbered.levels (Nat.le_add_left _ _)
  · exact fun imm himm => h.nonempty imm (List.mem_of_mem_tail himm)
  · intro id hid
    refine ⟨(h.gone id hid).1, ?_⟩
    intro other hother
    rcases List.mem_cons.mp (hentries.mem_iff.mp hother) with rfl | hold
    · rintro rfl
      exact hunused.new hid
    · exact (h.gone id hid).2 other hold
  · intro a known hknown
    obtain ⟨hknown, hsource, hid⟩ := h.others hjob s.tree hknown
    have hold := h.jobs a known hknown
    have hfree := hold.unused
    refine hold.carry rfl rfl le_rfl ⟨hfree.issued, ?_, hfree.new⟩
      (fun hqueue => absurd hqueue hsource) ?_
    · intro other hother
      rcases List.mem_cons.mp (hentries.mem_iff.mp hother) with rfl | hmem
      · exact hid.symm
      · exact hfree.fresh other hmem
    · exact fun _ _ old hmem _ => hentries.mem_iff.mpr (List.mem_cons_of_mem _ hmem)

/-- A compaction that ends takes away SSTables that no other has taken. -/
private theorem Ledger.endCompact (h : Ledger s) {task : LSMTree.CompactTask} {info : SSTableInfo}
    {ended : LSMTree} (hjob : s.job thread = some (.compacted task info))
    (hend : s.tree.endCompact task info = .ok ended) :
    Ledger { s.resume thread none ended with
      consumed := s.consumed ++ task.candidates.map SSTableInfo.id } := by
  obtain ⟨hmerging, hid, hlevel⟩ : JobKnown s (.compacted task info) := h.jobs thread _ hjob
  have hconfined := confined_endCompact hend
  obtain ⟨-, hnext⟩ := Session.endCompact_frame hend
  have hunused := hmerging.unused
  rw [← hid] at hunused
  have hbound := h.next
  have hdst := hmerging.level
  have hfits : info.level + 1 < 2 ^ 32 := by omega
  have hmemory : ended.memoryLayer = s.tree.memoryLayer := by
    obtain ⟨contents, -, hend⟩ := Result.bind_eq_ok.mp hend
    cases hend
    exact memoryLayer_dropSstables _ _
  have hregistry : ended.registry = (s.tree.registry.add info).removeAll task.candidates := by
    obtain ⟨contents, -, hend⟩ := Result.bind_eq_ok.mp hend
    cases hend
    exact registry_dropSstables _ _
  have hentries := s.tree.registry.entries_add hfits
  have hleft : ∀ other ∈ ended.registry.entries, (other = info ∨ other ∈ s.tree.registry.entries) ∧
      other.id ∉ task.candidates.map SSTableInfo.id := by
    intro other hother
    rw [hregistry, SSTableRegistry.entries_removeAll, List.mem_filter, decide_eq_true_eq] at hother
    exact ⟨List.mem_cons.mp (hentries.mem_iff.mp hother.1), hother.2⟩
  have hremains : ∀ old ∈ s.tree.registry.entries, old.level ≠ task.task.srcLevel →
      old ∈ ended.registry.entries := by
    intro old hold hlevel
    rw [hregistry, SSTableRegistry.entries_removeAll, List.mem_filter, decide_eq_true_eq]
    refine ⟨hentries.mem_iff.mpr (List.mem_cons_of_mem _ hold), ?_⟩
    intro hmem
    obtain ⟨taken, htaken, heq⟩ := List.mem_map.mp hmem
    have hsame := List.inj_on_of_nodup_map h.numbered.distinct
      (hmerging.known taken htaken) hold heq
    exact hlevel (hsame ▸ hmerging.source taken htaken)
  have hfiled : ended.registry.Filed := hregistry ▸ (h.numbered.filed.add info).removeAll _
  refine ⟨⟨?_, ?_, ?_⟩, ⟨?_, ?_, ?_, hfiled⟩, ?_, ?_, ?_, ?_, apart_ended h.separate s.tree,
    apart_ended h.ids s.tree, ?_⟩
  · change s.flushes.map _ ++ ended.memoryLayer.immutables.map _ =
      List.range ended.memoryLayer.generation
    rw [hmemory]
    exact h.frozen
  · intro f hf
    obtain ⟨hremoved, hwritten⟩ := h.own f hf
    refine ⟨hremoved, ?_⟩
    rw [WrittenFrom]
    change ∃ result files, buildRowSSTable ended.schema (sparseIndexOptions ended.config)
      ended.config.rowBlockTargetBytes f.written.data = .ok (result, files) ∧
        f.info = builtInfo ended.config f.info.id 0 .row result files
    rw [hconfined.schema, hconfined.config]
    exact hwritten
  · refine List.nodup_append.mpr ⟨h.consumed, hmerging.distinct, ?_⟩
    rintro id hgone _ hmem rfl
    obtain ⟨old, hold, heq⟩ := List.mem_map.mp hmem
    exact (h.gone id hgone).2 old (hmerging.known old hold) heq
  · change (ended.registry.entries.map SSTableInfo.id).Nodup
    rw [hregistry, SSTableRegistry.entries_removeAll]
    refine List.Nodup.sublist (List.filter_sublist.map _) ?_
    apply (hentries.map SSTableInfo.id).nodup_iff.mpr
    refine List.nodup_cons.mpr ⟨?_, h.numbered.distinct⟩
    intro hmem
    obtain ⟨old, hold, heq⟩ := List.mem_map.mp hmem
    exact hunused.fresh old hold heq
  · intro other hother
    change other.id < ended.nextSstId
    rw [hnext]
    rcases (hleft other hother).1 with rfl | hold
    · exact hunused.issued
    · exact h.numbered.issued other hold
  · change ended.registry.levelCount ≤ ended.nextSstId + 1
    rw [hregistry, hnext, SSTableRegistry.levelCount_removeAll,
      SSTableRegistry.levelCount_add _ hfits]
    have hlevels := h.numbered.levels
    omega
  · change ended.nextSstId + 1 < 2 ^ 32
    rw [hnext]
    exact h.next
  · intro imm himm
    have himm : imm ∈ ended.memoryLayer.immutables := himm
    rw [hmemory] at himm
    exact h.nonempty imm himm
  · intro id hmem
    change id < ended.nextSstId ∧ ∀ other ∈ ended.registry.entries, other.id ≠ id
    rw [hnext]
    rcases List.mem_append.mp hmem with hold | hnew
    · refine ⟨(h.gone id hold).1, ?_⟩
      intro other hother
      rcases (hleft other hother).1 with rfl | hknown
      · rintro rfl
        exact hunused.new hold
      · exact (h.gone id hold).2 other hknown
    · constructor
      · obtain ⟨old, hold, rfl⟩ := List.mem_map.mp hnew
        exact h.numbered.issued old (hmerging.known old hold)
      · rintro other hother rfl
        exact (hleft other hother).2 hnew
  · intro a known hknown
    obtain ⟨hknown, hsource, hother⟩ := h.others hjob s.tree hknown
    have hold := h.jobs a known hknown
    have hfree := hold.unused
    refine hold.carry hconfined.schema hconfined.config hnext.ge ⟨?_, ?_, ?_⟩ ?_ ?_
    · change newIdOf known < ended.nextSstId
      rw [hnext]
      exact hfree.issued
    · intro left hleaves
      rcases (hleft left hleaves).1 with rfl | hmem
      · rw [hid]
        exact hother.symm
      · exact hfree.fresh left hmem
    · intro hmem
      rcases List.mem_append.mp hmem with hmem | hmem
      · exact hfree.new hmem
      · obtain ⟨taken, htaken, heq⟩ := List.mem_map.mp hmem
        exact hfree.fresh taken (hmerging.known taken htaken) heq
    · intro _ imm hfront
      change ended.memoryLayer.frontImmutable = some imm
      rw [hmemory]
      exact hfront
    · rintro level hlevel old hmem rfl
      exact hremains old hmem fun heq => hsource (hlevel.trans (congrArg some heq))
  · intro hmode
    have hmode : ended.config.isCompactionBackground = true := hmode
    rw [hconfined.config] at hmode
    exact h.worker_ended hmode ended

/-- A thread that ends a job and begins another is idle in between. -/
private theorem resume_twice (between : LSMTree) (job : Option Job) (tree : LSMTree) :
    s.resume thread job tree = (s.resume thread none between).resume thread job tree := by
  simp only [resume, Function.update_idem]

private theorem Ledger.step (h : Ledger s) (hstep : Step s s')
    (hapart : s'.tree.config.isCompactionBackground = true ∨ s'.Separate)
    (hids : s'.tree.nextSstId + 1 < 2 ^ 32) : Ledger s' := by
  cases hstep with
  | insert hmode hidle => exact h.insertRow _
  | @insertDrain n row job tree hmode hidle hdrain =>
    refine (h.insertRow row).resume hidle hdrain ?_ hapart hids
    intro hbackground
    have hbackground : s.tree.config.isCompactionBackground = true := hbackground
    rw [hmode] at hbackground
    cases hbackground
  | wait hmode hidle hdrain =>
    refine h.resume hidle hdrain ?_ hapart hids
    intro hbackground
    rw [hmode] at hbackground
    cases hbackground
  | wake hmode hidle hdrain => exact h.resume hidle hdrain (fun _ => rfl) hapart hids
  | @writeFlush thread task info tree hjob hwrite =>
    obtain ⟨hunused, hfront⟩ : JobKnown s (.flush task) := h.jobs thread _ hjob
    obtain ⟨⟨result, files⟩, hbuild, hwrite⟩ := Result.bind_eq_ok.mp hwrite
    cases hwrite
    have hknown : JobKnown s
        (.flushed task (builtInfo s.tree.config task.sstId 0 .row result files)) :=
      ⟨hunused, hfront, result, files, hbuild, rfl⟩
    exact h.advance hjob hknown rfl rfl _
  | @endFlush thread task info ended tree job hjob hend hdrain =>
    have hmode : ended.config = s.tree.config := (confined_endFlush hend).config
    rw [resume_twice ended] at hapart ⊢
    refine (h.endFlush hjob hend).resume (Function.update_self _ _ _) hdrain ?_ hapart hids
    exact fun hbackground => h.thread_of_job hjob (hmode ▸ hbackground)
  | @writeCompact thread task info tree hjob hwrite =>
    have hmerging : JobKnown s (.compact task) := h.jobs thread _ hjob
    obtain ⟨⟨written, files⟩, hrun, hwrite⟩ := Result.bind_eq_ok.mp hwrite
    cases hwrite
    obtain ⟨-, hlevel, hid⟩ := info_of_run hrun
    have hknown : JobKnown s (.compacted task info) := ⟨hmerging, hid, hlevel⟩
    exact h.advance hjob hknown rfl rfl _
  | @endCompact thread task info ended tree job hjob hend hdrain =>
    have hmode : ended.config = s.tree.config := (confined_endCompact hend).config
    rw [resume_twice ended] at hapart ⊢
    refine (h.endCompact hjob hend).resume (Function.update_self _ _ _) hdrain ?_ hapart hids
    exact fun hbackground => h.thread_of_job hjob (hmode ▸ hbackground)

/-! ## Runs -/

private theorem kept_of_starts {start : Threads} (hstart : Threads.Starts start)
    (hids : start.tree.nextSstId + 1 < 2 ^ 32) : Ledger start := by
  cases hstart with
  | create hcreate hnumbered =>
    obtain ⟨-, -, registry, nextSstId, -, rfl⟩ := tree_of_create hcreate
    refine ⟨⟨rfl, ?_, List.nodup_nil⟩, hnumbered, hids, ?_, ?_, ?_, ?_, ?_, fun _ _ => rfl⟩
    · intro f hf
      cases hf
    · intro imm himm
      cases himm
    · intro id hid
      cases hid
    · intro thread job hjob
      cases hjob
    · intro a b job job' ha
      cases ha
    · intro a b job job' ha
      cases ha

private theorem Separated.kept {start : Threads} (h : Separated start s)
    (hstart : Threads.Starts start) : Ledger s := by
  induction h with
  | start hids => exact kept_of_starts hstart hids
  | step hrun hstep hapart hids ih => exact ih.step hstep hapart hids

end

/-- Every frozen memtable is written to one SSTable and removed with it, and every SSTable
is merged once, where no two threads take from one place. With the background worker that is
every run; without it `Separated` asks that no thread picks while another one drains. -/
theorem doneOnce_of_separated {start s : Threads} (hstart : Threads.Starts start)
    (hrun : Separated start s) : DoneOnce s :=
  (hrun.kept hstart).toDoneOnce

/-! ## Two threads that drain at once -/

/-- Every insertion freezes the memtable and drains the table. -/
private def drainingConfig : StorageConfig :=
  { rootPath := [47, 100], memtableThreshold := 1, isCompactionBackground := false }

private def newTable : Threads := { tree := (Session.keyTable drainingConfig).tree }

private theorem starts_newTable : Threads.Starts newTable := by
  have hcreate : LSMTree.create keyOnlySchema drainingConfig ⟨fun _ => none, none⟩ =
      .ok newTable.tree := rfl
  have hnumbered : Numbered newTable.tree :=
    ⟨List.nodup_nil, nofun, Nat.zero_le 1, SSTableRegistry.filed_empty⟩
  exact Threads.Starts.create hcreate hnumbered

/-- What a flush that ends removes from the queue is what it has written. -/
private def removesOwn (tree : LSMTree) (task : LSMTree.FlushTask) : Bool :=
  tree.memoryLayer.frontImmutable.map ImmutableMemTable.ident == some task.imm.ident

/-- Two threads insert a row each and begin a flush; both write, both end. Whether the
second removes what it has written. -/
private def secondRemoves : Result Bool := do
  let (first, begun) ← (newTable.tree.insertRow (keyOnlyRow 1)).drainLocked
  let (second, both) ← (begun.insertRow (keyOnlyRow 2)).drainLocked
  match first, second with
  | some (.flush task), some (.flush task') => do
    let (info, written) ← both.writeFlush task
    let (info', written') ← written.writeFlush task'
    let ended ← written'.endFlush info
    let (_, drained) ← ended.drainLocked
    let ended' ← drained.endFlush info'
    let _ ← ended'.drainLocked
    return begun.config.isCompactionBackground || removesOwn drained task'
  | _, _ => throw .outOfFuel

private theorem not_doneOnce {s : Threads} {tree : LSMTree} {task : LSMTree.FlushTask}
    {info : SSTableInfo} (hmem : ⟨task.imm, tree.memoryLayer.frontImmutable, info⟩ ∈ s.flushes)
    (hother : removesOwn tree task = false) : ¬ DoneOnce s := by
  intro h
  have hown : tree.memoryLayer.frontImmutable = some task.imm := (h.own _ hmem).1
  rw [removesOwn, hown, Option.map_some, beq_self_eq_true] at hother
  cases hother

section

variable {s : Threads} {thread : Thread}

private theorem exists_begun {n : Nat} {row : Row} {job : Option Job} {tree : LSMTree}
    (hmode : s.tree.config.isCompactionBackground = false) (hidle : s.job (.client n) = none)
    (h : (s.tree.insertRow row).drainLocked = .ok (job, tree)) :
    ∃ s', Step s s' ∧ s'.tree = tree ∧ s'.job (.client n) = job ∧
      ∀ other, other ≠ .client n → s'.job other = s.job other :=
  ⟨_, .insertDrain hmode hidle h, rfl, job_resume_self _ _, fun _ hne => job_resume_of_ne hne _ _⟩

private theorem exists_written {task : LSMTree.FlushTask} {info : SSTableInfo} {tree : LSMTree}
    (hjob : s.job thread = some (.flush task)) (h : s.tree.writeFlush task = .ok (info, tree)) :
    ∃ s', Step s s' ∧ s'.tree = tree ∧ s'.job thread = some (.flushed task info) ∧
      ∀ other, other ≠ thread → s'.job other = s.job other :=
  ⟨_, .writeFlush hjob h, rfl, job_resume_self _ _, fun _ hne => job_resume_of_ne hne _ _⟩

private theorem exists_ended {task : LSMTree.FlushTask} {info : SSTableInfo}
    {ended tree : LSMTree} {job : Option Job} (hjob : s.job thread = some (.flushed task info))
    (hend : s.tree.endFlush info = .ok ended) (h : ended.drainLocked = .ok (job, tree)) :
    ∃ s', Step s s' ∧ s'.tree = tree ∧
      ⟨task.imm, s.tree.memoryLayer.frontImmutable, info⟩ ∈ s'.flushes ∧
      ∀ other, other ≠ thread → s'.job other = s.job other :=
  ⟨_, .endFlush hjob hend h, rfl, List.mem_append_right _ List.mem_cons_self,
    fun _ hne => job_resume_of_ne hne job tree⟩

/-- The steps of the two threads. -/
private theorem exists_overlapping (hidle : ∀ thread, s.job thread = none)
    (hmode : s.tree.config.isCompactionBackground = false) {row row' : Row}
    {task task' : LSMTree.FlushTask} {info info' : SSTableInfo}
    {begun both written written' ended drained ended' drained' : LSMTree} {job job' : Option Job}
    (hfirst : (s.tree.insertRow row).drainLocked = .ok (some (.flush task), begun))
    (hmode' : begun.config.isCompactionBackground = false)
    (hsecond : (begun.insertRow row').drainLocked = .ok (some (.flush task'), both))
    (hwrite : both.writeFlush task = .ok (info, written))
    (hwrite' : written.writeFlush task' = .ok (info', written'))
    (hend : written'.endFlush info = .ok ended) (hdrain : ended.drainLocked = .ok (job, drained))
    (hend' : drained.endFlush info' = .ok ended')
    (hdrain' : ended'.drainLocked = .ok (job', drained')) :
    ∃ s', Relation.ReflTransGen Step s s' ∧
      ⟨task'.imm, drained.memoryLayer.frontImmutable, info'⟩ ∈ s'.flushes := by
  have hne : Thread.client 1 ≠ .client 0 := by decide
  obtain ⟨one, hone, rfl, hjob, hothers⟩ := exists_begun hmode (hidle (.client 0)) hfirst
  obtain ⟨two, htwo, rfl, hjob', hothers'⟩ :=
    exists_begun (n := 1) hmode' ((hothers _ hne).trans (hidle _)) hsecond
  rw [← hothers' _ hne.symm] at hjob
  obtain ⟨three, hthree, rfl, hjob, hothers⟩ := exists_written hjob hwrite
  rw [← hothers _ hne] at hjob'
  obtain ⟨four, hfour, rfl, hjob', hothers'⟩ := exists_written hjob' hwrite'
  rw [← hothers' _ hne.symm] at hjob
  obtain ⟨five, hfive, rfl, -, hothers⟩ := exists_ended hjob hend hdrain
  rw [← hothers _ hne] at hjob'
  obtain ⟨six, hsix, -, hmem, -⟩ := exists_ended hjob' hend' hdrain'
  exact ⟨six, (((((Relation.ReflTransGen.single hone).tail htwo).tail hthree).tail hfour).tail
    hfive).tail hsix, hmem⟩

end

/-- Without a worker, a thread takes the memtable that another is writing: it is written
twice, and the second thread removes a memtable that it has not written. -/
theorem concurrent_drains_mix : ∃ start s, Threads.Starts start ∧
    Relation.ReflTransGen Step start s ∧ ¬ DoneOnce s := by
  have hremoves : secondRemoves = .ok false := by decide +kernel
  obtain ⟨⟨first, begun⟩, hfirst, hremoves⟩ := Result.bind_eq_ok.mp hremoves
  dsimp only at hremoves
  obtain ⟨⟨second, both⟩, hsecond, hremoves⟩ := Result.bind_eq_ok.mp hremoves
  dsimp only at hremoves
  split at hremoves
  · obtain ⟨⟨info, written⟩, hwrite, hremoves⟩ := Result.bind_eq_ok.mp hremoves
    dsimp only at hremoves
    obtain ⟨⟨info', written'⟩, hwrite', hremoves⟩ := Result.bind_eq_ok.mp hremoves
    dsimp only at hremoves
    obtain ⟨ended, hend, hremoves⟩ := Result.bind_eq_ok.mp hremoves
    obtain ⟨⟨job, drained⟩, hdrain, hremoves⟩ := Result.bind_eq_ok.mp hremoves
    dsimp only at hremoves
    obtain ⟨ended', hend', hremoves⟩ := Result.bind_eq_ok.mp hremoves
    obtain ⟨⟨job', drained'⟩, hdrain', hremoves⟩ := Result.bind_eq_ok.mp hremoves
    obtain ⟨hmode, hother⟩ := Bool.or_eq_false_iff.mp (Except.ok.inj hremoves)
    obtain ⟨s, hrun, hmem⟩ := exists_overlapping (s := newTable) (fun _ => rfl) rfl hfirst hmode
      hsecond hwrite hwrite' hend hdrain hend' hdrain'
    exact ⟨newTable, s, starts_newTable, hrun, not_doneOnce hmem hother⟩
  · cases hremoves

/-! ## A thread that flushes alone -/

/-- The states of a thread that inserts a row and flushes it, and whether there are ids left. -/
private def flushesAlone : Result Bool := do
  let (job, begun) ← (newTable.tree.insertRow (keyOnlyRow 1)).drainLocked
  match job with
  | some (.flush task) => do
    let (info, written) ← begun.writeFlush task
    let ended ← written.endFlush info
    let (_, drained) ← ended.drainLocked
    return decide (begun.nextSstId + 1 < 2 ^ 32 ∧ written.nextSstId + 1 < 2 ^ 32 ∧
      drained.nextSstId + 1 < 2 ^ 32)
  | _ => throw .outOfFuel

private theorem separate_of_one {s : Threads}
    (h : ∀ other, other ≠ Thread.client 0 → s.job other = none) : s.Separate := by
  have hclient : ∀ a job, s.job a = some job → a = .client 0 := by
    intro a job ha
    by_contra hne
    rw [h a hne] at ha
    cases ha
  intro a b job job' ha hb _
  rw [hclient a job ha, hclient b job' hb]

theorem doneOnce_of_separated_flush : ∃ s, Separated newTable s ∧ s.flushes ≠ [] ∧ DoneOnce s := by
  have hflushes : flushesAlone = .ok true := by decide +kernel
  obtain ⟨⟨job, begun⟩, hbegin, hflushes⟩ := Result.bind_eq_ok.mp hflushes
  dsimp only at hflushes
  split at hflushes
  · obtain ⟨⟨info, written⟩, hwrite, hflushes⟩ := Result.bind_eq_ok.mp hflushes
    dsimp only at hflushes
    obtain ⟨ended, hend, hflushes⟩ := Result.bind_eq_ok.mp hflushes
    obtain ⟨⟨job', drained⟩, hdrain, hflushes⟩ := Result.bind_eq_ok.mp hflushes
    obtain ⟨hids, hids', hids''⟩ := of_decide_eq_true (Except.ok.inj hflushes)
    obtain ⟨one, hone, rfl, hjob, hothers⟩ := exists_begun (s := newTable) (n := 0) rfl rfl hbegin
    obtain ⟨two, htwo, rfl, hjob, hothers'⟩ := exists_written hjob hwrite
    obtain ⟨three, hthree, rfl, hmem, hothers''⟩ := exists_ended hjob hend hdrain
    have hnone : ∀ other, other ≠ Thread.client 0 → one.job other = none := hothers
    have hnone' : ∀ other, other ≠ Thread.client 0 → two.job other = none :=
      fun other hne => (hothers' other hne).trans (hnone other hne)
    have hnone'' : ∀ other, other ≠ Thread.client 0 → three.job other = none :=
      fun other hne => (hothers'' other hne).trans (hnone' other hne)
    have hstart : newTable.tree.nextSstId + 1 < 2 ^ 32 := by norm_num [newTable, Session.keyTable]
    have hrun : Separated newTable three :=
      (((Separated.start hstart).step hone (Or.inr (separate_of_one hnone)) hids).step htwo
        (Or.inr (separate_of_one hnone')) hids').step hthree
        (Or.inr (separate_of_one hnone'')) hids''
    exact ⟨three, hrun, List.ne_nil_of_mem hmem, doneOnce_of_separated starts_newTable hrun⟩
  · cases hflushes

end Htap.Properties
