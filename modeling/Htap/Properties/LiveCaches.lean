import Htap.Tree.Frames
import Htap.Tree.WholeSteps

/-!
Which SSTables have a metadata cache. A scan makes caches for the SSTables it opens, and
nothing ever drops one: a compaction takes its candidates out of the registry and leaves
their caches, each with its open file, behind.
-/

namespace Htap.Properties

open Storage SSTable Read Cursor Htap.Tree Htap.Tree.Session

/-- Every metadata cache is that of a registered SSTable. -/
def CachesLive (tree : LSMTree) : Prop :=
  ∀ e ∈ tree.metadataCaches, ∃ info ∈ tree.registry.entries, info.id = e.1

/-- A scan that throws at some SSTable: those before it were opened, and it may have got
its metadata cache. -/
inductive ScanThrows (tree : LSMTree) : LSMTree → Prop
  | opening {range : KeyRange} {projection : List Nat} {filter : DataSkippingFilter}
    {infos rest : List SSTableInfo} {first cursors : List ScanCursor} {opened : LSMTree}
    (hscanned : tree.scannedSSTables range = infos ++ rest)
    (hfold : infos.foldlM (LSMTree.scanSSTable range projection filter) (first, tree) =
      .ok (cursors, opened)) : ScanThrows tree opened
  | reading {range : KeyRange} {projection : List Nat} {filter : DataSkippingFilter}
    {infos rest : List SSTableInfo} {info : SSTableInfo} {first cursors : List ScanCursor}
    {opened : LSMTree} {found cache : SSTableMetadataCache} {blocks : Option SSTableBlockCache}
    (hscanned : tree.scannedSSTables range = infos ++ info :: rest)
    (hfold : infos.foldlM (LSMTree.scanSSTable range projection filter) (first, tree) =
      .ok (cursors, opened))
    (hget : opened.getOrCreateMetadataCache info = .ok found) (hinfo : cache.info = found.info) :
    ScanThrows tree { opened.setMetadataCache info.id cache with blockCache := blocks }

/-- A step of the table, where it is allowed, or a scan that throws. -/
inductive Proceeds (Allowed : Session → Session → Prop) : Session → Session → Prop
  | step {s s' : Session} (hstep : Step s s') (hallowed : Allowed s s') : Proceeds Allowed s s'
  | scanThrows {s : Session} {tree : LSMTree} (h : ScanThrows s.tree tree) :
    Proceeds Allowed s { s with tree := tree }

def ReachesBy (Allowed : Session → Session → Prop) : Session → Session → Prop :=
  Relation.ReflTransGen (Proceeds Allowed)

/-- A compaction that ends drops no SSTable with a metadata cache, and its own level is not
the last that `uint32_t` can name. -/
def SparesCaches (s s' : Session) : Prop :=
  ∀ job info before after, s.jobs = before ++ .compacted job info :: after →
    s'.jobs = before ++ after →
    (∀ old ∈ job.candidates, ∀ e ∈ s.tree.metadataCaches, e.1 ≠ old.id) ∧
      info.level + 1 < 2 ^ 32

/-! ## What the steps keep -/

section

variable {tree tree' : LSMTree} {s s' : Session}

/-- Reading keeps caches live. -/
theorem CachesLive.read (h : CachesLive tree) {infos : List SSTableInfo}
    (hinfos : ∀ info ∈ infos, info ∈ tree.registry.entries) (hsame : SameData tree tree')
    (hcaches : CachesFrom infos tree tree') : CachesLive tree' := by
  have hregistry : tree'.registry = tree.registry := by rw [hsame]
  intro e he
  rw [hregistry]
  rcases hcaches e he with ⟨old, hold, heq, -⟩ | ⟨info, hinfo, heq, -⟩
  · obtain ⟨info, hinfo, hid⟩ := h old hold
    exact ⟨info, hinfo, hid.trans heq⟩
  · exact ⟨info, hinfos info hinfo, heq⟩

theorem CachesLive.scanThrows (h : CachesLive tree) (hthrows : ScanThrows tree tree') :
    CachesLive tree' := by
  cases hthrows with
  | opening hscanned hfold =>
    obtain ⟨hsame, hcaches⟩ := of_openings hfold
    apply h.read _ hsame hcaches
    intro info hinfo
    apply mem_entries_of_scanned
    rw [hscanned]
    exact List.mem_append_left _ hinfo
  | @reading range projection filter infos rest info first cursors opened found cache blocks
      hscanned hfold hget hinfo =>
    obtain ⟨hsame, hcaches⟩ := of_openings hfold
    have hput : CachesFrom (infos ++ [info]) tree
        { opened.setMetadataCache info.id cache with blockCache := blocks } := by
      have hmore : CachesFrom (infos ++ [info]) tree opened := by
        intro e he
        rcases hcaches e he with hold | ⟨other, hother, hof⟩
        · exact Or.inl hold
        · exact Or.inr ⟨other, List.mem_append_left _ hother, hof⟩
      exact hmore.setMetadataCache (by simp) hget hinfo
    apply h.read _ _ hput
    · intro other hother
      apply mem_entries_of_scanned
      rw [hscanned]
      rcases List.mem_append.mp hother with hin | hin
      · exact List.mem_append_left _ hin
      · rw [List.mem_singleton.mp hin]
        exact List.mem_append_right _ List.mem_cons_self
    · exact hsame.trans rfl

/-- Registering an SSTable keeps the others registered, unless the level table is lost. -/
theorem CachesLive.add (h : CachesLive tree) {info : SSTableInfo}
    (hlevel : info.level + 1 < 2 ^ 32) :
    CachesLive { tree with registry := tree.registry.add info } := by
  intro e he
  obtain ⟨old, hold, heq⟩ := h e he
  refine ⟨old, ?_, heq⟩
  exact (tree.registry.entries_add hlevel).mem_iff.mpr (List.mem_cons_of_mem info hold)

theorem CachesLive.dropSstables (h : CachesLive tree) {olds : List SSTableInfo}
    (hspared : ∀ old ∈ olds, ∀ e ∈ tree.metadataCaches, e.1 ≠ old.id) :
    CachesLive (olds.foldl LSMTree.dropSstable tree) := by
  intro e he
  rw [metadataCaches_dropSstables] at he
  obtain ⟨info, hinfo, heq⟩ := h e he
  refine ⟨info, ?_, heq⟩
  rw [registry_dropSstables, SSTableRegistry.entries_removeAll, List.mem_filter]
  refine ⟨hinfo, decide_eq_true ?_⟩
  intro hdropped
  obtain ⟨old, hold, hid⟩ := List.mem_map.mp hdropped
  exact hspared old hold e he (heq.symm.trans hid.symm)

theorem CachesLive.saved (h : CachesLive tree) (hsave : tree.saveManifest = .ok tree') :
    CachesLive tree' := by
  obtain ⟨contents, -, hsave⟩ := Result.bind_eq_ok.mp hsave
  cases hsave
  exact h

/-- A flush writes to level 0. -/
def FlushesToZero (s : Session) : Prop :=
  ∀ task info, Job.flushed task info ∈ s.jobs → info.level = 0

private theorem flushesToZero_step (h : FlushesToZero s) (hstep : Step s s') :
    FlushesToZero s' := by
  intro task info hmem
  rcases hstep.jobs_cases _ hmem with hold | hnew
  · exact h task info hold
  · cases hnew with
    | flushed hpath hlevel => exact hlevel

theorem CachesLive.step (h : CachesLive s.tree) (hzero : FlushesToZero s) (hstep : Step s s')
    (hspares : SparesCaches s s') : CachesLive s'.tree := by
  cases hstep with
  | insert hinsert =>
    obtain ⟨-, -, hinsert⟩ := Result.bind_eq_ok.mp hinsert
    cases hinsert
    exact h
  | scan hscan =>
    obtain ⟨hsame, hcaches⟩ := of_scan hscan
    exact h.read (fun info hinfo => mem_entries_of_scanned hinfo) hsame hcaches
  | next hcursors hnext => exact h
  | dropEmpty hbegin =>
    rcases beginFlush_cases s.tree with ⟨-, heq⟩ | ⟨imm, rest, -, -, heq⟩ | ⟨imm, rest, -, -, heq⟩
    all_goals
      rw [heq] at hbegin
      cases hbegin
    exact h
  | beginFlush hbegin =>
    rcases beginFlush_cases s.tree with ⟨-, heq⟩ | ⟨imm, rest, -, -, heq⟩ | ⟨imm, rest, -, -, heq⟩
    all_goals
      rw [heq] at hbegin
      cases hbegin
    exact h
  | writeFlush hjobs hwrite =>
    obtain ⟨ops, rfl⟩ := exists_perform_of_writeFlush hwrite
    exact h
  | @endFlush before after task info tree hjobs hend =>
    have hlevel : info.level = 0 := hzero task info (by rw [hjobs]; simp)
    have hfits : info.level + 1 < 2 ^ 32 := by
      rw [hlevel]
      norm_num
    have hadded : CachesLive { s.tree with
        registry := s.tree.registry.add info
        memoryLayer := s.tree.memoryLayer.popFrontImmutable } := h.add hfits
    exact hadded.saved hend
  | beginCompact hbegin =>
    rcases beginCompact_cases hbegin with ⟨-, rfl⟩ | ⟨task, candidates, -, -, -, -, rfl⟩
    · exact h
    · exact h
  | writeCompact hjobs hwrite =>
    obtain ⟨ops, rfl⟩ := exists_perform_of_writeCompact hwrite
    exact h
  | @endCompact before after job info tree hjobs hend =>
    obtain ⟨huncached, hlevel⟩ := hspares job info before after hjobs rfl
    have hdropped := (h.add hlevel).dropSstables huncached
    exact hdropped.saved hend

end

/-- Whatever table was opened, in every state reached by steps that spare the caches each
metadata cache belongs to a registered SSTable. The steps that may not are ends of
compactions, when an SSTable with a cache goes; everything else spares them. -/
theorem metadata_caches_live {schema : Schema} {config : StorageConfig} {disk : Disk}
    {tree : LSMTree} (hcreate : LSMTree.create schema config disk = .ok tree) {s : Session}
    (hreaches : ReachesBy SparesCaches { tree := tree } s) : CachesLive s.tree := by
  obtain ⟨-, -, registry, nextSstId, -, rfl⟩ := tree_of_create hcreate
  have hboth : CachesLive s.tree ∧ FlushesToZero s := by
    induction hreaches with
    | refl =>
      constructor
      · intro e he
        cases he
      · intro task info hmem
        cases hmem
    | tail _ hmove ih =>
      obtain ⟨hlive, hzero⟩ := ih
      cases hmove with
      | step hstep hspares => exact ⟨hlive.step hzero hstep hspares, flushesToZero_step hzero hstep⟩
      | scanThrows hthrows => exact ⟨hlive.scanThrows hthrows, hzero⟩
  exact hboth.1

/-! ## Two SSTables, scanned and then merged -/

section

variable {Allowed : Session → Session → Prop} {start s s' : Session}

private theorem reaches_jobSteps {Stepped : Session → Session → Prop}
    (h : ReachesBy Allowed start s) (hallowed : ∀ {a b}, Stepped a b → Allowed a b)
    (hsteps : Relation.ReflTransGen (JobStep Stepped s) s s') : ReachesBy Allowed start s' :=
  h.trans (Relation.ReflTransGen.mono
    (fun _ _ hstep => .step hstep.step (hallowed hstep.allowed)) _ _ hsteps)

end

private theorem reaches_twoKeys {Allowed : Session → Session → Prop}
    (hallowed : ∀ {a b}, NoMergeEnds a b → Allowed a b) :
    ReachesBy Allowed (keyTable eagerConfig) twoKeys := by
  have hnone : ∀ {a b : Session}, a.jobs = [] → Allowed a b := by
    intro a b hidle
    apply hallowed
    rw [NoMergeEnds, hidle]
    simp
  exact (Relation.ReflTransGen.single (.step (step_insertKey rfl 1) (hnone rfl))).tail
    (.step (step_insertKey rfl 2) (hnone rfl))

/-- Whether some cache is left over when both memtables were flushed, everything was
scanned and the two SSTables were merged. -/
private def leavesCache : Result Bool := do
  let (_, first) ← twoKeys.tree.flushOne
  let (_, second) ← first.flushOne
  let (_, scanned) ← LSMStorageEngine.scan second none none [0] .unordered {}
  let (_, compacted) ← scanned.compactOne
  return compacted.metadataCaches.any fun e =>
    !compacted.registry.entries.any fun info => info.id == e.1

/-- How many caches there are after the scan. -/
private def scannedCaches : Result Nat := do
  let (_, first) ← twoKeys.tree.flushOne
  let (_, scanned) ← LSMStorageEngine.scan first none none [0] .unordered {}
  return scanned.metadataCaches.length

/-- The caches of two SSTables outlive the compaction that deletes them. -/
theorem compaction_leaves_caches :
    LSMTree.create keyOnlySchema eagerConfig ⟨fun _ => none, none⟩ =
      .ok (keyTable eagerConfig).tree ∧
    ∃ s, ReachesBy (fun _ _ => True) (keyTable eagerConfig) s ∧ ¬ CachesLive s.tree := by
  refine ⟨rfl, ?_⟩
  have hleaves : leavesCache = .ok true := by decide +kernel
  obtain ⟨⟨done, first⟩, hfirst, hleaves⟩ := Result.bind_eq_ok.mp hleaves
  dsimp only at hleaves
  obtain ⟨⟨done', second⟩, hsecond, hleaves⟩ := Result.bind_eq_ok.mp hleaves
  dsimp only at hleaves
  obtain ⟨⟨cursor, scanned⟩, hscan, hleaves⟩ := Result.bind_eq_ok.mp hleaves
  dsimp only at hleaves
  obtain ⟨⟨merged, compacted⟩, hcompact, hleaves⟩ := Result.bind_eq_ok.mp hleaves
  have hany := Except.ok.inj hleaves
  obtain ⟨issued, hone⟩ := @flushOne_steps twoKeys rfl _ _ hfirst
  obtain ⟨issued', htwo⟩ := @flushOne_steps { twoKeys with tree := first, issued := issued } rfl
    _ _ hsecond
  have hflushed := reaches_jobSteps
    (reaches_jobSteps (reaches_twoKeys fun _ => trivial) (fun _ => trivial) hone)
    (fun _ => trivial) htwo
  have hread := hflushed.tail (.step (.scan hscan) trivial)
  obtain ⟨issued'', hthree⟩ := @compactOne_steps
    { twoKeys with tree := scanned, cursors := [cursor], issued := issued' } rfl _ _ hcompact
  refine ⟨_, reaches_jobSteps hread (fun _ => trivial) hthree, ?_⟩
  intro hlive
  obtain ⟨e, he, hdead⟩ := List.any_eq_true.mp hany
  obtain ⟨info, hinfo, heq⟩ := hlive e he
  rw [Bool.not_eq_true', List.any_eq_false] at hdead
  exact hdead info hinfo (beq_iff_eq.mpr heq)

/-- A table with one SSTable, and its cache after a scan. -/
theorem metadata_caches_live_scanned : ∃ s, ReachesBy SparesCaches (keyTable eagerConfig) s ∧
    s.tree.metadataCaches.length = 1 ∧ CachesLive s.tree := by
  have hquiet : ∀ {a b : Session}, NoMergeEnds a b → SparesCaches a b := by
    intro a b hnone job info before after hjobs
    exact absurd (by rw [hjobs]; simp) (hnone job info)
  have hscanned : scannedCaches = .ok 1 := by decide +kernel
  obtain ⟨⟨done, first⟩, hfirst, hscanned⟩ := Result.bind_eq_ok.mp hscanned
  dsimp only at hscanned
  obtain ⟨⟨cursor, scanned⟩, hscan, hscanned⟩ := Result.bind_eq_ok.mp hscanned
  have hcount := Except.ok.inj hscanned
  obtain ⟨issued, hsteps⟩ := @flushOne_steps twoKeys rfl _ _ hfirst
  have hone := reaches_jobSteps (reaches_twoKeys hquiet) hquiet hsteps
  have hnone : ∀ job info, Job.compacted job info ∉ ([] : List Job) := by simp
  have hread := hone.tail (.step (.scan hscan) (hquiet hnone))
  have hcreate : LSMTree.create keyOnlySchema eagerConfig ⟨fun _ => none, none⟩ =
      .ok (keyTable eagerConfig).tree := rfl
  exact ⟨_, hread, hcount, metadata_caches_live hcreate hread⟩

end Htap.Properties
