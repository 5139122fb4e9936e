import Htap.Tree.Engine
import Htap.Tree.KeyTable

/-!
Tables of one engine. The engine accepts any two different strings as names of different
tables, and makes each a path without a look at it. Tables whose paths lead to different
directories never touch each other; `a` and `./a` share one.
-/

namespace Htap.Properties

open Storage SSTable Read Cursor Htap.Tree

/-- What a table is left with: its state, its files, and what its scans return. -/
structure Untouched (e e' : Engine) (tableName : Bytes) (s : Session) : Prop where
  session : e'.tables tableName = some s
  files : ∀ place, Owns e.files.cwd s.tree.config.rootPath place →
    e.files.AlikeAt e'.files place
  scans : ∀ fromKey toKey projection order filter,
    LSMStorageEngine.scan (s.mount e'.files).tree fromKey toKey projection order filter =
      (LSMStorageEngine.scan (s.mount e.files).tree fromKey toKey projection order filter).map
        (onDisk (e'.files.view s.tree.config.rootPath))

/-- A table that can be created under this name: its path keeps apart from those of the
other tables, and a manifest that is found there names SSTables of that path only. -/
structure KeepsApart (e : Engine) (tableName : Bytes) : Prop where
  apart : ∀ other s, e.tables other = some s →
    Apart e.files.cwd (e.tablePath tableName) s.tree.config.rootPath
  found : ∀ registry nextSstId,
    loadManifest (e.files.view (e.tablePath tableName)) = .ok (registry, nextSstId) →
      ∀ info ∈ registry.entries, OwnPath (e.tablePath tableName) info

/-- Any steps of any tables, where tables that keep apart are created. -/
inductive ApartRun (start : Engine) : Engine → Prop
  | start : ApartRun start start
  | step {e e' : Engine} {tableName : Bytes} (hrun : ApartRun start e)
    (hstep : e.Step tableName e') (hapart : e.tables tableName = none → KeepsApart e tableName) :
    ApartRun start e'

/-! ## What holds in such a run -/

/-- The tables keep apart, and each knows SSTables of its own only. -/
structure AllApart (e : Engine) : Prop where
  apart : ∀ a b s t, a ≠ b → e.tables a = some s → e.tables b = some t →
    Apart e.files.cwd s.tree.config.rootPath t.tree.config.rootPath
  paths : ∀ a s, e.tables a = some s → OwnPaths s

section

variable {e e' : Engine} {tableName : Bytes}

/-- What `create_table` adds. -/
private theorem of_createTable {schema : Schema} (h : e.createTable tableName schema = .ok e') :
    e.tables tableName = none ∧ ∃ (registry : SSTableRegistry) (nextSstId : Nat) (tree : LSMTree),
      loadManifest (e.files.view (e.tablePath tableName)) = .ok (registry, nextSstId) ∧
      tree.config.rootPath = e.tablePath tableName ∧ tree.registry = registry ∧
      tree.metadataCaches = [] ∧ e' = { e.setTable tableName { tree := tree } with
        files := e.files.createDirectories (e.tablePath tableName) } := by
  unfold Engine.createTable at h
  split at h
  · cases h
  · rename_i hfree
    obtain ⟨tree, hcreate, h⟩ := Result.bind_eq_ok.mp h
    cases h
    obtain ⟨-, -, registry, nextSstId, hload, rfl⟩ := tree_of_create hcreate
    exact ⟨by simpa using hfree, registry, nextSstId, _, hload, rfl, rfl, rfl, rfl⟩

/-- A new table among the others. -/
private theorem AllApart.create (h : AllApart e) {s : Session} (hnew : OwnPaths s)
    (hroot : s.tree.config.rootPath = e.tablePath tableName) (hapart : KeepsApart e tableName)
    {made : List Location} :
    AllApart { e.setTable tableName s with files := e.files.makeDirectories made } := by
  have htables := Engine.tables_setTable e tableName
  constructor
  · intro a b sa sb hne ha hb
    dsimp only at ha hb
    rw [htables] at ha hb
    split at ha
    · rename_i haname
      cases ha
      rw [if_neg fun hbname => hne (haname.trans hbname.symm)] at hb
      rw [hroot]
      exact hapart.apart b sb hb
    · split at hb
      · cases hb
        rw [hroot]
        exact (hapart.apart a sa ha).symm
      · exact h.apart a b sa sb hne ha hb
  · intro a sa ha
    dsimp only at ha
    rw [htables] at ha
    split at ha
    · cases ha
      exact hnew
    · exact h.paths a sa ha

/-- A table that took a step among the others. -/
private theorem AllApart.stepped (h : AllApart e) {s s' : Session}
    (htable : e.tables tableName = some s) (hstep : Session.Step (s.mount e.files) s') :
    AllApart (e.stepped tableName s s') := by
  have hroot : s'.tree.config.rootPath = s.tree.config.rootPath := by
    rw [hstep.confined.config]
    rfl
  have hmounted : OwnPaths (s.mount e.files) := by
    obtain ⟨hregistered, hcached, hflushed, hcompacted⟩ := h.paths tableName s htable
    exact ⟨hregistered, hcached, hflushed, hcompacted⟩
  have hfound : ∀ {a t}, (e.stepped tableName s s').tables a = some t →
      ∃ t₀, e.tables a = some t₀ ∧ t.tree.config.rootPath = t₀.tree.config.rootPath ∧
        OwnPaths t := by
    intro a t ha
    have htables := Engine.tables_setTable e tableName a s'
    rw [show (e.stepped tableName s s').tables a = _ from htables] at ha
    split at ha
    · rename_i haname
      cases ha
      exact ⟨s, haname ▸ htable, hroot, hmounted.step hstep⟩
    · exact ⟨t, ha, rfl, h.paths a t ha⟩
  have hcwd : (e.stepped tableName s s').files.cwd = e.files.cwd :=
    FileSystem.cwd_performAll _ _ _
  constructor
  · intro a b sa sb hne ha hb
    obtain ⟨ta, hta, haroot, -⟩ := hfound ha
    obtain ⟨tb, htb, hbroot, -⟩ := hfound hb
    rw [hcwd, haroot, hbroot]
    exact h.apart a b ta tb hne hta htb
  · intro a sa ha
    obtain ⟨-, -, -, hpaths⟩ := hfound ha
    exact hpaths

theorem AllApart.step (h : AllApart e) (hstep : e.Step tableName e')
    (hapart : e.tables tableName = none → KeepsApart e tableName) : AllApart e' := by
  cases hstep with
  | create hcreate =>
    obtain ⟨hfree, registry, nextSstId, tree, hload, hroot, hregistry, hcaches, rfl⟩ :=
      of_createTable hcreate
    have hkeeps := hapart hfree
    apply h.create _ hroot hkeeps
    constructor
    · dsimp only
      rw [hroot, hregistry]
      exact hkeeps.found registry nextSstId hload
    · intro entry hentry
      dsimp only at hentry
      rw [hcaches] at hentry
      cases hentry
    · intro task info hmem
      cases hmem
    · intro job info hmem
      cases hmem
  | refused => exact ⟨h.apart, h.paths⟩
  | table htable hsession => exact h.stepped htable hsession

/-! ## The other tables -/

/-- Files that agree on the places of a table make its scans agree. -/
private theorem scan_mount {s : Session} (hpaths : OwnPaths s) {files files' : FileSystem}
    (hcwd : files'.cwd = files.cwd)
    (hfiles : ∀ place, Owns files.cwd s.tree.config.rootPath place →
      files'.sstables place = files.sstables place)
    (fromKey toKey : Option Key) (projection : List Nat) (order : ScanOrder)
    (filter : DataSkippingFilter) :
    LSMStorageEngine.scan (s.mount files').tree fromKey toKey projection order filter =
      (LSMStorageEngine.scan (s.mount files).tree fromKey toKey projection order filter).map
        (onDisk (files'.view s.tree.config.rootPath)) := by
  have hsame : ∀ info, OwnPath s.tree.config.rootPath info →
      SSTableMetadataCache.SameFiles (s.mount files).tree.disk
        (files'.view s.tree.config.rootPath) info.path := by
    rintro info ⟨id, hpath⟩
    rw [hpath]
    change files'.sstables (locate files'.cwd _) = files.sstables (locate files.cwd _)
    rw [hcwd]
    exact hfiles _ (Or.inl ⟨id, List.prefix_rfl⟩)
  have halike : ReadsAlike (s.mount files).tree (files'.view s.tree.config.rootPath) := by
    constructor
    · intro info hinfo
      exact hsame info (hpaths.registered info hinfo)
    · intro entry hentry
      exact hsame entry.2.info (hpaths.cached entry hentry)
  exact scan_on halike fromKey toKey order

/-- A new directory is not at a place of another table. -/
private theorem KeepsApart.alikeAt (h : KeepsApart e tableName) {other : Bytes} {s : Session}
    (hother : e.tables other = some s) {made : List Location}
    (hmade : ∀ place ∈ made, place ∈ beginnings e.files.cwd (e.tablePath tableName))
    (place : Location) (howned : Owns e.files.cwd s.tree.config.rootPath place) :
    e.files.AlikeAt (e.files.makeDirectories made) place := by
  apply FileSystem.alikeAt_makeDirectories
  intro hmem
  exact (h.apart other s hother).left place (Or.inr (Or.inl (hmade place hmem))) howned

theorem AllApart.untouched (h : AllApart e) (hstep : e.Step tableName e')
    (hnew : e.tables tableName = none → KeepsApart e tableName) {other : Bytes}
    (hne : other ≠ tableName) {s : Session} (hother : e.tables other = some s) :
    Untouched e e' other s := by
  have hpaths := h.paths other s hother
  cases hstep with
  | create hcreate =>
    obtain ⟨hfree, registry, nextSstId, tree, -, -, -, -, rfl⟩ := of_createTable hcreate
    constructor
    · have htables := Engine.tables_setTable e tableName other { tree := tree }
      rw [if_neg hne] at htables
      exact htables.trans hother
    · exact (hnew hfree).alikeAt hother fun place hmem => hmem
    · exact scan_mount hpaths rfl fun place howned => rfl
  | refused hfree hmade =>
    constructor
    · exact hother
    · exact (hnew hfree).alikeAt hother hmade
    · exact scan_mount hpaths rfl fun place howned => rfl
  | @table t t' htable hsession =>
    have hapart := h.apart other tableName s t hne hother htable
    obtain ⟨ops, hops, hown⟩ := hsession.confined.performed
    have hall : ∀ op ∈ t'.tree.diskOps, op.Own t.tree.config.rootPath := by
      rw [hops]
      exact hown
    have hframe : ∀ place, Owns e.files.cwd s.tree.config.rootPath place →
        e.files.AlikeAt (e.stepped tableName t t').files place :=
      fun place howned =>
        FileSystem.performAll_frame hall fun htouched => hapart.right place htouched howned
    constructor
    · have htables := Engine.tables_setTable e tableName other t'
      rw [if_neg hne] at htables
      exact htables.trans hother
    · exact hframe
    · exact scan_mount hpaths (FileSystem.cwd_performAll _ _ _)
        fun place howned => (hframe place howned).sstables

end

/-- In an engine whose tables keep apart no step of one table touches another: not its
state, not its files, not what scans of it return. The engine begins without tables, on any
files, and `hnew` asks of the step itself what the run asks of the steps before it: when it is
a creation, its table keeps apart too. -/
theorem tables_isolated {start e e' : Engine} {tableName other : Bytes} {s : Session}
    (hstart : ∀ name, start.tables name = none) (hrun : ApartRun start e)
    (hstep : e.Step tableName e') (hnew : e.tables tableName = none → KeepsApart e tableName)
    (hne : other ≠ tableName) (hother : e.tables other = some s) :
    Untouched e e' other s := by
  have hall : AllApart e := by
    clear hstep hnew hother
    induction hrun with
    | start =>
      constructor
      · intro a b sa sb _ ha
        rw [hstart a] at ha
        cases ha
      · intro a sa ha
        rw [hstart a] at ha
        cases ha
    | step _ hstep hapart ih => exact ih.step hstep hapart
  exact hall.untouched hstep hnew hne hother

/-! ## Two names for one directory -/

/-- What is done to a table: a key is inserted, or its flush goes one section further. -/
inductive Move where
  | insert (key : Key)
  | beginFlush
  | writeFlush
  | endFlush

def Move.act : Move → Session → Result Session
  | .insert key, s => do
    let tree ← LSMStorageEngine.insert s.tree (keyOnlyRow key)
    return { s with tree := tree, inserted := s.inserted ++ [keyOnlyRow key] }
  | .beginFlush, s =>
    match s.tree.beginFlush with
    | (.writing task, tree) =>
      .ok { s with tree := tree, jobs := .flush task :: s.jobs, issued := task.sstId :: s.issued }
    | _ => .error .outOfFuel
  | .writeFlush, s =>
    match s.jobs with
    | .flush task :: jobs => do
      let (info, tree) ← s.tree.writeFlush task
      return { s with tree := tree, jobs := .flushed task info :: jobs }
    | _ => .error .outOfFuel
  | .endFlush, s =>
    match s.jobs with
    | .flushed _ info :: jobs => do
      let tree ← s.tree.endFlush info
      return { s with tree := tree, jobs := jobs }
    | _ => .error .outOfFuel

theorem Move.step {move : Move} {s s' : Session} (h : move.act s = .ok s') : Session.Step s s' := by
  cases move with
  | insert key =>
    obtain ⟨tree, hinsert, h⟩ := Result.bind_eq_ok.mp h
    cases h
    exact .insert hinsert
  | beginFlush =>
    unfold Move.act at h
    dsimp only at h
    split at h
    · rename_i task tree hbegin
      cases h
      exact .beginFlush hbegin
    · cases h
  | writeFlush =>
    unfold Move.act at h
    dsimp only at h
    split at h
    · rename_i task jobs hjobs
      obtain ⟨⟨info, tree⟩, hwrite, h⟩ := Result.bind_eq_ok.mp h
      cases h
      have hfront : s.jobs = [] ++ Job.flush task :: jobs := hjobs
      exact .writeFlush hfront hwrite
    · cases h
  | endFlush =>
    unfold Move.act at h
    dsimp only at h
    split at h
    · rename_i task info jobs hjobs
      obtain ⟨tree, hend, h⟩ := Result.bind_eq_ok.mp h
      cases h
      have hfront : s.jobs = [] ++ Job.flushed task info :: jobs := hjobs
      exact .endFlush hfront hend
    · cases h

/-- A move of one of the engine's tables. -/
def moveTable (e : Engine) (tableName : Bytes) (move : Move) : Result Engine :=
  match e.tables tableName with
  | none => .error (.runtimeError "Table does not exist")
  | some s => do
    let s' ← move.act (s.mount e.files)
    return e.stepped tableName s s'

theorem step_moveTable {e e' : Engine} {tableName : Bytes} {move : Move}
    (h : moveTable e tableName move = .ok e') : e.Step tableName e' := by
  unfold moveTable at h
  split at h
  · cases h
  · rename_i s htable
    obtain ⟨s', hact, h⟩ := Result.bind_eq_ok.mp h
    cases h
    exact .table htable (Move.step hact)

/-- Steps of any tables, under any names. -/
def EngineReaches : Engine → Engine → Prop :=
  Relation.ReflTransGen fun e e' => ∃ tableName, e.Step tableName e'

theorem reaches_moves {e e' : Engine} (moves : List (Bytes × Move))
    (h : moves.foldlM (fun e m => moveTable e m.1 m.2) e = .ok e') : EngineReaches e e' := by
  induction moves generalizing e with
  | nil =>
    cases h
    exact .refl
  | cons m moves ih =>
    rw [List.foldlM_cons] at h
    obtain ⟨next, hnext, h⟩ := Result.bind_eq_ok.mp h
    exact .head ⟨m.1, step_moveTable hnext⟩ (ih h)

/-- An engine at `/d` on empty disks. Every insertion freezes the memtable. -/
def emptyEngine : Engine where
  config := { rootPath := [47, 100], memtableThreshold := 1 }
  files := { cwd := [], sstables := fun _ => none, manifests := fun _ => none }

/-- `a` -/
def tableA : Bytes := [97]

/-- `./a` -/
def dotTableA : Bytes := [46, 47, 97]

/-- Both tables are created, `a` is given a row and flushed, and `./a` is about to write
the SSTable of a row of its own. -/
private def aboutToOverwrite : Result Engine := do
  let first ← emptyEngine.createTable tableA keyOnlySchema
  let both ← first.createTable dotTableA keyOnlySchema
  [(tableA, Move.insert 1), (tableA, .beginFlush), (tableA, .writeFlush), (tableA, .endFlush),
    (dotTableA, .insert 2), (dotTableA, .beginFlush)].foldlM (fun e m => moveTable e m.1 m.2) both

/-- Where the first SSTable of `a` is. -/
private def firstPlace : Location := locate [] (sstPath (joinPath [47, 100] tableA) 0)

/-- Whether the write changes the data file of the first SSTable of `a`. -/
private def overwrites : Result Bool := do
  let before ← aboutToOverwrite
  let after ← moveTable before dotTableA .writeFlush
  return decide (before.files.cwd = [] ∧
    (before.tables tableA).map (fun s => s.tree.config.rootPath) =
      some (joinPath [47, 100] tableA) ∧
    (before.files.sstables firstPlace).map SSTableFiles.data ≠
      (after.files.sstables firstPlace).map SSTableFiles.data)

/-- `a` and `./a` are different tables in one directory: a flush of the one overwrites the
first SSTable of the other. -/
theorem one_directory_two_tables : (∀ name, emptyEngine.tables name = none) ∧
    ∃ e e' s, EngineReaches emptyEngine e ∧ e.Step dotTableA e' ∧ tableA ≠ dotTableA ∧
      e.tables tableA = some s ∧ ¬ Untouched e e' tableA s := by
  refine ⟨fun _ => rfl, ?_⟩
  have hoverwrites : overwrites = .ok true := by decide +kernel
  obtain ⟨before, hbefore, hoverwrites⟩ := Result.bind_eq_ok.mp hoverwrites
  obtain ⟨after, hafter, hoverwrites⟩ := Result.bind_eq_ok.mp hoverwrites
  obtain ⟨hcwd, hroot, hdiffers⟩ := of_decide_eq_true (Except.ok.inj hoverwrites)
  obtain ⟨s, htable, hroot⟩ := Option.map_eq_some_iff.mp hroot
  obtain ⟨first, hfirst, hbefore⟩ := Result.bind_eq_ok.mp hbefore
  obtain ⟨both, hboth, hbefore⟩ := Result.bind_eq_ok.mp hbefore
  have hreaches : EngineReaches emptyEngine before :=
    .head ⟨tableA, .create hfirst⟩ (.head ⟨dotTableA, .create hboth⟩ (reaches_moves _ hbefore))
  refine ⟨before, after, s, hreaches, step_moveTable hafter, by decide, htable, ?_⟩
  intro huntouched
  have howned : Owns before.files.cwd s.tree.config.rootPath firstPlace := by
    rw [hcwd, hroot]
    exact Or.inl ⟨0, List.prefix_rfl⟩
  have hkept := (huntouched.files firstPlace howned).sstables
  exact hdiffers (congrArg (Option.map SSTableFiles.data) hkept).symm

/-! ## Two plain names -/

/-- `b` -/
def tableB : Bytes := [98]

private theorem plainName_letter {letter : UInt8} (h : letter ∉ [47, 0, 46]) :
    PlainName [letter] := by
  simp only [List.mem_cons, List.not_mem_nil, or_false, not_or] at h
  obtain ⟨hslash, hzero, hdot⟩ := h
  constructor
  · exact List.cons_ne_nil letter []
  · exact fun hmem => hslash (List.mem_singleton.mp hmem).symm
  · exact fun hmem => hzero (List.mem_singleton.mp hmem).symm
  · exact fun heq => hdot (List.singleton_injective heq)
  · intro heq
    cases heq

/-- The table of `name` in an engine at `/d`. -/
private def plainTable (name : Bytes) : Session :=
  Session.keyTable { emptyEngine.config with rootPath := emptyEngine.tablePath name }

/-- The engine after the creation of `name`. -/
private def withTable (e : Engine) (name : Bytes) : Engine :=
  { e.setTable name (plainTable name) with
    files := e.files.createDirectories (e.tablePath name) }

private def bothTables : Engine := withTable (withTable emptyEngine tableA) tableB

private theorem apartRun_bothTables : ApartRun emptyEngine bothTables := by
  have hfound : ∀ (e : Engine) (tableName : Bytes),
      e.files.manifests = emptyEngine.files.manifests →
      ∀ registry nextSstId,
        loadManifest (e.files.view (e.tablePath tableName)) = .ok (registry, nextSstId) →
          ∀ info ∈ registry.entries, OwnPath (e.tablePath tableName) info := by
    intro e tableName hmanifests registry nextSstId hload info hinfo
    rw [loadManifest, FileSystem.view, hmanifests] at hload
    cases hload
    cases hinfo
  have hcreateA : emptyEngine.createTable tableA keyOnlySchema =
      .ok (withTable emptyEngine tableA) := rfl
  have hcreateB : (withTable emptyEngine tableA).createTable tableB keyOnlySchema =
      .ok bothTables := rfl
  have hfirst : ApartRun emptyEngine (withTable emptyEngine tableA) := by
    apply ApartRun.step .start (.create hcreateA)
    intro _
    refine ⟨?_, hfound emptyEngine tableA rfl⟩
    intro other s hother
    cases hother
  apply ApartRun.step hfirst (.create hcreateB)
  intro _
  refine ⟨?_, hfound (withTable emptyEngine tableA) tableB rfl⟩
  intro other s hother
  have htables := Engine.tables_setTable emptyEngine tableA other (plainTable tableA)
  rw [show (withTable emptyEngine tableA).tables other = _ from htables] at hother
  split at hother
  · cases hother
    have hroot : ForwardPath [47, 100] := ⟨by decide, by decide⟩
    have hA : PlainName tableA := plainName_letter (by decide)
    have hB : PlainName tableB := plainName_letter (by decide)
    have hne : tableB ≠ tableA := by decide
    have hapart : Apart [] (joinPath [47, 100] tableB) (joinPath [47, 100] tableA) :=
      apart_of_plain hroot hB hA hne
    exact hapart
  · cases hother

private theorem ApartRun.moves {start e e' : Engine} (hrun : ApartRun start e)
    (moves : List (Bytes × Move))
    (h : moves.foldlM (fun e m => moveTable e m.1 m.2) e = .ok e') : ApartRun start e' := by
  induction moves generalizing e with
  | nil =>
    cases h
    exact hrun
  | cons m moves ih =>
    rw [List.foldlM_cons] at h
    obtain ⟨next, hnext, h⟩ := Result.bind_eq_ok.mp h
    apply ih (.step hrun (step_moveTable hnext) _) h
    intro hfree
    rw [moveTable, hfree] at hnext
    cases hnext

/-- `b` has an SSTable, and the flush of `a` has written its own. -/
private def aboutToSave : Result Engine :=
  [(tableB, Move.insert 2), (tableB, .beginFlush), (tableB, .writeFlush), (tableB, .endFlush),
    (tableA, .insert 1), (tableA, .beginFlush), (tableA, .writeFlush)].foldlM
      (fun e m => moveTable e m.1 m.2) bothTables

private def saves : Result Bool := do
  let before ← aboutToSave
  let _ ← moveTable before tableA .endFlush
  return decide ((before.tables tableB).map (fun s => s.tree.registry.entries.length) = some 1)

/-- The end of a flush of `a`, which saves the manifest, does not touch the SSTable of `b`. -/
theorem tables_isolated_plain : ∃ e e' s, ApartRun emptyEngine e ∧ e.Step tableA e' ∧
    e.tables tableB = some s ∧ s.tree.registry.entries.length = 1 ∧ Untouched e e' tableB s := by
  have hsaves : saves = .ok true := by decide +kernel
  obtain ⟨before, hbefore, hsaves⟩ := Result.bind_eq_ok.mp hsaves
  obtain ⟨after, hafter, hsaves⟩ := Result.bind_eq_ok.mp hsaves
  obtain ⟨s, htable, hlength⟩ := Option.map_eq_some_iff.mp
    (of_decide_eq_true (Except.ok.inj hsaves))
  have hrun : ApartRun emptyEngine before := apartRun_bothTables.moves _ hbefore
  have hstep := step_moveTable hafter
  refine ⟨before, after, s, hrun, hstep, htable, hlength, ?_⟩
  apply tables_isolated (fun _ => rfl) hrun hstep _ (by decide) htable
  intro hfree
  rw [moveTable, hfree] at hafter
  cases hafter

end Htap.Properties
