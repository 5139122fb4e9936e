import Htap.Tree.Recovery
import Htap.Tree.WholeSteps

/-!
A crash between two disk operations. A flush writes its SSTable before the manifest that
lists it; a compaction deletes the directories it replaces while the manifest on disk still
lists them.
-/

namespace Htap.Properties

open Storage SSTable Read Cursor Htap.Tree Htap.Tree.Session

/-- A crash on the way from `s` to `s'`, when the disk operations in `done` have been
performed. -/
structure Crash (s s' : Session) (done : List DiskOp) : Prop where
  step : Step s s'
  alone : s'.Alone
  bounded : s'.Bounded
  fits : s.FitsManifest
  fits' : s'.FitsManifest
  cut : ∃ rest, s'.tree.diskOps = s.tree.diskOps ++ (done ++ rest)

/-- What a crash of the table `tree` must leave: every SSTable that the manifest lists has
its directory, and the rows that could be read from the directory of `tree` can be read. -/
structure Recoverable (tree : LSMTree) (disk : Disk) : Prop where
  complete : ∀ registry nextSstId, loadManifest disk = .ok (registry, nextSstId) →
    ∀ info ∈ registry.entries, (disk.sstables info.path).isSome
  kept : ∀ views, Opens tree tree.disk views → ∃ views', Opens tree disk views' ∧
    views.Subperm views'

section

variable {built : Nat → Option Table} {start earlier s s' : Session}

/-! ## What a step does to the directory -/

private theorem diskOps_dropSstables (olds : List SSTableInfo) (tree : LSMTree) :
    ∃ removals, (olds.foldl LSMTree.dropSstable tree).diskOps = tree.diskOps ++ removals ∧
      ∀ op ∈ removals, ∃ old ∈ olds, op = .removeSSTable (sstPath tree.config.rootPath old.id) := by
  induction olds generalizing tree with
  | nil =>
    refine ⟨[], (List.append_nil _).symm, ?_⟩
    intro op hop
    cases hop
  | cons old olds ih =>
    obtain ⟨removals, hops, hall⟩ := ih (tree.dropSstable old)
    refine ⟨deleteSstFiles tree.disk tree.config.rootPath old.id ++ removals, ?_, ?_⟩
    · rw [List.foldl_cons, hops, ← List.append_assoc]
      rfl
    · intro op hop
      rcases List.mem_append.mp hop with hfirst | hlater
      · unfold deleteSstFiles at hfirst
        split at hfirst
        · exact ⟨old, List.mem_cons_self, List.mem_singleton.mp hfirst⟩
        · cases hfirst
      · obtain ⟨other, hother, heq⟩ := hall op hlater
        exact ⟨other, List.mem_cons_of_mem old hother, heq⟩

/-- The disk operations of one step. -/
private inductive Performed (s : Session) : List DiskOp → Prop
  | nothing : Performed s []
  | write (path : Bytes) (files : SSTableFiles) : Performed s [.writeSSTable path files]
  | replace (removals : List DiskOp) (contents : Bytes)
    (hremovals : ∀ op ∈ removals, ∃ old ∈ s.tree.registry.entries,
      op = .removeSSTable old.path) : Performed s (removals ++ [.writeManifest contents])

private theorem performed_step (h : Sound built s) (hstep : Step s s') :
    ∃ ops, s'.tree.diskOps = s.tree.diskOps ++ ops ∧ Performed s ops := by
  have hquiet : s'.tree.diskOps = s.tree.diskOps →
      ∃ ops, s'.tree.diskOps = s.tree.diskOps ++ ops ∧ Performed s ops :=
    fun hsame => ⟨[], hsame.trans (List.append_nil _).symm, .nothing⟩
  cases hstep with
  | insert hinsert =>
    obtain ⟨-, -, hinsert⟩ := Result.bind_eq_ok.mp hinsert
    cases hinsert
    exact hquiet rfl
  | scan hscan =>
    have hdata := (h.invariant.opened_scan h.levelCount_le hscan).same
    apply hquiet
    dsimp only
    rw [hdata]
  | next hcursors hnext => exact hquiet rfl
  | dropEmpty hdropped => exact absurd hdropped h.not_dropped
  | beginFlush hbegin =>
    rcases beginFlush_cases s.tree with
      ⟨-, heq⟩ | ⟨imm, rest, -, -, heq⟩ | ⟨imm, rest, -, -, heq⟩
    all_goals
      rw [heq] at hbegin
      cases hbegin
    exact hquiet rfl
  | writeFlush hjobs hwrite =>
    obtain ⟨⟨result, files⟩, -, hwrite⟩ := Result.bind_eq_ok.mp hwrite
    cases hwrite
    exact ⟨_, rfl, .write _ _⟩
  | endFlush hjobs hend =>
    obtain ⟨-, -, -, rfl⟩ := h.endFlush hjobs hend
    refine ⟨_, rfl, .replace [] _ ?_⟩
    intro op hop
    cases hop
  | beginCompact hbegin =>
    rcases beginCompact_cases hbegin with ⟨hnone, -⟩ | ⟨task, candidates, -, -, -, -, rfl⟩
    · cases hnone
    · exact hquiet rfl
  | writeCompact hjobs hwrite =>
    obtain ⟨⟨written, files⟩, -, hwrite⟩ := Result.bind_eq_ok.mp hwrite
    cases hwrite
    exact ⟨_, rfl, .write _ _⟩
  | @endCompact before after job info tree hjobs hend =>
    have hjob : JobGood built s.tree (.compacted job info) :=
      h.jobs (.compacted job info) (hjobs ▸ List.mem_append_right _ List.mem_cons_self)
    obtain ⟨htask, -⟩ := hjob
    obtain ⟨-, -, -, rfl⟩ := h.endCompact hjobs hend
    obtain ⟨removals, hops, hall⟩ := diskOps_dropSstables job.candidates
      { s.tree with registry := s.tree.registry.add info }
    refine ⟨_, ?_, .replace removals (encodeManifest (compactedTree s.tree job info).registry
      (compactedTree s.tree job info).nextSstId) ?_⟩
    · rw [← List.append_assoc, ← hops]
      rfl
    · intro op hop
      obtain ⟨old, hold, rfl⟩ := hall op hop
      have hknown := htask.chosen.known old hold
      refine ⟨old, hknown, ?_⟩
      rw [h.invariant.paths old hknown]

/-! ## Between two steps -/

/-- Nothing is lost while no step is on its way. -/
private theorem recoverable_at (hstart : Starts start) (hearlier : Life start earlier)
    (hfits : earlier.FitsManifest) (hlater : Life earlier s) (hfits' : s.FitsManifest) :
    Recoverable earlier.tree s.tree.disk := by
  have hsound := sound_of_starts hstart hearlier.bounded_start
  obtain ⟨built, next, hsound, hrecorded, -⟩ :=
    hsound.recorded_life (hsound.recorded hstart.idle) hearlier
  have hcreatable := hearlier.creatable (creatable_of_starts hstart)
  obtain ⟨opened, hopened⟩ := hsound.exists_reopened hrecorded hfits hcreatable
  obtain ⟨built', next', hsound', hrecorded', hsub⟩ := hsound.recorded_life hrecorded hlater
  obtain ⟨opened', hopened'⟩ :=
    hsound'.exists_reopened hrecorded' hfits' (hlater.creatable hcreatable)
  constructor
  · intro registry nextSstId hload info hinfo
    obtain ⟨registry', nextSstId', hload', hentries⟩ := hopened'.listed
    rw [hload] at hload'
    cases hload'
    exact hopened'.complete info (hentries ▸ hinfo)
  · intro views hviews
    have hopens := hopened'.opens
    rw [Opens, hlater.frame.1, hlater.frame.2] at hopens
    refine ⟨_, hopens, ?_⟩
    rw [hviews.unique hopened.opens]
    obtain ⟨rows, hperm, hsublist⟩ := hsub
    exact ⟨_, hperm.map _, hsublist.map _⟩

/-! ## In the middle of a step -/

/-- Removing directories leaves the manifest, and the last one removed is gone. -/
private theorem replay_removals {removals : List DiskOp} {path : Bytes} (disk : Disk)
    (hall : ∀ op ∈ removals, ∃ path, op = .removeSSTable path)
    (hlast : removals.getLast? = some (.removeSSTable path)) :
    (replay disk removals).manifest = disk.manifest ∧
      (replay disk removals).sstables path = none := by
  obtain ⟨before, rfl⟩ := List.getLast?_eq_some_iff.mp hlast
  have hmanifest : ∀ ops : List DiskOp, (∀ op ∈ ops, ∃ path, op = .removeSSTable path) →
      ∀ disk : Disk, (replay disk ops).manifest = disk.manifest := by
    intro ops
    induction ops with
    | nil => exact fun _ _ => rfl
    | cons op ops ih =>
      intro hops disk
      obtain ⟨removed, rfl⟩ := hops op List.mem_cons_self
      exact ih (fun later hlater => hops later (List.mem_cons_of_mem _ hlater)) _
  constructor
  · exact hmanifest _ hall disk
  · rw [replay_append]
    exact if_pos rfl

/-- A directory that the manifest lists is gone. -/
private theorem not_recoverable (hstart : Starts start) (hlife : Life start s)
    (hfits : s.FitsManifest) (tree : LSMTree) {removals : List DiskOp} {path : Bytes}
    (hall : ∀ op ∈ removals, ∃ old ∈ s.tree.registry.entries, op = .removeSSTable old.path)
    (hlast : removals.getLast? = some (.removeSSTable path)) :
    ¬ Recoverable tree (replay s.tree.disk removals) := by
  have hsound := sound_of_starts hstart hlife.bounded_start
  obtain ⟨built, next, hsound, hrecorded, -⟩ :=
    hsound.recorded_life (hsound.recorded hstart.idle) hlife
  obtain ⟨opened, hopened⟩ := hsound.exists_reopened hrecorded hfits
    (hlife.creatable (creatable_of_starts hstart))
  obtain ⟨registry, nextSstId, hload, hentries⟩ := hopened.listed
  have hpaths : ∀ op ∈ removals, ∃ path, op = .removeSSTable path := by
    intro op hop
    obtain ⟨old, -, heq⟩ := hall op hop
    exact ⟨old.path, heq⟩
  obtain ⟨hmanifest, hgone⟩ := replay_removals s.tree.disk hpaths hlast
  obtain ⟨old, hold, heq⟩ := hall _ (List.mem_of_getLast? hlast)
  cases heq
  intro hrecoverable
  have hload' : loadManifest (replay s.tree.disk removals) = .ok (registry, nextSstId) := by
    rw [← hload, loadManifest, loadManifest, hmanifest]
  have hthere := hrecoverable.complete registry nextSstId hload' old (hentries ▸ hold)
  rw [hgone] at hthere
  cases hthere

/-- A part of what a compaction does at its end, up to its last but one operation. -/
private theorem isPrefix_of_concat {done rest removals : List DiskOp} {last : DiskOp}
    (h : removals ++ [last] = done ++ rest) (hrest : rest ≠ []) : done <+: removals := by
  obtain ⟨before, final, rfl⟩ := List.eq_nil_or_concat' rest |>.resolve_left hrest
  rw [← List.append_assoc] at h
  obtain ⟨heq, -⟩ := List.append_inj' h rfl
  exact ⟨before, heq.symm⟩

end

/-- What a crash leaves can be opened and has lost nothing, unless the last thing done was
to delete a directory. The crash may come in any state of any life and after any of the
operations of the next step; `hfits` is that the manifest can hold what is registered. -/
theorem crash_recoverable_iff {start earlier s s' : Session} {done : List DiskOp}
    (hstart : Starts start) (hearlier : Life start earlier) (hfits : earlier.FitsManifest)
    (hlater : Life earlier s) (hcrash : Crash s s' done) :
    Recoverable earlier.tree (replay s.tree.disk done) ↔
      ∀ path, done.getLast? ≠ some (.removeSSTable path) := by
  have hlife : Life start s := hearlier.trans hlater
  have hafter : Life earlier s' := .step hlater hcrash.step hcrash.alone hcrash.bounded
  have hbefore := recoverable_at hstart hearlier hfits hlater hcrash.fits
  have hdone := recoverable_at hstart hearlier hfits hafter hcrash.fits'
  have hnone : done = [] → (Recoverable earlier.tree (replay s.tree.disk done) ↔
      ∀ path, done.getLast? ≠ some (.removeSSTable path)) := by
    rintro rfl
    exact iff_of_true hbefore fun path => Option.some_ne_none _ ∘ Eq.symm
  obtain ⟨built, hsound⟩ := hlife.sound hstart
  obtain ⟨ops, hops, hperformed⟩ := performed_step hsound hcrash.step
  obtain ⟨rest, hcut⟩ := hcrash.cut
  rw [hops] at hcut
  have hsplit : ops = done ++ rest := List.append_cancel_left hcut
  have hwhole : rest = [] → replay s.tree.disk done = s'.tree.disk := by
    rintro rfl
    rw [List.append_nil] at hsplit
    rw [LSMTree.disk, LSMTree.disk, hcrash.step.confined.opened, hops, hsplit, replay_append]
  cases hperformed with
  | nothing => exact hnone (List.append_eq_nil_iff.mp hsplit.symm).1
  | write path files =>
    rcases List.singleton_eq_append_iff.mp hsplit with ⟨rfl, -⟩ | ⟨rfl, hrest⟩
    · exact hnone rfl
    · rw [hwhole hrest]
      refine iff_of_true hdone ?_
      intro path heq
      cases heq
  | replace removals contents hall =>
    by_cases hrest : rest = []
    · rw [hwhole hrest]
      refine iff_of_true hdone ?_
      rw [hrest, List.append_nil] at hsplit
      rw [← hsplit, List.getLast?_concat]
      intro path heq
      cases heq
    · have hpart := isPrefix_of_concat hsplit hrest
      have hremoved : ∀ op ∈ done, ∃ old ∈ s.tree.registry.entries,
          op = .removeSSTable old.path := fun op hop => hall op (hpart.subset hop)
      cases hlast : done.getLast? with
      | none => exact hlast ▸ hnone (List.getLast?_eq_none_iff.mp hlast)
      | some op =>
        obtain ⟨old, -, rfl⟩ := hremoved op (List.mem_of_getLast? hlast)
        refine iff_of_false (not_recoverable hstart hlife hcrash.fits _ hremoved hlast) ?_
        intro hnot
        exact hnot old.path rfl

/-! ## Two SSTables to merge -/

private def removes : DiskOp → Bool
  | .removeSSTable _ => true
  | _ => false

/-- Two SSTables are merged; whether the compaction ends with a removal first. -/
private def removesFirst : Result Bool := do
  let tree ← flushTwo twoKeys.tree
  let (job, begun) ← tree.beginCompact
  match job with
  | none => throw .outOfFuel
  | some job => do
    let (info, written) ← begun.writeCompact job
    let ended ← written.endCompact job info
    return sizesFit tree && sizesFit written && sizesFit ended &&
      (ended.diskOps.drop written.diskOps.length).head?.any removes

private theorem exists_removal {built : Nat → Option Table} {s s' : Session} (h : Sound built s)
    (hstep : Step s s')
    (hhead : (s'.tree.diskOps.drop s.tree.diskOps.length).head?.any removes = true) :
    ∃ old ∈ s.tree.registry.entries, ∃ rest,
      s'.tree.diskOps = s.tree.diskOps ++ ([.removeSSTable old.path] ++ rest) := by
  obtain ⟨ops, hops, hperformed⟩ := performed_step h hstep
  rw [hops, List.drop_left] at hhead
  cases hperformed with
  | nothing => cases hhead
  | write path files => cases hhead
  | replace removals contents hall =>
    cases removals with
    | nil => cases hhead
    | cons op rest =>
      obtain ⟨old, hold, rfl⟩ := hall op List.mem_cons_self
      exact ⟨old, hold, rest ++ [.writeManifest contents], hops⟩

/-- A crash right after the first of some old directories was deleted. -/
private theorem crash_of_merge {start earlier : Session} (hstart : Starts start)
    (hlife : Life start earlier) (hroot : start.tree.config.rootPath.length + 29 ≤ 65535)
    (hidle : earlier.jobs = []) (hids : earlier.tree.nextSstId + 2 < 2 ^ 32)
    {job : LSMTree.CompactTask} {info : SSTableInfo} {begun written ended : LSMTree}
    (hbegin : earlier.tree.beginCompact = .ok (some job, begun))
    (hwrite : begun.writeCompact job = .ok (info, written))
    (hend : written.endCompact job info = .ok ended) (hwritten : sizesFit written = true)
    (hended : sizesFit ended = true)
    (hhead : (ended.diskOps.drop written.diskOps.length).head?.any removes = true) :
    ∃ (s s' : Session) (old : SSTableInfo), Life earlier s ∧
      Crash s s' [.removeSSTable old.path] ∧ old ∈ s.tree.registry.entries := by
  have hbounded := hlife.bounded hstart
  obtain ⟨issued, hmerged⟩ :=
    (Life.start hbounded).writtenCompact hbounded hidle hids hbegin hwrite
  have hwhole := hlife.trans hmerged
  obtain ⟨built, hsound⟩ := hwhole.sound hstart
  have hjobs : [Job.compacted job info] = [] ++ Job.compacted job info :: [] := rfl
  have hstep : Step
      { earlier with tree := written, jobs := [.compacted job info], issued := issued }
      { earlier with tree := ended, jobs := [] ++ [], issued := issued } :=
    .endCompact hjobs hend
  obtain ⟨old, hold, rest, hops⟩ := exists_removal hsound hstep hhead
  obtain ⟨hschema, hsame⟩ := endCompact_frame hend
  have hconfig := hwhole.frame.2
  have hconfig' := hstep.confined.config.trans hconfig
  exact ⟨_, _, old, hmerged, ⟨hstep, Nat.zero_le 1,
    hsound.bounded.moved hschema (hsame ▸ hsound.bounded.ids),
    fits_of_sizesFit (hconfig ▸ hroot) hwritten,
    fits_of_sizesFit (hconfig' ▸ hroot) hended, rest, hops⟩, hold⟩

private theorem exists_crash : ∃ (earlier s s' : Session) (old : SSTableInfo),
    Life (keyTable eagerConfig) earlier ∧ earlier.FitsManifest ∧ Life earlier s ∧
      Crash s s' [.removeSSTable old.path] ∧ old ∈ s.tree.registry.entries := by
  have hremoves : removesFirst = .ok true := by decide +kernel
  obtain ⟨tree, hflushed, hremoves⟩ := Result.bind_eq_ok.mp hremoves
  obtain ⟨⟨job, begun⟩, hbegin, hremoves⟩ := Result.bind_eq_ok.mp hremoves
  dsimp only at hremoves
  cases job with
  | none => cases hremoves
  | some job =>
    obtain ⟨⟨info, written⟩, hwrite, hremoves⟩ := Result.bind_eq_ok.mp hremoves
    dsimp only at hremoves
    obtain ⟨ended, hend, hremoves⟩ := Result.bind_eq_ok.mp hremoves
    have hall := Except.ok.inj hremoves
    rw [Bool.and_eq_true, Bool.and_eq_true, Bool.and_eq_true] at hall
    obtain ⟨⟨⟨hfits, hfits'⟩, hfits''⟩, hhead⟩ := hall
    obtain ⟨issued, hlife, hids⟩ := exists_flushedKeys hflushed
    have hroot : (keyTable eagerConfig).tree.config.rootPath.length + 29 ≤ 65535 := by decide
    have hfits := fits_of_sizesFit (s := { twoKeys with tree := tree, issued := issued })
      (hlife.frame.2 ▸ hroot) hfits
    obtain ⟨s, s', old, hmerged, hcrash, hold⟩ := crash_of_merge starts_eager hlife hroot rfl hids
      hbegin hwrite hend hfits' hfits'' hhead
    exact ⟨_, s, s', old, hlife, hfits, hmerged, hcrash, hold⟩

/-- The directory of the first of two old SSTables is deleted, then the process dies: the
manifest lists an SSTable that is not there. -/
theorem crash_after_removal : ∃ (earlier s s' : Session) (done : List DiskOp),
    Starts (keyTable eagerConfig) ∧ Life (keyTable eagerConfig) earlier ∧
      earlier.FitsManifest ∧ Life earlier s ∧ Crash s s' done ∧
      ¬ Recoverable earlier.tree (replay s.tree.disk done) := by
  obtain ⟨earlier, s, s', old, hearlier, hfits, hlater, hcrash, hold⟩ := exists_crash
  have hstart := starts_eager
  refine ⟨earlier, s, s', _, hstart, hearlier, hfits, hlater, hcrash, ?_⟩
  apply not_recoverable hstart (hearlier.trans hlater) hcrash.fits _ _ rfl
  intro op hop
  exact ⟨old, hold, List.mem_singleton.mp hop⟩

theorem crash_recoverable_iff_removal : ∃ (earlier s s' : Session) (path : Bytes),
    Crash s s' [.removeSSTable path] ∧
      (Recoverable earlier.tree (replay s.tree.disk [.removeSSTable path]) ↔
        ∀ other, [DiskOp.removeSSTable path].getLast? ≠ some (.removeSSTable other)) := by
  obtain ⟨earlier, s, s', old, hearlier, hfits, hlater, hcrash, -⟩ := exists_crash
  exact ⟨earlier, s, s', old.path, hcrash,
    crash_recoverable_iff starts_eager hearlier hfits hlater hcrash⟩

end Htap.Properties
