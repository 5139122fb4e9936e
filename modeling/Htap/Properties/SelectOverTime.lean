import Htap.Executor.PairTable
import Htap.Executor.SkippingSelect

/-!
One SELECT at two times. What it returns later is what it returned, with the rows that were
inserted since, and without those that a process took along when it died.
-/

namespace Htap.Properties

open Storage SSTable Read Cursor Words Executor Htap.Tree Htap.Tree.Session Htap.Parser

variable {tables tables' : Bytes → Option LSMTree} {start s s' : Session}
  {source : SelectStatement} {statement : BoundSelectStatement} {std std' : StdSort Exception}
  {fuel fuel' : Nat} {result result' : SelectResult} {added rows : List Row}
  {Allowed : Session → Session → Prop}

theorem passing_append (statement : BoundSelectStatement) (xs ys : List Row) :
    passing statement (xs ++ ys) = passing statement xs ++ passing statement ys :=
  List.filter_append xs ys

/-- A plain SELECT without LIMIT, as the binder makes it. -/
structure Listing (tables : Bytes → Option LSMTree) (source : SelectStatement)
    (statement : BoundSelectStatement) : Prop where
  bound : bindSelect (lsmStorageEngine tables) source = .ok statement
  plain : hasAggregateSelectItems statement = false ∧ statement.groupByItems = []
  limit : statement.limit = none
  literals : (buildDataSkippingFilter statement).Ordered

/-- The same SELECT of a table with the same schema. -/
private theorem Listing.later (h : Listing tables source statement)
    (hreached : Reached tables source.tableName start s)
    (hreached' : Reached tables' source.tableName start s')
    (hschema : s'.tree.schema = s.tree.schema) : Listing tables' source statement := by
  refine ⟨?_, h.plain, h.limit, h.literals⟩
  rw [hreached'.bindSelect_eq, hschema, ← hreached.bindSelect_eq]
  exact h.bound

/-- What it returns are the rows that pass. -/
private theorem Listing.rows_perm (h : Listing tables source statement)
    (hreached : Reached tables source.tableName start s) (hstores : Stores s.tree rows)
    (hnumbers : Numbers rows)
    (hrun : executeSelect std (lsmStorageEngine tables) fuel statement = .ok result) :
    result.rows.Perm ((passing statement rows).map (output statement)) := by
  obtain ⟨hbound, hname⟩ := hreached.bound h.bound
  obtain ⟨hkeyed, -⟩ := hreached.exists_rows
  have hserves := skipsRows_lsm hstores hnumbers hreached.table
  rw [← hname] at hserves
  have hanswers := hserves.answersFrom hbound hkeyed h.plain h.limit h.literals hstores.valid
    hnumbers
  exact (hanswers.answers std fuel result hrun).perm

/-- While no process dies, a SELECT gains the rows that were inserted and pass WHERE, and
nothing else happens to its result. It has to return both times; flushes and compactions
between may change the order of the rows and which blocks are skipped. -/
theorem select_gains_insertions (h : Reached tables source.tableName start s)
    (hrun : Run Allowed s s') (hadded : s'.inserted = s.inserted ++ added)
    (h' : Reached tables' source.tableName start s') (hlisting : Listing tables source statement)
    (hselect : executeSelect std (lsmStorageEngine tables) fuel statement = .ok result)
    (hselect' : executeSelect std' (lsmStorageEngine tables') fuel' statement = .ok result') :
    result'.rows.Perm (result.rows ++ (passing statement added).map (output statement)) := by
  obtain ⟨built, next, events, hsound, -, -, -, hsub⟩ := h.history.exists_store h.starts h.keys
  obtain ⟨built', events', hsound', hevents, hsim⟩ := hsound.simulates_run hsub hrun h'.keys
  have hstores := (hsound.stores hsub h.keys).1
  have hstores' := (hsound'.stores (hsim.subperm hsub) h'.keys).1
  have hsub' := hsim.subperm hsub
  have hall : (rowsOf built' s'.tree).Perm (rowsOf built s.tree ++ added) := by
    have hevery := hsim.run.all_eq hevents
    have hnew := hsim.added
    rw [hadded, List.append_cancel_left_eq] at hnew
    rw [all_storeOf, all_storeOf, ← hnew, Multiset.coe_add] at hevery
    exact Multiset.coe_eq_coe.mp hevery
  have hrows := hlisting.rows_perm h hstores (h.numbers.sub hsub.subset) hselect
  have hrows' := (hlisting.later h h' hrun.schema_eq).rows_perm h' hstores'
    (h'.numbers.sub hsub'.subset) hselect'
  have hpassing := (hall.filter (holds statement)).map (output statement)
  rw [List.filter_append, List.map_append] at hpassing
  exact hrows'.trans (hpassing.trans (hrows.symm.append_right _))

/-- Whatever processes die, a SELECT loses the outputs of rows that were in memory at most,
and gains those of rows inserted since. It has to return both times, and has no aggregates,
GROUP BY or LIMIT (`Listing`). -/
theorem select_loses_memory_only (h : Reached tables source.tableName start s)
    (hmore : History s s') (hadded : s'.inserted = s.inserted ++ added)
    (h' : Reached tables' source.tableName start s') (hlisting : Listing tables source statement)
    (hselect : executeSelect std (lsmStorageEngine tables) fuel statement = .ok result)
    (hselect' : executeSelect std' (lsmStorageEngine tables') fuel' statement = .ok result') :
    ∃ kept lost gained : List Row,
      result.rows.Perm ((kept ++ lost).map (output statement)) ∧
      result'.rows.Perm ((kept ++ gained).map (output statement)) ∧
      lost.Subperm (passing statement s.tree.memoryLayer.rows) ∧
      gained.Subperm (passing statement added) := by
  obtain ⟨built, next, events, hsound, hrecorded, -, -, hsub⟩ :=
    h.history.exists_store h.starts h.keys
  obtain ⟨built', -, events', hsound', -, hsim⟩ := hsound.simulates hrecorded hsub hmore h'.keys
  have hstores := (hsound.stores hsub h.keys).1
  have hsub' := hsim.subperm hsub
  have hstores' := (hsound'.stores hsub' h'.keys).1
  have hrows := hlisting.rows_perm h hstores (h.numbers.sub hsub.subset) hselect
  have hrows' := (hlisting.later h h' hmore.schema_eq).rows_perm h' hstores'
    (h'.numbers.sub hsub'.subset) hselect'
  obtain ⟨kept, lost, gained, hall, hall', hlost, hgained⟩ := hsim.run.exists_parts
  have hnew := hsim.added
  rw [hadded, List.append_cancel_left_eq] at hnew
  induction kept using Quotient.inductionOn with | _ kept => ?_
  induction lost using Quotient.inductionOn with | _ lost => ?_
  induction gained using Quotient.inductionOn with | _ gained => ?_
  rw [all_storeOf] at hall hall'
  have hbefore : (rowsOf built s.tree).Perm (kept ++ lost) := Multiset.coe_eq_coe.mp hall
  have hafter : (rowsOf built' s'.tree).Perm (kept ++ gained) := Multiset.coe_eq_coe.mp hall'
  refine ⟨passing statement kept, passing statement lost, passing statement gained, ?_, ?_, ?_, ?_⟩
  · rw [← passing_append]
    exact hrows.trans ((hbefore.filter _).map _)
  · rw [← passing_append]
    exact hrows'.trans ((hafter.filter _).map _)
  · exact List.Subperm.filter _ (Multiset.coe_le.mp hlost)
  · rw [hnew]
    exact List.Subperm.filter _ (Multiset.coe_le.mp hgained)

/-! ## A table of one pair, of two, and after a crash -/

private def onePair : Session := pairSession freezingPairs [(1, 10)]

private def onePairMore : Session := pairSession freezingPairs [(1, 10), (2, 20)]

/-- Neither pair had been flushed when the process died. -/
private def reopenedPairs : Session :=
  { newPairs freezingPairs with inserted := onePairMore.inserted }

private theorem reached_onePair : Reached (onlyTable pairTable onePair) pairTable
    (newPairs freezingPairs) onePair := reached_pairs rfl (by decide) (by norm_num)

private theorem reached_onePairMore : Reached (onlyTable pairTable onePairMore) pairTable
    (newPairs freezingPairs) onePairMore := reached_pairs rfl (by decide) (by norm_num)

private theorem listing_pairs {tables : Bytes → Option LSMTree} {start s : Session}
    (h : Reached tables selectIdAbove.tableName start s) (hschema : s.tree.schema = pairSchema) :
    Listing tables selectIdAbove boundSelectIdAbove := by
  refine ⟨?_, ⟨rfl, rfl⟩, rfl, ordered_selectIdAbove⟩
  rw [h.bindSelect_eq, hschema]
  exact bind_selectIdAbove

theorem select_gains_insertions_pairs :
    List.Perm [[some (.int64 2)]] ([] ++ (passing boundSelectIdAbove [pairRow (2, 20)]).map
      (output boundSelectIdAbove)) := by
  have hreached : Reached _ selectIdAbove.tableName _ onePair := reached_onePair
  have hreached' : Reached _ selectIdAbove.tableName _ onePairMore := reached_onePairMore
  have hstep : Step onePair onePairMore := @step_insertPair freezingPairs [(1, 10)] (2, 20)
  have hrun : Run (fun _ _ => True) onePair onePairMore :=
    .step (.start (bounded_pairSession (by norm_num))) hstep trivial alone_pairSession
      (bounded_pairSession (by norm_num))
  have hselect : executeSelect (.insertion Exception)
      (lsmStorageEngine (onlyTable pairTable onePair)) 2 boundSelectIdAbove =
      .ok ⟨[[105, 100]], []⟩ := rfl
  have hselect' : executeSelect (.insertion Exception)
      (lsmStorageEngine (onlyTable pairTable onePairMore)) 2 boundSelectIdAbove =
      .ok ⟨[[105, 100]], [[some (.int64 2)]]⟩ := rfl
  exact select_gains_insertions hreached hrun rfl hreached' (listing_pairs hreached rfl) hselect
    hselect'

theorem select_loses_memory_only_pairs : ∃ kept lost gained : List Row,
    List.Perm [[some (.int64 2)]] ((kept ++ lost).map (output boundSelectIdAbove)) ∧
    List.Perm [] ((kept ++ gained).map (output boundSelectIdAbove)) ∧
    lost.Subperm (passing boundSelectIdAbove onePairMore.tree.memoryLayer.rows) ∧
    gained.Subperm (passing boundSelectIdAbove []) := by
  have hreached : Reached _ selectIdAbove.tableName _ onePairMore := reached_onePairMore
  have hreboot : Reboot onePairMore reopenedPairs := .reopen (Leaves.refl _) rfl
  have hfits : onePairMore.FitsManifest := by
    refine ⟨by decide, ?_⟩
    intro info hinfo
    cases hinfo
  have hhistory : History onePairMore reopenedPairs :=
    .reboot (.start (bounded_pairSession (by norm_num))) hreboot hfits
  have hreached' : Reached (onlyTable pairTable reopenedPairs) selectIdAbove.tableName
      (newPairs freezingPairs) reopenedPairs :=
    ⟨hreached.starts, hreached.history.trans hhistory, if_pos rfl, hreached.keys, hreached.numbers⟩
  have hselect : executeSelect (.insertion Exception)
      (lsmStorageEngine (onlyTable pairTable onePairMore)) 2 boundSelectIdAbove =
      .ok ⟨[[105, 100]], [[some (.int64 2)]]⟩ := rfl
  have hselect' : executeSelect (.insertion Exception)
      (lsmStorageEngine (onlyTable pairTable reopenedPairs)) 2 boundSelectIdAbove =
      .ok ⟨[[105, 100]], []⟩ := rfl
  exact select_loses_memory_only hreached hhistory (List.append_nil _).symm hreached'
    (listing_pairs hreached rfl) hselect hselect'

end Htap.Properties
