import Htap.Executor.LiveTables
import Htap.Executor.PairTable

/-!
A SELECT takes its rows one by one from a table that flushes, compacts and serves others all
the while. It ends as if the table had stood still since the cursor was opened.
-/

namespace Htap.Properties

open Storage SSTable Read Cursor Words Executor Htap.Tree Htap.Tree.Session Htap.Parser

variable {tables : Bytes → Option Session} {schedule : Schedule} {fuel : Nat}
  {statement : BoundSelectStatement}

/-- Whatever `schedule` lets happen between two calls of the cursor, the SELECT ends as over
the tables that it found, errors included. `Spares` keeps to one job at a time, and to
insertions that freeze no memtable and stay out of what the cursor has still to read. -/
theorem select_sees_one_state (std : StdSort Exception)
    (htable : ∀ s, tables statement.tableName = some s → ∃ start, Starts start ∧ History start s)
    (hspares : schedule.Spares) :
    executeSelect std (liveStorageEngine tables schedule) fuel statement =
      executeSelect std (lsmStorageEngine fun name => (tables name).map Session.tree) fuel
        statement := by
  apply executeSelect_alike std
  apply servesAlike_live _ hspares
  intro s hs
  obtain ⟨start, hstart, hhistory⟩ := htable s hs
  obtain ⟨built, next, hsound, -⟩ := hhistory.sound hstart
  exact ⟨built, hsound⟩

/-! ## A flush between the rows -/

/-- The next step of a flush. -/
private def flushStep (s : Session) : Session :=
  match s.jobs with
  | [] =>
    match s.tree.beginFlush with
    | (.writing task, tree) =>
      { s with tree := tree, jobs := [.flush task], issued := task.sstId :: s.issued }
    | _ => s
  | [.flush task] =>
    match s.tree.writeFlush task with
    | .ok (info, tree) => { s with tree := tree, jobs := [.flushed task info] }
    | .error _ => s
  | [.flushed _ info] =>
    match s.tree.endFlush info with
    | .ok tree => { s with tree := tree, jobs := [] }
    | .error _ => s
  | _ => s

/-- One more step of a flush before every call, as long as there are ids. -/
private def flushing : Schedule := fun _ _ _ s =>
  if (flushStep s).tree.nextSstId + 1 < 2 ^ 32 then flushStep s else s

private theorem flushStep_cases (s : Session) :
    flushStep s = s ∨ Step s (flushStep s) ∧ (flushStep s).Alone ∧
      (flushStep s).inserted = s.inserted := by
  unfold flushStep
  split
  · rename_i hjobs
    split
    · rename_i task tree hbegin
      refine Or.inr ⟨?_, le_rfl, rfl⟩
      have hstep := Step.beginFlush hbegin
      rw [hjobs] at hstep
      exact hstep
    · exact Or.inl rfl
  · rename_i task hjobs
    split
    · rename_i info tree hwrite
      exact Or.inr ⟨@Step.writeFlush s [] [] task info tree hjobs hwrite, le_rfl, rfl⟩
    · exact Or.inl rfl
  · rename_i task info hjobs
    split
    · rename_i tree hend
      exact Or.inr ⟨@Step.endFlush s [] [] task info tree hjobs hend, Nat.zero_le 1, rfl⟩
    · exact Or.inl rfl
  · exact Or.inl rfl

private theorem spares_of_no_insertion {c : ComposedCursor ScanCursor} {s s' : Session}
    (h : s'.inserted = s.inserted) : Spares c s s' := by
  intro row hrow
  rw [h] at hrow
  exact absurd hrow.symm (by simp)

private theorem spares_flushing : flushing.Spares := by
  intro passed call c s _ hbounded
  unfold flushing
  split
  · rename_i hids
    rcases flushStep_cases s with hsame | ⟨hstep, hone, hinserted⟩
    · rw [hsame]
      exact .refl
    · apply Relation.ReflTransGen.single
      refine ⟨hstep, spares_of_no_insertion hinserted, hone, ?_⟩
      constructor
      · rw [hstep.confined.schema]
        exact hbounded.columns
      · rw [hinserted]
        exact hbounded.strings
      · rw [hinserted]
        exact hbounded.rows
      · exact hids
  · exact .refl

private def onlyPairs (name : Bytes) : Option Session :=
  if name = pairTable then some twoPairs else none

theorem select_sees_one_state_pairs :
    flushing 0 .next (.empty ⟨⟩) twoPairs ≠ twoPairs ∧
    executeSelect (.insertion Exception) (liveStorageEngine onlyPairs flushing) 2
        boundSelectIdAbove =
      executeSelect (.insertion Exception)
        (lsmStorageEngine fun name => (onlyPairs name).map Session.tree) 2 boundSelectIdAbove := by
  constructor
  · intro hsame
    exact absurd (congrArg (List.length ∘ Session.jobs) hsame) (by decide)
  · apply select_sees_one_state _ _ spares_flushing
    intro s hs
    have hpairs : boundSelectIdAbove.tableName = pairTable := rfl
    rw [onlyPairs, if_pos hpairs, Option.some.injEq] at hs
    rw [← hs]
    exact ⟨_, starts_freezingPairs, run_twoPairs.life.history⟩

end Htap.Properties
