import Htap.Storage.Types

/-!
What a `SchemaBuilder` builds, whatever calls it gets. `add_column` changes the builder
in several places, and a call that throws leaves what it changed before; the columns that
were accepted are those of the schema.
-/

namespace Htap.Storage.SchemaBuilder

def Call.column (c : Call) : Column :=
  { name := c.name, type := c.type, isKey := c.isKey, nullable := c.nullable }

/-! ## `add_column` in place -/

/-- The end of `add_column`: the name is taken, then the column is there. -/
def pushColumn (b : SchemaBuilder) (c : Call) : Except Exception Unit × SchemaBuilder :=
  let b := { b with columnNames := c.name :: b.columnNames }
  let b := { b with columns := b.columns ++ [c.column] }
  (.ok (), b)

/-- `add_column` on the builder it is called on, which outlives an exception. -/
def addColumnInPlace (b : SchemaBuilder) (c : Call) : Except Exception Unit × SchemaBuilder :=
  if b.columnNames.contains c.name then
    (.error (.invalidArgument "Duplicate column name: " c.name), b)
  else if c.isKey then
    if c.type != .int64 then
      (.error (.runtimeError "Primary key must be INT64"), b)
    else if c.nullable then
      (.error (.runtimeError "Primary key must not be nullable"), b)
    else if b.keySeen then
      (.error (.runtimeError "Schema must contain only one primary key"), b)
    else if b.columns.length != keyColumnIndex then
      (.error (.runtimeError "Primary key must be at column index 0"), b)
    else
      let b := { b with keySeen := true }
      b.pushColumn c
  else b.pushColumn c

/-- The builder after calls whose exceptions are caught. -/
def afterCalls (b : SchemaBuilder) (calls : List Call) : SchemaBuilder :=
  calls.foldl (fun b c => (b.addColumnInPlace c).2) b

/-- The columns of the calls that did not throw, in order. -/
def accepted (b : SchemaBuilder) : List Call → List Column
  | [] => []
  | c :: calls =>
    match b.addColumnInPlace c with
    | (.ok (), next) => c.column :: accepted next calls
    | (.error _, next) => accepted next calls

/-- In place or as a function of the builder, `add_column` does the same. -/
theorem addColumnInPlace_eq (b : SchemaBuilder) (c : Call) : b.addColumnInPlace c =
    match b.addColumn c.name c.type c.isKey c.nullable with
    | .ok next => (.ok (), next)
    | .error e => (.error e, b) := by
  unfold addColumnInPlace addColumn
  by_cases hname : c.name ∈ b.columnNames
  · simp [hname]
  cases hkey : c.isKey with
  | false => simp [hname, hkey, pushColumn, Call.column]
  | true =>
    by_cases htype : c.type = .int64
    · cases hnull : c.nullable with
      | true => simp [hname, htype]
      | false =>
        cases hseen : b.keySeen with
        | true => simp [hname, htype]
        | false =>
          by_cases hfirst : b.columns.length = keyColumnIndex
          · simp [hname, htype, hfirst, pushColumn, Call.column, hkey, hnull]
          · simp [hname, htype, hfirst]
    · simp [hname, htype]

theorem snd_addColumnInPlace (b : SchemaBuilder) (c : Call) :
    (b.addColumnInPlace c).2 = b.call c := by
  rw [addColumnInPlace_eq, call]
  cases b.addColumn c.name c.type c.isKey c.nullable with
  | ok next => rfl
  | error e => rfl

theorem afterCalls_eq (b : SchemaBuilder) (calls : List Call) :
    b.afterCalls calls = calls.foldl call b := by
  unfold afterCalls
  congr 1
  funext b c
  exact snd_addColumnInPlace b c

/-- A call that throws changes nothing. -/
theorem unchanged_of_throws {b next : SchemaBuilder} {c : Call} {e : Exception}
    (h : b.addColumnInPlace c = (.error e, next)) : next = b := by
  rw [addColumnInPlace_eq] at h
  cases hadd : b.addColumn c.name c.type c.isKey c.nullable with
  | ok added =>
    rw [hadd] at h
    cases h
  | error e' =>
    rw [hadd] at h
    cases h
    rfl

/-- Each call that does not throw appends its column. -/
theorem columns_afterCalls (b : SchemaBuilder) (calls : List Call) :
    (b.afterCalls calls).columns = b.columns ++ b.accepted calls := by
  induction calls generalizing b with
  | nil => exact (List.append_nil b.columns).symm
  | cons c calls ih =>
    have hrest := ih (b.addColumnInPlace c).2
    unfold accepted
    cases hstep : b.addColumnInPlace c with
    | mk result next =>
      rw [hstep] at hrest
      change ((b.addColumnInPlace c).2.afterCalls calls).columns = _
      rw [hstep, hrest]
      cases result with
      | error e => rw [unchanged_of_throws hstep]
      | ok =>
        rw [addColumnInPlace_eq] at hstep
        cases hadd : b.addColumn c.name c.type c.isKey c.nullable with
        | error e =>
          rw [hadd] at hstep
          cases hstep
        | ok added =>
          rw [hadd] at hstep
          cases hstep
          obtain ⟨-, -, rfl⟩ := addColumn_eq_ok.mp hadd
          exact List.append_assoc b.columns [c.column] _

/-- `build` hands over the columns. -/
theorem columns_of_build {b : SchemaBuilder} {schema : Schema} (h : b.build = .ok schema) :
    schema.columns = b.columns := by
  unfold build at h
  split at h
  · cases h
  · split at h
    · cases h
    · cases h
      rfl

end Htap.Storage.SchemaBuilder

namespace Htap.Properties

open Storage

/-- With distinct names the map from names finds each column under its own. -/
theorem getColumnIndex_iff {schema : Schema} (hnames : (schema.columns.map Column.name).Nodup)
    (name : Bytes) (i : Nat) : schema.getColumnIndex name = some i ↔
      ∃ c, schema.columns[i]? = some c ∧ c.name = name := by
  constructor
  · exact Schema.getColumnIndex_eq_some
  · rintro ⟨c, hc, hname⟩
    have hmem := List.mem_of_getElem? hc
    have hfound := Schema.getColumnIndex_isSome.mpr ⟨c, hmem, hname⟩
    obtain ⟨j, hj⟩ := Option.isSome_iff_exists.mp hfound
    obtain ⟨d, hd, hdname⟩ := Schema.getColumnIndex_eq_some hj
    have hnamed : ∀ {k : Nat} {column : Column}, schema.columns[k]? = some column →
        (schema.columns.map Column.name)[k]? = some column.name := by
      intro k column hk
      rw [List.getElem?_map, hk]
      rfl
    have hsame : (schema.columns.map Column.name)[j]? = (schema.columns.map Column.name)[i]? := by
      rw [hnamed hd, hnamed hc, hdname, hname]
    have hbound : j < (schema.columns.map Column.name).length :=
      List.getElem?_eq_some_iff.mp (hnamed hd) |>.1
    rw [hj, (List.getElem?_inj hbound hnames).mp hsame]

/-- Exactly one column is a key: the first, an INT64 that is not nullable. -/
structure KeyIsFirst (columns : List Column) : Prop where
  first : ∃ c, columns[keyColumnIndex]? = some c ∧ c.type = .int64 ∧ c.nullable = false
  only : ∀ i c, columns[i]? = some c → (c.isKey = true ↔ i = keyColumnIndex)

theorem keyIsFirst_of_wellFormed {schema : Schema} (h : schema.WellFormed) :
    KeyIsFirst schema.columns := by
  obtain ⟨key, rest, hcolumns, htype, hkey, hnull, hrest⟩ := h.keyFirst
  rw [hcolumns]
  constructor
  · exact ⟨key, rfl, htype, hnull⟩
  · intro i c hc
    cases i with
    | zero =>
      cases hc
      exact iff_of_true hkey rfl
    | succ i =>
      have hfalse := hrest c (List.mem_of_getElem? hc)
      rw [hfalse]
      exact iff_of_false Bool.false_ne_true (Nat.succ_ne_zero i)

open SchemaBuilder in
/-- For all calls: one that throws next leaves the builder alone, and a schema that is built
has the accepted columns, its key in front, and finds each column by its name. Nothing is
asked of the calls, any of which may have thrown and been caught. -/
theorem schema_builder_sound (calls : List Call) :
    (∀ c e next, (afterCalls {} calls).addColumnInPlace c = (.error e, next) →
      next = afterCalls {} calls) ∧
    ∀ schema, (afterCalls {} calls).build = .ok schema →
      schema.columns = accepted {} calls ∧
      (schema.columns.map Column.name).Nodup ∧
      KeyIsFirst schema.columns ∧
      ∀ name i, schema.getColumnIndex name = some i ↔
        ∃ c, schema.columns[i]? = some c ∧ c.name = name := by
  constructor
  · intro c e next hthrows
    exact unchanged_of_throws hthrows
  · intro schema hbuild
    have hbuilder : schema.FromBuilder := ⟨calls, by
      rw [callAll, ← afterCalls_eq]
      exact hbuild⟩
    have hnames := hbuilder.nodup_names
    refine ⟨?_, hnames, keyIsFirst_of_wellFormed hbuilder.wellFormed,
      getColumnIndex_iff hnames⟩
    rw [columns_of_build hbuild, columns_afterCalls]
    exact List.nil_append _

/-- A key, a second key that is refused, a DOUBLE column and its name once more. -/
def mixedCalls : List SchemaBuilder.Call :=
  [⟨[105, 100], .int64, true, false⟩, ⟨[107], .int64, true, false⟩, ⟨[120], .double, false, true⟩,
    ⟨[120], .string, false, true⟩]

theorem schema_builder_sound_mixedCalls :
    ∃ schema, (SchemaBuilder.afterCalls {} mixedCalls).build = .ok schema ∧
      schema.columns = SchemaBuilder.accepted {} mixedCalls ∧ schema.size = 2 ∧
      KeyIsFirst schema.columns := by
  have hsound := (schema_builder_sound mixedCalls).2
    ⟨[⟨[105, 100], .int64, true, false⟩, ⟨[120], .double, false, true⟩]⟩ rfl
  exact ⟨_, rfl, hsound.1, rfl, hsound.2.2.1⟩

end Htap.Properties
