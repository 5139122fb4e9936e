import Htap.Cursor.ColumnDecoding

/-!
The checked column cursor over a whole list of blocks: every row it stands on was
decoded from one run of blocks, every scan ends, and it faults where it comes to a
bitmap whose size wraps around and nowhere else.
-/

namespace Htap.Cursor.ColumnDecoding

open Storage SSTable Read ByteWalk Words

/-! ## What a run loads -/

/-- Going through the run from this cache reads these bytes for one of its blocks. -/
def ReadAs (reader : SSTableReader) (schema : List ValueType) (projection : List Nat)
    (begun : Option SSTableBlockCache) (run : List ColumnBlockMeta) (block : ColumnBlockMeta)
    (data : Bytes) : Prop :=
  ∃ before after cache cache', run = before ++ block :: after ∧
    Passed reader schema projection begun before cache ∧
    reader.readBlock cache (reader.columnKey block) block.offset block.size = .ok (data, cache')

/-- The keys and the columns were decoded from the bytes that were read for blocks of the
run, where they are not empty. -/
structure LoadedFrom (reader : SSTableReader) (schema : List ValueType) (projection : List Nat)
    (begun : Option SSTableBlockCache) (run : List ColumnBlockMeta) (keys : List Key)
    (columns : List (List NullableValue)) : Prop where
  loadedKeys : keys = [] ∨ ∃ block data, block.columnIdx = keyColumnIndex ∧
    ReadAs reader schema projection begun run block data ∧
    decodeKeyBlock data block.valuesCount = .ok keys
  loadedColumns : ∀ (i : Nat) (column : List NullableValue), columns[i]? = some column →
    column = [] ∨ ∃ block data type, block.columnIdx = i ∧ schema[i]? = some type ∧
      ReadAs reader schema projection begun run block data ∧
      decodeValueColumnBlock data block.valuesCount type = .ok column
  width : columns.length = schema.length

section Load

variable {reader : SSTableReader} {range : KeyRange} {schema : List ValueType}
  {projection : List Nat} {keys : List Key} {columns : List (List NullableValue)}
  {cache cache' : Option SSTableBlockCache}

theorem ReadAs.append {begun : Option SSTableBlockCache} {run rest : List ColumnBlockMeta}
    {block : ColumnBlockMeta} {data : Bytes}
    (h : ReadAs reader schema projection begun run block data) :
    ReadAs reader schema projection begun (run ++ rest) block data := by
  obtain ⟨before, after, cache, cache', rfl, hpassed, hread⟩ := h
  refine ⟨before, after ++ rest, cache, cache', ?_, hpassed, hread⟩
  rw [List.append_assoc, List.cons_append]

theorem loadedFrom_nil (begun : Option SSTableBlockCache) :
    LoadedFrom reader schema projection begun [] [] (SSTableColumnCursor.cleared schema) := by
  refine ⟨Or.inl rfl, ?_, length_cleared schema⟩
  intro i column hcolumn
  exact Or.inl (List.eq_of_mem_replicate (List.mem_of_getElem? hcolumn))

theorem LoadedFrom.append {begun : Option SSTableBlockCache} {run : List ColumnBlockMeta}
    (h : LoadedFrom reader schema projection begun run keys columns)
    (rest : List ColumnBlockMeta) :
    LoadedFrom reader schema projection begun (run ++ rest) keys columns := by
  refine ⟨?_, ?_, h.width⟩
  · rcases h.loadedKeys with hnil | ⟨block, data, hcolumn, hread, hdecode⟩
    · exact Or.inl hnil
    · exact Or.inr ⟨block, data, hcolumn, hread.append, hdecode⟩
  · intro i column hcolumn
    rcases h.loadedColumns i column hcolumn with
      hnil | ⟨block, data, type, hi, htype, hread, hdecode⟩
    · exact Or.inl hnil
    · exact Or.inr ⟨block, data, type, hi, htype, hread.append, hdecode⟩

private theorem LoadedFrom.loadBlock {begun : Option SSTableBlockCache}
    {run : List ColumnBlockMeta} {block : ColumnBlockMeta}
    {loaded : List Key × List (List NullableValue)}
    (hpassed : Passed reader schema projection begun run cache)
    (hrun : LoadedFrom reader schema projection begun run keys columns)
    (h : loadBlock reader schema projection keys columns block cache = .ok (loaded, cache')) :
    LoadedFrom reader schema projection begun (run ++ [block]) loaded.1 loaded.2 := by
  have hkept := hrun.append [block]
  have hdata : ∀ {data : Bytes} {cache₁ : Option SSTableBlockCache},
      Checked.lift (reader.readBlock cache (reader.columnKey block) block.offset block.size) =
        .ok (data, cache₁) →
      ReadAs reader schema projection begun (run ++ [block]) block data := by
    intro data cache₁ hread
    exact ⟨run, [], cache, cache₁, rfl, hpassed, Checked.of_lift_ok hread⟩
  unfold ColumnDecoding.loadBlock at h
  split at h
  · cases h
  rename_i hrange
  split at h
  · rename_i hkey
    obtain ⟨⟨data, cache₁⟩, hread, h⟩ := Checked.bind_eq_ok.mp h
    obtain ⟨decoded, hdecoded, h⟩ := Checked.bind_eq_ok.mp h
    cases h
    exact ⟨Or.inr ⟨block, data, hkey, hdata hread, hdecoded⟩, hkept.loadedColumns, hkept.width⟩
  split at h
  · cases h
    exact hkept
  · obtain ⟨⟨data, cache₁⟩, hread, h⟩ := Checked.bind_eq_ok.mp h
    obtain ⟨type, htype, h⟩ := Checked.bind_eq_ok.mp h
    obtain ⟨decoded, hdecoded, h⟩ := Checked.bind_eq_ok.mp h
    split at h
    · cases h
      refine ⟨hkept.loadedKeys, ?_, List.length_set.trans hrun.width⟩
      intro i column hcolumn
      by_cases hi : block.columnIdx = i
      · subst hi
        right
        rw [List.getElem?_set_self'] at hcolumn
        obtain ⟨_, -, rfl⟩ := Option.map_eq_some_iff.mp hcolumn
        exact ⟨block, data, type, rfl, Checked.of_access_ok htype, hdata hread, hdecoded⟩
      · rw [List.getElem?_set_ne hi] at hcolumn
        exact hkept.loadedColumns i column hcolumn
    · cases h

private theorem LoadedFrom.loadBlocks {begun : Option SSTableBlockCache}
    {run blocks : List ColumnBlockMeta} {loaded : List Key × List (List NullableValue)}
    (hpassed : Passed reader schema projection begun run cache)
    (hrun : LoadedFrom reader schema projection begun run keys columns)
    (h : loadBlocks reader schema projection keys columns blocks cache = .ok (loaded, cache')) :
    LoadedFrom reader schema projection begun (run ++ blocks) loaded.1 loaded.2 := by
  induction blocks generalizing keys columns cache run with
  | nil =>
    cases h
    rw [List.append_nil]
    exact hrun
  | cons block blocks ih =>
    rw [ColumnDecoding.loadBlocks] at h
    obtain ⟨⟨first, cache₁⟩, hload, h⟩ := Checked.bind_eq_ok.mp h
    have hone : Passed reader schema projection cache [block] cache₁ :=
      ⟨cache₁, passes_of_loadBlock hload, rfl⟩
    have hloaded := ih (hpassed.append hone) (hrun.loadBlock hpassed hload) h
    rw [List.append_assoc, List.singleton_append] at hloaded
    exact hloaded

/-- What was loaded when a run is loaded into an empty cursor. -/
theorem loadedFrom_run {run : List ColumnBlockMeta}
    {loaded : List Key × List (List NullableValue)}
    (h : loadBlocks reader schema projection [] (SSTableColumnCursor.cleared schema) run cache =
      .ok (loaded, cache')) :
    LoadedFrom reader schema projection cache run loaded.1 loaded.2 := by
  have hpassed : Passed reader schema projection cache [] cache := rfl
  exact (loadedFrom_nil cache).loadBlocks hpassed h

end Load

/-! ## Where a scan stands -/

/-- The cache with which a scan that began with `start` comes behind these runs. -/
def Behind (reader : SSTableReader) (schema : List ValueType) (projection : List Nat)
    (start : Option SSTableBlockCache) (runs : List (List ColumnBlockMeta))
    (cache : Option SSTableBlockCache) : Prop :=
  Passed reader schema projection start runs.flatten cache

/-- A valid cursor is in a block that this scan loaded from one of the runs. -/
structure Stands (reader : SSTableReader) (schema : List ValueType) (projection : List Nat)
    (start : Option SSTableBlockCache) (runs : List (List ColumnBlockMeta)) (scan : ColumnScan)
    (cache : Option SSTableBlockCache) : Prop where
  valid : scan.index < scan.keys.length
  loaded : ∃ before run after begun, runs = before ++ run :: after ∧
    Behind reader schema projection start before begun ∧
    LoadedFrom reader schema projection begun run scan.keys scan.payload
  pending : ∃ before, runs = before ++ scan.pending ∧
    Behind reader schema projection start before cache

/-- What building or moving the cursor comes to, with a wrapping bitmap among the blocks
to come or without. -/
inductive Outcome (reader : SSTableReader) (schema : List ValueType) (projection : List Nat)
    (start : Option SSTableBlockCache) (runs : List (List ColumnBlockMeta)) (meets : Prop) :
    Checked (ColumnScan × Option SSTableBlockCache) → Prop
  | faults (h : meets) : Outcome reader schema projection start runs meets (.error .outOfBounds)
  | throws (e : Exception) (h : ¬meets) :
    Outcome reader schema projection start runs meets (.error (.thrown e))
  | stands {scan : ColumnScan} {cache : Option SSTableBlockCache}
    (h : Stands reader schema projection start runs scan cache)
    (hmeets : meets ↔ MeetsWrap reader schema projection cache scan.pending.flatten) :
    Outcome reader schema projection start runs meets (.ok (scan, cache))
  | ends {scan : ColumnScan} {cache : Option SSTableBlockCache}
    (h : scan.keys.length ≤ scan.index) (hmeets : ¬meets) :
    Outcome reader schema projection start runs meets (.ok (scan, cache))

section Scan

variable {reader : SSTableReader} {range : KeyRange} {schema : List ValueType}
  {projection : List Nat} {start : Option SSTableBlockCache} {runs : List (List ColumnBlockMeta)}

/-- Loading the next blocks, and that it leaves fewer of them. -/
theorem loadNextNonEmptyBlock_outcome {before pending : List (List ColumnBlockMeta)}
    {cache : Option SSTableBlockCache} (hruns : runs = before ++ pending)
    (hbefore : Behind reader schema projection start before cache)
    (hcounted : ∀ run ∈ runs, Counted run) :
    Outcome reader schema projection start runs
        (MeetsWrap reader schema projection cache pending.flatten)
        (loadNextNonEmptyBlock reader range schema projection pending cache) ∧
      ∀ scan cache', loadNextNonEmptyBlock reader range schema projection pending cache =
        .ok (scan, cache') → scan.index < scan.keys.length →
        scan.pending.length < pending.length := by
  induction pending generalizing before cache with
  | nil =>
    rw [loadNextNonEmptyBlock, List.flatten_nil]
    refine ⟨.ends (Nat.zero_le _) id, ?_⟩
    intro scan cache' hscan hvalid
    cases hscan
    exact absurd hvalid (Nat.not_lt_zero _)
  | cons run pending ih =>
    have hrun : Counted run := hcounted run (by simp [hruns])
    have hwidth := length_cleared schema
    rw [loadNextNonEmptyBlock, List.flatten_cons]
    cases hload : loadBlocks reader schema projection [] (SSTableColumnCursor.cleared schema) run
        cache with
    | error fault =>
      refine ⟨?_, nofun⟩
      cases fault with
      | thrown e => exact .throws e (not_meetsWrap_of_throws hrun hwidth hload)
      | outOfBounds =>
        apply Outcome.faults
        apply meetsWrap_of_run
        by_contra hmeets
        rw [loadBlocks_eq hwidth hmeets] at hload
        exact absurd hload (Checked.lift_ne_outOfBounds _)
    | ok out =>
      obtain ⟨⟨keys, columns⟩, cache₁⟩ := out
      have hskip := @skipOutside_eq range keys keys.length 0 (Nat.le_add_left _ _)
      have hmeets := @meetsWrap_append reader schema projection _ _ cache cache₁ run
        pending.flatten _ hrun hwidth hload
      have hruns' : runs = (before ++ [run]) ++ pending := by
        rw [hruns, List.append_assoc, List.singleton_append]
      have hbehind : Behind reader schema projection start (before ++ [run]) cache₁ := by
        rw [Behind, List.flatten_append, List.flatten_singleton]
        exact hbefore.append (passed_of_loadBlocks hload)
      rw [Checked.ok_bind]
      dsimp only
      rw [hskip, Checked.ok_bind, hmeets]
      split
      · rename_i hvalid
        have hstands : Stands reader schema projection start runs
            ⟨pending, keys, columns, Cursor.skipOutside range keys 0⟩ cache₁ :=
          ⟨hvalid, ⟨before, run, pending, cache, hruns, hbefore, loadedFrom_run hload⟩,
            before ++ [run], hruns', hbehind⟩
        refine ⟨.stands hstands Iff.rfl, ?_⟩
        intro scan cache' hscan _
        cases hscan
        exact Nat.lt_succ_self _
      · obtain ⟨houtcome, hfewer⟩ := ih hruns' hbehind
        refine ⟨houtcome, ?_⟩
        intro scan cache' hscan hvalid
        exact (hfewer scan cache' hscan hvalid).trans (Nat.lt_succ_self _)

/-- A step from a row goes further in the block or leaves fewer blocks. -/
theorem next_outcome {scan : ColumnScan} {cache : Option SSTableBlockCache}
    (hstands : Stands reader schema projection start runs scan cache)
    (hcounted : ∀ run ∈ runs, Counted run) :
    Outcome reader schema projection start runs
        (MeetsWrap reader schema projection cache scan.pending.flatten)
        (next reader range schema projection scan cache) ∧
      ∀ scan' cache', next reader range schema projection scan cache = .ok (scan', cache') →
        scan'.index < scan'.keys.length → scan'.pending.length < scan.pending.length ∨
          scan'.pending = scan.pending ∧ scan'.keys = scan.keys ∧ scan.index < scan'.index := by
  have hskip := @skipOutside_eq range scan.keys scan.keys.length (scan.index + 1)
    (Nat.le_add_left _ _)
  unfold next
  rw [if_pos hstands.valid, hskip, Checked.ok_bind]
  split
  · rename_i hvalid
    refine ⟨.stands ⟨hvalid, hstands.loaded, hstands.pending⟩ Iff.rfl, ?_⟩
    intro scan' cache' hscan _
    cases hscan
    right
    refine ⟨rfl, rfl, ?_⟩
    exact Nat.lt_of_lt_of_le (Nat.lt_succ_self _) (Nat.le_add_right _ _)
  · obtain ⟨before, hruns, hbefore⟩ := hstands.pending
    obtain ⟨houtcome, hfewer⟩ := loadNextNonEmptyBlock_outcome hruns hbefore hcounted
    exact ⟨houtcome, fun scan' cache' hscan hvalid => Or.inl (hfewer scan' cache' hscan hvalid)⟩

/-- The constructor loads the first blocks of the list. -/
theorem create_outcome {blocks : List ColumnBlockMeta}
    (hschema : schema[keyColumnIndex]? = some .int64)
    (hcounted : ∀ run ∈ SSTableColumnCursor.logicalBlocks blocks, Counted run)
    (start : Option SSTableBlockCache) :
    Outcome reader schema projection start (SSTableColumnCursor.logicalBlocks blocks)
      (MeetsWrap reader schema projection start blocks)
      (create reader range schema projection blocks start) := by
  have hkey := (List.getElem?_eq_some_iff.mp hschema).1
  have hne : ¬schema.isEmpty = true := by
    intro hnil
    rw [List.isEmpty_iff.mp hnil] at hkey
    exact absurd hkey (Nat.not_lt_zero _)
  have hflatten : (SSTableColumnCursor.logicalBlocks blocks).flatten = blocks :=
    List.flatten_splitBy _ _
  have hstart : Behind reader schema projection start [] start := rfl
  have houtcome := (@loadNextNonEmptyBlock_outcome reader range schema projection start _ [] _ _
    (List.nil_append (SSTableColumnCursor.logicalBlocks blocks)).symm hstart hcounted).1
  unfold create
  rw [if_neg hne, if_neg (not_le.mpr hkey), Checked.access_eq hschema, Checked.ok_bind,
    if_neg (not_not.mpr rfl)]
  rw [hflatten] at houtcome
  exact houtcome

/-! ## Whole scans -/

/-- A cursor that has ended stays where it is. -/
theorem advance_of_ended {scan : ColumnScan} (h : scan.keys.length ≤ scan.index) (steps : Nat)
    (cache : Option SSTableBlockCache) :
    advance reader range schema projection steps scan cache = .ok (scan, cache) := by
  induction steps with
  | zero => rfl
  | succ steps ih =>
    have hnext : next reader range schema projection scan cache = .ok (scan, cache) :=
      if_neg (not_lt.mpr h)
    rw [advance, hnext, Checked.ok_bind]
    exact ih

/-- As long as no bitmap wraps around, a scan throws, stands in a block or has ended. -/
theorem advance_outcome (hcounted : ∀ run ∈ runs, Counted run) (steps : Nat) {scan : ColumnScan}
    {cache : Option SSTableBlockCache}
    (hstands : Stands reader schema projection start runs scan cache)
    (hmeets : ¬MeetsWrap reader schema projection cache scan.pending.flatten) :
    Outcome reader schema projection start runs False
      (advance reader range schema projection steps scan cache) := by
  induction steps generalizing scan cache with
  | zero => exact .stands hstands (iff_of_false id hmeets)
  | succ steps ih =>
    have houtcome := (@next_outcome reader range schema projection start runs scan cache hstands
      hcounted).1
    rw [advance]
    generalize next reader range schema projection scan cache = result at houtcome
    cases houtcome with
    | faults h => exact absurd h hmeets
    | throws e => exact .throws e id
    | stands h hiff => exact ih h (mt hiff.mpr hmeets)
    | ends h =>
      rw [Checked.ok_bind]
      dsimp only
      rw [advance_of_ended h]
      exact .ends h id

/-- Every scan comes to an end. Where a wrapping bitmap lies ahead it ends in a fault. By
induction on the blocks to come, and in a block on the rows left. -/
theorem exists_end (hcounted : ∀ run ∈ runs, Counted run) {scan : ColumnScan}
    {cache : Option SSTableBlockCache}
    (hstands : Stands reader schema projection start runs scan cache) :
    ∃ steps,
      (MeetsWrap reader schema projection cache scan.pending.flatten ∧
        advance reader range schema projection steps scan cache = .error .outOfBounds) ∨
      ¬MeetsWrap reader schema projection cache scan.pending.flatten ∧
        ((∃ e, advance reader range schema projection steps scan cache = .error (.thrown e)) ∨
          ∃ last cache', advance reader range schema projection steps scan cache =
            .ok (last, cache') ∧ last.keys.length ≤ last.index) := by
  generalize hcount : scan.pending.length = count
  induction count using Nat.strong_induction_on generalizing scan cache with
  | _ count ihBlocks =>
    generalize hleft : scan.keys.length - scan.index = left
    induction left using Nat.strong_induction_on generalizing scan cache with
    | _ left ihRows =>
      obtain ⟨houtcome, hfurther⟩ :=
        @next_outcome reader range schema projection start runs scan cache hstands hcounted
      cases hnext : next reader range schema projection scan cache with
      | error fault =>
        rw [hnext] at houtcome
        have hone : advance reader range schema projection 1 scan cache = .error fault := by
          rw [advance, hnext, Checked.error_bind]
        cases houtcome with
        | faults h => exact ⟨1, Or.inl ⟨h, hone⟩⟩
        | throws e h => exact ⟨1, Or.inr ⟨h, Or.inl ⟨e, hone⟩⟩⟩
      | ok out =>
        obtain ⟨scan', cache'⟩ := out
        rw [hnext] at houtcome
        have hstep : ∀ steps, advance reader range schema projection (steps + 1) scan cache =
            advance reader range schema projection steps scan' cache' := by
          intro steps
          rw [advance, hnext, Checked.ok_bind]
        cases houtcome with
        | stands h hiff =>
          have hrest : ∃ steps,
              (MeetsWrap reader schema projection cache' scan'.pending.flatten ∧
                advance reader range schema projection steps scan' cache' =
                  .error .outOfBounds) ∨
              ¬MeetsWrap reader schema projection cache' scan'.pending.flatten ∧
                ((∃ e, advance reader range schema projection steps scan' cache' =
                    .error (.thrown e)) ∨
                  ∃ last cache'', advance reader range schema projection steps scan' cache' =
                    .ok (last, cache'') ∧ last.keys.length ≤ last.index) := by
            rcases hfurther scan' cache' hnext h.valid with hfewer | ⟨hpending, hkeys, hindex⟩
            · exact ihBlocks _ (hcount ▸ hfewer) h rfl
            · have hvalid := h.valid
              rw [hkeys] at hvalid
              exact ihRows (scan'.keys.length - scan'.index) (by rw [hkeys]; omega) h
                (hpending ▸ hcount) rfl
          obtain ⟨steps, hend⟩ := hrest
          refine ⟨steps + 1, ?_⟩
          rw [hstep, hiff]
          exact hend
        | ends h hmeets =>
          refine ⟨1, Or.inr ⟨hmeets, Or.inr ⟨scan', cache', ?_, h⟩⟩⟩
          rw [hstep]
          rfl

end Scan

/-! ## The model of the cursor -/

section Model

variable {reader : SSTableReader} {range : KeyRange} {schema : List ValueType}
  {projection : List Nat}

theorem loadNextNonEmptyBlock_eq {pending : List (List ColumnBlockMeta)}
    (hcounted : ∀ run ∈ pending, Counted run) {cache : Option SSTableBlockCache}
    (h : ¬MeetsWrap reader schema projection cache pending.flatten) :
    loadNextNonEmptyBlock reader range schema projection pending cache =
      Checked.lift (BlockScan.loadNextNonEmptyBlock range
        (SSTableColumnCursor.load reader schema projection) (SSTableColumnCursor.cleared schema)
        pending cache) := by
  induction pending generalizing cache with
  | nil => rfl
  | cons run pending ih =>
    obtain ⟨hrun, hrest⟩ := List.forall_mem_cons.mp hcounted
    have hwidth := length_cleared schema
    have hload := @loadBlocks_eq reader schema projection [] _ cache run hwidth
      fun hmeets => h (meetsWrap_of_run hmeets)
    rw [loadNextNonEmptyBlock, BlockScan.loadNextNonEmptyBlock, SSTableColumnCursor.load,
      Checked.lift_bind, ← hload]
    cases hloaded : loadBlocks reader schema projection [] (SSTableColumnCursor.cleared schema) run
        cache with
    | error fault => rfl
    | ok out =>
      obtain ⟨⟨keys, columns⟩, cache'⟩ := out
      have hskip := @skipOutside_eq range keys keys.length 0 (Nat.le_add_left _ _)
      rw [Checked.ok_bind, Checked.ok_bind]
      dsimp only
      rw [hskip, Checked.ok_bind]
      split
      · rfl
      · apply ih hrest
        rw [← meetsWrap_append hrun hwidth hloaded]
        exact h

/-- Without a wrapping bitmap, the checked cursor is built as its model is. -/
theorem create_eq {blocks : List ColumnBlockMeta}
    (hcounted : ∀ run ∈ SSTableColumnCursor.logicalBlocks blocks, Counted run)
    {cache : Option SSTableBlockCache} (h : ¬MeetsWrap reader schema projection cache blocks) :
    create reader range schema projection blocks cache =
      Checked.lift ((SSTableColumnCursor.create reader blocks range schema projection cache).map
        fun out => (out.1.scan, out.2)) := by
  unfold create SSTableColumnCursor.create
  split
  · rfl
  split
  · rfl
  rename_i hkey
  obtain ⟨type, hget, htype⟩ := Checked.access_of_lt (not_le.mp hkey)
  rw [htype, Checked.ok_bind, hget]
  by_cases hint : type = .int64
  · have hflatten : (SSTableColumnCursor.logicalBlocks blocks).flatten = blocks :=
      List.flatten_splitBy _ _
    rw [if_neg (not_not.mpr hint), if_neg (not_not.mpr (congrArg some hint)),
      loadNextNonEmptyBlock_eq hcounted (hflatten.symm ▸ h)]
    generalize BlockScan.loadNextNonEmptyBlock range _ _ _ cache = loaded
    cases loaded <;> rfl
  · rw [if_pos hint, if_pos fun hsame => hint (Option.some.inj hsame)]
    rfl

/-- And it is moved as its model is. -/
theorem next_eq {scan : ColumnScan} (hcounted : ∀ run ∈ scan.pending, Counted run)
    {cache : Option SSTableBlockCache}
    (h : ¬MeetsWrap reader schema projection cache scan.pending.flatten) :
    next reader range schema projection scan cache =
      Checked.lift (scan.next range (SSTableColumnCursor.load reader schema projection)
        (SSTableColumnCursor.cleared schema) cache) := by
  have hskip := @skipOutside_eq range scan.keys scan.keys.length (scan.index + 1)
    (Nat.le_add_left _ _)
  unfold next BlockScan.next
  split
  · rw [hskip, Checked.ok_bind]
    dsimp only
    split
    · rfl
    · exact loadNextNonEmptyBlock_eq hcounted h
  · rfl

end Model

end Htap.Cursor.ColumnDecoding
