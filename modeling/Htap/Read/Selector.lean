import Htap.Read.MetadataCache

/-!
Which blocks of an SSTable a scan has to read: the window of blocks the sparse
index leaves for a key range, the blocks whose key bounds meet the range, and
the blocks whose statistics may satisfy a data-skipping filter.
-/

namespace Htap.Read

open Storage SSTable Words

/-! ## The sparse index -/

structure MetadataBlockRange where
  firstBlockId : Nat
  blockCount : Nat
  deriving DecidableEq

/-- The blocks from `first` up to `last`; none when they cross. -/
def blockWindow (first last : Nat) : MetadataBlockRange :=
  if last ≤ first then ⟨first, 0⟩ else ⟨first, last - first⟩

/-- `std::prev(upper_bound)`: the last entry whose key is not greater. -/
def firstIndexedBlock (index : List SparseIndexEntry) (key : Key) : Nat :=
  ((index.takeWhile fun entry => decide (entry.minKey ≤ key)).getLast?.map
    SparseIndexEntry.blockId).getD 0

/-- `lower_bound`: the first entry whose key is not less, if there is one. -/
def endIndexedEntry (index : List SparseIndexEntry) (key : Key) : Option SparseIndexEntry :=
  (index.dropWhile fun entry => decide (entry.minKey < key)).head?

def sparseIndexOutOfRange : Exception := .runtimeError "Sparse index block_id is out of range"

def selectMetadataRange (index : List SparseIndexEntry) (range : KeyRange) (totalBlocks : Nat) :
    Result MetadataBlockRange :=
  if totalBlocks = 0 then .ok ⟨0, 0⟩
  else if index.isEmpty then .ok ⟨0, totalBlocks⟩
  else
    let firstBlockId := (range.fromKey.map (firstIndexedBlock index)).getD 0
    if totalBlocks ≤ firstBlockId then .error sparseIndexOutOfRange
    else
      match range.toKey.bind (endIndexedEntry index) with
      | some entry =>
        if totalBlocks ≤ entry.blockId then .error sparseIndexOutOfRange
        else .ok (blockWindow firstBlockId entry.blockId)
      | none => .ok (blockWindow firstBlockId totalBlocks)

/-- `intersects`. -/
def intersects (minKey maxKey : Key) (range : KeyRange) : Bool :=
  if range.fromKey.any fun f => decide (maxKey < f) then false
  else if range.toKey.any fun t => decide (t ≤ minKey) then false
  else true

def filterCandidateRowBlocks (candidates : List RowBlockMeta) (range : KeyRange) :
    List RowBlockMeta :=
  candidates.filter fun block => intersects block.minKey block.maxKey range

def filterCandidateColumnBlocks (candidates : List ColumnBlockMeta) (range : KeyRange) :
    List ColumnBlockMeta :=
  candidates.filter fun block => intersects block.minKey block.maxKey range

/-- Blocks without a key of the range are the only ones dropped. -/
theorem intersects_of_contains {minKey maxKey key : Key} {range : KeyRange} (hmin : minKey ≤ key)
    (hmax : key ≤ maxKey) (hkey : range.contains key = true) :
    intersects minKey maxKey range = true := by
  obtain ⟨hfrom, hto⟩ := KeyRange.contains_iff.mp hkey
  unfold intersects
  rw [if_neg, if_neg]
  · rw [Option.any_eq_true]
    rintro ⟨t, ht, hle⟩
    exact absurd (hto t ht) (not_lt.mpr ((of_decide_eq_true hle).trans hmin))
  · rw [Option.any_eq_true]
    rintro ⟨f, hf, hlt⟩
    exact absurd (of_decide_eq_true hlt) (not_lt.mpr ((hfrom f hf).trans hmax))

/-! ## What the sparse index leaves out -/

/-- Rows with strictly increasing keys. -/
def StrictRows (rows : List Row) : Prop := rows.Pairwise fun a b => rowKey a < rowKey b

instance (rows : List Row) : Decidable (StrictRows rows) :=
  inferInstanceAs (Decidable (rows.Pairwise fun a b => rowKey a < rowKey b))

theorem StrictRows.sorted {rows : List Row} (h : StrictRows rows) : SortedRows rows :=
  h.imp fun h => h.le

theorem mem_indexCandidates {blocks : List (List Row)} (hlt : blocks.length < 2 ^ 32)
    {entry : SparseIndexEntry} (h : entry ∈ indexCandidates blocks) :
    ∃ rows, blocks[entry.blockId]? = some rows ∧ entry.minKey = minKeyOf rows := by
  obtain ⟨earlier, rows, later, rfl, rfl⟩ := Splitting.exists_of_mem_mapPrefix h
  have hearlier : earlier.length < 2 ^ 32 := by
    simp only [List.length_append] at hlt
    omega
  refine ⟨rows, ?_, rfl⟩
  simp [u32_of_lt hearlier]

theorem indexCandidates_blockId_lt {blocks : List (List Row)} {entry : SparseIndexEntry}
    (h : entry ∈ indexCandidates blocks) : entry.blockId < 2 ^ 32 := by
  obtain ⟨earlier, rows, later, -, rfl⟩ := Splitting.exists_of_mem_mapPrefix h
  exact u32_lt _

private theorem key_le_of_earlier_block {blocks : List (List Row)} (h : SortedRows blocks.flatten)
    {i j : Nat} (hij : i < j) {a b : List Row} (hi : blocks[i]? = some a)
    (hj : blocks[j]? = some b) {r s : Row} (hr : r ∈ a) (hs : s ∈ b) : rowKey r ≤ rowKey s := by
  have hpair := (List.pairwise_flatten.mp h).2
  obtain ⟨hi1, hi2⟩ := List.getElem?_eq_some_iff.mp hi
  obtain ⟨hj1, hj2⟩ := List.getElem?_eq_some_iff.mp hj
  have hcross := List.pairwise_iff_getElem.mp hpair i j hi1 hj1 hij
  rw [hi2, hj2] at hcross
  exact hcross r hr s hs

private theorem key_lt_of_earlier_block {blocks : List (List Row)} (h : StrictRows blocks.flatten)
    {i j : Nat} (hij : i < j) {a b : List Row} (hi : blocks[i]? = some a)
    (hj : blocks[j]? = some b) {r s : Row} (hr : r ∈ a) (hs : s ∈ b) : rowKey r < rowKey s := by
  have hpair := (List.pairwise_flatten.mp h).2
  obtain ⟨hi1, hi2⟩ := List.getElem?_eq_some_iff.mp hi
  obtain ⟨hj1, hj2⟩ := List.getElem?_eq_some_iff.mp hj
  have hcross := List.pairwise_iff_getElem.mp hpair i j hi1 hj1 hij
  rw [hi2, hj2] at hcross
  exact hcross r hr s hs

/-- The blocks of an SSTable: non-empty, in key order. A range with a lower
bound needs distinct keys, since equal keys may lie on both sides of a block
border and the sparse index enters at the last of them. -/
structure Indexed (blocks : List (List Row)) (range : KeyRange) : Prop where
  nonempty : ∀ rows ∈ blocks, rows ≠ []
  sorted : SortedRows blocks.flatten
  strict : range.fromKey = none ∨ StrictRows blocks.flatten
  few : blocks.length < 2 ^ 32

/-- A row outside of the chosen window is outside of the range. -/
def Sound (blocks : List (List Row)) (range : KeyRange) (window : MetadataBlockRange) : Prop :=
  ∀ i rows, blocks[i]? = some rows →
    (i < window.firstBlockId ∨ window.firstBlockId + window.blockCount ≤ i) →
    ∀ row ∈ rows, range.contains (rowKey row) = false

@[simp] theorem blockWindow_firstBlockId (first last : Nat) :
    (blockWindow first last).firstBlockId = first := by
  unfold blockWindow
  split <;> rfl

/-- What lies outside of a window lies before its start or behind its end. -/
theorem outside_blockWindow {first last i : Nat}
    (h : i < (blockWindow first last).firstBlockId ∨
      (blockWindow first last).firstBlockId + (blockWindow first last).blockCount ≤ i) :
    i < first ∨ last ≤ i := by
  unfold blockWindow at h
  split at h <;> simp only at h <;> omega

theorem sound_blockWindow {blocks : List (List Row)} {range : KeyRange} {first last : Nat}
    (hbelow : ∀ i rows, blocks[i]? = some rows → i < first →
      ∀ row ∈ rows, range.contains (rowKey row) = false)
    (habove : ∀ i rows, blocks[i]? = some rows → last ≤ i →
      ∀ row ∈ rows, range.contains (rowKey row) = false) :
    Sound blocks range (blockWindow first last) := by
  intro i rows hi houtside
  rcases outside_blockWindow houtside with hfirst | hlast
  · exact hbelow i rows hi hfirst
  · exact habove i rows hi hlast

theorem blockWindow_le {first last total : Nat} (hfirst : first ≤ total) (hlast : last ≤ total) :
    (blockWindow first last).firstBlockId + (blockWindow first last).blockCount ≤ total := by
  unfold blockWindow
  split <;> simp only <;> omega

private theorem not_contains_of_lt {range : KeyRange} {f key : Key} (hf : range.fromKey = some f)
    (h : key < f) : range.contains key = false := by
  rw [Bool.eq_false_iff]
  intro hcontains
  exact absurd ((KeyRange.contains_iff.mp hcontains).1 f hf) (not_le.mpr h)

private theorem not_contains_of_le {range : KeyRange} {t key : Key} (ht : range.toKey = some t)
    (h : t ≤ key) : range.contains key = false := by
  rw [Bool.eq_false_iff]
  intro hcontains
  exact absurd ((KeyRange.contains_iff.mp hcontains).2 t ht) (not_lt.mpr h)

theorem firstIndexedBlock_cases (index : List SparseIndexEntry) (key : Key) :
    firstIndexedBlock index key = 0 ∨
      ∃ entry ∈ index, entry.minKey ≤ key ∧ firstIndexedBlock index key = entry.blockId := by
  unfold firstIndexedBlock
  cases hlast : (index.takeWhile fun entry => decide (entry.minKey ≤ key)).getLast? with
  | none => exact Or.inl rfl
  | some entry =>
    right
    have hmem := List.mem_of_getLast? hlast
    have hle := List.mem_takeWhile_imp hmem
    exact ⟨entry, (List.takeWhile_sublist _).mem hmem, of_decide_eq_true hle, rfl⟩

theorem of_endIndexedEntry {index : List SparseIndexEntry} {key : Key} {entry : SparseIndexEntry}
    (h : endIndexedEntry index key = some entry) : entry ∈ index ∧ key ≤ entry.minKey := by
  unfold endIndexedEntry at h
  refine ⟨(List.dropWhile_sublist _).mem (List.mem_of_mem_head? h), ?_⟩
  have hne : index.dropWhile (fun entry => decide (entry.minKey < key)) ≠ [] := by
    intro hnil
    rw [hnil] at h
    cases h
  have hhead := List.head_dropWhile_not
    (fun entry : SparseIndexEntry => decide (entry.minKey < key)) hne
  rw [List.head?_eq_some_head hne] at h
  rw [Option.some.inj h] at hhead
  exact not_lt.mp (of_decide_eq_false hhead)

/-- Where the index names only blocks that exist, a window is found. -/
theorem selectMetadataRange_eq {index : List SparseIndexEntry} {totalBlocks : Nat}
    (hpos : 0 < totalBlocks) (hindex : ∀ entry ∈ index, entry.blockId < totalBlocks)
    (range : KeyRange) :
    selectMetadataRange index range totalBlocks =
      .ok (blockWindow ((range.fromKey.map (firstIndexedBlock index)).getD 0)
        (((range.toKey.bind (endIndexedEntry index)).map SparseIndexEntry.blockId).getD
          totalBlocks)) := by
  unfold selectMetadataRange
  rw [if_neg hpos.ne']
  split
  · rename_i hempty
    rw [List.isEmpty_iff] at hempty
    subst hempty
    have hfirst : (range.fromKey.map (firstIndexedBlock [])).getD 0 = 0 := by
      cases range.fromKey <;> rfl
    have hlast : range.toKey.bind (endIndexedEntry []) = none := by
      cases range.toKey <;> rfl
    rw [hfirst, hlast, blockWindow, Option.map_none, Option.getD_none, if_neg (not_le.mpr hpos)]
    rfl
  · have hfirst : (range.fromKey.map (firstIndexedBlock index)).getD 0 < totalBlocks := by
      cases range.fromKey with
      | none => exact hpos
      | some key =>
        rw [Option.map_some, Option.getD_some]
        rcases firstIndexedBlock_cases index key with hzero | ⟨entry, hmem, -, heq⟩
        · rw [hzero]
          exact hpos
        · rw [heq]
          exact hindex entry hmem
    dsimp only
    rw [if_neg (not_le.mpr hfirst)]
    cases hend : range.toKey.bind (endIndexedEntry index) with
    | none => rfl
    | some entry =>
      obtain ⟨key, -, hentry⟩ := Option.bind_eq_some_iff.mp hend
      dsimp only
      rw [if_neg (not_le.mpr (hindex entry (of_endIndexedEntry hentry).1))]
      rfl

/-- Whatever the range, the window lies within the SSTable. -/
theorem selectMetadataRange_within {index : List SparseIndexEntry} {totalBlocks : Nat}
    (hindex : ∀ entry ∈ index, entry.blockId < totalBlocks) (range : KeyRange) :
    ∃ window, selectMetadataRange index range totalBlocks = .ok window ∧
      window.firstBlockId + window.blockCount ≤ totalBlocks := by
  rcases Nat.eq_zero_or_pos totalBlocks with hzero | hpos
  · exact ⟨⟨0, 0⟩, by rw [selectMetadataRange, if_pos hzero], Nat.zero_le _⟩
  refine ⟨_, selectMetadataRange_eq hpos hindex range, blockWindow_le ?_ ?_⟩
  · cases range.fromKey with
    | none => exact Nat.zero_le _
    | some f =>
      rw [Option.map_some, Option.getD_some]
      rcases firstIndexedBlock_cases index f with hzero | ⟨entry, hmem, -, heq⟩
      · rw [hzero]
        exact Nat.zero_le _
      · rw [heq]
        exact (hindex entry hmem).le
  · cases hend : range.toKey.bind (endIndexedEntry index) with
    | none => exact le_rfl
    | some entry =>
      obtain ⟨t, -, hentry⟩ := Option.bind_eq_some_iff.mp hend
      exact (hindex entry (of_endIndexedEntry hentry).1).le

/-- The sparse index of a sorted SSTable never leaves out a row of the range,
and never names a block the SSTable does not have. -/
theorem selectMetadataRange_sound {blocks : List (List Row)} {range : KeyRange}
    (h : Indexed blocks range) {index : List SparseIndexEntry}
    (hindex : ∀ entry ∈ index, entry ∈ indexCandidates blocks) :
    ∃ window, selectMetadataRange index range blocks.length = .ok window ∧
      window.firstBlockId + window.blockCount ≤ blocks.length ∧ Sound blocks range window := by
  rcases Nat.eq_zero_or_pos blocks.length with hzero | hpos
  · refine ⟨⟨0, 0⟩, by rw [selectMetadataRange, if_pos hzero], Nat.zero_le _, ?_⟩
    intro i rows hi
    rw [List.length_eq_zero_iff.mp hzero] at hi
    cases hi
  have hknown : ∀ entry ∈ index, ∃ rows, blocks[entry.blockId]? = some rows ∧
      entry.minKey = minKeyOf rows ∧ rows ≠ [] := by
    intro entry hentry
    obtain ⟨rows, hget, hmin⟩ := mem_indexCandidates h.few (hindex entry hentry)
    exact ⟨rows, hget, hmin, h.nonempty rows (List.mem_of_getElem? hget)⟩
  have hids : ∀ entry ∈ index, entry.blockId < blocks.length := by
    intro entry hentry
    obtain ⟨rows, hget, -⟩ := hknown entry hentry
    exact (List.getElem?_eq_some_iff.mp hget).1
  have hfirst : (range.fromKey.map (firstIndexedBlock index)).getD 0 ≤ blocks.length ∧
      ∀ i rows, blocks[i]? = some rows →
        i < (range.fromKey.map (firstIndexedBlock index)).getD 0 →
        ∀ row ∈ rows, range.contains (rowKey row) = false := by
    cases hfrom : range.fromKey with
    | none => exact ⟨Nat.zero_le _, fun i rows _ hlt => absurd hlt (Nat.not_lt_zero i)⟩
    | some f =>
      rw [Option.map_some, Option.getD_some]
      rcases firstIndexedBlock_cases index f with hzero | ⟨entry, hmem, hle, heq⟩
      · rw [hzero]
        exact ⟨Nat.zero_le _, fun i rows _ hlt => absurd hlt (Nat.not_lt_zero i)⟩
      rw [heq]
      refine ⟨(hids entry hmem).le, ?_⟩
      intro i rows hi hlt row hrow
      obtain ⟨firstRows, hget, hmin, hne⟩ := hknown entry hmem
      obtain ⟨least, hleast, hkey⟩ := exists_minKeyOf hne
      have hstrict := h.strict.resolve_left (by simp [hfrom])
      apply not_contains_of_lt hfrom
      calc rowKey row < rowKey least := key_lt_of_earlier_block hstrict hlt hi hget hrow hleast
        _ = entry.minKey := by rw [hmin, hkey]
        _ ≤ f := hle
  have hlast : ((range.toKey.bind (endIndexedEntry index)).map SparseIndexEntry.blockId).getD
        blocks.length ≤ blocks.length ∧
      ∀ i rows, blocks[i]? = some rows →
        ((range.toKey.bind (endIndexedEntry index)).map SparseIndexEntry.blockId).getD
          blocks.length ≤ i →
        ∀ row ∈ rows, range.contains (rowKey row) = false := by
    cases hend : range.toKey.bind (endIndexedEntry index) with
    | none =>
      refine ⟨le_rfl, fun i rows hi hle => ?_⟩
      exact absurd (List.getElem?_eq_some_iff.mp hi).1 (not_lt.mpr hle)
    | some entry =>
      obtain ⟨t, hto, hentry⟩ := Option.bind_eq_some_iff.mp hend
      obtain ⟨hmem, hge⟩ := of_endIndexedEntry hentry
      obtain ⟨endRows, hget, hmin, hne⟩ := hknown entry hmem
      refine ⟨(hids entry hmem).le, ?_⟩
      intro i rows hi hle row hrow
      apply not_contains_of_le hto
      rcases Nat.eq_or_lt_of_le hle with heq | hlt
      · have hsame : endRows = rows := Option.some.inj (hget.symm.trans ((congrArg _ heq).trans hi))
        exact hge.trans (hmin.trans_le (minKeyOf_le (hsame ▸ hrow)))
      · obtain ⟨least, hleast, hkey⟩ := exists_minKeyOf hne
        have hcross := key_le_of_earlier_block h.sorted hlt hget hi hleast hrow
        exact hge.trans ((hmin.trans hkey).le.trans hcross)
  exact ⟨_, selectMetadataRange_eq hpos hids range, blockWindow_le hfirst.1 hlast.1,
    sound_blockWindow hfirst.2 hlast.2⟩

/-! ## Data skipping -/

inductive NumericComparisonOp where
  | equal
  | less
  | lessEqual
  | greater
  | greaterEqual
  deriving DecidableEq

structure NumericColumnPredicate where
  columnIdx : Nat
  op : NumericComparisonOp
  value : NumericStatsValue
  deriving DecidableEq

structure DataSkippingFilter where
  predicates : List NumericColumnPredicate := []
  deriving DecidableEq

namespace DataSkippingFilter

def empty (filter : DataSkippingFilter) : Bool := filter.predicates.isEmpty

/-- The columns of the predicates, each once. -/
def referencedColumns (filter : DataSkippingFilter) : List Nat :=
  ((filter.predicates.map NumericColumnPredicate.columnIdx).mergeSort fun a b => a ≤ b).dedup

end DataSkippingFilter

def numericValueAsDouble : NumericStatsValue → Binary64
  | .int64 v => Binary64.ofInt64 v
  | .double v => v

def blockMaySatisfyPredicate (stats : NumericBlockStats) (predicate : NumericColumnPredicate) :
    Bool :=
  if !stats.hasValue then false
  else
    match stats.type, predicate.value, stats.minValue, stats.maxValue with
    | .int64, .int64 value, .int64 blockMin, .int64 blockMax =>
      match predicate.op with
      | .equal => !(decide (value < blockMin) || decide (blockMax < value))
      | .greater => decide (value < blockMax)
      | .greaterEqual => decide (value ≤ blockMax)
      | .less => decide (blockMin < value)
      | .lessEqual => decide (blockMin ≤ value)
    | _, _, _, _ =>
      let blockMin := numericValueAsDouble stats.minValue
      let blockMax := numericValueAsDouble stats.maxValue
      let value := numericValueAsDouble predicate.value
      match predicate.op with
      | .equal => !(Binary64.lt value blockMin || Binary64.lt blockMax value)
      | .greater => Binary64.lt value blockMax
      | .greaterEqual => Binary64.le value blockMax
      | .less => Binary64.lt blockMin value
      | .lessEqual => Binary64.le blockMin value

/-- The loop of `may_satisfy` over the predicates. -/
def maySatisfyAll (relativeBlockId : Nat) (stats : NumericStatsRange) :
    List NumericColumnPredicate → Bool
  | [] => true
  | predicate :: predicates =>
    match stats.column predicate.columnIdx with
    | none => maySatisfyAll relativeBlockId stats predicates
    | some columnStats =>
      match columnStats[relativeBlockId]? with
      | none => true
      | some blockStats =>
        if blockMaySatisfyPredicate blockStats predicate then
          maySatisfyAll relativeBlockId stats predicates
        else false

def maySatisfy (blockId : Nat) (stats : NumericStatsRange) (filter : DataSkippingFilter) : Bool :=
  if blockId < stats.firstBlockId then true
  else
    let relativeBlockId := blockId - stats.firstBlockId
    if stats.blockCount ≤ relativeBlockId then true
    else maySatisfyAll relativeBlockId stats filter.predicates

def filterRowBlocks (blocks : List RowBlockMeta) (stats : NumericStatsRange)
    (filter : DataSkippingFilter) : List RowBlockMeta :=
  if blocks.isEmpty || stats.empty || filter.empty then blocks
  else blocks.filter fun block => maySatisfy (u32 block.blockId) stats filter

def filterColumnBlocks (blocks : List ColumnBlockMeta) (stats : NumericStatsRange)
    (filter : DataSkippingFilter) : List ColumnBlockMeta :=
  if blocks.isEmpty || stats.empty || filter.empty then blocks
  else blocks.filter fun block => maySatisfy (u32 block.blockId) stats filter

def filterLogicalBlockIds (blockIds : List Nat) (stats : NumericStatsRange)
    (filter : DataSkippingFilter) : List Nat :=
  if blockIds.isEmpty || stats.empty || filter.empty then blockIds
  else blockIds.filter fun blockId => maySatisfy blockId stats filter

end Htap.Read
