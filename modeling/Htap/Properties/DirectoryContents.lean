import Htap.Executor.PairTable
import Htap.Tree.Directory
import Htap.Tree.WholeSteps

/-!
The directory of a table and the list that the table keeps of it. The registry says of every
SSTable what is in its files, and no file is there that the table does not know of.
-/

namespace Htap.Properties

open Storage SSTable Read Cursor Words Executor Htap.Tree Htap.Tree.Session

variable {start s : Session}

/-- The entry tells the layout, the number of blocks and the first and last key of the rows
that are in the files of the SSTable. -/
structure DescribesFiles (s : Session) (info : SSTableInfo) (t : Table) : Prop where
  files : s.tree.disk.sstables info.path =
    some (t.files s.tree.schema (sparseIndexOptions s.tree.config))
  valid : ∀ row ∈ t.rows, ValidRow s.tree.schema row
  sorted : SortedRows t.rows
  layout : info.layout = t.layout.code
  numBlocks : info.numBlocks = t.blocks.length
  minKey : t.rows.head?.map rowKey = some info.minKey
  maxKey : t.rows.getLast?.map rowKey = some info.maxKey

/-- The list of SSTables and the directory agree. -/
structure Accounted (s : Session) : Prop where
  distinct : (s.sstables.map SSTableInfo.id).Nodup
  issuedOnce : s.issued.Nodup
  below : (∀ id ∈ s.issued, id < s.tree.nextSstId) ∧
    ∀ info ∈ s.sstables, info.id < s.tree.nextSstId
  filed : s.tree.registry.Filed
  layouts : ∀ info ∈ s.sstables, info.layout = (levelLayout s.tree.config info.level).code
  described : ∀ info ∈ s.sstables, ∃ t, DescribesFiles s info t
  directories : ∀ path, (s.tree.disk.sstables path).isSome ↔ ∃ info ∈ s.sstables, info.path = path
  manifest : ∃ next, Recorded s.tree next

theorem describesFiles {info : SSTableInfo} {t : Table}
    (h : Stored s.tree.schema (sparseIndexOptions s.tree.config) s.tree.disk info t) :
    DescribesFiles s info t := by
  have hne := h.wellFormed.nonempty
  refine ⟨h.onDisk, h.wellFormed.valid, h.wellFormed.sorted, h.describes.layout, ?_, ?_, ?_⟩
  · exact h.describes.numBlocks_eq h.wellFormed
  · obtain ⟨row, rest, hrows⟩ := List.exists_cons_of_ne_nil hne
    have hsorted := h.wellFormed.sorted
    rw [hrows] at hsorted
    rw [h.describes.minKey, hrows, minKeyOf_sorted hsorted]
    rfl
  · obtain ⟨front, row, hrows⟩ := (List.eq_nil_or_concat' t.rows).resolve_left hne
    have hsorted := h.wellFormed.sorted
    rw [hrows] at hsorted
    rw [h.describes.maxKey, hrows, maxKeyOf_sorted hsorted, List.getLast?_append]
    rfl

theorem accounted_of_life (hstart : Starts start) (hlife : Life start s) : Accounted s := by
  obtain ⟨htidy, built, next, hsound, hrecorded⟩ := hlife.tidy hstart
  constructor
  · exact hsound.distinct_sstables
  · exact htidy.once
  · exact ⟨htidy.issued, fun info hinfo => (hsound.known hinfo).issued⟩
  · exact hsound.invariant.filed
  · exact htidy.layouts
  · intro info hinfo
    obtain ⟨t, hstored⟩ := (hsound.known hinfo).stored
    exact ⟨t, describesFiles hstored⟩
  · intro path
    constructor
    · exact htidy.directories path
    · rintro ⟨info, hinfo, rfl⟩
      obtain ⟨t, hstored⟩ := (hsound.known hinfo).stored
      rw [hstored.onDisk]
      rfl
  · exact ⟨next, hrecorded⟩

/-- In every state of every life, jobs on their way and restarts included: what lies in the
directory is registered, or being written, or waits to be removed. -/
theorem directory_is_accounted_for (hstart : Starts start) (hlife : Life start s) :
    Accounted s := accounted_of_life hstart hlife

theorem directory_is_accounted_for_pairs : ∃ s, Life (newPairs freezingPairs) s ∧
    TwoTables s [pairRow (3, 30)] ∧ Accounted s := by
  obtain ⟨s, -, hrun, hflushed, -, -⟩ := exists_reopenedPairs
  have hlife := (run_threePairs.trans hrun).life
  exact ⟨s, hlife, hflushed, directory_is_accounted_for starts_freezingPairs hlife⟩

end Htap.Properties
