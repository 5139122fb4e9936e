import Htap.Tree.ManifestBytes

/-!
`SSTableManifest::load` of a file that may hold anything: whether the level table is
only accessed where it has a level.
-/

namespace Htap.Properties

open Storage SSTable ByteFormat Words Htap.Tree

/-- `load` throws, or it registers the entries its header counts, each in the list of
its level. -/
def LoadsSafely (contents : Bytes) : Prop :=
  (∃ e, loadLevels contents = .error (.threw e)) ∨
    ∃ levels entryCount nextSstId rest, loadLevels contents = .ok (levels, nextSstId) ∧
      readManifestHeader.run contents = .ok ((entryCount, nextSstId), rest) ∧
      (manifestEntries contents).length = entryCount ∧ levels.Files (manifestEntries contents)

/-- Loading is safe unless an entry that is read has the last `uint32_t` as its level:
`info.level + 1` is 0 then, and the table that is accessed is empty. -/
theorem manifest_loads_safely_iff (contents : Bytes) :
    LoadsSafely contents ↔ ∀ entry ∈ manifestEntries contents, entry.level ≠ 2 ^ 32 - 1 := by
  unfold LoadsSafely loadLevels manifestEntries
  cases hheader : readManifestHeader.run contents with
  | error e => exact iff_of_true (Or.inl ⟨e, rfl⟩) nofun
  | ok result =>
    obtain ⟨⟨entryCount, nextSstId⟩, rest⟩ := result
    dsimp only
    have hempty : LevelTable.Files [] [] := fun level => by rw [List.getD_nil, List.filter_nil]
    rcases loadEntries_eq entryCount rest hempty (Nat.two_pow_pos 32) with
      ⟨hnone, hloaded⟩ | ⟨⟨entry, hentry, hlevel⟩, hfailed⟩
    · apply iff_of_true _ hnone
      rcases hloaded with ⟨e, hthrew⟩ | ⟨levels, hlevels, hfiles, hcount⟩
      · left
        exact ⟨e, by rw [hthrew]⟩
      · right
        refine ⟨levels, entryCount, nextSstId, rest, by rw [hlevels], rfl, hcount, ?_⟩
        rw [List.nil_append] at hfiles
        exact hfiles
    · apply iff_of_false
      · rw [hfailed]
        rintro (⟨e, hthrew⟩ | ⟨levels, count, next, left, hlevels, -⟩)
        · cases hthrew
        · cases hlevels
      · intro hall
        exact hall entry hentry hlevel

/-- One entry of an SSTable without blocks, at level 4294967295. -/
def lastLevelManifest : Bytes :=
  leBytes 4 manifestMagic ++ (leBytes 4 1 ++ (leBytes 8 1 ++
    encodeManifestEntry ⟨0, [], 2 ^ 32 - 1, 0, 0, 0, 0, SSTLayout.row.code⟩))

theorem last_level_out_of_range : ¬LoadsSafely lastLevelManifest := by
  have hfailed : loadLevels lastLevelManifest = .error (.outOfRange (2 ^ 32 - 1)) := by
    decide +kernel
  unfold LoadsSafely
  rw [hfailed]
  rintro (⟨e, hthrew⟩ | ⟨levels, count, next, left, hlevels, -⟩)
  · cases hthrew
  · cases hlevels

end Htap.Properties
