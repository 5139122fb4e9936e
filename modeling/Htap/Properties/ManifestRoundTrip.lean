import Htap.Tree.Manifest

/-!
`SSTableManifest::load` after `SSTableManifest::save`: the levels of a registry
are written as one list and filed again by the level each SSTable names.
-/

namespace Htap.Properties

open Storage SSTable Read ByteFormat Words Htap.Tree

/-- The registry that is loaded has the levels of the registry that was saved, in the same
order. `hfits` bounds each field by its width in the file, the path by the 16 bits of its
length; trailing empty levels are not saved, so levels are compared one by one. -/
theorem manifest_round_trip {registry : SSTableRegistry} (hregistry : registry.Reachable)
    (hcount : registry.entries.length < 2 ^ 32)
    (hfits : ∀ info ∈ registry.entries, ManifestFits info) {nextSstId : Nat}
    (hnext : nextSstId < 2 ^ 64) (disk : Disk) :
    ∃ contents loaded,
      saveManifest registry nextSstId = .ok contents ∧
      loadManifest (applyOp disk (.writeManifest contents)) = .ok (loaded, nextSstId) ∧
      ∀ level, loaded.levels.getD level [] = registry.levels.getD level [] := by
  refine ⟨_, _, saveManifest_eq hcount nextSstId, loadManifest_saved rfl hfits hcount hnext, ?_⟩
  intro level
  rw [SSTableRegistry.getD_foldl_add _ _ fun info hinfo => hregistry.level_lt hinfo,
    hregistry.filed.filter_entries]
  rfl

/-- Level 0 empty again, level 1 never used, and an empty path. -/
theorem manifest_round_trip_gap :
    ∃ contents loaded,
      saveManifest ⟨[[], [], [⟨3, [], 2, Int64.minValue, Int64.maxValue, 0, 1, 1⟩]]⟩ 4 =
        .ok contents ∧
      loadManifest (applyOp ⟨fun _ => none, none⟩ (.writeManifest contents)) = .ok (loaded, 4) ∧
      ∀ level, loaded.levels.getD level [] =
        [[], [], [⟨3, [], 2, Int64.minValue, Int64.maxValue, 0, 1, 1⟩]].getD level [] := by
  have hreachable : SSTableRegistry.Reachable
      ⟨[[], [], [⟨3, [], 2, Int64.minValue, Int64.maxValue, 0, 1, 1⟩]]⟩ :=
    (SSTableRegistry.Reachable.empty.add ⟨1, [47], 0, 0, 5, 9, 1, 0⟩).add
      ⟨3, [], 2, Int64.minValue, Int64.maxValue, 0, 1, 1⟩ |>.remove 1
  refine manifest_round_trip hreachable (by decide) ?_ (by decide) ⟨fun _ => none, none⟩
  intro info hinfo
  obtain rfl := List.mem_singleton.mp hinfo
  exact ⟨by decide, by decide, by decide, by decide, by decide⟩

end Htap.Properties
