import Htap.Tree.Reading

/-!
The smallest tables: the key is the only column. Any keys can be inserted into them.
-/

namespace Htap.Tree

open Storage SSTable Read Cursor Words

def keyOnlySchema : Schema :=
  ⟨[{ name := [105, 100], type := .int64, isKey := true, nullable := false }]⟩

def keyOnlyRow (key : Key) : Row := [some (.int64 key)]

theorem keyOnlySchema_wellFormed : keyOnlySchema.WellFormed := by
  refine ⟨_, _, rfl, rfl, rfl, rfl, ?_⟩
  intro column hcolumn
  cases hcolumn

theorem storable_keyOnlyRow (key : Key) : StorableRow (keyOnlyRow key) := by
  intro value hvalue
  rw [List.mem_singleton.mp hvalue]
  intro text htext
  cases htext

namespace Session

/-- A new table in an empty directory. -/
def keyTable (config : StorageConfig) : Session where
  tree := {
    schema := keyOnlySchema
    config := config
    memoryLayer := { threshold := config.memtableThreshold }
    opened := ⟨fun _ => none, none⟩ }

theorem starts_keyTable {config : StorageConfig}
    (h : LSMTree.create keyOnlySchema config ⟨fun _ => none, none⟩ = .ok (keyTable config).tree) :
    Starts (keyTable config) := .create keyOnlySchema_wellFormed h

def insertKey (s : Session) (key : Key) : Session :=
  { s with tree := s.tree.insertRow (keyOnlyRow key), inserted := s.inserted ++ [keyOnlyRow key] }

theorem step_insertKey {s : Session} (hschema : s.tree.schema = keyOnlySchema) (key : Key) :
    Step s (s.insertKey key) := by
  apply Step.insert
  rw [LSMStorageEngine.insert, hschema]
  rfl

theorem bounded_insertKey {s : Session} (h : s.Bounded) (key : Key)
    (hfew : s.inserted.length + 8 < 2 ^ 32) : (s.insertKey key).Bounded := by
  constructor
  · exact h.columns
  · intro row hrow
    rcases List.mem_append.mp hrow with hold | hnew
    · exact h.strings row hold
    · rw [List.mem_singleton.mp hnew]
      exact storable_keyOnlyRow key
  · rw [insertKey, List.length_append, List.length_singleton]
    omega
  · exact h.ids

theorem bounded_keyTable (config : StorageConfig) : (keyTable config).Bounded := by
  constructor
  · change 1 ≤ 65535
    norm_num
  · intro row hrow
    cases hrow
  · norm_num [keyTable]
  · norm_num [keyTable]

end Session

end Htap.Tree
