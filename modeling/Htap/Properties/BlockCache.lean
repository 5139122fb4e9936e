import Htap.Read.Reader

/-!
`SSTableBlockCache` is transparent: whatever was read before, a read gives what
its loader gives, and the LRU list, the entries, the byte counter and the hit
and miss counters stay in step.
-/

namespace Htap.Properties

open Storage SSTable Read Words

/-- A call of `read_row_block` or `read_column_block`. -/
inductive BlockCall where
  | row (sstableId : Nat) (block : RowBlockMeta)
  | column (sstableId : Nat) (block : ColumnBlockMeta)

namespace BlockCall

/-- The SSTable, layout, block and column that are read. -/
def key : BlockCall → CacheKey
  | row sstableId block => ⟨sstableId, .row, block.blockId, 0⟩
  | column sstableId block => ⟨sstableId, .column, block.blockId, block.columnIdx⟩

/-- The call, with a loader that knows the bytes of every key. -/
def read (contents : CacheKey → Bytes) (cache : SSTableBlockCache) (call : BlockCall) :
    Result (Bytes × SSTableBlockCache) :=
  match call with
  | row sstableId block => cache.readRowBlock sstableId block fun _ => .ok (contents call.key)
  | column sstableId block =>
    cache.readColumnBlock sstableId block fun _ => .ok (contents call.key)

/-- The cache after one call after another. -/
def readAll (contents : CacheKey → Bytes) (cache : SSTableBlockCache) :
    List BlockCall → Result SSTableBlockCache
  | [] => .ok cache
  | call :: calls => do
    let (_, cache) ← call.read contents cache
    readAll contents cache calls

end BlockCall

/-- The cache after the given calls: the LRU list holds the key of every entry
once and nothing else, and these are the keys used last; the byte counter is
the size of the entries, and more than the budget is held in a single entry
only; every call was a hit or a miss. -/
structure KeepsBlocks (maxCachedBytes : Nat) (calls : List BlockCall)
    (cache : SSTableBlockCache) : Prop where
  budget : cache.blocks.maxWeight = maxCachedBytes
  nodup : cache.blocks.recency.Nodup
  keys : (cache.blocks.entries.map Prod.fst).Perm cache.blocks.recency
  held : cache.blocks.heldWeight = (cache.blocks.entries.map fun e => e.2.length).sum
  bounded : cache.blocks.heldWeight ≤ maxCachedBytes ∨ cache.blocks.entries.length = 1
  recent : cache.blocks.recency <+: LruCache.recentFirst (calls.map BlockCall.key)
  counted : cache.hits + cache.misses = UInt64.ofNat calls.length
  counters : calls.length < 2 ^ 64 → cache.hits.toNat + cache.misses.toNat = calls.length

/-- What a call keeps. -/
private structure Served (contents : CacheKey → Bytes) (maxCachedBytes : Nat)
    (calls : List BlockCall) (cache : SSTableBlockCache) : Prop where
  budget : cache.blocks.maxWeight = maxCachedBytes
  coherent : cache.blocks.Coherent fun key => some (contents key)
  serves : cache.blocks.Serves List.length (calls.map BlockCall.key)
  counted : cache.hits + cache.misses = UInt64.ofNat calls.length
  counters : calls.length < 2 ^ 64 → cache.hits.toNat + cache.misses.toNat = calls.length

section Calls

variable {contents : CacheKey → Bytes} {maxCachedBytes : Nat} {calls : List BlockCall}
  {cache : SSTableBlockCache}

private theorem Served.keepsBlocks (h : Served contents maxCachedBytes calls cache) :
    KeepsBlocks maxCachedBytes calls cache where
  budget := h.budget
  nodup := h.serves.balanced.nodup
  keys := h.serves.balanced.keys
  held := h.serves.balanced.held
  bounded := h.budget ▸ h.serves.bounded
  recent := h.serves.recent
  counted := h.counted
  counters := h.counters

private theorem served_nil (contents : CacheKey → Bytes) (maxCachedBytes : Nat) :
    Served contents maxCachedBytes [] { blocks := { maxWeight := maxCachedBytes } } where
  budget := rfl
  coherent := by simp [LruCache.Coherent]
  serves := LruCache.Serves.nil maxCachedBytes
  counted := rfl
  counters := fun _ => rfl

/-- Counting one more call, in the one counter or in the other. -/
private theorem count_succ {a b : UInt64} {n : Nat} (hcounted : a + b = UInt64.ofNat n)
    (hcounters : n < 2 ^ 64 → a.toNat + b.toNat = n) :
    a + 1 + b = UInt64.ofNat (n + 1) ∧
      (n + 1 < 2 ^ 64 → (a + 1).toNat + b.toNat = n + 1) := by
  constructor
  · rw [UInt64.ofNat_add, ← hcounted, UInt64.add_assoc, UInt64.add_comm 1, ← UInt64.add_assoc]
    rfl
  · intro hlt
    have hsum := hcounters (by omega)
    rw [UInt64.toNat_add, UInt64.toNat_one, Nat.mod_eq_of_lt (by omega)]
    omega

/-- Every call is a `read_block` of its key. -/
private theorem read_eq (contents : CacheKey → Bytes) (cache : SSTableBlockCache)
    (call : BlockCall) :
    call.read contents cache = cache.readBlock call.key fun _ => .ok (contents call.key) := by
  cases call with
  | row sstableId block => rfl
  | column sstableId block => rfl

private theorem Served.read (h : Served contents maxCachedBytes calls cache) (call : BlockCall) :
    ∃ cache', call.read contents cache = .ok (contents call.key, cache') ∧
      Served contents maxCachedBytes (calls ++ [call]) cache' := by
  have hstep : ∃ blocks : LruCache CacheKey Bytes,
      cache.blocks.fetch List.length call.key
        (fun _ => (.ok (contents call.key) : Result Bytes)) = .ok (contents call.key, blocks) ∧
        blocks.Coherent fun key => some (contents key) := h.coherent.fetch rfl rfl
  obtain ⟨blocks, hfetch, hcoherent⟩ := hstep
  obtain ⟨hserves, -, hmax⟩ := h.serves.fetch hfetch
  have hkeys : (calls ++ [call]).map BlockCall.key = calls.map BlockCall.key ++ [call.key] := by
    rw [List.map_append]
    rfl
  have hlength : (calls ++ [call]).length = calls.length + 1 := by simp
  rw [← hkeys] at hserves
  rw [read_eq, SSTableBlockCache.readBlock, hfetch]
  by_cases hhit : (cache.blocks.find call.key).isSome
  · obtain ⟨hcounted, hcounters⟩ := count_succ h.counted h.counters
    refine ⟨{ cache with blocks := blocks, hits := cache.hits + 1 }, ?_, ?_⟩
    · simp only [Result.ok_bind, if_pos hhit, Result.pure_eq]
    · exact ⟨hmax.trans h.budget, hcoherent, hserves, hlength ▸ hcounted, hlength ▸ hcounters⟩
  · obtain ⟨hcounted, hcounters⟩ := @count_succ cache.misses cache.hits calls.length
      (by rw [UInt64.add_comm, h.counted]) fun hlt => by rw [Nat.add_comm, h.counters hlt]
    refine ⟨{ cache with blocks := blocks, misses := cache.misses + 1 }, ?_, ?_⟩
    · simp only [Result.ok_bind, if_neg hhit, Result.pure_eq]
    · refine ⟨hmax.trans h.budget, hcoherent, hserves, ?_, fun hlt => ?_⟩
      · rw [hlength, ← hcounted, UInt64.add_comm]
      · rw [hlength] at hlt ⊢
        rw [← hcounters hlt, Nat.add_comm]

private theorem Served.readAll (h : Served contents maxCachedBytes calls cache)
    (more : List BlockCall) :
    ∃ cache', BlockCall.readAll contents cache more = .ok cache' ∧
      Served contents maxCachedBytes (calls ++ more) cache' := by
  induction more generalizing calls cache with
  | nil => exact ⟨cache, rfl, by rwa [List.append_nil]⟩
  | cons call more ih =>
    obtain ⟨next, hread, hserved⟩ := h.read call
    obtain ⟨last, hreads, hlast⟩ := ih hserved
    refine ⟨last, ?_, ?_⟩
    · rw [BlockCall.readAll, hread, Result.ok_bind]
      exact hreads
    · rwa [List.append_assoc, List.singleton_append] at hlast

end Calls

/-- A call after any earlier calls. The budget is positive, as the constructor of the cache
requires, and `contents` is what `load` reads from the file for each key: a block cache is
only transparent while an SSTable never changes, which is why it is a function. -/
theorem block_cache_transparent {maxCachedBytes : Nat} (hbudget : 0 < maxCachedBytes)
    (contents : CacheKey → Bytes) (earlier : List BlockCall) (call : BlockCall) :
    ∃ fresh cache cache',
      SSTableBlockCache.ofBudget maxCachedBytes = .ok fresh ∧
      BlockCall.readAll contents fresh earlier = .ok cache ∧
      call.read contents cache = .ok (contents call.key, cache') ∧
      KeepsBlocks maxCachedBytes (earlier ++ [call]) cache' := by
  obtain ⟨cache, hearlier, hserved⟩ := (served_nil contents maxCachedBytes).readAll earlier
  obtain ⟨cache', hread, hserved'⟩ := hserved.read call
  refine ⟨{ blocks := { maxWeight := maxCachedBytes } }, cache, cache', ?_, hearlier, hread,
    hserved'.keepsBlocks⟩
  rw [SSTableBlockCache.ofBudget, if_neg (by omega)]

/-- A budget of two bytes, for blocks of three bytes and of none. -/
theorem block_cache_transparent_two :
    ∃ fresh cache cache',
      SSTableBlockCache.ofBudget 2 = .ok fresh ∧
      BlockCall.readAll (fun key => if key.blockId = 0 then [] else [1, 2, 3]) fresh
        [.row 5 ⟨0, 0, 0, 0, 0, 0⟩, .row 5 ⟨0, 0, 0, 3, 0, 1⟩] = .ok cache ∧
      BlockCall.read (fun key => if key.blockId = 0 then [] else [1, 2, 3]) cache
        (.row 5 ⟨0, 0, 0, 0, 0, 0⟩) = .ok ([], cache') ∧
      KeepsBlocks 2 [.row 5 ⟨0, 0, 0, 0, 0, 0⟩, .row 5 ⟨0, 0, 0, 3, 0, 1⟩,
        .row 5 ⟨0, 0, 0, 0, 0, 0⟩] cache' :=
  block_cache_transparent Nat.two_pos (fun key => if key.blockId = 0 then [] else [1, 2, 3])
    [.row 5 ⟨0, 0, 0, 0, 0, 0⟩, .row 5 ⟨0, 0, 0, 3, 0, 1⟩] (.row 5 ⟨0, 0, 0, 0, 0, 0⟩)

end Htap.Properties
