import Mathlib

/-!
Caches bounded by the total weight of their values, evicting what was used
least recently. A cache never changes an answer: if every entry is what a load
of its key would give, a fetch gives the same, hit or miss, whatever was
evicted in between.
-/

structure LruCache (κ υ : Type*) where
  maxWeight : Nat
  heldWeight : Nat := 0
  /-- Keys, most recently used first. -/
  recency : List κ := []
  entries : List (κ × υ) := []

namespace LruCache

variable {ε κ υ : Type*} [DecidableEq κ]

def find (cache : LruCache κ υ) (key : κ) : Option υ :=
  (cache.entries.find? fun e => e.1 = key).map Prod.snd

/-- Move a key to the front of the recency list. -/
def touch (cache : LruCache κ υ) (key : κ) : LruCache κ υ :=
  { cache with recency := key :: cache.recency.erase key }

def evict (weight : υ → Nat) (cache : LruCache κ υ) (key : κ) : LruCache κ υ :=
  match cache.find key with
  | none => cache
  | some value => { cache with
      heldWeight := cache.heldWeight - weight value
      entries := cache.entries.filter fun e => e.1 ≠ key }

/-- Evict the least recently used key while the cache is too heavy, but never
the last one. Each round pops one key, so `recency.length` rounds are enough. -/
def evictLoop (weight : υ → Nat) : Nat → LruCache κ υ → LruCache κ υ
  | 0, cache => cache
  | rounds + 1, cache =>
    if cache.maxWeight < cache.heldWeight ∧ 1 < cache.recency.length then
      match cache.recency.getLast? with
      | none => cache
      | some victim =>
        evictLoop weight rounds
          (evict weight { cache with recency := cache.recency.dropLast } victim)
    else cache

/-- The cache with one more entry, before any eviction. -/
def grow (weight : υ → Nat) (cache : LruCache κ υ) (key : κ) (value : υ) : LruCache κ υ :=
  { cache with
    recency := key :: cache.recency
    entries := cache.entries ++ [(key, value)]
    heldWeight := cache.heldWeight + weight value }

/-- The cached value of a key, or the loaded one, which is then cached. -/
def fetch (weight : υ → Nat) (cache : LruCache κ υ) (key : κ) (load : Unit → Except ε υ) :
    Except ε (υ × LruCache κ υ) :=
  match cache.find key with
  | some value => .ok (value, cache.touch key)
  | none =>
    match load () with
    | .error e => .error e
    | .ok value =>
      let grown := cache.grow weight key value
      .ok (value, evictLoop weight grown.recency.length grown)

/-- Every entry holds what `contents` gives its key. -/
def Coherent (contents : κ → Option υ) (cache : LruCache κ υ) : Prop :=
  ∀ e ∈ cache.entries, contents e.1 = some e.2

variable {contents : κ → Option υ} {weight : υ → Nat} {cache : LruCache κ υ}

theorem mem_of_find {key : κ} {value : υ} (h : cache.find key = some value) :
    (key, value) ∈ cache.entries := by
  obtain ⟨e, he, rfl⟩ := Option.map_eq_some_iff.mp h
  have hkey : e.1 = key := by simpa using List.find?_some he
  exact hkey ▸ List.mem_of_find?_eq_some he

theorem Coherent.evict (h : cache.Coherent contents) (key : κ) :
    (cache.evict weight key).Coherent contents := by
  unfold LruCache.evict
  split
  · exact h
  · intro e he
    exact h e (List.mem_of_mem_filter he)

theorem Coherent.evictLoop (h : cache.Coherent contents) (rounds : Nat) :
    (cache.evictLoop weight rounds).Coherent contents := by
  induction rounds generalizing cache with
  | zero => exact h
  | succ rounds ih =>
    rw [LruCache.evictLoop]
    split
    · split
      · exact h
      · rename_i victim _
        have hpopped : Coherent contents { cache with recency := cache.recency.dropLast } := h
        exact ih (hpopped.evict victim)
    · exact h

/-- A fetch that loads true contents leaves the cache coherent. -/
theorem Coherent.of_fetch (h : cache.Coherent contents) {key : κ} {load : Unit → Except ε υ}
    (hload : ∀ value, load () = .ok value → contents key = some value) {value : υ}
    {cache' : LruCache κ υ} (hfetch : cache.fetch weight key load = .ok (value, cache')) :
    cache'.Coherent contents := by
  unfold LruCache.fetch at hfetch
  split at hfetch
  · cases hfetch
    exact h
  · split at hfetch
    · cases hfetch
    · rename_i loaded hloaded
      cases hfetch
      refine Coherent.evictLoop ?_ _
      intro e he
      rcases List.mem_append.mp he with hin | hin
      · exact h e hin
      · rw [List.mem_singleton.mp hin]
        exact hload _ hloaded

/-- Whatever a fetch answers is the contents of the key. -/
theorem Coherent.eq_of_fetch (h : cache.Coherent contents) {key : κ} {load : Unit → Except ε υ}
    (hload : ∀ value, load () = .ok value → contents key = some value) {value : υ}
    {cache' : LruCache κ υ} (hfetch : cache.fetch weight key load = .ok (value, cache')) :
    contents key = some value := by
  unfold LruCache.fetch at hfetch
  split at hfetch
  · rename_i found hfind
    cases hfetch
    exact h _ (mem_of_find hfind)
  · split at hfetch
    · cases hfetch
    · rename_i loaded hloaded
      cases hfetch
      exact hload _ hloaded

/-- A coherent cache answers with the contents of the key and stays coherent. -/
theorem Coherent.fetch (h : cache.Coherent contents) {key : κ} {value : υ}
    {load : Unit → Except ε υ} (hvalue : contents key = some value) (hload : load () = .ok value) :
    ∃ cache' : LruCache κ υ, cache.fetch weight key load = .ok (value, cache') ∧
      cache'.Coherent contents := by
  unfold LruCache.fetch
  cases hfind : cache.find key with
  | some found =>
    have hheld := h _ (mem_of_find hfind)
    rw [hvalue] at hheld
    rw [Option.some.inj hheld]
    exact ⟨_, rfl, h⟩
  | none =>
    rw [hload]
    refine ⟨_, rfl, Coherent.evictLoop ?_ _⟩
    intro e he
    rcases List.mem_append.mp he with hin | hin
    · exact h e hin
    · rw [List.mem_singleton.mp hin]
      exact hvalue

/-! ## What a cache keeps -/

/-- Recency list and entries hold the same keys, each once, and the held weight
is the weight of the entries. -/
structure Balanced (weight : υ → Nat) (cache : LruCache κ υ) : Prop where
  nodup : cache.recency.Nodup
  keys : (cache.entries.map Prod.fst).Perm cache.recency
  held : cache.heldWeight = (cache.entries.map fun e => weight e.2).sum

/-- Not too heavy, unless by a single entry. -/
def Bounded (cache : LruCache κ υ) : Prop :=
  cache.heldWeight ≤ cache.maxWeight ∨ cache.entries.length = 1

omit [DecidableEq κ] in
theorem Balanced.length_eq (h : cache.Balanced weight) :
    cache.entries.length = cache.recency.length := by
  rw [← h.keys.length_eq, List.length_map]

omit [DecidableEq κ] in
theorem Balanced.nodup_keys (h : cache.Balanced weight) : (cache.entries.map Prod.fst).Nodup :=
  h.keys.nodup_iff.mpr h.nodup

theorem find_eq_some (h : (cache.entries.map Prod.fst).Nodup) {key : κ} {value : υ}
    (hmem : (key, value) ∈ cache.entries) : cache.find key = some value := by
  unfold find
  generalize cache.entries = entries at h hmem
  induction entries with
  | nil => cases hmem
  | cons e entries ih =>
    rw [List.map_cons, List.nodup_cons] at h
    rcases List.mem_cons.mp hmem with rfl | hin
    · simp
    · have hne : e.1 ≠ key := fun heq => h.1 (heq ▸ List.mem_map_of_mem (f := Prod.fst) hin)
      rw [List.find?_cons_of_neg (by simpa using hne)]
      exact ih h.2 hin

/-- The keys that are found are those of the recency list. -/
theorem Balanced.find_isSome (h : cache.Balanced weight) (key : κ) :
    (cache.find key).isSome ↔ key ∈ cache.recency := by
  rw [← h.keys.mem_iff]
  constructor
  · intro hsome
    obtain ⟨value, hfind⟩ := Option.isSome_iff_exists.mp hsome
    exact List.mem_map.mpr ⟨_, mem_of_find hfind, rfl⟩
  · intro hmem
    obtain ⟨⟨k, value⟩, he, rfl⟩ := List.mem_map.mp hmem
    rw [find_eq_some h.nodup_keys he]
    rfl

/-- A weight is that of one entry and of the rest. -/
private theorem sum_filter_ne {entries : List (κ × υ)}
    (hnodup : (entries.map Prod.fst).Nodup) {key : κ} {value : υ}
    (hmem : (key, value) ∈ entries) :
    ((entries.filter fun e => e.1 ≠ key).map fun e => weight e.2).sum + weight value =
      (entries.map fun e => weight e.2).sum := by
  induction entries with
  | nil => cases hmem
  | cons e entries ih =>
    rw [List.map_cons, List.nodup_cons] at hnodup
    rcases List.mem_cons.mp hmem with rfl | hin
    · have hrest : entries.filter (fun e => e.1 ≠ key) = entries := by
        refine List.filter_eq_self.mpr fun e he => ?_
        have hne : e.1 ≠ key := fun heq => hnodup.1 (List.mem_map.mpr ⟨e, he, heq⟩)
        simpa using hne
      rw [List.filter_cons_of_neg (by simp), hrest, List.map_cons, List.sum_cons, Nat.add_comm]
    · have hne : e.1 ≠ key := fun heq => hnodup.1 (heq ▸ List.mem_map_of_mem (f := Prod.fst) hin)
      rw [List.filter_cons_of_pos (by simpa using hne), List.map_cons, List.map_cons,
        List.sum_cons, List.sum_cons, Nat.add_assoc, ih hnodup.2 hin]

/-- Popping the least recently used key and evicting its entry. -/
theorem Balanced.pop (h : cache.Balanced weight) {victim : κ} {rest : List κ}
    (hrecency : cache.recency = rest ++ [victim]) :
    (evict weight { cache with recency := rest } victim).Balanced weight ∧
      (evict weight { cache with recency := rest } victim).recency = rest := by
  have hin : victim ∈ cache.recency := by simp [hrecency]
  obtain ⟨value, hfind⟩ := Option.isSome_iff_exists.mp ((h.find_isSome victim).mpr hin)
  have hpopped : ({ cache with recency := rest } : LruCache κ υ).find victim = some value := hfind
  have hmem := mem_of_find hfind
  have hnodup := h.nodup
  rw [hrecency, List.nodup_append] at hnodup
  have hfresh : victim ∉ rest := fun hrest => hnodup.2.2 victim hrest victim (by simp) rfl
  rw [evict, hpopped]
  refine ⟨⟨hnodup.1, ?_, ?_⟩, rfl⟩
  · have hfilter := h.keys.filter fun k => decide (k ≠ victim)
    have hkept : rest.filter (fun k => decide (k ≠ victim)) = rest := by
      refine List.filter_eq_self.mpr fun k hk => ?_
      have hne : k ≠ victim := fun heq => hfresh (heq ▸ hk)
      simpa using hne
    rw [hrecency, List.filter_append, hkept, List.filter_map] at hfilter
    simpa [Function.comp_def] using hfilter
  · have hsum := @sum_filter_ne κ υ _ weight cache.entries h.nodup_keys victim value hmem
    have hheld := h.held
    dsimp only
    omega

/-- Eviction cuts the recency list at its end, and stops when the cache is
bounded. -/
theorem Balanced.evictLoop {rounds : Nat} (h : cache.Balanced weight)
    (hrounds : cache.recency.length ≤ rounds) (hsome : cache.recency ≠ []) :
    (cache.evictLoop weight rounds).Balanced weight ∧ (cache.evictLoop weight rounds).Bounded ∧
      (cache.evictLoop weight rounds).recency <+: cache.recency ∧
      (cache.evictLoop weight rounds).recency ≠ [] ∧
      (cache.evictLoop weight rounds).maxWeight = cache.maxWeight := by
  induction rounds generalizing cache with
  | zero => exact absurd (List.length_eq_zero_iff.mp (by omega)) hsome
  | succ rounds ih =>
    rw [LruCache.evictLoop]
    split
    · rename_i hheavy
      obtain ⟨rest, victim, hrecency⟩ := (List.eq_nil_or_concat cache.recency).resolve_left hsome
      rw [List.concat_eq_append] at hrecency
      obtain ⟨hpopped, hrest⟩ := h.pop hrecency
      have hlast : cache.recency.getLast? = some victim := by simp [hrecency]
      have hinit : cache.recency.dropLast = rest := by simp [hrecency]
      have hlength : cache.recency.length = rest.length + 1 := by simp [hrecency]
      have hmax : (evict weight { cache with recency := rest } victim).maxWeight =
          cache.maxWeight := by
        unfold evict
        split <;> rfl
      simp only [hlast, hinit]
      obtain ⟨hbalanced, hbounded, hprefix, hnonempty, hmax'⟩ := ih hpopped
        (by rw [hrest]; omega) (by rw [hrest]; exact List.ne_nil_of_length_pos (by omega))
      refine ⟨hbalanced, hbounded, ?_, hnonempty, hmax'.trans hmax⟩
      rw [hrest] at hprefix
      rw [hrecency]
      exact hprefix.trans (List.prefix_append rest [victim])
    · rename_i hlight
      refine ⟨h, ?_, List.prefix_rfl, hsome, rfl⟩
      rcases Nat.lt_or_ge cache.maxWeight cache.heldWeight with hgt | hle
      · have hone : cache.recency.length ≤ 1 := by
          rw [not_and] at hlight
          exact not_lt.mp (hlight hgt)
        have hpos := List.length_pos_iff.mpr hsome
        exact Or.inr (by rw [h.length_eq]; omega)
      · exact Or.inl hle

/-- Eviction adds and changes no entry. -/
theorem evictLoop_subset (rounds : Nat) (cache : LruCache κ υ) :
    (cache.evictLoop weight rounds).entries ⊆ cache.entries := by
  induction rounds generalizing cache with
  | zero => exact List.Subset.refl _
  | succ rounds ih =>
    rw [LruCache.evictLoop]
    split
    · split
      · exact List.Subset.refl _
      · refine List.Subset.trans (ih _) ?_
        unfold evict
        split
        · exact List.Subset.refl _
        · exact List.filter_subset_self _
    · exact List.Subset.refl _

omit [DecidableEq κ] in
theorem Balanced.grow (h : cache.Balanced weight) {key : κ} (hkey : key ∉ cache.recency)
    (value : υ) : (cache.grow weight key value).Balanced weight where
  nodup := List.nodup_cons.mpr ⟨hkey, h.nodup⟩
  keys := by
    rw [LruCache.grow, List.map_append]
    exact (List.perm_append_singleton key _).trans (h.keys.cons key)
  held := by simp [LruCache.grow, h.held]

/-! ## The order of use -/

/-- The keys in the order of their last use, the last used first. -/
def recentFirst (keys : List κ) : List κ := keys.dedup.reverse

private theorem dedup_append_singleton (keys : List κ) (key : κ) :
    (keys ++ [key]).dedup = (keys.dedup.filter fun k => k ≠ key) ++ [key] := by
  induction keys with
  | nil => simp
  | cons k keys ih =>
    rw [List.cons_append]
    by_cases hk : k ∈ keys
    · rw [List.dedup_cons_of_mem hk, List.dedup_cons_of_mem (List.mem_append_left _ hk), ih]
    · by_cases heq : k = key
      · subst heq
        rw [List.dedup_cons_of_notMem hk, List.dedup_cons_of_mem (by simp), ih]
        simp
      · rw [List.dedup_cons_of_notMem hk, List.dedup_cons_of_notMem (by simp [hk, heq]), ih,
          List.filter_cons_of_pos (by simpa using heq), List.cons_append]

theorem recentFirst_append (keys : List κ) (key : κ) :
    recentFirst (keys ++ [key]) = key :: (recentFirst keys).erase key := by
  have hnodup : (recentFirst keys).Nodup := List.nodup_reverse.mpr (List.nodup_dedup keys)
  rw [hnodup.erase_eq_filter, recentFirst, dedup_append_singleton, List.reverse_append,
    List.reverse_singleton, List.singleton_append, ← List.filter_reverse, recentFirst]
  congr 2
  funext k
  by_cases hk : k = key <;> simp [hk]

/-- The cache after the given uses: what it keeps was used after everything it
does not keep. -/
structure Serves (weight : υ → Nat) (keys : List κ) (cache : LruCache κ υ) : Prop where
  balanced : cache.Balanced weight
  bounded : cache.Bounded
  recent : cache.recency <+: recentFirst keys

omit [DecidableEq κ] in
theorem Serves.nil [DecidableEq κ] (maxWeight : Nat) :
    Serves weight [] ({ maxWeight := maxWeight } : LruCache κ υ) where
  balanced := ⟨List.nodup_nil, List.Perm.refl _, rfl⟩
  bounded := Or.inl (Nat.zero_le _)
  recent := List.prefix_rfl

/-- A hit moves its key to the front. -/
private theorem Serves.touch {keys : List κ} (h : cache.Serves weight keys) {key : κ}
    (hkey : key ∈ cache.recency) : (cache.touch key).Serves weight (keys ++ [key]) where
  balanced := {
    nodup := (List.nodup_cons.mpr ⟨h.balanced.nodup.not_mem_erase, h.balanced.nodup.erase key⟩)
    keys := h.balanced.keys.trans (List.perm_cons_erase hkey)
    held := h.balanced.held }
  bounded := h.bounded
  recent := by
    obtain ⟨older, holder⟩ := h.recent
    rw [recentFirst_append, ← holder, List.erase_append_left _ hkey]
    exact List.prefix_append (key :: cache.recency.erase key) older

/-- A fetch of a key that loads serves that key too, and the entry it hands out
is still in the cache when it returns. -/
theorem Serves.fetch {keys : List κ} (h : cache.Serves weight keys) {key : κ} {value : υ}
    {load : Unit → Except ε υ} {cache' : LruCache κ υ}
    (hfetch : cache.fetch weight key load = .ok (value, cache')) :
    cache'.Serves weight (keys ++ [key]) ∧ cache'.find key = some value ∧
      cache'.maxWeight = cache.maxWeight := by
  unfold LruCache.fetch at hfetch
  cases hfind : cache.find key with
  | some found =>
    rw [hfind] at hfetch
    cases hfetch
    have hkey := (h.balanced.find_isSome key).mp (by rw [hfind]; rfl)
    exact ⟨h.touch hkey, hfind, rfl⟩
  | none =>
    rw [hfind] at hfetch
    cases hload : load () with
    | error e => simp [hload] at hfetch
    | ok loaded =>
      simp only [hload] at hfetch
      have hfresh : key ∉ cache.recency := by
        rw [← h.balanced.find_isSome key, hfind]
        simp
      have hgrown := h.balanced.grow hfresh loaded
      obtain ⟨hbalanced, hbounded, hprefix, hnonempty, hmax⟩ :=
        hgrown.evictLoop le_rfl (List.cons_ne_nil _ _)
      have hcache : cache' = (cache.grow weight key loaded).evictLoop weight
          (cache.grow weight key loaded).recency.length := by
        cases hfetch
        rfl
      have hvalue : loaded = value := by
        cases hfetch
        rfl
      subst hvalue hcache
      refine ⟨⟨hbalanced, hbounded, ?_⟩, ?_, hmax⟩
      · obtain ⟨older, holder⟩ := h.recent
        refine hprefix.trans ?_
        rw [recentFirst_append, ← holder, List.erase_append_right _ hfresh]
        exact List.prefix_append (key :: cache.recency) (older.erase key)
      · -- the key in front is never evicted
        obtain ⟨front, rest, hfront⟩ := List.exists_cons_of_ne_nil hnonempty
        have hkey : front = key := by
          rw [hfront] at hprefix
          exact (List.cons_prefix_cons.mp hprefix).1
        have hcached := (hbalanced.find_isSome key).mpr (by rw [hfront, hkey]; simp)
        obtain ⟨kept, hkept⟩ := Option.isSome_iff_exists.mp hcached
        have hold := evictLoop_subset _ _ (mem_of_find hkept)
        have hnew : (key, loaded) ∈ (cache.grow weight key loaded).entries := by
          simp [LruCache.grow]
        rw [hkept, ← find_eq_some hgrown.nodup_keys hold, find_eq_some hgrown.nodup_keys hnew]

end LruCache
