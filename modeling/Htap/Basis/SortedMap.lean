import Mathlib

/-!
Ordered maps kept as strictly increasing association lists, with the
iterator view of an ordered container: a position is the key it stands on, or
`none` past the end, and stays meaningful while entries are added.
-/

/-- A finite map with its entries in increasing key order. -/
structure SortedMap (κ υ : Type*) [LinearOrder κ] where
  entries : List (κ × υ)
  sorted : entries.Pairwise fun a b => a.1 < b.1

namespace SortedMap

variable {κ υ : Type*} [LinearOrder κ]

def empty : SortedMap κ υ := ⟨[], List.Pairwise.nil⟩

def size (m : SortedMap κ υ) : Nat := m.entries.length

/-- Put `value` at `key`, replacing what was there. -/
def insertEntry (key : κ) (value : υ) : List (κ × υ) → List (κ × υ)
  | [] => [(key, value)]
  | entry :: rest =>
    if key < entry.1 then (key, value) :: entry :: rest
    else if entry.1 < key then entry :: insertEntry key value rest
    else (key, value) :: rest

theorem key_of_mem_insertEntry {key : κ} {value : υ} {entries : List (κ × υ)} {e : κ × υ}
    (he : e ∈ insertEntry key value entries) : e = (key, value) ∨ e ∈ entries := by
  induction entries with
  | nil => exact Or.inl (by simpa [insertEntry] using he)
  | cons entry rest ih =>
    unfold insertEntry at he
    split at he
    · rcases List.mem_cons.mp he with h | h
      · exact Or.inl h
      · exact Or.inr h
    · split at he
      · rcases List.mem_cons.mp he with h | h
        · exact Or.inr (by simp [h])
        · rcases ih h with h | h
          · exact Or.inl h
          · exact Or.inr (List.mem_cons_of_mem _ h)
      · rcases List.mem_cons.mp he with h | h
        · exact Or.inl h
        · exact Or.inr (List.mem_cons_of_mem _ h)

theorem sorted_insertEntry (key : κ) (value : υ) (entries : List (κ × υ))
    (hsorted : entries.Pairwise fun a b => a.1 < b.1) :
    (insertEntry key value entries).Pairwise fun a b => a.1 < b.1 := by
  induction entries with
  | nil => simp [insertEntry]
  | cons entry rest ih =>
    obtain ⟨hhead, htail⟩ := List.pairwise_cons.mp hsorted
    unfold insertEntry
    split
    · rename_i hlt
      refine List.pairwise_cons.mpr ⟨?_, hsorted⟩
      intro e he
      rcases List.mem_cons.mp he with rfl | h
      · exact hlt
      · exact hlt.trans (hhead e h)
    · split
      · rename_i hgt
        refine List.pairwise_cons.mpr ⟨?_, ih htail⟩
        intro e he
        rcases key_of_mem_insertEntry he with rfl | h
        · exact hgt
        · exact hhead e h
      · rename_i hle hge
        have hkey : key = entry.1 := le_antisymm (not_lt.mp hge) (not_lt.mp hle)
        refine List.pairwise_cons.mpr ⟨?_, htail⟩
        intro e he
        simpa [hkey] using hhead e he

def insert (m : SortedMap κ υ) (key : κ) (value : υ) : SortedMap κ υ :=
  ⟨insertEntry key value m.entries, sorted_insertEntry key value m.entries m.sorted⟩

/-- Insertion replaces the entry of its key and keeps all others. -/
theorem insertEntry_perm (key : κ) (value : υ) (entries : List (κ × υ))
    (hsorted : entries.Pairwise fun a b => a.1 < b.1) :
    (insertEntry key value entries).Perm
      ((key, value) :: entries.filter fun e => e.1 ≠ key) := by
  induction entries with
  | nil => simp [insertEntry]
  | cons entry rest ih =>
    obtain ⟨hhead, htail⟩ := List.pairwise_cons.mp hsorted
    unfold insertEntry
    split
    · rename_i hlt
      have hall : (entry :: rest).filter (fun e => e.1 ≠ key) = entry :: rest := by
        apply List.filter_eq_self.mpr
        intro e he
        rcases List.mem_cons.mp he with rfl | h
        · simpa using hlt.ne'
        · simpa using (hlt.trans (hhead e h)).ne'
      rw [hall]
    · split
      · rename_i hgt
        have hkeep : (entry :: rest).filter (fun e => e.1 ≠ key) =
            entry :: rest.filter fun e => e.1 ≠ key := by
          rw [List.filter_cons_of_pos]
          simpa using hgt.ne
        rw [hkeep]
        exact ((ih htail).cons entry).trans (List.Perm.swap _ _ _)
      · rename_i hle hge
        have hkey : entry.1 = key := le_antisymm (not_lt.mp hle) (not_lt.mp hge)
        have hdrop : (entry :: rest).filter (fun e => e.1 ≠ key) = rest := by
          rw [List.filter_cons_of_neg (by simpa using hkey)]
          apply List.filter_eq_self.mpr
          intro e he
          have := hhead e he
          rw [hkey] at this
          simpa using this.ne'
        rw [hdrop]

theorem entries_insert_perm (m : SortedMap κ υ) (key : κ) (value : υ) :
    (m.insert key value).entries.Perm
      ((key, value) :: m.entries.filter fun e => e.1 ≠ key) :=
  insertEntry_perm key value m.entries m.sorted

theorem mem_insert {m : SortedMap κ υ} {key : κ} {value : υ} {e : κ × υ} :
    e ∈ (m.insert key value).entries ↔ e = (key, value) ∨ (e ∈ m.entries ∧ e.1 ≠ key) := by
  rw [(m.entries_insert_perm key value).mem_iff]
  simp

theorem nodup_keys (m : SortedMap κ υ) : (m.entries.map Prod.fst).Nodup := by
  rw [List.Nodup, List.pairwise_map]
  exact m.sorted.imp fun h => h.ne

/-! ## Iterators -/

/-- First entry whose key is not below `key`. -/
def lowerBound (m : SortedMap κ υ) (key : κ) : Option κ :=
  (m.entries.find? fun e => key ≤ e.1).map Prod.fst

def begin (m : SortedMap κ υ) : Option κ := m.entries.head?.map Prod.fst

/-- The position after the entry of `key`. -/
def next (m : SortedMap κ υ) (key : κ) : Option κ :=
  (m.entries.find? fun e => key < e.1).map Prod.fst

def find? (m : SortedMap κ υ) (key : κ) : Option υ :=
  (m.entries.find? fun e => e.1 = key).map Prod.snd

/-- Where a range that starts at an optional lower bound starts. -/
def start (m : SortedMap κ υ) : Option κ → Option κ
  | some key => m.lowerBound key
  | none => m.begin

/-- Where a range that ends before an optional upper bound ends. -/
def stop (m : SortedMap κ υ) : Option κ → Option κ
  | some key => m.lowerBound key
  | none => none

/-- An iterator at `it` passes exactly `passed` before it reaches `stop`. -/
def Walks (m : SortedMap κ υ) (stop : Option κ) : Option κ → List (κ × υ) → Prop
  | it, [] => it = stop
  | it, e :: rest =>
    it ≠ stop ∧ it = some e.1 ∧ m.find? e.1 = some e.2 ∧ m.Walks stop (m.next e.1) rest

theorem find?_eq_some_iff {m : SortedMap κ υ} {key : κ} {value : υ} :
    m.find? key = some value ↔ (key, value) ∈ m.entries := by
  constructor
  · intro h
    obtain ⟨e, hfind, rfl⟩ := Option.map_eq_some_iff.mp h
    have hkey : e.1 = key := by simpa using List.find?_some hfind
    have hmem := List.mem_of_find?_eq_some hfind
    rw [← hkey]
    exact hmem
  · intro h
    cases hfind : m.entries.find? fun e => decide (e.1 = key) with
    | none =>
      have := List.find?_eq_none.mp hfind _ h
      simp at this
    | some e =>
      have hkey : e.1 = key := by simpa using List.find?_some hfind
      have hmem := List.mem_of_find?_eq_some hfind
      have heq : e = (key, value) :=
        List.inj_on_of_nodup_map m.nodup_keys hmem h hkey
      simp [find?, hfind, heq]

theorem next_eq_none_iff {m : SortedMap κ υ} {key : κ} :
    m.next key = none ↔ ∀ e ∈ m.entries, e.1 ≤ key := by
  simp [next, List.find?_eq_none]

theorem next_eq_some_iff {m : SortedMap κ υ} {key found : κ} :
    m.next key = some found ↔
      (∃ value, (found, value) ∈ m.entries) ∧ key < found ∧
        ∀ e ∈ m.entries, key < e.1 → found ≤ e.1 := by
  constructor
  · intro h
    obtain ⟨e, hfind, rfl⟩ := Option.map_eq_some_iff.mp h
    obtain ⟨hlt, before, after, hentries, hbefore⟩ := List.find?_eq_some_iff_append.mp hfind
    refine ⟨⟨e.2, List.mem_of_find?_eq_some hfind⟩, by simpa using hlt, ?_⟩
    intro e' he' hlt'
    rw [hentries] at he'
    rcases List.mem_append.mp he' with hin | hin
    · have := hbefore e' hin
      simp only [Bool.not_eq_true', decide_eq_false_iff_not] at this
      exact absurd hlt' this
    · rcases List.mem_cons.mp hin with rfl | hin
      · exact le_rfl
      · have hsorted := m.sorted
        rw [hentries] at hsorted
        have htail := (List.pairwise_append.mp hsorted).2.1
        exact ((List.pairwise_cons.mp htail).1 e' hin).le
  · rintro ⟨⟨value, hmem⟩, hlt, hleast⟩
    cases hnext : m.next key with
    | none =>
      have := next_eq_none_iff.mp hnext _ hmem
      exact absurd hlt (not_lt.mpr this)
    | some other =>
      obtain ⟨e, hfind, rfl⟩ := Option.map_eq_some_iff.mp hnext
      obtain ⟨hlt', before, after, hentries, hbefore⟩ := List.find?_eq_some_iff_append.mp hfind
      have hge := hleast e (List.mem_of_find?_eq_some hfind) (by simpa using hlt')
      have hle : e.1 ≤ found := by
        rw [hentries] at hmem
        rcases List.mem_append.mp hmem with hin | hin
        · have := hbefore _ hin
          simp only [Bool.not_eq_true', decide_eq_false_iff_not] at this
          exact absurd hlt this
        · rcases List.mem_cons.mp hin with heq | hin
          · rw [← heq]
          · have hsorted := m.sorted
            rw [hentries] at hsorted
            have htail := (List.pairwise_append.mp hsorted).2.1
            exact ((List.pairwise_cons.mp htail).1 _ hin).le
      rw [le_antisymm hle hge]

/-- The rest of a walk starts where its first entry's successor is. -/
theorem next_of_entries {m : SortedMap κ υ} {before after : List (κ × υ)} {e : κ × υ}
    (hentries : m.entries = before ++ e :: after) : m.next e.1 = after.head?.map Prod.fst := by
  have hsorted := m.sorted
  rw [hentries] at hsorted
  obtain ⟨-, htail, hcross⟩ := List.pairwise_append.mp hsorted
  have hbelow : ∀ e' ∈ before, ¬ e.1 < e'.1 := fun e' he' =>
    (hcross e' he' e List.mem_cons_self).asymm
  have hskip : before.find? (fun e' => decide (e.1 < e'.1)) = none :=
    List.find?_eq_none.mpr fun e' he' => by simpa using not_lt.mp (hbelow e' he')
  cases after with
  | nil => simp [next, hentries, List.find?_append, hskip]
  | cons e' after =>
    have hlt := (List.pairwise_cons.mp htail).1 e' List.mem_cons_self
    simp [next, hentries, List.find?_append, hskip, hlt]

/-- A stretch of the entries is walked from its head to what follows it. -/
theorem walks_stretch {m : SortedMap κ υ} {before passed after : List (κ × υ)}
    (hentries : m.entries = before ++ passed ++ after) :
    m.Walks (after.head?.map Prod.fst) ((passed ++ after).head?.map Prod.fst) passed := by
  induction passed generalizing before with
  | nil => simp [Walks]
  | cons e passed ih =>
    have hsplit : m.entries = before ++ e :: (passed ++ after) := by simpa using hentries
    have hsorted := m.sorted
    rw [hsplit] at hsorted
    obtain ⟨-, htail, -⟩ := List.pairwise_append.mp hsorted
    refine ⟨?_, rfl, ?_, ?_⟩
    · cases after with
      | nil => simp
      | cons e' after =>
        have hlt := (List.pairwise_cons.mp htail).1 e' (by simp)
        simpa using hlt.ne
    · exact find?_eq_some_iff.mpr (by simp [hsplit])
    · have hrest := ih (by simpa using hsplit : m.entries = (before ++ [e]) ++ passed ++ after)
      rwa [← next_of_entries hsplit] at hrest

private theorem filter_split (entries : List (κ × υ)) (p : κ → Bool)
    (hsorted : entries.Pairwise fun a b => a.1 < b.1)
    (hdown : ∀ a b, a < b → p b = true → p a = true) :
    entries = entries.filter (fun e => p e.1) ++ entries.filter fun e => !p e.1 := by
  induction entries with
  | nil => rfl
  | cons e entries ih =>
    obtain ⟨hhead, htail⟩ := List.pairwise_cons.mp hsorted
    cases hp : p e.1 with
    | true =>
      simp only [List.filter_cons, hp, if_true, Bool.not_true, Bool.false_eq_true, if_false,
        List.cons_append]
      rw [← ih htail]
    | false =>
      have hnone : entries.filter (fun e => p e.1) = [] := by
        apply List.filter_eq_nil_iff.mpr
        intro e' he' hp'
        have := hdown e.1 e'.1 (hhead e' he') hp'
        simp [hp] at this
      have hall : entries.filter (fun e => !p e.1) = entries := by
        apply List.filter_eq_self.mpr
        intro e' he'
        cases hp' : p e'.1 with
        | false => rfl
        | true =>
          have := hdown e.1 e'.1 (hhead e' he') hp'
          simp [hp] at this
      simp [hp, hnone, hall]

/-- Keys from an optional lower bound on. -/
def atOrAfter (lower : Option κ) (key : κ) : Bool := lower.all fun f => decide (f ≤ key)

/-- Keys below an optional upper bound. -/
def before (upper : Option κ) (key : κ) : Bool := upper.all fun t => decide (key < t)

theorem before_of_lt {upper : Option κ} {a b : κ} (hab : a < b) (hb : before upper b = true) :
    before upper a = true := by
  cases upper with
  | none => rfl
  | some t =>
    simp only [before, Option.all_some, decide_eq_true_eq] at hb ⊢
    exact hab.trans hb

theorem not_atOrAfter_of_lt {lower : Option κ} {a b : κ} (hab : a < b)
    (hb : (!atOrAfter lower b) = true) : (!atOrAfter lower a) = true := by
  cases lower with
  | none => simp [atOrAfter] at hb
  | some f =>
    simp only [atOrAfter, Option.all_some, Bool.not_eq_true', decide_eq_false_iff_not,
      not_le] at hb ⊢
    exact hab.trans hb

theorem start_eq (m : SortedMap κ υ) (lower : Option κ) :
    m.start lower = (m.entries.filter fun e => atOrAfter lower e.1).head?.map Prod.fst := by
  cases lower with
  | none => simp [start, begin, atOrAfter]
  | some f => simp [start, lowerBound, atOrAfter]

theorem stop_eq (m : SortedMap κ υ) (upper : Option κ) :
    m.stop upper = (m.entries.filter fun e => !before upper e.1).head?.map Prod.fst := by
  cases upper with
  | none => simp [stop, before]
  | some t => simp [stop, lowerBound, before, ← not_lt]

/-- The iterator pair of a range walks the entries of the range. -/
theorem walks_range (m : SortedMap κ υ) (lower upper : Option κ)
    (hordered : ∀ f ∈ lower, ∀ t ∈ upper, f ≤ t) :
    m.Walks (m.stop upper) (m.start lower)
      (m.entries.filter fun e => atOrAfter lower e.1 && before upper e.1) := by
  have hfrom := filter_split m.entries (fun k => !atOrAfter lower k) m.sorted
    fun a b => not_atOrAfter_of_lt
  have hto := filter_split (m.entries.filter fun e => atOrAfter lower e.1) (before upper)
    (m.sorted.filter _) fun a b => before_of_lt
  -- a key that is not below `upper` is not below `from` either
  have hafter : (m.entries.filter fun e => atOrAfter lower e.1).filter
      (fun e => !before upper e.1) = m.entries.filter fun e => !before upper e.1 := by
    rw [List.filter_filter]
    apply List.filter_congr
    intro e _
    cases lower with
    | none => simp [atOrAfter]
    | some f =>
      cases upper with
      | none => simp [before]
      | some t =>
        have hft := hordered f rfl t rfl
        by_cases hte : t ≤ e.1
        · simp [atOrAfter, before, hft.trans hte]
        · simp [before, not_le.mp hte]
  have hmiddle : (m.entries.filter fun e => atOrAfter lower e.1).filter
      (fun e => before upper e.1) =
      m.entries.filter fun e => atOrAfter lower e.1 && before upper e.1 := by
    rw [List.filter_filter]
    apply List.filter_congr
    intro e _
    exact Bool.and_comm _ _
  rw [hafter, hmiddle] at hto
  simp only [Bool.not_not] at hfrom
  rw [start_eq, stop_eq]
  have hentries : m.entries = m.entries.filter (fun e => !atOrAfter lower e.1) ++
      (m.entries.filter fun e => atOrAfter lower e.1 && before upper e.1) ++
      m.entries.filter fun e => !before upper e.1 := by
    rw [List.append_assoc, ← hto]
    exact hfrom
  have hwalk := walks_stretch hentries
  rwa [← hto] at hwalk

/-- A walk that ends on an entry never passes it. -/
theorem le_stop_of_walks {m : SortedMap κ υ} {last it : κ} {passed : List (κ × υ)}
    (hwalk : m.Walks (some last) (some it) passed) : it ≤ last := by
  induction passed generalizing it with
  | nil =>
    simp only [Walks, Option.some.injEq] at hwalk
    exact hwalk.le
  | cons e passed ih =>
    obtain ⟨-, hit, -, hrest⟩ := hwalk
    cases hnext : m.next e.1 with
    | none =>
      rw [hnext] at hrest
      cases passed with
      | nil => simp [Walks] at hrest
      | cons e' passed => simp [Walks] at hrest
    | some following =>
      rw [hnext] at hrest
      have hlt := (next_eq_some_iff.mp hnext).2.1
      have hle := ih hrest
      rw [Option.some.inj hit]
      exact hlt.le.trans hle

/-- What an insertion has to stay clear of so that a walk from `it` to `stop`
does not notice it. -/
def Clear (stop it : Option κ) (key : κ) : Prop :=
  it = stop ∨ (∀ k ∈ it, key < k) ∨ ∃ last, stop = some last ∧ last ≤ key

private theorem find?_insert_of_ne {m : SortedMap κ υ} {key other : κ} (value : υ)
    (h : other ≠ key) : (m.insert key value).find? other = m.find? other := by
  cases hfind : m.find? other with
  | some v =>
    rw [find?_eq_some_iff] at hfind
    exact find?_eq_some_iff.mpr (mem_insert.mpr (Or.inr ⟨hfind, h⟩))
  | none =>
    cases hins : (m.insert key value).find? other with
    | none => rfl
    | some v =>
      rcases mem_insert.mp (find?_eq_some_iff.mp hins) with heq | ⟨hmem, -⟩
      · exact absurd (Prod.mk.inj heq).1 h
      · rw [find?_eq_some_iff.mpr hmem] at hfind
        simp at hfind

/-- Walks outside of which an insertion happens stay as they are. -/
theorem walks_insert {m : SortedMap κ υ} {stop it : Option κ} {passed : List (κ × υ)}
    {key : κ} (value : υ) (hwalk : m.Walks stop it passed) (hclear : Clear stop it key) :
    (m.insert key value).Walks stop it passed := by
  induction passed generalizing it with
  | nil => exact hwalk
  | cons e passed ih =>
    obtain ⟨hne, hit, hfind, hrest⟩ := hwalk
    have hside : key < e.1 ∨ ∃ last, stop = some last ∧ last ≤ key ∧ e.1 < last := by
      rcases hclear with h | h | ⟨last, hlast, hle⟩
      · exact absurd h hne
      · exact Or.inl (h e.1 hit)
      · refine Or.inr ⟨last, hlast, hle, ?_⟩
        have hwhole : m.Walks (some last) (some e.1) (e :: passed) := by
          rw [← hlast, ← hit]
          exact ⟨hne, hit, hfind, hrest⟩
        have hlast_ne : e.1 ≠ last := by
          rintro rfl
          exact hne (by rw [hit, hlast])
        exact lt_of_le_of_ne (le_stop_of_walks hwhole) hlast_ne
    have hkey : e.1 ≠ key := by
      rcases hside with h | ⟨last, -, hle, hlt⟩
      · exact h.ne'
      · exact (hlt.trans_le hle).ne
    have hnext : (m.insert key value).next e.1 = m.next e.1 := by
      cases h : m.next e.1 with
      | none =>
        rw [next_eq_none_iff] at h ⊢
        intro e' he'
        rcases mem_insert.mp he' with rfl | ⟨hmem, -⟩
        · rcases hside with hlt | ⟨last, hlast, -, -⟩
          · exact hlt.le
          · rw [next_eq_none_iff.mpr h, hlast] at hrest
            cases passed <;> simp [Walks] at hrest
        · exact h e' hmem
      | some following =>
        have hfollow := h
        rw [next_eq_some_iff] at h
        obtain ⟨⟨v, hmem⟩, hlt, hleast⟩ := h
        have hbeyond : e.1 < key → following ≤ key ∧ following ≠ key ∨ following = key := by
          intro hek
          rcases hside with hlt' | ⟨last, hlast, hle, -⟩
          · exact absurd hek hlt'.asymm
          · rw [hfollow, hlast] at hrest
            have := (le_stop_of_walks hrest).trans hle
            by_cases heq : following = key
            · exact Or.inr heq
            · exact Or.inl ⟨this, heq⟩
        rw [next_eq_some_iff]
        refine ⟨?_, hlt, ?_⟩
        · by_cases heq : following = key
          · exact ⟨value, mem_insert.mpr (Or.inl (by rw [heq]))⟩
          · exact ⟨v, mem_insert.mpr (Or.inr ⟨hmem, heq⟩)⟩
        · intro e' he' hlt'
          rcases mem_insert.mp he' with rfl | ⟨hmem', -⟩
          · rcases hbeyond hlt' with h | h
            · exact h.1
            · exact h.le
          · exact hleast e' hmem' hlt'
    refine ⟨hne, hit, ?_, ?_⟩
    · rw [find?_insert_of_ne value hkey, hfind]
    · rw [hnext]
      apply ih hrest
      rcases hclear with h | h | h
      · exact absurd h hne
      · refine Or.inr (Or.inl ?_)
        intro k hk
        have := (next_eq_some_iff.mp hk).2.1
        exact (h e.1 hit).trans this
      · exact Or.inr (Or.inr h)

/-! ## Positions -/

/-- How many entries lie before an iterator. -/
def position (m : SortedMap κ υ) (it : Option κ) : Nat := m.entries.countP fun e => before it e.1

theorem position_le_size (m : SortedMap κ υ) (it : Option κ) : m.position it ≤ m.size :=
  List.countP_le_length

/-- The iterator that follows some entries stands at their number. -/
theorem position_head {m : SortedMap κ υ} {passed after : List (κ × υ)}
    (hentries : m.entries = passed ++ after) :
    m.position (after.head?.map Prod.fst) = passed.length := by
  have hsorted := m.sorted
  rw [hentries] at hsorted
  obtain ⟨-, htail, hcross⟩ := List.pairwise_append.mp hsorted
  rw [position, hentries, List.countP_append]
  cases after with
  | nil => simp [before]
  | cons first after =>
    have hpassed : passed.countP (fun e => before (some first.1) e.1) = passed.length := by
      apply List.countP_eq_length.mpr
      intro e he
      simpa [before] using hcross e he first List.mem_cons_self
    have hafter : (first :: after).countP (fun e => before (some first.1) e.1) = 0 := by
      apply List.countP_eq_zero.mpr
      intro e he
      rcases List.mem_cons.mp he with rfl | hin
      · simp [before]
      · simpa [before] using ((List.pairwise_cons.mp htail).1 e hin).le
    simp only [List.head?_cons, Option.map_some]
    rw [hpassed, hafter]
    rfl

theorem position_next {m : SortedMap κ υ} {e : κ × υ} (he : e ∈ m.entries) :
    m.position (m.next e.1) = m.position (some e.1) + 1 := by
  obtain ⟨passed, after, hentries⟩ := List.append_of_mem he
  have hhere : m.position (some e.1) = passed.length := position_head hentries
  have hthere : m.position (after.head?.map Prod.fst) = (passed ++ [e]).length := by
    apply position_head
    rw [hentries]
    simp
  rw [next_of_entries hentries, hhere, hthere, List.length_append]
  rfl

/-- A walk goes on by one position at each entry. -/
theorem position_of_walks {m : SortedMap κ υ} {stop it : Option κ} {passed : List (κ × υ)}
    (hwalk : m.Walks stop it passed) : m.position stop = m.position it + passed.length := by
  induction passed generalizing it with
  | nil =>
    have hend : it = stop := hwalk
    rw [hend, List.length_nil, Nat.add_zero]
  | cons e passed ih =>
    obtain ⟨-, hit, hfind, hrest⟩ := hwalk
    have hstep : m.position (m.next e.1) = m.position (some e.1) + 1 :=
      position_next (find?_eq_some_iff.mp hfind)
    rw [ih hrest, hit, hstep, List.length_cons]
    omega

theorem position_lowerBound (m : SortedMap κ υ) (key : κ) :
    m.position (m.lowerBound key) = m.entries.countP fun e => e.1 < key := by
  have hsplit := filter_split m.entries (before (some key)) m.sorted fun a b => before_of_lt
  have hfind : m.lowerBound key =
      (m.entries.filter fun e => !before (some key) e.1).head?.map Prod.fst :=
    m.stop_eq (some key)
  rw [hfind, position_head hsplit, List.countP_eq_length_filter]
  rfl

theorem countP_lt_countP {α : Type*} {p q : α → Bool} {entries : List α}
    (hsub : ∀ e ∈ entries, p e = true → q e = true) {e : α} (he : e ∈ entries) (hq : q e = true)
    (hp : p e = false) : entries.countP p < entries.countP q := by
  have hwithin : entries.countP p = (entries.filter q).countP p := by
    rw [List.countP_filter]
    apply List.countP_congr
    intro e' he'
    have := hsub e' he'
    simpa using this
  rw [hwithin, List.countP_eq_length_filter (p := q)]
  apply List.countP_lt_length_iff.mpr
  exact ⟨e, List.mem_filter.mpr ⟨he, hq⟩, by simp [hp]⟩

/-- With an entry between swapped bounds, a range starts behind its end. -/
theorem position_stop_lt_start {m : SortedMap κ υ} {lower upper : κ} {e : κ × υ}
    (he : e ∈ m.entries) (hupper : upper ≤ e.1) (hlower : e.1 < lower) :
    m.position (m.stop (some upper)) < m.position (m.start (some lower)) := by
  change m.position (m.lowerBound upper) < m.position (m.lowerBound lower)
  rw [position_lowerBound, position_lowerBound]
  apply countP_lt_countP (e := e) _ he (by simpa using hlower) (by simpa using hupper)
  intro e' _ hlt
  simp only [decide_eq_true_eq] at hlt ⊢
  exact hlt.trans (hupper.trans_lt hlower)

/-- With no entry between them, the bounds of a range are found at one place. -/
theorem start_eq_stop {m : SortedMap κ υ} {lower upper : κ} (hle : upper ≤ lower)
    (hnone : ∀ e ∈ m.entries, upper ≤ e.1 → lower ≤ e.1) :
    m.start (some lower) = m.stop (some upper) := by
  change m.lowerBound lower = m.lowerBound upper
  rw [lowerBound, lowerBound]
  congr 1
  apply List.find?_congr
  intro e he
  by_cases hlower : lower ≤ e.1
  · simp [hlower, hle.trans hlower]
  · simp [hlower, mt (hnone e he) hlower]

end SortedMap
