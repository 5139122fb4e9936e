import Mathlib

/-!
Levels of items where a level that is due is merged into one item of the next level. Emptying
the least level that is due, again and again, is one pass down the levels: each level gets what
the pass brings from the level above before it is asked whether it is due.
-/

namespace Cascade

variable {α : Type} (due : Nat → List α → Bool) (merge : Nat → List α → α)

/-- What the pass brings to a level. -/
def carried (held : Nat → List α) : Nat → Option α
  | 0 => none
  | level + 1 =>
    let all := held level ++ (carried held level).toList
    if due level all then some (merge level all) else none

/-- What a level holds when the pass comes to it. -/
def gathered (held : Nat → List α) (level : Nat) : List α :=
  held level ++ (carried due merge held level).toList

/-- The levels that the pass empties. -/
def emptied (held : Nat → List α) : Set Nat :=
  {level | due level (gathered due merge held level) = true}

/-- No level before this one is due, and this one is. -/
structure LeastDue (held : Nat → List α) (level : Nat) : Prop where
  isDue : due level (held level) = true
  least : ∀ lower < level, due lower (held lower) = false

/-- The level is merged into the next. -/
def moved (held : Nat → List α) (source : Nat) (level : Nat) : List α :=
  if level = source then []
  else if level = source + 1 then held level ++ [merge source (held source)]
  else held level

variable {due merge} {held : Nat → List α} {source level : Nat}

theorem carried_succ (held : Nat → List α) (level : Nat) :
    carried due merge held (level + 1) =
      if due level (gathered due merge held level) then
        some (merge level (gathered due merge held level))
      else none := rfl

theorem mem_emptied :
    level ∈ emptied due merge held ↔ due level (gathered due merge held level) = true := Iff.rfl

/-- Nothing is brought to a level while no level before it is due. -/
private theorem carried_eq_none (h : ∀ lower < level, due lower (held lower) = false) :
    carried due merge held level = none := by
  induction level with
  | zero => rfl
  | succ level ih =>
    have hnone := ih fun lower hlower => h lower (hlower.trans (Nat.lt_succ_self level))
    rw [carried_succ, gathered, hnone, Option.toList_none, List.append_nil,
      h level (Nat.lt_succ_self level)]
    rfl

private theorem gathered_eq (h : ∀ lower < level, due lower (held lower) = false) :
    gathered due merge held level = held level := by
  rw [gathered, carried_eq_none h, Option.toList_none, List.append_nil]

/-- Where no level is due the pass empties none, and only there. -/
theorem emptied_eq_empty_iff :
    emptied due merge held = ∅ ↔ ∀ level, due level (held level) = false := by
  rw [Set.eq_empty_iff_forall_notMem]
  constructor
  · intro hnone level
    induction level using Nat.strong_induction_on with
    | _ level ih =>
      have hnot := hnone level
      rw [mem_emptied, gathered_eq ih, Bool.not_eq_true] at hnot
      exact hnot
  · intro hnone level hmem
    rw [mem_emptied, gathered_eq fun lower _ => hnone lower, hnone level] at hmem
    cases hmem

/-- After the least level that is due was merged, no level up to it is due. -/
private theorem due_moved (h : LeastDue due held source) (hnil : ∀ l, due l [] = false)
    (hlevel : level ≤ source) : due level (moved merge held source level) = false := by
  rcases Nat.lt_or_eq_of_le hlevel with hlt | rfl
  · rw [moved, if_neg (by omega), if_neg (by omega)]
    exact h.least level hlt
  · rw [moved, if_pos rfl]
    exact hnil level

/-- Merging the least level that is due brings the same to every level below. -/
private theorem carried_moved (h : LeastDue due held source) (hnil : ∀ l, due l [] = false)
    (hlevel : source + 2 ≤ level) :
    carried due merge (moved merge held source) level = carried due merge held level := by
  have hbefore : ∀ lower < source + 1, due lower (moved merge held source lower) = false :=
    fun lower hlower => due_moved h hnil (Nat.lt_succ_iff.mp hlower)
  -- the level below the merged one gathers what it would have been brought
  have hnext : gathered due merge (moved merge held source) (source + 1) =
      gathered due merge held (source + 1) := by
    rw [gathered_eq hbefore, moved, if_neg (by omega), if_pos rfl, gathered, carried_succ,
      gathered_eq h.least, if_pos h.isDue]
    rfl
  induction level, hlevel using Nat.le_induction with
  | base => rw [carried_succ, hnext, ← carried_succ]
  | succ level hle ih =>
    have hsame : gathered due merge (moved merge held source) level =
        gathered due merge held level := by
      rw [gathered, ih, moved, if_neg (by omega), if_neg (by omega)]
      rfl
    rw [carried_succ, hsame, ← carried_succ]

/-- Merging the least level that is due leaves the pass one level fewer to empty. -/
theorem encard_emptied (h : LeastDue due held source) (hnil : ∀ l, due l [] = false) :
    (emptied due merge held).encard =
      (emptied due merge (moved merge held source)).encard + 1 := by
  have hgathered : ∀ level ≤ source, gathered due merge (moved merge held source) level =
      moved merge held source level :=
    fun level hle => gathered_eq fun lower hlower => due_moved h hnil (hlower.le.trans hle)
  have hout : source ∉ emptied due merge (moved merge held source) := by
    rw [mem_emptied, hgathered source le_rfl, due_moved h hnil le_rfl]
    exact Bool.false_ne_true
  rw [← Set.encard_insert_of_notMem hout]
  congr 1
  ext level
  rw [Set.mem_insert_iff, mem_emptied, mem_emptied]
  rcases lt_trichotomy level source with hlt | rfl | hgt
  · have hleast : ∀ lower < level, due lower (held lower) = false :=
      fun lower hlower => h.least lower (hlower.trans hlt)
    rw [hgathered level hlt.le, due_moved h hnil hlt.le, gathered_eq hleast, h.least level hlt]
    simp [hlt.ne]
  · rw [gathered_eq h.least]
    exact iff_of_true h.isDue (Or.inl rfl)
  · have hsome : carried due merge (moved merge held source) (level + 1) =
        carried due merge held (level + 1) := carried_moved h hnil (by omega)
    have hisSome := congrArg Option.isSome hsome
    rw [carried_succ, carried_succ] at hisSome
    cases hmoved : due level (gathered due merge (moved merge held source) level) <;>
      cases hheld : due level (gathered due merge held level) <;>
      simp_all [hgt.ne']

end Cascade
