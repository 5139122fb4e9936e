import Mathlib
import Htap.Basis.Merging

/-!
Lists with entries left out. A list is pruned for a test when no entry that passes the
test is missing, so testing what is left gives what testing everything gives.
-/

namespace Merging

variable {α κ : Type*} [LinearOrder κ] (key : α → κ)

/-- Sorting some of the items gives some of the sorted items. -/
theorem stableSort_sublist {xs ys : List α} (h : xs.Sublist ys) :
    (stableSort key xs).Sublist (stableSort key ys) := by
  have : IsTrans α (fun a b => key a ≤ key b) := ⟨fun _ _ _ => le_trans⟩
  unfold stableSort
  induction h with
  | slnil => exact List.Sublist.refl _
  | @cons xs ys y _ ih =>
    rw [List.insertionSort_cons]
    exact ih.trans (List.sublist_orderedInsert _ _)
  | @cons_cons xs ys y _ ih =>
    rw [List.insertionSort_cons, List.insertionSort_cons]
    exact List.Sublist.orderedInsert_sublist y ih (sortedBy_stableSort key ys)

/-- Items are sorted alike whether others are dropped before or after. -/
theorem stableSort_filter (items : List α) (p : α → Bool) :
    stableSort key (items.filter p) = (stableSort key items).filter p := by
  have hsub := (stableSort_sublist key (List.filter_sublist (p := p) (l := items))).filter p
  have hall : ∀ a ∈ stableSort key (items.filter p), p a = true := by
    intro a ha
    exact (List.mem_filter.mp ((stableSort_perm key _).mem_iff.mp ha)).2
  rw [List.filter_eq_self.mpr hall] at hsub
  apply hsub.eq_of_length
  rw [(stableSort_perm key _).length_eq, ((stableSort_perm key items).filter p).length_eq]

/-- Items of distinct keys are in one order only. -/
theorem SortedBy.eq_of_perm {xs ys : List α} (hxs : SortedBy key xs) (hys : SortedBy key ys)
    (hkeys : (xs.map key).Nodup) (hperm : xs.Perm ys) : xs = ys := by
  have hantisymm : ∀ a b, a ∈ xs → b ∈ ys → key a ≤ key b → key b ≤ key a → a = b := by
    intro a b ha hb hab hba
    exact List.inj_on_of_nodup_map hkeys ha (hperm.mem_iff.mpr hb) (le_antisymm hab hba)
  exact hperm.eq_of_pairwise hantisymm hxs hys

end Merging

variable {α β : Type*}

/-- `found` is `all` without some entries that fail `test`. -/
structure Pruned (test : α → Bool) (all found : List α) : Prop where
  kept : (all.filter test).Sublist found
  sub : found.Sublist all

namespace Pruned

variable {test : α → Bool} {all found : List α}

theorem refl (test : α → Bool) (all : List α) : Pruned test all all :=
  ⟨List.filter_sublist, List.Sublist.refl all⟩

/-- What passes the test is all there. -/
theorem filter_eq (h : Pruned test all found) : found.filter test = all.filter test := by
  have hkept := h.kept.filter test
  rw [List.filter_filter] at hkept
  simp only [Bool.and_self] at hkept
  exact (h.sub.filter test).antisymm hkept

/-- A stronger test asks for less. -/
theorem mono (h : Pruned test all found) {strict : α → Bool}
    (hstrict : ∀ a ∈ all, strict a = true → test a = true) : Pruned strict all found := by
  refine ⟨?_, h.sub⟩
  have hboth : all.filter strict = (all.filter test).filter strict := by
    rw [List.filter_filter]
    apply List.filter_congr
    intro a ha
    cases hs : strict a with
    | false => rfl
    | true => rw [hstrict a ha hs, Bool.and_self]
  rw [hboth]
  exact List.filter_sublist.trans h.kept

theorem filter (h : Pruned test all found) (p : α → Bool) :
    Pruned test (all.filter p) (found.filter p) := by
  constructor
  · rw [List.filter_comm]
    exact h.kept.filter p
  · exact h.sub.filter p

theorem append {all' found' : List α} (h : Pruned test all found)
    (h' : Pruned test all' found') : Pruned test (all ++ all') (found ++ found') := by
  constructor
  · rw [List.filter_append]
    exact h.kept.append h'.kept
  · exact h.sub.append h'.sub

/-- Groups none of whose entries passes may go. -/
theorem groups {entries : List (β × List α)} {keep : β × List α → Bool}
    (hdropped : ∀ entry ∈ entries, keep entry = false → ∀ a ∈ entry.2, test a = false) :
    Pruned test (entries.map Prod.snd).flatten
      ((entries.filter keep).map Prod.snd).flatten := by
  induction entries with
  | nil => exact refl test []
  | cons entry entries ih =>
    have hrest := ih fun e he => hdropped e (List.mem_cons_of_mem entry he)
    rw [List.map_cons, List.flatten_cons, List.filter_cons]
    split
    · exact (refl test entry.2).append hrest
    · rename_i hdrop
      have hnone : Pruned test entry.2 [] := by
        constructor
        · rw [List.filter_eq_nil_iff.mpr]
          intro a ha
          rw [hdropped entry List.mem_cons_self (by simpa using hdrop) a ha]
          exact Bool.false_ne_true
        · exact List.nil_sublist _
      exact hnone.append hrest

/-- A list is pruned entry by entry: the first one is left out, and fails, or stays. -/
theorem cons_cases {a : α} (h : Pruned test (a :: all) found) :
    (test a = false ∧ Pruned test all found) ∨
      ∃ rest, found = a :: rest ∧ Pruned test all rest := by
  obtain ⟨hkept, hsub⟩ := h
  rcases hsub with _ | ⟨_, hsub⟩ | @⟨rest, _, _, hsub⟩
  · left
    have hfail : test a = false := by
      cases htest : test a with
      | false => rfl
      | true =>
        -- Too few entries would pass.
        rw [List.filter_cons_of_pos htest] at hkept
        have hlength : (all.filter test).length + 1 ≤ (found.filter test).length := by
          simpa [List.filter_cons_of_pos htest] using (hkept.filter test).length_le
        have hfew := (hsub.filter test).length_le
        omega
    refine ⟨hfail, ?_, hsub⟩
    rwa [List.filter_cons_of_neg (by simp [hfail])] at hkept
  · right
    refine ⟨rest, rfl, ?_, hsub⟩
    cases htest : test a with
    | false =>
      have hrest := hkept.filter test
      rw [List.filter_cons_of_neg (by simp [htest]), List.filter_cons_of_neg (by simp [htest]),
        List.filter_filter] at hrest
      simp only [Bool.and_self] at hrest
      exact hrest.trans List.filter_sublist
    | true =>
      rw [List.filter_cons_of_pos htest] at hkept
      exact List.cons_sublist_cons.mp hkept

/-- Sorting keeps a list pruned. -/
theorem stableSort {κ : Type*} [LinearOrder κ] (key : α → κ) (h : Pruned test all found) :
    Pruned test (Merging.stableSort key all) (Merging.stableSort key found) := by
  refine ⟨?_, Merging.stableSort_sublist key h.sub⟩
  rw [← Merging.stableSort_filter]
  exact Merging.stableSort_sublist key h.kept

end Pruned
