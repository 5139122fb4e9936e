import Mathlib

/-!
The groups of a list by a key in a linear order, as they grow in a sorted map:
each group keeps the element that opened it and the later ones as they come.
-/

/-- The element that opened a group, and those that joined it. -/
structure Gathered (α : Type) where
  first : α
  later : List α
  deriving DecidableEq

namespace Gathered

variable {α κ : Type}

def members (g : Gathered α) : List α := g.first :: g.later

variable [LinearOrder κ] (key : α → κ)

/-- `a` joins the group of its key, or opens one in its place. -/
def enter (a : α) : List (Gathered α) → List (Gathered α)
  | [] => [⟨a, []⟩]
  | g :: rest =>
    if key a < key g.first then ⟨a, []⟩ :: g :: rest
    else if key g.first < key a then g :: enter a rest
    else ⟨g.first, g.later ++ [a]⟩ :: rest

/-- The groups of a list, in ascending order of their keys. -/
def groups (as : List α) : List (Gathered α) := as.foldl (fun gs a => enter key a gs) []

/-- `gs` are the groups of `as`. -/
structure Of (as : List α) (gs : List (Gathered α)) : Prop where
  ascending : gs.Pairwise fun g h => key g.first < key h.first
  members_eq : ∀ g ∈ gs, g.members = as.filter fun a => decide (key a = key g.first)
  covers : ∀ a ∈ as, ∃ g ∈ gs, key g.first = key a

variable {key} {a : α} {as bs : List α} {gs : List (Gathered α)}

/-- After `a` came, its group is new or one longer, and the others are as they were. -/
theorem mem_enter {g' : Gathered α} (hsorted : gs.Pairwise fun g h => key g.first < key h.first)
    (h : g' ∈ enter key a gs) :
    (g' = ⟨a, []⟩ ∧ ∀ g ∈ gs, key g.first ≠ key a) ∨
      (∃ g ∈ gs, key g.first = key a ∧ g' = ⟨g.first, g.later ++ [a]⟩) ∨
      (g' ∈ gs ∧ key g'.first ≠ key a) := by
  induction gs with
  | nil =>
    obtain rfl := List.mem_singleton.mp h
    refine Or.inl ⟨rfl, ?_⟩
    intro g hg
    cases hg
  | cons g rest ih =>
    obtain ⟨hhead, htail⟩ := List.pairwise_cons.mp hsorted
    unfold enter at h
    split at h
    · rename_i hlt
      have hother : ∀ x ∈ g :: rest, key x.first ≠ key a := by
        intro x hx
        rcases List.mem_cons.mp hx with rfl | hx
        · exact hlt.ne'
        · exact (hlt.trans (hhead x hx)).ne'
      rcases List.mem_cons.mp h with rfl | h
      · exact Or.inl ⟨rfl, hother⟩
      · exact Or.inr (Or.inr ⟨h, hother g' h⟩)
    · split at h
      · rename_i hgt
        rcases List.mem_cons.mp h with rfl | h
        · exact Or.inr (Or.inr ⟨List.mem_cons_self, hgt.ne⟩)
        · rcases ih htail h with ⟨rfl, hnew⟩ | ⟨x, hx, hkey, rfl⟩ | ⟨hmem, hkey⟩
          · refine Or.inl ⟨rfl, ?_⟩
            intro x hx
            rcases List.mem_cons.mp hx with rfl | hx
            · exact hgt.ne
            · exact hnew x hx
          · exact Or.inr (Or.inl ⟨x, List.mem_cons_of_mem g hx, hkey, rfl⟩)
          · exact Or.inr (Or.inr ⟨List.mem_cons_of_mem g hmem, hkey⟩)
      · rename_i hnlt hngt
        have hkey : key g.first = key a := le_antisymm (not_lt.mp hnlt) (not_lt.mp hngt)
        rcases List.mem_cons.mp h with rfl | h
        · exact Or.inr (Or.inl ⟨g, List.mem_cons_self, hkey, rfl⟩)
        · refine Or.inr (Or.inr ⟨List.mem_cons_of_mem g h, ?_⟩)
          rw [← hkey]
          exact (hhead g' h).ne'

theorem first_of_mem_enter {g' : Gathered α} (h : g' ∈ enter key a gs) :
    g'.first = a ∨ ∃ g ∈ gs, g'.first = g.first := by
  induction gs with
  | nil =>
    obtain rfl := List.mem_singleton.mp h
    exact Or.inl rfl
  | cons g rest ih =>
    unfold enter at h
    split at h
    · rcases List.mem_cons.mp h with rfl | h
      · exact Or.inl rfl
      · exact Or.inr ⟨g', h, rfl⟩
    · split at h
      · rcases List.mem_cons.mp h with rfl | h
        · exact Or.inr ⟨g', List.mem_cons_self, rfl⟩
        · rcases ih h with hfirst | ⟨x, hx, hfirst⟩
          · exact Or.inl hfirst
          · exact Or.inr ⟨x, List.mem_cons_of_mem g hx, hfirst⟩
      · rcases List.mem_cons.mp h with rfl | h
        · exact Or.inr ⟨g, List.mem_cons_self, rfl⟩
        · exact Or.inr ⟨g', List.mem_cons_of_mem g h, rfl⟩

/-- Every key has its group still, and that of `a` has one. -/
theorem exists_mem_enter (a : α) (gs : List (Gathered α)) (k : κ)
    (h : k = key a ∨ ∃ g ∈ gs, key g.first = k) : ∃ g ∈ enter key a gs, key g.first = k := by
  induction gs with
  | nil =>
    rcases h with rfl | ⟨g, hg, -⟩
    · exact ⟨⟨a, []⟩, List.mem_cons_self, rfl⟩
    · cases hg
  | cons g rest ih =>
    unfold enter
    split
    · rcases h with rfl | ⟨x, hx, hkey⟩
      · exact ⟨⟨a, []⟩, List.mem_cons_self, rfl⟩
      · exact ⟨x, List.mem_cons_of_mem _ hx, hkey⟩
    · split
      · by_cases hg : key g.first = k
        · exact ⟨g, List.mem_cons_self, hg⟩
        · have hrest : k = key a ∨ ∃ x ∈ rest, key x.first = k := by
            rcases h with rfl | ⟨x, hx, hkey⟩
            · exact Or.inl rfl
            · rcases List.mem_cons.mp hx with rfl | hx
              · exact absurd hkey hg
              · exact Or.inr ⟨x, hx, hkey⟩
          obtain ⟨x, hx, hkey⟩ := ih hrest
          exact ⟨x, List.mem_cons_of_mem g hx, hkey⟩
      · rename_i hnlt hngt
        have hsame : key g.first = key a := le_antisymm (not_lt.mp hnlt) (not_lt.mp hngt)
        rcases h with rfl | ⟨x, hx, hkey⟩
        · exact ⟨_, List.mem_cons_self, hsame⟩
        · rcases List.mem_cons.mp hx with rfl | hx
          · exact ⟨_, List.mem_cons_self, hkey⟩
          · exact ⟨x, List.mem_cons_of_mem _ hx, hkey⟩

theorem ascending_enter (h : gs.Pairwise fun g h => key g.first < key h.first) (a : α) :
    (enter key a gs).Pairwise fun g h => key g.first < key h.first := by
  induction gs with
  | nil => exact List.pairwise_singleton _ _
  | cons g rest ih =>
    obtain ⟨hhead, htail⟩ := List.pairwise_cons.mp h
    unfold enter
    split
    · rename_i hlt
      refine List.Pairwise.cons ?_ h
      intro x hx
      rcases List.mem_cons.mp hx with rfl | hx
      · exact hlt
      · exact hlt.trans (hhead x hx)
    · split
      · rename_i hgt
        refine List.Pairwise.cons ?_ (ih htail)
        intro x hx
        rcases mem_enter htail hx with ⟨rfl, -⟩ | ⟨y, hy, -, rfl⟩ | ⟨hx, -⟩
        · exact hgt
        · exact hhead y hy
        · exact hhead x hx
      · exact List.Pairwise.cons hhead htail

/-- One more element. -/
theorem Of.enter (h : Of key as gs) (a : α) : Of key (as ++ [a]) (enter key a gs) where
  ascending := ascending_enter h.ascending a
  members_eq := by
    intro g' hg'
    rcases mem_enter h.ascending hg' with ⟨rfl, hnew⟩ | ⟨g, hg, hkey, rfl⟩ | ⟨hg, hkey⟩
    · have hnone : (as.filter fun b => decide (key b = key a)) = [] := by
        rw [List.filter_eq_nil_iff]
        intro b hb hbk
        obtain ⟨g, hg, hgk⟩ := h.covers b hb
        exact hnew g hg (hgk.trans (of_decide_eq_true hbk))
      simp [members, List.filter_append, hnone]
    · have hmembers := h.members_eq g hg
      unfold members at hmembers ⊢
      rw [List.filter_append, ← hmembers]
      simp [hkey]
    · have hmembers := h.members_eq g' hg
      rw [List.filter_append, ← hmembers]
      simp [hkey.symm]
  covers := by
    intro b hb
    apply exists_mem_enter
    rcases List.mem_append.mp hb with hb | hb
    · exact Or.inr (h.covers b hb)
    · exact Or.inl (congrArg key (List.mem_singleton.mp hb))

private theorem of_foldl (h : Of key as gs) (bs : List α) :
    Of key (as ++ bs) (bs.foldl (fun gs b => Gathered.enter key b gs) gs) := by
  induction bs generalizing as gs with
  | nil => rwa [List.append_nil]
  | cons b bs ih =>
    have hnext := ih (h.enter b)
    rwa [List.append_assoc] at hnext

theorem of_groups (key : α → κ) (as : List α) : Of key as (groups key as) := by
  have hempty : Of key ([] : List α) [] := by
    constructor
    · exact List.Pairwise.nil
    · intro g hg
      cases hg
    · intro a ha
      cases ha
  exact of_foldl hempty as

theorem Of.first_mem (h : Of key as gs) {g : Gathered α} (hg : g ∈ gs) : g.first ∈ as := by
  have hmem : g.first ∈ g.members := List.mem_cons_self
  rw [h.members_eq g hg] at hmem
  exact (List.mem_filter.mp hmem).1

theorem Of.mem_members (h : Of key as gs) {g : Gathered α} (hg : g ∈ gs) {b : α} :
    b ∈ g.members ↔ b ∈ as ∧ key b = key g.first := by
  rw [h.members_eq g hg, List.mem_filter, decide_eq_true_iff]

private theorem keys_eq (h : as.Perm bs) :
    (groups key as).map (fun g => key g.first) = (groups key bs).map fun g => key g.first := by
  have ha := of_groups key as
  have hb := of_groups key bs
  have hsorted : ∀ {cs : List α}, Of key cs (groups key cs) →
      ((groups key cs).map fun g => key g.first).Pairwise (· < ·) :=
    fun hc => List.pairwise_map.mpr hc.ascending
  have hmem : ∀ {cs : List α}, Of key cs (groups key cs) → ∀ k,
      k ∈ (groups key cs).map (fun g => key g.first) ↔ ∃ c ∈ cs, key c = k := by
    intro cs hc k
    rw [List.mem_map]
    constructor
    · rintro ⟨g, hg, rfl⟩
      exact ⟨g.first, hc.first_mem hg, rfl⟩
    · rintro ⟨c, hcmem, rfl⟩
      exact hc.covers c hcmem
  have hperm : ((groups key as).map fun g => key g.first).Perm
      ((groups key bs).map fun g => key g.first) := by
    apply (List.perm_ext_iff_of_nodup (hsorted ha).nodup (hsorted hb).nodup).mpr
    intro k
    rw [hmem ha, hmem hb]
    simp only [h.mem_iff]
  exact hperm.eq_of_pairwise (fun x y _ _ hxy hyx => absurd hxy hyx.asymm) (hsorted ha)
    (hsorted hb)

/-- The order of the elements decides only who comes first in each group. -/
theorem groups_perm (h : as.Perm bs) :
    List.Forall₂ (fun g g' => key g.first = key g'.first ∧ g.members.Perm g'.members)
      (groups key as) (groups key bs) := by
  have ha := of_groups key as
  have hb := of_groups key bs
  have hkeys := @keys_eq _ _ _ key _ _ h
  rw [List.forall₂_iff_get]
  refine ⟨by simpa using congrArg List.length hkeys, ?_⟩
  intro i hi hi'
  have hkey : key ((groups key as).get ⟨i, hi⟩).first =
    key ((groups key bs).get ⟨i, hi'⟩).first := by
    have hget := congrArg (fun ks => ks[i]?) hkeys
    simpa [hi, hi'] using hget
  refine ⟨hkey, ?_⟩
  rw [ha.members_eq _ (List.get_mem _ _), hb.members_eq _ (List.get_mem _ _), hkey]
  exact h.filter _

end Gathered
