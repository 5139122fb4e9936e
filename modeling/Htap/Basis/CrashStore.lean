import Mathlib

/-!
A store that can crash. What is added is volatile until it is saved, and a crash takes the
volatile part away.
-/

variable {α : Type*}

structure CrashStore (α : Type*) where
  durable : Multiset α
  volatile : Multiset α

namespace CrashStore

def empty : CrashStore α := ⟨0, 0⟩

/-- All that the store holds. -/
def all (t : CrashStore α) : Multiset α := t.durable + t.volatile

inductive Event (α : Type*) where
  | add (a : α)
  | save (saved : Multiset α)
  | crash

inductive Step : CrashStore α → Event α → CrashStore α → Prop
  | add (durable volatile : Multiset α) (a : α) :
    Step ⟨durable, volatile⟩ (.add a) ⟨durable, a ::ₘ volatile⟩
  | save (durable volatile saved : Multiset α) :
    Step ⟨durable, saved + volatile⟩ (.save saved) ⟨durable + saved, volatile⟩
  | crash (durable volatile : Multiset α) : Step ⟨durable, volatile⟩ .crash ⟨durable, 0⟩

/-- What happens to a store, the latest event last. -/
inductive Run (t : CrashStore α) : List (Event α) → CrashStore α → Prop
  | nil : Run t [] t
  | concat {events : List (Event α)} {event : Event α} {t' t'' : CrashStore α}
    (hrun : Run t events t') (hstep : Step t' event t'') : Run t (events ++ [event]) t''

def Event.added : Event α → Option α
  | .add a => some a
  | .save _ | .crash => none

/-- What was added, in order. -/
def added (events : List (Event α)) : List α := events.filterMap Event.added

@[simp] theorem added_nil : added ([] : List (Event α)) = [] := rfl

@[simp] theorem added_append (events events' : List (Event α)) :
    added (events ++ events') = added events ++ added events' := List.filterMap_append

variable {t t' t'' : CrashStore α} {event : Event α} {events events' : List (Event α)}

theorem Run.trans (h : Run t events t') (h' : Run t' events' t'') :
    Run t (events ++ events') t'' := by
  induction h' with
  | nil =>
    rw [List.append_nil]
    exact h
  | concat _ hstep ih =>
    rw [← List.append_assoc]
    exact ih.concat hstep

theorem Step.durable_le (h : Step t event t') : t.durable ≤ t'.durable := by
  cases h with
  | add durable volatile a => exact le_rfl
  | save durable volatile saved => exact Multiset.le_add_right durable saved
  | crash durable volatile => exact le_rfl

/-- What is durable stays durable, crashes or not. -/
theorem Run.durable_le (h : Run t events t') : t.durable ≤ t'.durable := by
  induction h with
  | nil => exact le_rfl
  | concat _ hstep ih => exact ih.trans hstep.durable_le

/-- Without a crash nothing is lost. -/
theorem Step.all_eq (h : Step t event t') (hevent : event ≠ .crash) :
    t'.all = t.all + event.added.toList := by
  cases h with
  | add durable volatile a =>
    simp only [all, Event.added, Option.toList_some, Multiset.coe_singleton]
    rw [← Multiset.singleton_add, add_comm ({a} : Multiset α), add_assoc]
  | save durable volatile saved =>
    simp [all, Event.added, add_assoc]
  | crash durable volatile => exact absurd rfl hevent

theorem Step.all_le (h : Step t event t') : t'.all ≤ t.all + event.added.toList := by
  by_cases hevent : event = .crash
  · subst hevent
    cases h with
    | crash durable volatile => simp [all, Event.added]
  · exact (h.all_eq hevent).le

theorem added_concat (events : List (Event α)) (event : Event α) :
    (added (events ++ [event]) : Multiset α) = added events + event.added.toList := by
  rw [added_append, ← Multiset.coe_add]
  congr 1

/-- What left the volatile part while nothing was lost has been saved. -/
theorem step_save {saved : Multiset α} (hvolatile : t.volatile = saved + t'.volatile)
    (hall : t'.all = t.all) : Step t (.save saved) t' := by
  obtain ⟨durable, volatile⟩ := t
  obtain ⟨durable', volatile'⟩ := t'
  obtain rfl : volatile = saved + volatile' := hvolatile
  have hdurable : durable' + volatile' = durable + saved + volatile' := by
    rw [add_assoc]
    exact hall
  rw [add_right_cancel hdurable]
  exact .save durable volatile' saved

/-- Nothing appears that was not added. -/
theorem Run.all_le (h : Run t events t') : t'.all ≤ t.all + added events := by
  induction h with
  | nil => simp
  | concat _ hstep ih =>
    rw [added_concat, ← add_assoc]
    exact hstep.all_le.trans (add_le_add_left ih _)

theorem Run.all_eq (h : Run t events t') (hevents : .crash ∉ events) :
    t'.all = t.all + added events := by
  induction h with
  | nil => simp
  | concat _ hstep ih =>
    rw [List.mem_append, not_or, List.mem_singleton] at hevents
    rw [added_concat, ← add_assoc, ← ih hevents.1]
    exact hstep.all_eq (Ne.symm hevents.2)

/-- What a store holds later is what it held, less some that was volatile, and some that was
added since. -/
theorem Run.exists_parts (h : Run t events t') :
    ∃ kept lost gained : Multiset α, t.all = kept + lost ∧ t'.all = kept + gained ∧
      lost ≤ t.volatile ∧ gained ≤ added events := by
  classical
  refine ⟨t.all ∩ t'.all, t.all - t'.all, t'.all - t.all, ?_, ?_, ?_, ?_⟩
  · rw [add_comm, Multiset.sub_add_inter]
  · rw [Multiset.inter_comm, add_comm, Multiset.sub_add_inter]
  · have hdurable : t.durable ≤ t'.all := h.durable_le.trans (Multiset.le_add_right _ _)
    calc t.all - t'.all ≤ t.all - t.durable := tsub_le_tsub_left hdurable t.all
      _ = t.volatile := add_tsub_cancel_left t.durable t.volatile
  · exact tsub_le_iff_left.mpr h.all_le

end CrashStore
