import Mathlib.Data.List.Nodup
import Mathlib.Tactic.Common

/-!
# Interleavings

Several parties each perform the steps of a program of their own, one after the other. An
interleaving is an order of the steps of all of them that keeps the order of each.

* `mem_steps`: every party performs every step of its program.
* `nodup_performers`: if a step is at most once in every program, no party performs it twice.
-/

/-- An order of the steps of all parties in which those of each are its program. -/
structure Interleaving {ι α : Type*} [DecidableEq ι] (program : ι → List α) where
  steps : List (ι × α)
  order : ∀ i, (steps.filter fun x => x.1 = i).map Prod.snd = program i

namespace Interleaving

section Performers

variable {ι α : Type*} [DecidableEq α]

/-- The parties that perform a step, in the order in which they do. -/
def performers (a : α) (steps : List (ι × α)) : List ι :=
  (steps.filter fun x => x.2 = a).map Prod.fst

theorem performers_concat (a : α) (steps : List (ι × α)) (x : ι × α) :
    performers a (steps ++ [x]) = performers a steps ++ if x.2 = a then [x.1] else [] := by
  simp only [performers, List.filter_append, List.map_append]
  by_cases h : x.2 = a
  · simp [h]
  · simp [h]

theorem performers_sublist (a : α) {steps steps' : List (ι × α)} (h : steps.Sublist steps') :
    (performers a steps).Sublist (performers a steps') :=
  (h.filter _).map _

end Performers

variable {ι α : Type*} [DecidableEq ι] {program : ι → List α}

theorem mem_steps (x : Interleaving program) (i : ι) (a : α) :
    (i, a) ∈ x.steps ↔ a ∈ program i := by
  rw [← x.order i, List.mem_map]
  simp

theorem count_performers [DecidableEq α] (x : Interleaving program) (i : ι) (a : α) :
    (performers a x.steps).count i = (program i).count a := by
  rw [← x.order i]
  simp only [performers]
  induction x.steps with
  | nil => rfl
  | cons y steps ih =>
    obtain ⟨j, b⟩ := y
    by_cases hj : j = i <;> by_cases hb : b = a <;> simp [hj, hb, ih]

theorem nodup_performers [DecidableEq α] (x : Interleaving program) {a : α}
    (h : ∀ i, (program i).count a ≤ 1) : (performers a x.steps).Nodup := by
  rw [List.nodup_iff_count_le_one]
  intro i
  rw [count_performers]
  exact h i

end Interleaving
