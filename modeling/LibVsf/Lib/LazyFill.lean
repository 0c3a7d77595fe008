import LibVsf.Lib.Runs
import Mathlib.Data.Set.Basic
import Mathlib.Logic.Function.Basic

/-!
# Filling on demand

A store is filled by who asks first. A getter looks at a flag, fills the store if it is not set, and
then reads. The three are apart from one another, so others may have found the flag unset as well,
and fill the store after it is full. A filling that fails leaves what it has written.

**Theorem (`known_of_reading`).** Let every filling write a part of one whole, and all of it if it
does not fail. Then what is read is the whole, no matter how often the store is filled.
-/

namespace LazyFill

open Runs

/-- Where a getter is. -/
inductive Phase where
  | idle
  | filling
  | reading
deriving DecidableEq, Repr

inductive Event (ι ε : Type*) where
  | check (i : ι)
  /-- What a filling writes, and if it is all. One that fails ends its getter. -/
  | fill (i : ι) (written : Set ε) (complete : Bool)
  | read (i : ι)

structure State (ι ε : Type*) where
  known : Set ε := ∅
  flag : Bool := false
  phase : ι → Phase := fun _ => .idle

variable {ι ε : Type*} {whole : Set ε} {s : State ι ε}

def State.write (s : State ι ε) (written : Set ε) (complete : Bool) : State ι ε :=
  { s with known := s.known ∪ written, flag := s.flag || complete }

/-- What is there is a part of the whole, and all of it once the flag is set. -/
structure Inv (whole : Set ε) (s : State ι ε) : Prop where
  known : s.known ⊆ whole
  full : s.flag = true → s.known = whole
  reading : ∀ i, s.phase i = .reading → s.flag = true

theorem inv_init (whole : Set ε) : Inv whole ({} : State ι ε) := by
  refine ⟨Set.empty_subset whole, fun hflag => ?_, fun i hi => ?_⟩
  · cases hflag
  · cases hi

theorem Inv.write (h : Inv whole s) {written : Set ε} {complete : Bool} (hpart : written ⊆ whole)
    (hall : complete = true → whole ⊆ written) : Inv whole (s.write written complete) := by
  have hknown : s.known ∪ written ⊆ whole := Set.union_subset h.known hpart
  refine ⟨hknown, fun hflag => hknown.antisymm ?_, fun i hi => ?_⟩
  · rcases Bool.or_eq_true_iff.1 hflag with hflag | hcomplete
    · exact (h.full hflag).superset.trans Set.subset_union_left
    · exact (hall hcomplete).trans Set.subset_union_right
  · exact Bool.or_eq_true_iff.2 (Or.inl (h.reading i hi))

variable [DecidableEq ι]

def State.goTo (s : State ι ε) (i : ι) (phase : Phase) : State ι ε :=
  { s with phase := Function.update s.phase i phase }

def step (s : State ι ε) : Event ι ε → State ι ε
  | .check i =>
    if s.phase i = .idle then s.goTo i (if s.flag then .reading else .filling) else s
  | .fill i written complete =>
    if s.phase i = .filling then
      (s.write written complete).goTo i (if complete then .reading else .idle)
    else s
  | .read i => if s.phase i = .reading then s.goTo i .idle else s

/-- What is written are parts of the whole, and the fillings that do not fail write it all. -/
def Event.Of (whole : Set ε) : Event ι ε → Prop
  | .fill _ written complete => written ⊆ whole ∧ (complete = true → whole ⊆ written)
  | _ => True

theorem Inv.goTo (h : Inv whole s) (i : ι) {phase : Phase}
    (hphase : phase = .reading → s.flag = true) : Inv whole (s.goTo i phase) := by
  refine ⟨h.known, h.full, fun j hj => ?_⟩
  simp only [State.goTo, Function.update_apply] at hj
  split_ifs at hj
  · exact hphase hj
  · exact h.reading j hj

theorem Inv.step (h : Inv whole s) {e : Event ι ε} (he : e.Of whole) :
    Inv whole (step s e) := by
  cases e with
  | check i =>
    rw [LazyFill.step]
    split_ifs with hidle hflag
    · exact h.goTo i fun _ => hflag
    · exact h.goTo i nofun
    · exact h
  | fill i written complete =>
    rw [LazyFill.step]
    split_ifs with hfilling hcomplete
    · refine (h.write he.1 he.2).goTo i fun _ => ?_
      exact Bool.or_eq_true_iff.2 (Or.inr hcomplete)
    · exact (h.write he.1 he.2).goTo i nofun
    · exact h
  | read i =>
    rw [LazyFill.step]
    split_ifs with hreading
    · exact h.goTo i nofun
    · exact h

theorem inv_run {es : List (Event ι ε)} (hes : ∀ e ∈ es, e.Of whole) :
    Inv whole (run step {} es) := by
  have hrun (s : State ι ε) (hs : Inv whole s) : Inv whole (run step s es) := by
    induction es generalizing s with
    | nil => exact hs
    | cons e es ih =>
      rw [List.forall_mem_cons] at hes
      obtain ⟨he, hes⟩ := hes
      exact ih hes _ (hs.step he)
  exact hrun {} (inv_init whole)

/-- **What is read is the whole.** -/
theorem known_of_reading {es : List (Event ι ε)} (hes : ∀ e ∈ es, e.Of whole) {i : ι}
    (h : (run step {} es).phase i = .reading) : (run step {} es).known = whole :=
  (inv_run hes).full ((inv_run hes).reading i h)

end LazyFill
