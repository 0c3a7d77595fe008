import LibVsf.Lib.Runs
import LibVsf.NodeTestDist
import Mathlib.Data.List.Perm.Subperm
import Mathlib.Data.List.TakeWhile
import Mathlib.Logic.Function.Basic

/-!
# `NodeTestDist` with concurrent callers

`get_node_test_dist` looks at the cache under the shared lock. If nothing is cached it gives the
lock up, waits for the exclusive one and measures, without looking again. Callers that looked
before the first of them had measured measure one after the other.

`cached_run` is what callers do once there is a matrix, `checks_run` what they do before.

**Theorem (`measured_once_iff`).** With the parameters left alone, the calls of an interleaving
make one measurement at most and return one matrix, if and only if a matrix was cached or no more
than one caller looks at the cache before the first measurement is made.
-/

namespace LibVsf

namespace NodeTestDist

open Runs

/-! ## The critical sections -/

/-- The critical sections of a call. -/
inductive Turn where
  | check
  | measure (b : Bench)

def Turn.isCheck : Turn → Bool
  | .check => true
  | .measure _ => false

/-- The object and the calls of `get_node_test_dist` on it. -/
structure Shared (ι : Type*) where
  dist : NodeTestDist
  /-- The caller has found nothing cached and waits for the exclusive lock. -/
  waiting : ι → Bool := fun _ => false
  /-- What the calls have returned, in order; `none` for one that throws. -/
  returned : List (Option Matrix) := []
  measured : Nat := 0

namespace Shared

variable {ι : Type*} [DecidableEq ι]

def checkCache (s : Shared ι) (i : ι) : Shared ι :=
  if s.dist.Cached then { s with returned := s.returned ++ [some s.dist.nodeTestDist] }
  else { s with waiting := Function.update s.waiting i true }

def fillCache (s : Shared ι) (i : ι) (b : Bench) : Shared ι where
  dist := s.dist.remeasure b
  waiting := Function.update s.waiting i false
  returned := s.returned ++ [b.nodeNum.map fun _ => b.measure s.dist.param]
  measured := s.measured + 1

def step (s : Shared ι) : ι × Turn → Shared ι
  | (i, .check) => s.checkCache i
  | (i, .measure b) => s.fillCache i b

/-- One measurement at most has been made, and one matrix returned. -/
structure MeasuredOnce (s : Shared ι) : Prop where
  once : s.measured ≤ 1
  same : ∀ m m', some m ∈ s.returned → some m' ∈ s.returned → m = m'

/-- It is the caller's turn to enter the section. -/
def Enters (s : Shared ι) : ι × Turn → Prop
  | (i, .check) => s.waiting i = false
  | (i, .measure _) => s.waiting i = true

/-- A call without others is one of `get_node_test_dist`. -/
theorem run_alone (dist : NodeTestDist) (i : ι) (b : Bench) :
    ∃ turns : List Turn, Along step Enters { dist := dist } (turns.map fun turn => (i, turn)) ∧
      run step { dist := dist } (turns.map fun turn => (i, turn)) =
        ⟨(dist.getNodeTestDist b).1, fun _ => false, [(dist.getNodeTestDist b).2],
          if dist.Cached then 0 else 1⟩ := by
  by_cases h : dist.Cached
  · refine ⟨[.check], ⟨rfl, trivial⟩, ?_⟩
    simp [step, checkCache, getNodeTestDist, h]
  · refine ⟨[.check, .measure b], ⟨rfl, ?_, trivial⟩, ?_⟩
    · simp [Enters, step, checkCache, h]
    · simp [step, checkCache, fillCache, getNodeTestDist, h]

end Shared

/-- Distinct members that are one are at most one. -/
theorem length_le_one_iff {ι : Type*} {l : List ι} (hnodup : l.Nodup) {i : ι} (hi : i ∈ l) :
    l.length ≤ 1 ↔ ∀ j ∈ l, j = i := by
  refine ⟨?_, ?_⟩
  · intro hle j hj
    obtain ⟨k, rfl⟩ := List.length_eq_one_iff.1 (le_antisymm hle (List.length_pos_of_mem hi))
    rw [List.mem_singleton.1 hi, List.mem_singleton.1 hj]
  · intro hall
    have hsub : l ⊆ [i] := fun j hj => List.mem_singleton.2 (hall j hj)
    exact (List.subperm_of_subset hnodup hsub).length_le

/-- An order of the critical sections of calls on an object, which all return or throw. -/
structure Calls (ι : Type*) [DecidableEq ι] (dist : NodeTestDist) where
  steps : List (ι × Turn)
  order : Along Shared.step Shared.Enters { dist := dist } steps
  complete : ∀ i, (run Shared.step { dist := dist } steps).waiting i = false

namespace Calls

variable {ι : Type*} [DecidableEq ι] {dist : NodeTestDist}

def final (x : Calls ι dist) : Shared ι := run Shared.step { dist := dist } x.steps

/-- The looks at the cache before the first measurement. -/
def checks (x : Calls ι dist) : List (ι × Turn) := x.steps.takeWhile fun e => e.2.isCheck

end Calls

namespace Shared

variable {ι : Type*} [DecidableEq ι]

/-! ## With a matrix -/

/-- **Once there is a matrix**, and nobody waits, every call returns it. -/
theorem cached_run {s : Shared ι} (hcached : s.dist.Cached) (hwaiting : ∀ i, s.waiting i = false)
    {es : List (ι × Turn)} (h : Along step Enters s es) :
    (run step s es).measured = s.measured ∧
      ∀ r ∈ (run step s es).returned, r ∈ s.returned ∨ r = some s.dist.nodeTestDist := by
  induction es generalizing s with
  | nil => exact ⟨rfl, fun r hr => Or.inl hr⟩
  | cons e es ih =>
    obtain ⟨hturn, hrest⟩ := h
    obtain ⟨i, turn⟩ := e
    cases turn with
    | check =>
      have hstep : s.step (i, .check) =
          { s with returned := s.returned ++ [some s.dist.nodeTestDist] } := by
        simp only [step, checkCache, hcached, if_true]
      rw [run_cons, hstep]
      rw [hstep] at hrest
      obtain ⟨hmeasured, hreturned⟩ :=
        ih (s := { s with returned := s.returned ++ [some s.dist.nodeTestDist] }) hcached hwaiting
          hrest
      refine ⟨hmeasured, fun r hr => ?_⟩
      simpa [or_assoc] using hreturned r hr
    | measure b =>
      -- Nobody waits.
      have hi : s.waiting i = true := hturn
      rw [hwaiting i] at hi
      cases hi

/-! ## Before the first measurement -/

/-- **Callers that look while nothing is cached** wait, each one once. -/
theorem checks_run {s : Shared ι} (hcached : ¬ s.dist.Cached) {es : List (ι × Turn)}
    (hchecks : ∀ e ∈ es, e.2.isCheck = true) (h : Along step Enters s es) :
    (∃ waiting, run step s es = { s with waiting := waiting } ∧
      ∀ i, waiting i = true ↔ s.waiting i = true ∨ i ∈ es.map Prod.fst) ∧
    (es.map Prod.fst).Nodup ∧ ∀ e ∈ es, s.waiting e.1 = false := by
  induction es generalizing s with
  | nil => exact ⟨⟨s.waiting, rfl, by simp⟩, List.nodup_nil, by simp⟩
  | cons e es ih =>
    obtain ⟨hturn, hrest⟩ := h
    obtain ⟨i, turn⟩ := e
    cases turn with
    | measure b => cases hchecks (i, .measure b) List.mem_cons_self
    | check =>
      have hstep : s.step (i, .check) = { s with waiting := Function.update s.waiting i true } := by
        simp only [step, checkCache, hcached, if_false]
      rw [hstep] at hrest
      rw [run_cons, hstep]
      obtain ⟨⟨waiting, hrun, hwaiting⟩, hnodup, hidle⟩ :=
        ih (s := { s with waiting := Function.update s.waiting i true }) hcached
          (fun e he => hchecks e (List.mem_cons_of_mem _ he)) hrest
      refine ⟨⟨waiting, hrun, fun j => ?_⟩, ?_, fun e he => ?_⟩
      · rw [hwaiting j, List.map_cons, List.mem_cons]
        by_cases hj : j = i
        · simp [hj]
        · simp [hj]
      · refine List.nodup_cons.2 ⟨fun hi => ?_, hnodup⟩
        obtain ⟨e, he, rfl⟩ := List.mem_map.1 hi
        have hself := hidle e he
        simp at hself
      · rcases List.mem_cons.1 he with rfl | he
        · exact hturn
        · have hne : e.1 ≠ i := by
            intro heq
            have hself := hidle e he
            simp [heq] at hself
          simpa [Function.update_apply, hne] using hidle e he

/-- A caller that waits will measure. -/
theorem measured_of_waiting {s : Shared ι} {i : ι} (hi : s.waiting i = true)
    {es : List (ι × Turn)} (hdone : (run step s es).waiting i = false) :
    s.measured < (run step s es).measured := by
  have hmono (s : Shared ι) (es : List (ι × Turn)) : s.measured ≤ (run step s es).measured := by
    refine run_invariant step (I := fun t => s.measured ≤ t.measured) le_rfl
      (fun t e ht => ?_) es
    obtain ⟨j, turn⟩ := e
    cases turn with
    | check =>
      simp only [step, checkCache]
      split_ifs <;> exact ht
    | measure b => exact Nat.le_succ_of_le ht
  induction es generalizing s with
  | nil =>
    rw [run_nil, hi] at hdone
    cases hdone
  | cons e es ih =>
    obtain ⟨j, turn⟩ := e
    cases turn with
    | measure b => exact hmono (s.fillCache j b) es
    | check =>
      have hsame : (s.step (j, .check)).waiting i = true ∧
          (s.step (j, .check)).measured = s.measured := by
        simp only [step, checkCache]
        split_ifs
        · exact ⟨hi, rfl⟩
        · refine ⟨?_, rfl⟩
          show Function.update s.waiting j true i = true
          rw [Function.update_apply, hi]
          exact ite_self true
      rw [← hsame.2]
      exact ih hsame.1 hdone

/-! ## From the first measurement on -/

/-- **After the first measurement** no other is made exactly if nobody else has looked before. -/
theorem measuredOnce_fillCache_iff {dist : NodeTestDist} {waiting : ι → Bool} {i : ι} {b : Bench}
    {es : List (ι × Turn)}
    (h : Along step Enters (fillCache { dist := dist, waiting := waiting } i b) es)
    (hdone : ∀ j, (run step (fillCache { dist := dist, waiting := waiting } i b) es).waiting j =
      false) :
    MeasuredOnce (run step (fillCache { dist := dist, waiting := waiting } i b) es) ↔
      ∀ j, waiting j = true → j = i := by
  refine ⟨?_, ?_⟩
  · intro honce j hj
    by_contra hne
    have hwait : (fillCache { dist := dist, waiting := waiting } i b).waiting j = true := by
      simpa [fillCache, Function.update_apply, hne] using hj
    have hless := measured_of_waiting hwait (hdone j)
    have hle := honce.once
    simp only [fillCache] at hless hle
    omega
  · intro honly
    have hidle (j : ι) :
        (fillCache { dist := dist, waiting := waiting } i b).waiting j = false := by
      by_cases hj : j = i
      · simp [fillCache, hj]
      · have hnot : ¬ waiting j = true := fun hwait => hj (honly j hwait)
        simpa [fillCache, Function.update_apply, hj] using hnot
    obtain ⟨hmeasured, hreturned⟩ := cached_run ⟨rfl, rfl⟩ hidle h
    have hall (m : Matrix) (hm : some m ∈ (run step
        (fillCache { dist := dist, waiting := waiting } i b) es).returned) :
        m = b.measure dist.param := by
      rcases hreturned (some m) hm with hfirst | hcached
      · have heq : some m = b.nodeNum.map fun _ => b.measure dist.param := by
          simpa [fillCache] using hfirst
        obtain ⟨n, -, rfl⟩ := Option.map_eq_some_iff.1 heq.symm
        rfl
      · exact Option.some.inj hcached
    refine ⟨?_, fun m m' hm hm' => ?_⟩
    · rw [hmeasured]
      exact le_rfl
    · rw [hall m hm, hall m' hm']

end Shared

/-! ## All calls -/

namespace Calls

open Shared

variable {ι : Type*} [DecidableEq ι] {dist : NodeTestDist}

/-- With a matrix in the cache, nothing is measured. -/
theorem measuredOnce_of_cached (hcached : dist.Cached) (x : Calls ι dist) :
    x.final.MeasuredOnce := by
  obtain ⟨hmeasured, hreturned⟩ := cached_run hcached (fun _ => rfl) x.order
  have hall (m : Matrix) (hm : some m ∈ x.final.returned) : m = dist.nodeTestDist := by
    rcases hreturned (some m) hm with hnone | hsome
    · cases hnone
    · exact Option.some.inj hsome
  refine ⟨hmeasured.trans_le (Nat.zero_le 1), fun m m' hm hm' => ?_⟩
  rw [hall m hm, hall m' hm']

/-- What is left after the looks at the cache before the first measurement. -/
def later (x : Calls ι dist) : List (ι × Turn) := x.steps.dropWhile fun e => e.2.isCheck

/-- **The looks before the first measurement**: those who have looked wait. -/
theorem exists_waiting (hcached : ¬ dist.Cached) (x : Calls ι dist) :
    ∃ waiting : ι → Bool, (∀ i, waiting i = true ↔ i ∈ x.checks.map Prod.fst) ∧
      (x.checks.map Prod.fst).Nodup ∧
      x.final = run Shared.step { dist := dist, waiting := waiting } x.later ∧
      Along Shared.step Enters { dist := dist, waiting := waiting } x.later := by
  have hsplit : x.checks ++ x.later = x.steps := List.takeWhile_append_dropWhile
  obtain ⟨hbefore, hafter⟩ := (along_append Shared.step).1 (hsplit ▸ x.order)
  obtain ⟨⟨waiting, hrun, hwaiting⟩, hnodup, -⟩ :=
    checks_run hcached (fun e he => by simpa using List.mem_takeWhile_imp he) hbefore
  simp only [Bool.false_eq_true, false_or] at hwaiting
  refine ⟨waiting, hwaiting, hnodup, ?_, ?_⟩
  · rw [← hrun, ← run_append, hsplit]
    rfl
  · rwa [hrun] at hafter

/-- What is left starts with a measurement. -/
theorem isCheck_of_later {x : Calls ι dist} {e : ι × Turn} {rest : List (ι × Turn)}
    (h : x.later = e :: rest) : e.2.isCheck = false := by
  have hhead := List.head?_dropWhile_not (fun e : ι × Turn => e.2.isCheck) x.steps
  rw [later] at h
  rw [h] at hhead
  simpa using hhead

/-- **One measurement is made and one matrix returned**, exactly if one was cached or no more than
one caller looks at the cache before the first measurement. -/
theorem measured_once_iff (x : Calls ι dist) :
    x.final.MeasuredOnce ↔ (dist.Cached ∨ x.checks.length ≤ 1) := by
  by_cases hcached : dist.Cached
  · exact iff_of_true (measuredOnce_of_cached hcached x) (Or.inl hcached)
  · rw [or_iff_right hcached]
    obtain ⟨waiting, hwaiting, hnodup, hfinal, hafter⟩ := exists_waiting hcached x
    have hdone (i : ι) : x.final.waiting i = false := x.complete i
    rw [hfinal] at hdone ⊢
    cases hlater : x.later with
    | nil =>
      -- Nobody has measured, so nobody has looked.
      rw [hlater] at hdone
      have hnone : x.checks = [] := by
        refine List.eq_nil_iff_forall_not_mem.2 fun e he => ?_
        have hwait := (hwaiting e.1).2 (List.mem_map_of_mem he)
        rw [show waiting e.1 = false from hdone e.1] at hwait
        cases hwait
      refine iff_of_true ⟨Nat.zero_le 1, fun m m' hm => ?_⟩ (by simp [hnone])
      exact absurd hm List.not_mem_nil
    | cons e rest =>
      have hmeasure := isCheck_of_later hlater
      obtain ⟨i, turn⟩ := e
      cases turn with
      | check => cases hmeasure
      | measure b =>
        rw [hlater] at hdone hafter
        obtain ⟨hturn, hrest⟩ := hafter
        have hi : i ∈ x.checks.map Prod.fst := (hwaiting i).1 hturn
        show MeasuredOnce (run Shared.step (fillCache { dist := dist, waiting := waiting } i b)
          rest) ↔ _
        have hlength : (x.checks.map Prod.fst).length = x.checks.length := List.length_map _
        rw [measuredOnce_fillCache_iff hrest hdone, ← hlength, length_le_one_iff hnodup hi]
        simp only [hwaiting]

/-- Two nodes: what is bound to one takes a second, what is bound to two the given time. -/
def benchOf (time : ℚ) : Bench where
  nodeNum := some 2
  popen := fun command =>
    if command = ({} : MicroParam).command 0 1 ∨ command = ({} : MicroParam).command 1 0 then
      some time
    else some 1
  baseTime := fun _ => 1

/-- Two callers look before either has measured. -/
def overlapping : Calls Bool {} where
  steps := [(false, .check), (true, .check), (false, .measure (benchOf 2)),
    (true, .measure (benchOf 3))]
  order := ⟨rfl, rfl, rfl, rfl, trivial⟩
  complete := fun i => by cases i <;> rfl

/-- Both measure, and the second returns another matrix than the first. -/
theorem not_measured_once_overlapping : ¬ overlapping.final.MeasuredOnce ∧
    overlapping.final.returned = [some [[10, 20], [20, 10]], some [[10, 30], [30, 10]]] := by
  refine ⟨fun h => ?_, by decide +kernel⟩
  have htwo : overlapping.final.measured = 2 := rfl
  have hle := h.once
  rw [htwo] at hle
  exact absurd hle (by decide)

end Calls

end NodeTestDist

end LibVsf
