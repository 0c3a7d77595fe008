import LibVsf.Lib.Runs
import LibVsf.NodeTestDist

/-!
# `NodeTestDist`: which parameters the cached matrix was measured under

The class decides whether its matrix is current by comparing `param_` with `last_param_`, which
is meant to hold the parameters of the last measurement. `set_param` also writes it, with the
parameters it replaces, whether or not they were ever measured.

The run is followed by a ghost, `Tracked.taken`: the parameters and the bench of the last
measurement. `dist_eq_taken` says the stored matrix is the one that measurement gave.

**Theorem (`fresh_iff_keeps`).** A run keeps every cached matrix current exactly when each of its
steps meets `Keeps`: a `set_param` that sends the parameters in force again, or a `clear_param`
while `last_param_` is the default, finds a matrix measured under those parameters.
-/

namespace LibVsf.NodeTestDist

open Runs

/-! ## The last measurement -/

/-- The object, and the parameters and bench of its last measurement. -/
structure Tracked where
  dist : NodeTestDist := {}
  taken : Option (MicroParam × Bench) := none

namespace Tracked

/-- The parameters the stored matrix was measured under. -/
def measuredUnder (t : Tracked) : Option MicroParam := t.taken.map Prod.fst

/-- The measurement after `op`: a new one if `op` has to measure, none if `op` is `clear`. -/
def take (t : Tracked) (op : Op) : Option (MicroParam × Bench) :=
  match op with
  | .clear => none
  | op =>
    match op.bench? with
    | some b => if t.dist.Cached then t.taken else some (t.dist.param, b)
    | none => t.taken

def step (t : Tracked) (op : Op) : Tracked := ⟨t.dist.step op, t.take op⟩

/-- The cached matrix is current: if it would be returned, it was measured under the parameters
in force. -/
def Fresh (t : Tracked) : Prop :=
  t.dist.Cached → t.measuredUnder = some t.dist.param

/-- What the operation needs to keep the cached matrix current. -/
def Keeps (t : Tracked) : Op → Prop
  | .setParam p => t.dist.hasData = true → p = t.dist.param → t.measuredUnder = some p
  | .clearParam =>
    t.dist.hasData = true → t.dist.lastParam = {} → t.measuredUnder = some {}
  | _ => True

/-! ## The ghost is the last measurement -/

/-- The matrix a measurement leaves. -/
def matrixOf : Option (MicroParam × Bench) → Matrix
  | none => []
  | some (p, b) => b.measure p

theorem dist_step_eq_taken {t : Tracked} (h : t.dist.nodeTestDist = matrixOf t.taken) (op : Op) :
    (t.step op).dist.nodeTestDist = matrixOf (t.step op).taken := by
  cases op with
  | setParam p => exact h
  | clearParam => exact h
  | clear => rfl
  | refresh b | getNodeTestDist b =>
    by_cases hc : t.dist.Cached
    · simpa [step, take, Op.bench?, NodeTestDist.step, refresh, getNodeTestDist, hc] using h
    · simp [step, take, Op.bench?, NodeTestDist.step, refresh, getNodeTestDist, hc, remeasure,
        matrixOf]

/-- **The stored matrix is the one the last measurement gave.** -/
theorem dist_eq_taken (ops : List Op) :
    (run step {} ops).dist.nodeTestDist = matrixOf (run step {} ops).taken :=
  run_invariant step (I := fun t => t.dist.nodeTestDist = matrixOf t.taken) rfl
    (fun _ op h => dist_step_eq_taken h op) ops

theorem dist_run (ops : List Op) :
    (run step {} ops).dist = run NodeTestDist.step {} ops := by
  induction ops using List.reverseRecOn with
  | nil => rfl
  | append_singleton ops op ih =>
    rw [run_concat, run_concat, ← ih]
    rfl

/-! ## One step -/

/-- A call that may measure leaves a current matrix. -/
theorem fresh_getNodeTestDist {t : Tracked} (h : t.Fresh) (b : Bench) :
    (t.step (.getNodeTestDist b)).measuredUnder = some t.dist.param ∧
      (t.step (.getNodeTestDist b)).dist.param = t.dist.param := by
  by_cases hc : t.dist.Cached
  · have hm := h hc
    simp only [measuredUnder] at hm
    simp [step, take, Op.bench?, NodeTestDist.step, getNodeTestDist, hc, measuredUnder, hm]
  · simp [step, take, Op.bench?, NodeTestDist.step, getNodeTestDist, hc, measuredUnder,
      remeasure]

/-- **One step keeps the matrix current exactly when it meets `Keeps`.** -/
theorem fresh_step_iff {t : Tracked} (h : t.Fresh) (op : Op) :
    (t.step op).Fresh ↔ t.Keeps op := by
  cases op with
  | setParam p =>
    show (t.dist.hasData = true ∧ t.dist.param = p → t.measuredUnder = some p) ↔
      (t.dist.hasData = true → p = t.dist.param → t.measuredUnder = some p)
    rw [and_imp, eq_comm (a := p)]
  | clearParam =>
    show (t.dist.hasData = true ∧ t.dist.lastParam = {} → t.measuredUnder = some {}) ↔
      (t.dist.hasData = true → t.dist.lastParam = {} → t.measuredUnder = some {})
    rw [and_imp]
  | clear =>
    refine iff_of_true (fun hc => ?_) trivial
    exact absurd hc.1 Bool.false_ne_true
  | refresh b | getNodeTestDist b =>
    refine iff_of_true (fun _ => ?_) trivial
    obtain ⟨hm, hp⟩ := fresh_getNodeTestDist h b
    exact hm.trans (congrArg some hp.symm)

theorem fresh_init : Fresh {} := fun h => absurd h.1 Bool.false_ne_true

/-! ## Runs -/

theorem fresh_iff_along (ops : List Op) : Holds step Fresh {} ops ↔ Along step Keeps {} ops :=
  holds_iff_along step (P := Fresh) (I := fun _ => True) (fun _ _ _ => trivial)
    (fun _ op _ h => fresh_step_iff h op) trivial fresh_init ops

/-- The matrix a call returned is the one of a measurement under the parameters in force at the
call. -/
def ReturnedCurrent (t : Tracked) (b : Bench) : Prop :=
  ∀ dist, (t.dist.getNodeTestDist b).2 = some dist →
    ∃ b', (t.step (.getNodeTestDist b)).taken = some (t.dist.param, b') ∧
      dist = b'.measure t.dist.param

theorem returned_current {t : Tracked} (h : t.Fresh)
    (hm : t.dist.nodeTestDist = matrixOf t.taken) (b : Bench) : t.ReturnedCurrent b := by
  intro dist hdist
  by_cases hc : t.dist.Cached
  · have htaken := h hc
    simp only [measuredUnder, Option.map_eq_some_iff] at htaken
    obtain ⟨⟨p, b'⟩, htaken, hp⟩ := htaken
    simp only [getNodeTestDist, hc, if_true, Option.some.injEq] at hdist
    refine ⟨b', ?_, ?_⟩
    · simp [step, take, Op.bench?, hc, htaken, ← hp]
    · rw [← hdist, hm, htaken, ← hp]
      rfl
  · simp only [getNodeTestDist, hc, if_false, Option.map_eq_some_iff] at hdist
    obtain ⟨n, -, rfl⟩ := hdist
    exact ⟨b, by simp [step, take, Op.bench?, hc], rfl⟩

/-- **Cached matrices are current exactly in the runs that meet `Keeps`**, and in those every
matrix returned is one measured under the parameters in force at the call. -/
theorem fresh_iff_keeps (ops : List Op) :
    ((∀ pre, pre <+: ops → (run step {} pre).Fresh) ↔ Along step Keeps {} ops) ∧
      (Along step Keeps {} ops → ∀ pre b, pre ++ [.getNodeTestDist b] <+: ops →
        (run step {} pre).ReturnedCurrent b) := by
  refine ⟨fresh_iff_along ops, fun h pre b hpre => ?_⟩
  have hfresh := (fresh_iff_along ops).2 h
  exact returned_current (hfresh pre ((List.prefix_append pre _).trans hpre)) (dist_eq_taken pre) b

/-- A node on which every measurement takes one second. -/
def bench₁ : Bench := ⟨some 1, fun _ => some 1, fun _ => 1⟩

/-- The default parameters are measured and other ones are then set twice: the second call makes
the matrix of the default parameters pass for current, and the next call returns it. -/
theorem not_fresh_set_twice :
    ¬ (run step {} [.getNodeTestDist bench₁, .setParam { path := "/opt" },
      .setParam { path := "/opt" }]).Fresh ∧
    ¬ (run step {} [.getNodeTestDist bench₁, .setParam { path := "/opt" },
      .setParam { path := "/opt" }]).ReturnedCurrent bench₁ := by
  refine ⟨?_, ?_⟩
  · intro h
    have hm := h (by decide)
    exact absurd hm (by decide)
  · intro h
    obtain ⟨b', htaken, -⟩ := h [[10]] (by decide +kernel)
    have hp : some ({} : MicroParam) = some { path := "/opt" } :=
      congrArg (Option.map Prod.fst) htaken
    exact absurd hp (by decide)

end Tracked

end LibVsf.NodeTestDist
