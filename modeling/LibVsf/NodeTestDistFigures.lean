import LibVsf.NodeTestDistNodes
import Mathlib.Algebra.Order.Field.Rat
import Mathlib.Tactic.FieldSimp
import Mathlib.Tactic.Positivity

/-!
# `NodeTestDist`: the figures of a table of times

A row relates the time of each cell to `base_time` as soon as it is measured, and `base_time` is
assigned at the diagonal: the cells before it are related to what the variable holds until then.

* `entry_eq`: the entries that a measurement leaves.
* `normalised_iff`: for every table of positive times, the matrix is that of the table whatever the
  variable holds exactly when there is at most one node.
-/

namespace LibVsf

/-- The bench prints the times of a table for the `n` nodes. -/
structure Bench.Prints (b : Bench) (p : MicroParam) (n : Nat) (t : Nat → Nat → ℚ) : Prop where
  nodeNum : b.nodeNum = some n
  popen : ∀ cpu < n, ∀ mem < n, b.popen (p.command cpu mem) = some (t cpu mem)
  pos : ∀ cpu < n, ∀ mem < n, 0 < t cpu mem

/-- The matrix of a table: each row is scaled by its local access time. -/
def Normalised (n : Nat) (t : Nat → Nat → ℚ) (dist : Matrix) : Prop :=
  ∀ cpu < n, ∀ mem < n, dist.entry cpu mem = some (truncate (10 * t cpu mem / t cpu cpu))

namespace Bench

/-- The time that a command prints. -/
def timeOf (b : Bench) (command : String) : ℚ := (b.popen command).getD 0

/-- A row depends on the times of its commands only. -/
theorem row_eq_timed {b : Bench} {p : MicroParam} {cpu : Nat} {mems : List Nat}
    (h : ∀ mem ∈ mems, (b.popen (p.command cpu mem)).isSome) (n : Nat) (base : ℚ) (row : List Int) :
    b.row p cpu mems base row = (timed n b.timeOf b.baseTime).row p cpu mems base row := by
  induction mems generalizing base row with
  | nil => rfl
  | cons mem mems ih =>
    obtain ⟨hmem, hmems⟩ := List.forall_mem_cons.1 h
    obtain ⟨time, htime⟩ := Option.isSome_iff_exists.1 hmem
    have htimed : (timed n b.timeOf b.baseTime).popen (p.command cpu mem) = some time := by
      show some (b.timeOf (p.command cpu mem)) = some time
      rw [timeOf, htime]
      rfl
    rw [Bench.row, Bench.row, htime, htimed]
    exact ih hmems _ _

theorem rows_eq_timed {b : Bench} {p : MicroParam} {n : Nat} {cpus : List Nat}
    (h : ∀ cpu ∈ cpus, ∀ mem < n, (b.popen (p.command cpu mem)).isSome) (dist : Matrix) :
    b.rows p n cpus dist = (timed n b.timeOf b.baseTime).rows p n cpus dist := by
  induction cpus generalizing dist with
  | nil => rfl
  | cons cpu cpus ih =>
    obtain ⟨hcpu, hcpus⟩ := List.forall_mem_cons.1 h
    have hrow := row_eq_timed (fun mem hmem => hcpu mem (List.mem_range.1 hmem)) n
      (b.baseTime cpu) []
    rw [Bench.rows, Bench.rows, hrow]
    simp only [ih hcpus]
    rfl

theorem measure_eq_timed {b : Bench} {p : MicroParam} {n : Nat} {t : Nat → Nat → ℚ}
    (h : b.Prints p n t) : b.measure p = (timed n b.timeOf b.baseTime).measure p := by
  simp only [measure, h.nodeNum]
  refine rows_eq_timed (fun cpu hcpu mem hmem => ?_) []
  rw [h.popen cpu (List.mem_range.1 hcpu) mem hmem]
  rfl

/-- The entry is that of the table, but before the diagonal related to what `base_time` holds. -/
theorem entry_eq {b : Bench} {p : MicroParam} {n : Nat} {t : Nat → Nat → ℚ} (h : b.Prints p n t)
    {cpu mem : Nat} (hcpu : cpu < n) (hmem : mem < n) : (b.measure p).entry cpu mem =
      some (truncate (10 * t cpu mem / if mem < cpu then b.baseTime cpu else t cpu cpu)) := by
  have htime (mem : Nat) (hmem : mem < n) : b.timeOf (p.command cpu mem) = t cpu mem := by
    rw [timeOf, h.popen cpu hcpu mem hmem]
    rfl
  rw [measure_eq_timed h, NumaHost.entry_measure p b.timeOf b.baseTime hcpu hmem, figure, baseOf,
    htime mem hmem, htime cpu hcpu, mul_comm 10, mul_div_right_comm]

end Bench

theorem truncate_natCast (m : Nat) : truncate m = m := by
  simp [truncate]

theorem truncate_nonneg {q : ℚ} (h : 0 ≤ q) : 0 ≤ truncate q :=
  Int.tdiv_nonneg (Rat.num_nonneg.2 h) (Int.natCast_nonneg _)

/-- What `base_time` may hold so that a cell gets a wrong figure. -/
theorem exists_wrong_base {x : ℚ} (hx : 0 < x) {figure : Int} (hfigure : 0 ≤ figure) :
    ∃ base : ℚ, truncate (10 * x / base) ≠ figure := by
  obtain ⟨m, rfl⟩ := Int.eq_ofNat_of_zero_le hfigure
  refine ⟨10 * x / (m + 1 : ℕ), ?_⟩
  have hquot : 10 * x / (10 * x / (m + 1 : ℕ)) = (m + 1 : ℕ) := by
    have hpos : (10 * x) ≠ 0 := by positivity
    have hsucc : ((m + 1 : ℕ) : ℚ) ≠ 0 := by positivity
    field_simp
  rw [hquot, truncate_natCast]
  omega

/-- The bench, with something else in the variable. -/
def Bench.withBase (b : Bench) (baseTime : Nat → ℚ) : Bench := { b with baseTime := baseTime }

theorem Bench.Prints.withBase {b : Bench} {p : MicroParam} {n : Nat} {t : Nat → Nat → ℚ}
    (h : b.Prints p n t) (baseTime : Nat → ℚ) : (b.withBase baseTime).Prints p n t :=
  ⟨h.nodeNum, h.popen, h.pos⟩

namespace NodeTestDist

theorem getNodeTestDist_measures {s : NodeTestDist} (hs : ¬ s.Cached) {b : Bench} {n : Nat}
    {t : Nat → Nat → ℚ} (h : b.Prints s.param n t) :
    (s.getNodeTestDist b).2 = some (b.measure s.param) := by
  simp [getNodeTestDist, hs, h.nodeNum]

/-- **A matrix that is measured is that of the times, whatever `base_time` holds before it is
assigned, exactly when there is at most one node.** From the diagonal on the entries are right. -/
theorem normalised_iff {s : NodeTestDist} (hs : ¬ s.Cached) {b : Bench} {n : Nat}
    {t : Nat → Nat → ℚ} (h : b.Prints s.param n t) :
    (∀ baseTime dist, (s.getNodeTestDist (b.withBase baseTime)).2 = some dist →
      ∀ cpu mem, cpu ≤ mem → mem < n →
        dist.entry cpu mem = some (truncate (10 * t cpu mem / t cpu cpu))) ∧
    ((∀ baseTime, ∃ dist, (s.getNodeTestDist (b.withBase baseTime)).2 = some dist ∧
      Normalised n t dist) ↔ n ≤ 1) := by
  have hentry (baseTime : Nat → ℚ) {cpu mem : Nat} (hcpu : cpu < n) (hmem : mem < n) :
      ((b.withBase baseTime).measure s.param).entry cpu mem =
        some (truncate (10 * t cpu mem / if mem < cpu then baseTime cpu else t cpu cpu)) :=
    Bench.entry_eq (h.withBase baseTime) hcpu hmem
  refine ⟨fun baseTime dist hdist cpu mem hle hmem => ?_, fun hall => ?_, fun hle baseTime => ?_⟩
  · rw [getNodeTestDist_measures hs (h.withBase baseTime)] at hdist
    obtain rfl := Option.some.inj hdist
    rw [hentry baseTime (by omega) hmem, if_neg (by omega)]
  · by_contra hgt
    have hfigure : 0 ≤ truncate (10 * t 1 0 / t 1 1) := by
      have hcell := h.pos 1 (by omega) 0 (by omega)
      have hlocal := h.pos 1 (by omega) 1 (by omega)
      exact truncate_nonneg (by positivity)
    obtain ⟨base, hbase⟩ := exists_wrong_base (h.pos 1 (by omega) 0 (by omega)) hfigure
    obtain ⟨dist, hdist, hnormal⟩ := hall fun _ => base
    rw [getNodeTestDist_measures hs (h.withBase _)] at hdist
    obtain rfl := Option.some.inj hdist
    have hright := hnormal 1 (by omega) 0 (by omega)
    have hleft := hentry (fun _ => base) (show 1 < n by omega) (show 0 < n by omega)
    rw [if_pos Nat.one_pos] at hleft
    exact hbase (Option.some.inj (hleft.symm.trans hright))
  · refine ⟨_, getNodeTestDist_measures hs (h.withBase baseTime), fun cpu hcpu mem hmem => ?_⟩
    rw [hentry baseTime hcpu hmem, if_neg (by omega)]

/-! ### Two nodes -/

/-- The times of two nodes, by cpu and memory. -/
def twoNodeTimes (cpu mem : Nat) : ℚ :=
  if cpu = 0 then if mem = 0 then 100 else 200 else if mem = 0 then 300 else 150

/-- In the second row `base_time` still holds what the first has left. -/
def twoNodeBench : Bench where
  nodeNum := some 2
  popen := fun command => some (
    if command = MicroParam.command {} 0 0 then 100
    else if command = MicroParam.command {} 0 1 then 200
    else if command = MicroParam.command {} 1 0 then 300
    else 150)
  baseTime := fun _ => 100

theorem prints_twoNodeBench : twoNodeBench.Prints {} 2 twoNodeTimes where
  nodeNum := rfl
  popen := by decide +kernel
  pos := by decide +kernel

/-- The access from node 1 to node 0 takes twice the local time of node 1. Its figure is not 20 but
30. -/
theorem not_normalised_twoNodes : twoNodeBench.Prints {} 2 twoNodeTimes ∧
    ((({} : NodeTestDist).getNodeTestDist twoNodeBench).2.bind fun dist => dist.entry 1 0) =
      some 30 ∧
    truncate (10 * twoNodeTimes 1 0 / twoNodeTimes 1 1) = 20 :=
  ⟨prints_twoNodeBench, by decide +kernel, by decide +kernel⟩

theorem normalised_iff_twoNodes :
    (∀ baseTime, ∃ dist,
      (({} : NodeTestDist).getNodeTestDist (twoNodeBench.withBase baseTime)).2 = some dist ∧
        Normalised 2 twoNodeTimes dist) ↔ 2 ≤ 1 :=
  (normalised_iff (by decide) prints_twoNodeBench).2

end NodeTestDist

end LibVsf
