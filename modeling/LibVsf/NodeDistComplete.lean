import LibVsf.NodeSysDistProof
import LibVsf.NodeTestDistProof

/-!
# Matrices that are served from the cache

Both classes of distances set `has_data_` before the work that can fail, and keep what there is when
it fails. So a matrix that a failed measurement left is returned by the calls after it.

* `complete_measure_iff`: a measurement gives a whole matrix exactly when each of its commands runs.
* `complete_sys_iff`: so does a reading of the printed distances when the command runs and no
  earlier line reads as `node distances:`.
* `complete_iff`: over every run of either class, each state with data has a complete matrix exactly
  when each measurement of the run is of this kind.
-/

namespace LibVsf

open Runs

/-- A row and a column for each of `n` nodes. -/
def Matrix.Complete (matrix : Matrix) (n : Nat) : Prop :=
  matrix.length = n ∧ ∀ row ∈ matrix, row.length = n

instance (matrix : Matrix) (n : Nat) : Decidable (matrix.Complete n) := by
  unfold Matrix.Complete
  infer_instance

/-! ## Measurements -/

namespace Bench

variable (b : Bench) (p : MicroParam)

/-- A row is cut short by the first command that does not run. -/
theorem row_eq_none_iff (cpu : Nat) (mems : List Nat) (baseTime : ℚ) (row : List Int) :
    b.row p cpu mems baseTime row = none ↔ ∃ mem ∈ mems, b.popen (p.command cpu mem) = none := by
  induction mems generalizing baseTime row with
  | nil => simp [Bench.row]
  | cons mem mems ih =>
    rw [Bench.row]
    cases htime : b.popen (p.command cpu mem) with
    | none => simp [htime]
    | some time => simp [htime, ih]

theorem length_row {cpu : Nat} {mems : List Nat} {baseTime : ℚ} {row row' : List Int}
    (h : b.row p cpu mems baseTime row = some row') : row'.length = row.length + mems.length := by
  induction mems generalizing baseTime row with
  | nil =>
    obtain rfl : row = row' := by simpa [Bench.row] using h
    rfl
  | cons mem mems ih =>
    rw [Bench.row] at h
    cases htime : b.popen (p.command cpu mem) with
    | none => simp [htime] at h
    | some time =>
      have hlength := ih (by simpa [htime] using h)
      simp only [List.length_append, List.length_cons, List.length_nil] at hlength ⊢
      omega

/-- The rows are all there exactly when each command runs. -/
theorem length_rows_iff (n : Nat) (cpus : List Nat) (dist : Matrix) :
    (b.rows p n cpus dist).length = dist.length + cpus.length ↔
      ∀ cpu ∈ cpus, ∀ mem < n, (b.popen (p.command cpu mem)).isSome := by
  induction cpus generalizing dist with
  | nil => simp [Bench.rows]
  | cons cpu cpus ih =>
    rw [Bench.rows, List.forall_mem_cons]
    cases hrow : b.row p cpu (List.range n) (b.baseTime cpu) [] with
    | none =>
      obtain ⟨mem, hmem, hnone⟩ := (b.row_eq_none_iff p cpu _ _ _).1 hrow
      have hcell : ¬ ∀ mem < n, (b.popen (p.command cpu mem)).isSome := fun hall => by
        have hsome := hall mem (List.mem_range.1 hmem)
        simp [hnone] at hsome
      simp [hcell]
    | some row =>
      have hcell : ∀ mem < n, (b.popen (p.command cpu mem)).isSome := by
        intro mem hmem
        by_contra hnone
        have hcut : b.row p cpu (List.range n) (b.baseTime cpu) [] = none :=
          (b.row_eq_none_iff p cpu _ _ _).2
            ⟨mem, List.mem_range.2 hmem, Option.not_isSome_iff_eq_none.1 hnone⟩
        rw [hcut] at hrow
        cases hrow
      have hlength : (dist ++ [row]).length + cpus.length = dist.length + (cpu :: cpus).length := by
        simp only [List.length_append, List.length_cons, List.length_nil]
        omega
      rw [← hlength, ih]
      exact (and_iff_right hcell).symm

theorem length_of_mem_rows {n : Nat} {cpus : List Nat} {dist : Matrix}
    (hdist : ∀ row ∈ dist, row.length = n) : ∀ row ∈ b.rows p n cpus dist, row.length = n := by
  induction cpus generalizing dist with
  | nil => simpa [Bench.rows] using hdist
  | cons cpu cpus ih =>
    rw [Bench.rows]
    cases hrow : b.row p cpu (List.range n) (b.baseTime cpu) [] with
    | none => exact hdist
    | some row =>
      refine ih fun row' hrow' => ?_
      rcases List.mem_append.1 hrow' with hmem | hmem
      · exact hdist row' hmem
      · rw [List.mem_singleton.1 hmem, b.length_row p hrow]
        simp

/-- Every command of a measurement under `p` runs. -/
def Runs : Prop :=
  ∃ n, b.nodeNum = some n ∧ ∀ cpu < n, ∀ mem < n, (b.popen (p.command cpu mem)).isSome

/-- **A measurement is whole exactly when each of its commands runs.** -/
theorem complete_measure_iff :
    (∃ n, b.nodeNum = some n ∧ (b.measure p).Complete n) ↔ b.Runs p := by
  refine exists_congr fun n => and_congr_right fun hn => ?_
  have hmeasure : b.measure p = b.rows p n (List.range n) [] := by simp [Bench.measure, hn]
  have hrows : ∀ row ∈ b.measure p, row.length = n := by
    rw [hmeasure]
    exact b.length_of_mem_rows p (by simp)
  have hlength := b.length_rows_iff p n (List.range n) []
  rw [← hmeasure, List.length_nil, List.length_range, Nat.zero_add] at hlength
  rw [Matrix.Complete, and_iff_left hrows, hlength]
  simp only [List.mem_range]

end Bench

namespace NodeTestDist.Tracked

/-- An object with data has a row and a column for each node of its last measurement. -/
def Complete (t : Tracked) : Prop :=
  t.dist.hasData = true → ∃ p b, t.taken = some (p, b) ∧
    ∃ n, b.nodeNum = some n ∧ t.dist.nodeTestDist.Complete n

/-- If the operation measures, each command runs. -/
def Completes (t : Tracked) (op : Op) : Prop :=
  ∀ b, op.bench? = some b → ¬ t.dist.Cached → b.Runs t.dist.param

theorem complete_step_iff {t : Tracked} (h : t.Complete) (op : Op) :
    (t.step op).Complete ↔ t.Completes op := by
  cases op with
  | setParam p => exact iff_of_true h (fun _ hb => by cases hb)
  | clearParam => exact iff_of_true h (fun _ hb => by cases hb)
  | clear => exact iff_of_true (fun hdata => by cases hdata) (fun _ hb => by cases hb)
  | refresh b | getNodeTestDist b =>
    by_cases hc : t.dist.Cached
    · refine iff_of_true ?_ (fun _ _ hnc => absurd hc hnc)
      simpa [step, take, Op.bench?, NodeTestDist.step, refresh, getNodeTestDist, hc] using h
    · have hkept : (∃ n, b.nodeNum = some n ∧ (b.measure t.dist.param).Complete n) ↔
          b.Runs t.dist.param := b.complete_measure_iff t.dist.param
      simp only [Complete, step, take, Op.bench?, NodeTestDist.step, refresh, getNodeTestDist, hc,
        remeasure, Completes]
      simpa [hc] using hkept

end NodeTestDist.Tracked

/-! ## The printed distances -/

/-- A text that `numactl --hardware` prints. -/
structure Printed where
  hardware : NumactlHardware
  dist : Nat → Nat → Nat
  dist_fits : Fits dist

def Printed.text (o : Printed) : List Char := o.hardware.text o.dist

namespace NodeSysDist

/-- The operations of the class, with what the command prints, or `none` if `popen` gives `NULL`.
`getNodeSysDist` also stands for the overload that returns one entry. -/
inductive Op where
  | clear
  | refresh (printed : Option Printed)
  | getNodeSysDist (printed : Option Printed)

/-- What is printed is parsed to the end. -/
theorem getNodeSysDist_printed (s : NodeSysDist) (printed : Option Printed) :
    (s.getNodeSysDist (printed.map Printed.text)).isSome := by
  by_cases hdata : s.hasData = true
  · simp [getNodeSysDist, hdata]
  · cases printed with
    | none => simp [getNodeSysDist, hdata]
    | some o =>
      obtain ⟨rows, -, hparse⟩ := o.hardware.parseDist_text
      simp [getNodeSysDist, hdata, Printed.text, hparse o.dist o.dist_fits]

theorem refresh_printed (s : NodeSysDist) (printed : Option Printed) :
    (s.refresh (printed.map Printed.text)).isSome := by
  rw [refresh, Option.isSome_map]
  exact s.getNodeSysDist_printed printed

def step (s : NodeSysDist) : Op → NodeSysDist
  | .clear => s.clear
  | .refresh printed => (s.refresh (printed.map Printed.text)).get (s.refresh_printed printed)
  | .getNodeSysDist printed =>
    ((s.getNodeSysDist (printed.map Printed.text)).get (s.getNodeSysDist_printed printed)).1

def Op.printed? : Op → Option (Option Printed)
  | .clear => none
  | .refresh printed | .getNodeSysDist printed => some printed

/-- **The matrix that is read is whole exactly when no earlier line reads as `node distances:`.** -/
theorem complete_sys_iff (o : Printed) {s : NodeSysDist} (hs : s.hasData = false) :
    ∃ matrix, s.getNodeSysDist (some o.text) =
        some ({ nodeSysDist := matrix, hasData := true }, matrix) ∧
      (matrix.Complete o.hardware.ids.length ↔ o.hardware.Clean) := by
  obtain ⟨rows, hrows, hparse⟩ := o.hardware.parseDist_text
  refine ⟨rows ++ o.hardware.matrix o.dist,
    by simp [getNodeSysDist, hs, Printed.text, hparse o.dist o.dist_fits], ?_⟩
  have hmatrix : (o.hardware.matrix o.dist).Complete o.hardware.ids.length := by
    simp [Matrix.Complete, NumactlHardware.matrix]
  rw [← hrows, Matrix.Complete, List.length_append, hmatrix.1]
  constructor
  · rintro ⟨hlength, -⟩
    exact List.length_eq_zero_iff.1 (by omega)
  · rintro rfl
    exact ⟨Nat.zero_add _, hmatrix.2⟩

/-- The object, and what its last measurement was given. -/
structure Tracked where
  dist : NodeSysDist := {}
  taken : Option (Option Printed) := none

namespace Tracked

/-- The measurement after `op`: a new one if there is no data. -/
def take (t : Tracked) (op : Op) : Option (Option Printed) :=
  match op.printed? with
  | none => none
  | some printed => if t.dist.hasData then t.taken else some printed

def step (t : Tracked) (op : Op) : Tracked := ⟨t.dist.step op, t.take op⟩

/-- An object with data has a row and a column for each node that was printed. -/
def Complete (t : Tracked) : Prop :=
  t.dist.hasData = true → ∃ o : Printed, t.taken = some (some o) ∧
    t.dist.nodeSysDist.Complete o.hardware.ids.length

/-- If the operation measures, the command runs, and no earlier line reads as
`node distances:`. -/
def Completes (t : Tracked) (op : Op) : Prop :=
  ∀ printed, op.printed? = some printed → t.dist.hasData = false →
    ∃ o : Printed, printed = some o ∧ o.hardware.Clean

theorem complete_step_iff {t : Tracked} (h : t.Complete) (op : Op) :
    (t.step op).Complete ↔ t.Completes op := by
  cases op with
  | clear => exact iff_of_true (fun hdata => by cases hdata) (fun _ ho => by cases ho)
  | refresh printed | getNodeSysDist printed =>
    by_cases hdata : t.dist.hasData = true
    · refine iff_of_true ?_ (fun _ _ hnone => by simp [hdata] at hnone)
      simpa [step, take, Op.printed?, NodeSysDist.step, NodeSysDist.refresh,
        NodeSysDist.getNodeSysDist, hdata] using h
    · rw [Bool.not_eq_true] at hdata
      cases printed with
      | none =>
        simp [Complete, Completes, step, take, Op.printed?, NodeSysDist.step, NodeSysDist.refresh,
          NodeSysDist.getNodeSysDist, hdata]
      | some o =>
        obtain ⟨matrix, hget, hcomplete⟩ := complete_sys_iff o hdata
        simp [Complete, Completes, step, take, Op.printed?, NodeSysDist.step, NodeSysDist.refresh,
          hdata, hget, hcomplete]

end Tracked

end NodeSysDist

/-! ## Over a run -/

/-- **A failed measurement is served from the cache.** Over every run of `NodeTestDist` each state
with data has a complete matrix exactly when all commands of each measurement run; over every run of
`NodeSysDist`, exactly when in each measurement the command runs and no line before the table reads
as `node distances:`. -/
theorem complete_iff (testOps : List NodeTestDist.Op) (sysOps : List NodeSysDist.Op) :
    (Holds NodeTestDist.Tracked.step NodeTestDist.Tracked.Complete {} testOps ↔
      Along NodeTestDist.Tracked.step NodeTestDist.Tracked.Completes {} testOps) ∧
    (Holds NodeSysDist.Tracked.step NodeSysDist.Tracked.Complete {} sysOps ↔
      Along NodeSysDist.Tracked.step NodeSysDist.Tracked.Completes {} sysOps) := by
  constructor
  · exact holds_iff_along _ (I := fun _ => True) (fun _ _ _ => trivial)
      (fun _ op _ h => NodeTestDist.Tracked.complete_step_iff h op) trivial
      (fun hdata => by cases hdata) testOps
  · exact holds_iff_along _ (I := fun _ => True) (fun _ _ _ => trivial)
      (fun _ op _ h => NodeSysDist.Tracked.complete_step_iff h op) trivial
      (fun hdata => by cases hdata) sysOps

/-- Two nodes, of which the second cannot be measured from the first. -/
def remoteFails : Bench where
  nodeNum := some 2
  popen := fun command => if command = ({} : MicroParam).command 0 1 then none else some 1
  baseTime := fun _ => 1

/-- One failed `popen` in either class, and there is data without rows. -/
theorem not_complete_failed :
    (¬ Holds NodeTestDist.Tracked.step NodeTestDist.Tracked.Complete {}
        [.getNodeTestDist remoteFails]) ∧
      ¬ Holds NodeSysDist.Tracked.step NodeSysDist.Tracked.Complete {} [.getNodeSysDist none] := by
  constructor
  · intro h
    have hcompletes := (NodeTestDist.Tracked.complete_step_iff (t := {})
      (fun hdata => by cases hdata) (.getNodeTestDist remoteFails)).1 (h _ (List.prefix_refl _))
    obtain ⟨n, hn, hall⟩ := hcompletes remoteFails rfl (by decide)
    obtain rfl : 2 = n := Option.some.inj hn
    have hsome := hall 0 (by decide) 1 (by decide)
    simp [remoteFails] at hsome
  · intro h
    obtain ⟨o, htaken, -⟩ := h _ (List.prefix_refl _) rfl
    cases htaken

end LibVsf
