import LibVsf.CpuUsageWindows
import Mathlib.Order.Interval.Finset.Nat
import Mathlib.Data.Int.Interval

/-!
# `CpuUsage`: the divisions of `refresh_thread`

The usage of a thread is divided by the time the system had, and that of a process by its number of
tasks first. The time of the system is tested before both divisions, the number of tasks is not: a
process may exit after procps has listed it and before its tasks are read.

* `divides_iff`: `refresh_thread` never divides by zero exactly when procps gives a task for every
  process, or there is no time of the system to divide by.
* `runs_iff`: the same over a run of a caller that goes on after an exception.
-/

namespace LibVsf

open Std Runs

namespace CpuUsage

/-! ## The usage of a thread -/

/-- `/` of two `unsigned int`s. -/
def divUnsigned (a b : UInt32) : Option UInt32 := if b = 0 then none else some (a / b)

/-- `update`, when its division is checked. -/
def updateChecked (d : ThreadCpuUsageData) (sysCpu cpuNum : UInt32) (task : Task) :
    Option ThreadCpuUsageData := do
  let proctime := task.utime + task.stime
  let proctimeOld := if d.proctimeNew = 0 then proctime else d.proctimeNew
  let proctimeDelta := (proctime - proctimeOld).toUInt32
  let usage ← if sysCpu = 0 then some 0 else divUnsigned (proctimeDelta * 100 * cpuNum) sysCpu
  return { d with
    processor := task.processor
    tgid := task.tgid
    proctimeNew := proctime
    proctimeOld := proctimeOld
    cpuUsage := usage.toInt32 }

/-- The division of `update` is guarded. -/
theorem updateChecked_eq (d : ThreadCpuUsageData) (sysCpu cpuNum : UInt32) (task : Task) :
    updateChecked d sysCpu cpuNum task = some (d.update sysCpu cpuNum task) := by
  unfold updateChecked divUnsigned ThreadCpuUsageData.update
  by_cases hsys : sysCpu = 0
  · rw [if_pos hsys]
    simp [hsys]
  · simp [hsys]

/-! ## The usage of a process -/

/-- The process has a task, or there is no time of the system to divide by. -/
def Divisible (s : CpuUsage) (proc : Proc) : Prop :=
  s.totalCpuTimeOld = 0 ∨ s.totalCpuTimeDelta = 0 ∨ proc.cnt ≠ 0

theorem divisible_of_rest {s s' : CpuUsage} (h : s'.rest = s.rest) (proc : Proc) :
    Divisible s' proc ↔ Divisible s proc := by
  unfold Divisible
  rw [eq_of_rest totalCpuTimeOld (fun _ => rfl) h, eq_of_rest totalCpuTimeDelta (fun _ => rfl) h]

theorem readProc_ok_iff (s : CpuUsage) (proc : Proc) :
    (∃ s', s.readProc proc = .ok s') ↔ Divisible s proc := by
  rw [← divisible_of_rest (s.rest_readTasks proc)]
  unfold readProc shareProcess Divisible
  split_ifs with hnone hcnt
  · exact iff_of_true ⟨_, rfl⟩ (by tauto)
  · refine iff_of_false ?_ (by tauto)
    intro h
    obtain ⟨s', h⟩ := h
    cases h
  · exact iff_of_true ⟨_, rfl⟩ (by tauto)

/-- The loop over the processes. -/
theorem readProcs_ok_iff (s : CpuUsage) (procs : List Proc) :
    (∃ s', runE readProc s procs = .ok s') ↔ ∀ proc ∈ procs, Divisible s proc := by
  refine runE_ok_iff_forall readProc (I := fun s' => s'.rest = s.rest) (C := Divisible s)
    (fun _ _ _ hs hread => (rest_readProc hread).trans hs) (fun s' proc hs => ?_) rfl procs
  rw [readProc_ok_iff, divisible_of_rest hs]

theorem refreshThread_divides (s : CpuUsage) (env : Env) :
    (∃ s', s.refreshThread env = .error (.divisionByZero, s')) ↔
      ∃ l, env.openproc s.pids = some l ∧ ∃ proc ∈ l.procs, ¬ Divisible s proc := by
  cases hl : env.openproc s.pids with
  | none => simp [refreshThread, hl]
  | some l =>
    have hloop := readProcs_ok_iff s.invalidate l.procs
    have hsame (proc : Proc) : Divisible s.invalidate proc ↔ Divisible s proc :=
      divisible_of_rest rfl proc
    simp only [hsame] at hloop
    simp only [Option.some.injEq, exists_eq_left']
    simp only [refreshThread, hl, foldlM_eq_runE]
    cases hread : runE readProc s.invalidate l.procs with
    | ok s₁ =>
      have hall := hloop.1 ⟨s₁, hread⟩
      refine iff_of_false ?_ ?_
      · intro h
        obtain ⟨s', h⟩ := h
        cases h
      · intro h
        obtain ⟨proc, hproc, hnot⟩ := h
        exact hnot (hall proc hproc)
    | error e =>
      obtain ⟨failure, s₁⟩ := e
      obtain rfl := readProcs_error hread
      refine iff_of_true ⟨s₁, rfl⟩ ?_
      have hnot : ¬ ∀ proc ∈ l.procs, Divisible s proc := by
        intro hall
        obtain ⟨s', hok⟩ := hloop.2 hall
        rw [hread] at hok
        cases hok
      push Not at hnot
      exact hnot

/-- **`refresh_thread` never divides by zero exactly when every process that procps returns has a
task, or there is no time of the system to divide by.** The usage of a thread always can be
computed. -/
theorem divides_iff (s : CpuUsage) (env : Env) :
    (∀ (d : ThreadCpuUsageData) (task : Task),
      updateChecked d s.getTotalCpuTimeDelta s.cpuNum task =
        some (d.update s.getTotalCpuTimeDelta s.cpuNum task)) ∧
    ((∀ s', s.refreshThread env ≠ .error (.divisionByZero, s')) ↔
      ∀ l, env.openproc s.pids = some l → ∀ proc ∈ l.procs, Divisible s proc) := by
  refine ⟨fun d task => updateChecked_eq d _ _ task, ?_⟩
  rw [← not_iff_not]
  push Not
  exact refreshThread_divides s env

/-! ### A process that exits between the two reads -/

/-- procps lists process 7, and then no task of it. -/
def goneBetween : Env where
  stat := some ⟨1100, 0, 0, 0⟩
  openproc := fun _ => some ⟨[⟨7, []⟩], by simp⟩

/-- The second refresh of a process that exits during it. -/
theorem divides_goneBetween : ∃ s,
    runE act { cpuNum := 1 } [.startWatching 7, .refresh ⟨Tracked.envAt 1000 50, none⟩] = .ok s ∧
    ∃ s', (s.systemRead ⟨1100, 0, 0, 0⟩).refreshWatching.refreshThread goneBetween =
      .error (.divisionByZero, s') := by
  obtain ⟨s, hrun, hs⟩ := exists_ok_of_any
    (x := runE act { cpuNum := 1 } [.startWatching 7, .refresh ⟨Tracked.envAt 1000 50, none⟩])
    (p := fun s => s.totalCpuTimeNew = 1000) (by decide +kernel)
  have hnew : s.totalCpuTimeNew = 1000 := of_decide_eq_true hs
  refine ⟨s, hrun, (refreshThread_divides _ _).2 ⟨_, rfl, _, List.mem_cons_self, ?_⟩⟩
  show ¬ (s.totalCpuTimeNew = 0 ∨ (1100 : UInt32) - s.totalCpuTimeNew = 0 ∨ Proc.cnt ⟨7, []⟩ ≠ 0)
  rw [hnew]
  decide

/-! ### Over a run -/

/-- The processes that a refresh returns are divisible by the system's time that it reads. -/
def RefreshDivisible (s : CpuUsage) : Act → Prop
  | .refresh round => ∀ stat l, round.env.stat = some stat → s.listing round.env = some l →
      ∀ proc ∈ l.procs, Divisible (s.systemRead stat) proc
  | _ => True

/-- The caller cannot go on after a division by zero. -/
theorem tryRefresh_error_iff {s : CpuUsage} {round : Round} :
    (∃ failure, s.tryRefresh round = .error failure) ↔
      ∃ s', s.refresh round.env = .error (.divisionByZero, s') := by
  unfold tryRefresh
  cases hrefresh : s.refresh round.env with
  | error e =>
    obtain ⟨failure, s₁⟩ := e
    cases failure <;> simp
  | ok s₁ =>
    refine iff_of_false ?_ (by simp)
    intro h
    obtain ⟨failure, h⟩ := h
    dsimp only at h
    split at h
    · split_ifs at h
    · cases h

theorem refresh_divides {s : CpuUsage} {env : Env} :
    (∃ s', s.refresh env = .error (.divisionByZero, s')) ↔ ∃ stat s', env.stat = some stat ∧
      (s.systemRead stat).refreshWatching.refreshThread env = .error (.divisionByZero, s') := by
  cases hstat : env.stat with
  | none => simp [refresh, refreshSystem, hstat, bind, Except.bind]
  | some stat =>
    simp only [Option.some.injEq, exists_and_left, exists_eq_left']
    simp only [refresh, refreshSystem_some hstat, bind, Except.bind]
    cases (s.systemRead stat).refreshWatching.refreshThread env with
    | ok s₁ => simp [pure, Except.pure]
    | error e => rfl

theorem act_ok_iff (s : CpuUsage) (a : Act) : (∃ s', s.act a = .ok s') ↔ RefreshDivisible s a := by
  cases a with
  | setCallback | startWatching | stopWatching | clear => exact iff_of_true ⟨_, rfl⟩ trivial
  | refresh round =>
    have hok : (∃ s', s.act (.refresh round) = .ok s') ↔
        ¬ ∃ failure, s.tryRefresh round = .error failure := by
      simp only [act]
      cases s.tryRefresh round <;> simp [Except.map]
    rw [hok, tryRefresh_error_iff, refresh_divides, RefreshDivisible]
    push Not
    refine forall_congr' fun stat => ?_
    have hdivides := refreshThread_divides (s.systemRead stat).refreshWatching round.env
    constructor
    · intro h l hstat hl proc hproc
      by_contra hnot
      obtain ⟨s', herror⟩ := hdivides.2 ⟨l, hl, proc, hproc, hnot⟩
      exact h s' hstat herror
    · intro h s' hstat herror
      obtain ⟨l, hl, proc, hproc, hnot⟩ := hdivides.1 ⟨s', herror⟩
      exact hnot (h l hstat hl proc hproc)

/-- **A run goes on to its end exactly when the processes that its refreshes return are
divisible.** -/
theorem runs_iff (cpuNum : UInt32) (acts : List Act) :
    (∃ s, runE act { cpuNum := cpuNum } acts = .ok s) ↔
      AlongE act RefreshDivisible { cpuNum := cpuNum } acts :=
  runE_ok_iff act (I := fun _ => True) (D := fun _ => True) (fun _ _ _ _ _ _ => trivial)
    (fun s a _ _ => act_ok_iff s a) trivial acts (fun _ _ => trivial)

/-! ## What a refresh leaves as usage -/

/-- The time of a task between its two readings: `proctime_new_ - proctime_old_`. -/
def timeDelta (data : Option ThreadCpuUsageData) (task : Task) : UInt64 :=
  let time := task.utime + task.stime
  time - if lastTime data = 0 then time else lastTime data

theorem timeDelta_invalidated (data : Option ThreadCpuUsageData) (task : Task) :
    timeDelta (data.map fun d => { d with valid := false }) task = timeDelta data task := by
  cases data <;> rfl

/-- The time of a task at a refresh. -/
def taskTime (s : CpuUsage) (task : Task) : Nat :=
  (timeDelta s.threadCpuUsageData[task.tid]? task).toNat

/-- The times of the tasks of a process at a refresh, together. -/
def tasksTime (s : CpuUsage) (proc : Proc) : Nat := (proc.tasks.map s.taskTime).sum

theorem taskTime_invalidate (s : CpuUsage) (task : Task) :
    s.invalidate.taskTime task = s.taskTime task := by
  have hbefore : s.invalidate.threadCpuUsageData[task.tid]? =
      s.threadCpuUsageData[task.tid]?.map fun d => { d with valid := false } :=
    ExtTreeMap.getElem?_map
  rw [taskTime, hbefore, timeDelta_invalidated]
  rfl

/-- The `int` that adds the times up has them together, but for what 32 bits do not hold. -/
theorem toNat_processTime (s : CpuUsage) (proc : Proc) :
    (s.processTime proc).toUInt32.toNat = s.tasksTime proc % 2 ^ 32 := by
  unfold processTime tasksTime
  induction proc.tasks with
  | nil => rfl
  | cons task tasks ih =>
    have htask : (taskDelta s.threadCpuUsageData[task.tid]? task).toUInt32.toNat =
        s.taskTime task % 2 ^ 32 := rfl
    rw [List.map_cons, List.sum_cons, List.map_cons, List.sum_cons, Int32.toUInt32_add,
      UInt32.toNat_add, ih, htask, ← Nat.add_mod]

theorem processTime_readProcs {s s' : CpuUsage} {procs : List Proc} {proc' : Proc}
    (h : runE readProc s procs = .ok s')
    (hnodup : ((procs.flatMap Proc.tasks).map Task.tid).Nodup)
    (hdisjoint : ∀ task ∈ proc'.tasks, task.tid ∉ (procs.flatMap Proc.tasks).map Task.tid) :
    s'.processTime proc' = s.processTime proc' := by
  induction procs generalizing s with
  | nil =>
    cases h
    rfl
  | cons proc procs ih =>
    obtain ⟨s₁, hproc, hrest⟩ := (runE_cons_ok readProc).1 h
    rw [List.flatMap_cons, List.map_append] at hnodup hdisjoint
    obtain ⟨hfirst, hothers, -⟩ := List.nodup_append.1 hnodup
    rw [ih hrest hothers fun task htask hmem =>
        hdisjoint task htask (List.mem_append_right _ hmem),
      processTime_readProc hproc (fun task htask hmem =>
        hdisjoint task htask (List.mem_append_left _ hmem)) hfirst]

/-- The usage of a process, if the system's time is not known. -/
theorem usage_readProc_zero {s s' : CpuUsage} {proc : Proc} (h : s.readProc proc = .ok s')
    (hold : s.totalCpuTimeOld = 0) : s'.processCpuUsageData[proc.tid]? = some 0 := by
  have hsame := s.rest_readTasks proc
  rw [← eq_of_rest totalCpuTimeOld (fun _ => rfl) hsame] at hold
  unfold readProc shareProcess at h
  rw [if_pos (Or.inl hold)] at h
  rw [← Except.ok.inj h, getElem?_setProcess, if_pos rfl]

/-- The usage that a refresh leaves for a process: that of its last entry in the listing. -/
theorem processUsage_refreshThread {s s' : CpuUsage} {env : Env} {l : Listing}
    (h : s.refreshThread env = .ok s') (hl : env.openproc s.pids = some l)
    (hdelta : s.totalCpuTimeDelta ≠ 0) {pre : List Proc} {proc : Proc} {post : List Proc}
    (hprocs : l.procs = pre ++ proc :: post) (hlast : proc.tid ∉ post.map Proc.tid) :
    s'.processCpuUsageData[proc.tid]? = some (if s.totalCpuTimeOld = 0 then 0
      else processShare (s.invalidate.processTime proc) proc.cnt s.cpuNum
        s.totalCpuTimeDelta) := by
  obtain ⟨l', s₁, hl', hloop, rfl⟩ := refreshThread_steps h
  obtain rfl : l = l' := Option.some.inj (hl.symm.trans hl')
  have hpublish : s₁.clearInvalid.publish.processCpuUsageData = s₁.processCpuUsageData := by
    simp only [publish]
    split_ifs <;> rfl
  rw [hprocs] at hloop
  obtain ⟨s₂, hpre, hfrom⟩ := (runE_append_ok readProc).1 hloop
  obtain ⟨s₃, hproc, hpost⟩ := (runE_cons_ok readProc).1 hfrom
  rw [hpublish, (returned_readProcs hpost).kept _ hlast]
  have hnodup := l.nodup_tids
  rw [hprocs, List.flatMap_append, List.flatMap_cons, List.map_append, List.map_append] at hnodup
  obtain ⟨hnodupPre, hnodupFrom, hdisjoint⟩ := List.nodup_append.1 hnodup
  obtain ⟨hnodupProc, -, -⟩ := List.nodup_append.1 hnodupFrom
  have hstart : s.invalidate.rest = s.rest := rfl
  have hsame : s₂.rest = s.rest :=
    runE_invariant readProc (I := fun s' => s'.rest = s.rest) hstart
      (fun _ _ _ hs hread => (rest_readProc hread).trans hs) hpre
  have hold := eq_of_rest totalCpuTimeOld (fun _ => rfl) hsame
  have hsystem := eq_of_rest totalCpuTimeDelta (fun _ => rfl) hsame
  have hnum := eq_of_rest cpuNum (fun _ => rfl) hsame
  have htime : s₂.processTime proc = s.invalidate.processTime proc := by
    refine processTime_readProcs hpre hnodupPre fun task htask hmem => ?_
    exact hdisjoint _ hmem _ (List.mem_append_left _ (List.mem_map_of_mem htask)) rfl
  split_ifs with hzero
  · exact usage_readProc_zero hproc (hold.trans hzero)
  · rw [processShare_readProc hproc hnodupProc (by rwa [hold]) (by rwa [hsystem]), htime, hnum,
      hsystem]

/-! ## The exact figures -/

/-- A quotient of a smaller number is the same when what it is smaller by does not fill up the
remainder. -/
theorem div_eq_div_iff {p x d : Nat} (hd : 0 < d) (hle : p ≤ x) :
    p / d = x / d ↔ p % d + (x - p) < d := by
  have hx : x = p % d + (x - p) + d * (p / d) := by
    have hp := Nat.div_add_mod p d
    omega
  have hquot : x / d = (p % d + (x - p)) / d + p / d := by
    conv_lhs => rw [hx]
    exact Nat.add_mul_div_left _ _ hd
  rw [hquot, ← Nat.div_eq_zero_iff_lt hd]
  omega

/-- A number that has lost a multiple of 2^32 has another quotient by an `unsigned int`. -/
theorem mod_div_eq_iff {p d : Nat} (hd : 0 < d) (hlt : d < 2 ^ 32) :
    p % 2 ^ 32 / d = p / d ↔ p < 2 ^ 32 := by
  rw [div_eq_div_iff hd (Nat.mod_le _ _)]
  constructor
  · intro h
    by_contra hge
    omega
  · intro h
    rw [Nat.mod_eq_of_lt h, Nat.sub_self, Nat.add_zero]
    exact Nat.mod_lt _ hd

/-- The quotient of `p` against that of `x / n`, which is not smaller. -/
theorem mod_div_eq_div_mul_iff {p x n d : Nat} (hn : 0 < n) (hd : 0 < d) (hlt : d < 2 ^ 32)
    (hle : n * p ≤ x) : p % 2 ^ 32 / d = x / (n * d) ↔
      p < 2 ^ 32 ∧ n * (p % d) + (x - n * p) < n * d := by
  have hscaled : n * p / (n * d) = p / d := Nat.mul_div_mul_left p d hn
  by_cases hp : p < 2 ^ 32
  · rw [Nat.mod_eq_of_lt hp, ← hscaled, div_eq_div_iff (Nat.mul_pos hn hd) hle,
      Nat.mul_mod_mul_left]
    exact (and_iff_right hp).symm
  · refine iff_of_false ?_ fun h => hp h.1
    have hne : p % 2 ^ 32 / d ≠ p / d := fun heq => hp ((mod_div_eq_iff hd hlt).1 heq)
    have hfewer : p % 2 ^ 32 / d ≤ p / d := Nat.div_le_div_right (Nat.mod_le _ _)
    have hmore : n * p / (n * d) ≤ x / (n * d) := Nat.div_le_div_right hle
    omega

/-- The product with the percent and the CPUs. -/
theorem toNat_scaled (x cpuNum : UInt32) :
    (x * 100 * cpuNum).toNat = 100 * cpuNum.toNat * x.toNat % 2 ^ 32 := by
  rw [UInt32.toNat_mul, UInt32.toNat_mul, Nat.mod_mul_mod]
  refine congrArg (· % 2 ^ 32) ?_
  show x.toNat * 100 * cpuNum.toNat = _
  rw [Nat.mul_assoc, Nat.mul_comm]

/-- An `unsigned int` that is cast to an `int`. -/
theorem toInt32_eq_iff {x : UInt32} {n : Nat} :
    x.toInt32.toInt = n ↔ x.toNat = n ∧ x.toNat < 2 ^ 31 := by
  have hx := x.toNat_lt
  rw [Tracked.toInt32_toInt]
  split_ifs with hlt <;> omega

/-- The share of a thread that had `time` of the time `delta` of the system, in percent. -/
def threadFigure (cpuNum time delta : Nat) : Nat := 100 * cpuNum * time / delta

/-- The share of a process whose `n` tasks had `time` together. -/
def processFigure (cpuNum time n delta : Nat) : Nat := 100 * cpuNum * time / (n * delta)

/-- The product fits in 32 bits and the figure in an `int`. -/
def Fits32 (cpuNum time delta : Nat) : Prop :=
  100 * cpuNum * time < 2 ^ 32 ∧ 100 * cpuNum * time / delta < 2 ^ 31

theorem threadFigure_iff {x cpuNum delta : UInt32} {time : Nat} (hdelta : delta ≠ 0)
    (hx : x.toNat = time % 2 ^ 32) :
    (x * 100 * cpuNum / delta).toInt32.toInt =
        threadFigure cpuNum.toNat time delta.toNat ↔
      Fits32 cpuNum.toNat time delta.toNat := by
  have hpos : 0 < delta.toNat :=
    Nat.pos_of_ne_zero fun hzero => hdelta (UInt32.toNat_inj.1 hzero)
  have hquot : (x * 100 * cpuNum / delta).toNat =
      100 * cpuNum.toNat * time % 2 ^ 32 / delta.toNat := by
    rw [UInt32.toNat_div, toNat_scaled, hx, Nat.mul_mod_mod]
  rw [toInt32_eq_iff, hquot, threadFigure, mod_div_eq_iff hpos delta.toNat_lt, Fits32]
  refine and_congr_right fun hlt => ?_
  rw [Nat.mod_eq_of_lt hlt]

/-- The average of the times, as the code computes it. -/
def averageTime (time n : Nat) : Nat := time % 2 ^ 32 / n

/-- The time that the average leaves out does not make up another percent. -/
def FillsUp (cpuNum time n delta : Nat) : Prop :=
  n * delta ≤ n * (100 * cpuNum * averageTime time n % delta) +
    100 * cpuNum * (time - n * averageTime time n)

theorem processFigure_iff {time : Int32} {cnt cpuNum delta : UInt32} {total : Nat}
    (hcnt : cnt ≠ 0) (hdelta : delta ≠ 0) (htime : time.toUInt32.toNat = total % 2 ^ 32) :
    (processShare time cnt cpuNum delta).toInt =
        processFigure cpuNum.toNat total cnt.toNat delta.toNat ↔
      Fits32 cpuNum.toNat (averageTime total cnt.toNat) delta.toNat ∧
        ¬ FillsUp cpuNum.toNat total cnt.toNat delta.toNat := by
  have hn : 0 < cnt.toNat := Nat.pos_of_ne_zero fun hzero => hcnt (UInt32.toNat_inj.1 hzero)
  have hpos : 0 < delta.toNat :=
    Nat.pos_of_ne_zero fun hzero => hdelta (UInt32.toNat_inj.1 hzero)
  have hquot : (time.toUInt32 / cnt * 100 * cpuNum / delta).toNat =
      100 * cpuNum.toNat * averageTime total cnt.toNat % 2 ^ 32 / delta.toNat := by
    rw [UInt32.toNat_div, toNat_scaled, UInt32.toNat_div, htime, averageTime]
  have havg : cnt.toNat * averageTime total cnt.toNat ≤ total :=
    (Nat.mul_div_le _ _).trans (Nat.mod_le _ _)
  rw [processShare, toInt32_eq_iff, hquot, processFigure, FillsUp, Fits32]
  generalize averageTime total cnt.toNat = average at *
  have hscaled : cnt.toNat * (100 * cpuNum.toNat * average) ≤ 100 * cpuNum.toNat * total := by
    rw [Nat.mul_left_comm]
    exact Nat.mul_le_mul_left _ havg
  have hleft : 100 * cpuNum.toNat * total - cnt.toNat * (100 * cpuNum.toNat * average) =
      100 * cpuNum.toNat * (total - cnt.toNat * average) := by
    rw [Nat.mul_sub, Nat.mul_left_comm cnt.toNat]
  rw [mod_div_eq_div_mul_iff hn hpos delta.toNat_lt hscaled, hleft, Nat.not_le, and_right_comm]
  refine and_congr_left fun _ => and_congr_right fun hlt => ?_
  rw [Nat.mod_eq_of_lt hlt]

/-! ## What is shown -/

/-- A `pid_t` that is the id of a thread. -/
def IsTid (tid : Int) : Prop := 0 < tid ∧ tid < 2 ^ 31

/-- A process does not have more tasks than there are ids. -/
theorem length_tasks_lt {l : Listing} (htids : ∀ task ∈ l.tasks, IsTid task.tid) {proc : Proc}
    (hproc : proc ∈ l.procs) : proc.tasks.length < 2 ^ 32 := by
  have hsub : (proc.tasks.map Task.tid).Sublist ((l.procs.flatMap Proc.tasks).map Task.tid) :=
    (List.sublist_flatten_of_mem (List.mem_map_of_mem hproc)).map Task.tid
  have hnodup : (proc.tasks.map Task.tid).Nodup := hsub.nodup l.nodup_tids
  have hrange : (proc.tasks.map Task.tid).toFinset ⊆ Finset.Ico 0 (2 ^ 31) := by
    intro tid htid
    obtain ⟨task, htask, rfl⟩ := List.mem_map.1 (List.mem_toFinset.1 htid)
    obtain ⟨hpos, hlt⟩ := htids task (List.mem_flatMap.2 ⟨proc, hproc, htask⟩)
    exact Finset.mem_Ico.2 ⟨hpos.le, hlt⟩
  have hcard := Finset.card_le_card hrange
  rw [List.toFinset_card_of_nodup hnodup, List.length_map, Int.card_Ico] at hcard
  omega

theorem toNat_cnt {l : Listing} (htids : ∀ task ∈ l.tasks, IsTid task.tid) {proc : Proc}
    (hproc : proc ∈ l.procs) : proc.cnt.toNat = proc.tasks.length :=
  UInt32.toNat_ofNat_of_lt' (length_tasks_lt htids hproc)

/-- The usage of a thread is its share: without an earlier time of the system it is zero, and
otherwise nothing may overflow. -/
def ThreadShown (s : CpuUsage) (task : Task) : Prop :=
  if s.totalCpuTimeOld = 0 then
    threadFigure s.cpuNum.toNat (s.taskTime task) s.totalCpuTimeDelta.toNat = 0
  else Fits32 s.cpuNum.toNat (s.taskTime task) s.totalCpuTimeDelta.toNat

/-- The usage of a process is its share: the average of the times of its tasks may leave out no
time that makes up a percent. -/
def ProcessShown (s : CpuUsage) (proc : Proc) : Prop :=
  let n := proc.tasks.length
  if s.totalCpuTimeOld = 0 then
    processFigure s.cpuNum.toNat (s.tasksTime proc) n s.totalCpuTimeDelta.toNat = 0
  else
    Fits32 s.cpuNum.toNat (averageTime (s.tasksTime proc) n) s.totalCpuTimeDelta.toNat ∧
      ¬ FillsUp s.cpuNum.toNat (s.tasksTime proc) n s.totalCpuTimeDelta.toNat

theorem threadUsage_refreshThread {s s' : CpuUsage} {env : Env} {l : Listing}
    (h : s.refreshThread env = .ok s') (hl : env.openproc s.pids = some l) {task : Task}
    (htask : task ∈ l.tasks) : s'.threadCpuUsage task.tid =
      (if s.getTotalCpuTimeDelta = 0 then 0
        else (timeDelta s.threadCpuUsageData[task.tid]? task).toUInt32 * 100 * s.cpuNum
          / s.getTotalCpuTimeDelta).toInt32.toInt := by
  obtain ⟨l', hl', -, hdata⟩ := refreshThread_ok h
  obtain rfl : l = l' := Option.some.inj (hl.symm.trans hl')
  rw [Tracked.threadCpuUsage_after (hdata task.tid), task?_of_mem htask]
  cases s.threadCpuUsageData[task.tid]? <;> rfl

theorem zero_eq_iff {n : Nat} : (0 : Int) = n ↔ n = 0 := by omega

theorem threadShown_iff {s s' : CpuUsage} {env : Env} {l : Listing}
    (h : s.refreshThread env = .ok s') (hl : env.openproc s.pids = some l)
    (hdelta : s.totalCpuTimeDelta ≠ 0) {task : Task} (htask : task ∈ l.tasks) :
    s'.threadCpuUsage task.tid =
        threadFigure s.cpuNum.toNat (s.taskTime task) s.totalCpuTimeDelta.toNat ↔
      ThreadShown s task := by
  rw [threadUsage_refreshThread h hl htask, ThreadShown, getTotalCpuTimeDelta]
  by_cases hold : s.totalCpuTimeOld = 0
  · simp only [hold, if_true]
    exact zero_eq_iff
  · simp only [if_neg hold, if_neg hdelta]
    exact threadFigure_iff hdelta rfl

theorem processShown_iff {s s' : CpuUsage} {env : Env} {l : Listing}
    (h : s.refreshThread env = .ok s') (hl : env.openproc s.pids = some l)
    (hdelta : s.totalCpuTimeDelta ≠ 0) (htids : ∀ task ∈ l.tasks, IsTid task.tid)
    {pre : List Proc} {proc : Proc} {post : List Proc} (hprocs : l.procs = pre ++ proc :: post)
    (hlast : proc.tid ∉ post.map Proc.tid) (htasks : proc.tasks ≠ []) :
    s'.processCpuUsage proc.tid = processFigure s.cpuNum.toNat (s.tasksTime proc)
        proc.tasks.length s.totalCpuTimeDelta.toNat ↔
      ProcessShown s proc := by
  have hproc : proc ∈ l.procs := by
    rw [hprocs]
    exact List.mem_append_right _ List.mem_cons_self
  have hcnt := toNat_cnt htids hproc
  rw [processCpuUsage, processUsage_refreshThread h hl hdelta hprocs hlast, ProcessShown]
  by_cases hold : s.totalCpuTimeOld = 0
  · simp only [hold, if_true]
    exact zero_eq_iff
  · simp only [if_neg hold]
    have hnonzero : proc.cnt ≠ 0 := by
      intro hzero
      rw [hzero] at hcnt
      exact htasks (List.length_eq_zero_iff.1 hcnt.symm)
    have htime : (s.invalidate.processTime proc).toUInt32.toNat = s.tasksTime proc % 2 ^ 32 := by
      have hsame : s.invalidate.taskTime = s.taskTime := funext s.taskTime_invalidate
      rw [toNat_processTime, tasksTime, hsame, tasksTime]
    rw [← hcnt]
    exact processFigure_iff hnonzero hdelta htime

/-- **A refresh leaves the exact figure for a thread, and for a process, exactly when it is
shown.** -/
theorem shown_iff {s s' : CpuUsage} {env : Env} {l : Listing}
    (h : s.refreshThread env = .ok s') (hl : env.openproc s.pids = some l)
    (hdelta : s.totalCpuTimeDelta ≠ 0) (htids : ∀ task ∈ l.tasks, IsTid task.tid) :
    (∀ pre proc post, l.procs = pre ++ proc :: post → proc.tid ∉ post.map Proc.tid →
      proc.tasks ≠ [] → (s'.processCpuUsage proc.tid = processFigure s.cpuNum.toNat
        (s.tasksTime proc) proc.tasks.length s.totalCpuTimeDelta.toNat ↔ ProcessShown s proc)) ∧
    ∀ task ∈ l.tasks, (s'.threadCpuUsage task.tid =
      threadFigure s.cpuNum.toNat (s.taskTime task) s.totalCpuTimeDelta.toNat ↔
        ThreadShown s task) :=
  ⟨fun _ _ _ hprocs hlast htasks => processShown_iff h hl hdelta htids hprocs hlast htasks,
    fun _ htask => threadShown_iff h hl hdelta htask⟩

/-! ### A process with two tasks -/

/-- Process 7 has the threads 7 and 8. -/
def twoTasks (utime utime' : UInt64) : Proc :=
  ⟨7, [⟨7, 7, 0, utime, 0⟩, ⟨8, 7, 0, utime', 0⟩]⟩

def twoTasksListing (utime utime' : UInt64) : Listing :=
  ⟨[twoTasks utime utime'], by simp [twoTasks]⟩

def twoTasksEnv (user utime utime' : UInt64) : Env where
  stat := some ⟨user, 0, 0, 0⟩
  openproc := fun _ => some (twoTasksListing utime utime')

def watchedTwoTasks : List Act := [.startWatching 7, .refresh ⟨twoTasksEnv 1000 50 50, none⟩]

/-- The threads have had 1 and 0 of the 10 that the system has had: the average is taken as 0, and
the usage of the process is not 5 but 0. -/
theorem processCpuUsage_twoTasks : ∃ s s', runE act { cpuNum := 1 } watchedTwoTasks = .ok s ∧
    (s.systemRead ⟨1010, 0, 0, 0⟩).refreshWatching.refreshThread (twoTasksEnv 1010 51 50) =
      .ok s' ∧ s'.processCpuUsage 7 = 0 ∧
    processFigure 1 ((s.systemRead ⟨1010, 0, 0, 0⟩).refreshWatching.tasksTime
      (twoTasks 51 50)) 2 10 = 5 := by
  obtain ⟨s, hrun, hs⟩ := exists_ok_of_any (x := runE act { cpuNum := 1 } watchedTwoTasks)
    (p := fun s => processFigure 1 ((s.systemRead ⟨1010, 0, 0, 0⟩).refreshWatching.tasksTime
        (twoTasks 51 50)) 2 10 = 5 ∧
      ((s.systemRead ⟨1010, 0, 0, 0⟩).refreshWatching.refreshThread
        (twoTasksEnv 1010 51 50)).toOption.any fun s' => s'.processCpuUsage 7 = 0)
    (by decide +kernel)
  obtain ⟨hfigure, hany⟩ := of_decide_eq_true hs
  obtain ⟨s', hrefresh, hs'⟩ := exists_ok_of_any hany
  exact ⟨s, s', hrun, hrefresh, of_decide_eq_true hs', hfigure⟩

/-- One of them has had all of the time. -/
theorem shown_iff_twoTasks : ∃ s s', runE act { cpuNum := 1 } watchedTwoTasks = .ok s ∧
    (s.systemRead ⟨1010, 0, 0, 0⟩).refreshWatching.refreshThread (twoTasksEnv 1010 60 50) =
      .ok s' ∧ (s'.threadCpuUsage 7 = 100 ↔
        ThreadShown (s.systemRead ⟨1010, 0, 0, 0⟩).refreshWatching ⟨7, 7, 0, 60, 0⟩) := by
  obtain ⟨s, hrun, hs⟩ := exists_ok_of_any (x := runE act { cpuNum := 1 } watchedTwoTasks)
    (p := fun s => s.cpuNum = 1 ∧ s.totalCpuTimeNew = 1000 ∧
      (s.systemRead ⟨1010, 0, 0, 0⟩).refreshWatching.taskTime ⟨7, 7, 0, 60, 0⟩ = 10 ∧
      ((s.systemRead ⟨1010, 0, 0, 0⟩).refreshWatching.refreshThread
        (twoTasksEnv 1010 60 50)).toOption.any fun _ => true)
    (by decide +kernel)
  obtain ⟨hnum, hnew, htime, hany⟩ := of_decide_eq_true hs
  obtain ⟨s', hrefresh, -⟩ := exists_ok_of_any hany
  have hdelta : (s.systemRead ⟨1010, 0, 0, 0⟩).refreshWatching.totalCpuTimeDelta = 10 := by
    show (1010 : UInt32) - s.totalCpuTimeNew = 10
    rw [hnew]
    decide
  obtain ⟨-, hthread⟩ := shown_iff hrefresh (l := twoTasksListing 60 50) rfl
    (by rw [hdelta]; decide) (by unfold IsTid; decide)
  have hshown := hthread ⟨7, 7, 0, 60, 0⟩ List.mem_cons_self
  have hcpus : (s.systemRead ⟨1010, 0, 0, 0⟩).refreshWatching.cpuNum = 1 := hnum
  rw [htime, hdelta, hcpus] at hshown
  exact ⟨s, s', hrun, hrefresh, hshown⟩

end CpuUsage

end LibVsf
