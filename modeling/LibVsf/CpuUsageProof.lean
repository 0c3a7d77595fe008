import LibVsf.CpuUsage
import LibVsf.Lib.Runs
import Mathlib.Algebra.Group.Int.Defs
import Mathlib.Algebra.Group.Nat.Defs

/-!
# `CpuUsage`: what is reported for a thread

A thread's record keeps its CPU time at the last refresh that listed it and is cleared by a
refresh that does not. A zero time also stands for "not sampled yet", so a thread whose CPU time
was still zero when it was first listed starts over.

`refresh_ok` says what a refresh that returns leaves, `Inv` what the record of a thread holds
between two refreshes: the time read by the last one, or nothing.

**Theorem (`reports_iff`).** After any history, a refresh reports the share of a thread exactly
unless the thread was `Missed`: its time was zero at the refresh before and its share is not, or
its share does not fit in an `int`.
-/

namespace LibVsf

open Std Runs

/-! ## The listing -/

namespace Listing

def tasks (l : Listing) : List Task := l.procs.flatMap Proc.tasks

def task? (l : Listing) (tid : Int) : Option Task := l.tasks.find? fun task => task.tid = tid

/-- The CPU time of a thread, if it is listed. -/
def reading (l : Listing) (tid : Int) : Option UInt64 :=
  (l.task? tid).map fun task => task.utime + task.stime

end Listing

namespace CpuUsage

/-- What procps lists for the processes watched at a refresh. -/
def listing (s : CpuUsage) (env : Env) : Option Listing := env.openproc s.refreshWatching.pids

/-! ## The loops of a refresh -/

/-- The two states have the same times of the system. -/
structure SameSystem (s s' : CpuUsage) : Prop where
  new : s'.totalCpuTimeNew = s.totalCpuTimeNew
  delta : s'.getTotalCpuTimeDelta = s.getTotalCpuTimeDelta
  cpuNum : s'.cpuNum = s.cpuNum

theorem SameSystem.trans {s s' s'' : CpuUsage} (h : SameSystem s s') (h' : SameSystem s' s'') :
    SameSystem s s'' :=
  ⟨h'.new.trans h.new, h'.delta.trans h.delta, h'.cpuNum.trans h.cpuNum⟩

/-- The record of a task that was listed. -/
def sampled (sysCpu cpuNum : UInt32) (data : Option ThreadCpuUsageData) (task : Task) :
    ThreadCpuUsageData :=
  { (data.getD {}).update sysCpu cpuNum task with valid := true }

/-- What `readTask` does to the records of the threads. -/
def sampleTask (sysCpu cpuNum : UInt32) (m : ExtTreeMap Int ThreadCpuUsageData) (task : Task) :
    ExtTreeMap Int ThreadCpuUsageData :=
  m.insert task.tid (sampled sysCpu cpuNum m[task.tid]? task)

theorem SameSystem.setProcess (s : CpuUsage) (pid : Int) (usage : Int32) :
    SameSystem s (s.setProcess pid usage) :=
  ⟨rfl, rfl, rfl⟩

theorem foldl_readTask (pid : Int) (tasks : List Task) (s : CpuUsage) :
    (tasks.foldl (readTask pid) s).threadCpuUsageData =
      tasks.foldl (sampleTask s.getTotalCpuTimeDelta s.cpuNum) s.threadCpuUsageData ∧
    SameSystem s (tasks.foldl (readTask pid) s) := by
  induction tasks generalizing s with
  | nil => exact ⟨rfl, rfl, rfl, rfl⟩
  | cons task tasks ih =>
    obtain ⟨hdata, hsys⟩ := ih (readTask pid s task)
    have hone : (readTask pid s task).threadCpuUsageData =
        sampleTask s.getTotalCpuTimeDelta s.cpuNum s.threadCpuUsageData task := by
      simp only [readTask, sampleTask, sampled]
      rw [ExtTreeMap.getD_eq_getD_getElem?]
      rfl
    have hsame : SameSystem s (readTask pid s task) := ⟨rfl, rfl, rfl⟩
    rw [List.foldl_cons, List.foldl_cons, hdata, hone]
    exact ⟨rfl, hsame.trans hsys⟩

theorem readProc_ok {s s' : CpuUsage} {proc : Proc} (h : s.readProc proc = .ok s') :
    s'.threadCpuUsageData =
      proc.tasks.foldl (sampleTask s.getTotalCpuTimeDelta s.cpuNum) s.threadCpuUsageData ∧
    SameSystem s s' := by
  have hshare : ∃ usage, s' = (s.readTasks proc).setProcess proc.tid usage := by
    unfold readProc shareProcess at h
    split_ifs at h
    · exact ⟨_, (Except.ok.inj h).symm⟩
    · exact ⟨_, (Except.ok.inj h).symm⟩
  obtain ⟨usage, rfl⟩ := hshare
  obtain ⟨hdata, hsys⟩ := foldl_readTask proc.tid proc.tasks (s.setProcess proc.tid 0)
  exact ⟨hdata, ((SameSystem.setProcess s proc.tid 0).trans hsys).trans
    (SameSystem.setProcess _ proc.tid usage)⟩

theorem readProcs_ok {s s' : CpuUsage} {procs : List Proc} (h : runE readProc s procs = .ok s') :
    s'.threadCpuUsageData = (procs.flatMap Proc.tasks).foldl
      (sampleTask s.getTotalCpuTimeDelta s.cpuNum) s.threadCpuUsageData ∧
    SameSystem s s' := by
  induction procs generalizing s with
  | nil =>
    cases h
    exact ⟨rfl, rfl, rfl, rfl⟩
  | cons proc procs ih =>
    obtain ⟨s₁, hproc, hrest⟩ := (runE_cons_ok readProc).1 h
    obtain ⟨hdata₁, hsys₁⟩ := readProc_ok hproc
    obtain ⟨hdata, hsys⟩ := ih hrest
    rw [List.flatMap_cons, List.foldl_append, ← hdata₁, ← hsys₁.delta, ← hsys₁.cpuNum]
    exact ⟨hdata, hsys₁.trans hsys⟩

/-! ## One refresh -/

/-- What `refresh_system` leaves. -/
def systemRead (s : CpuUsage) (stat : Stat) : CpuUsage :=
  { s with
    totalCpuTimeOld := s.totalCpuTimeNew
    totalCpuTimeNew := stat.total
    totalCpuTimeDelta := stat.total - s.totalCpuTimeNew
    idleTimeOld := s.idleTimeNew
    idleTimeNew := stat.idle.toUInt32
    idleTimeDelta := stat.idle.toUInt32 - s.idleTimeNew }

theorem refreshSystem_some {s : CpuUsage} {env : Env} {stat : Stat} (h : env.stat = some stat) :
    s.refreshSystem env = .ok (s.systemRead stat) := by
  simp only [refreshSystem, h]
  rfl

/-- The steps of a refresh that returns. -/
theorem refresh_steps {s s' : CpuUsage} {env : Env} (h : s.refresh env = .ok s') :
    ∃ (stat : Stat) (s₁ : CpuUsage), env.stat = some stat ∧
      (s.systemRead stat).refreshWatching.refreshThread env = .ok s₁ ∧
      s' = { s₁ with
        hasDataCnt := if s₁.hasDataCnt < 2 then s₁.hasDataCnt + 1 else s₁.hasDataCnt } := by
  obtain ⟨s₁, hsystem, hrest⟩ := bind_eq_ok.1 h
  obtain ⟨s₂, hthread, hcount⟩ := bind_eq_ok.1 hrest
  cases hstat : env.stat with
  | none =>
    simp only [refreshSystem, hstat] at hsystem
    cases hsystem
  | some stat =>
    rw [refreshSystem_some hstat] at hsystem
    cases hsystem
    exact ⟨stat, s₂, rfl, hthread, (Except.ok.inj hcount).symm⟩

/-- The steps of `refresh_thread` when it returns. -/
theorem refreshThread_steps {s s' : CpuUsage} {env : Env} (h : s.refreshThread env = .ok s') :
    ∃ (l : Listing) (s₁ : CpuUsage), env.openproc s.pids = some l ∧
      runE readProc s.invalidate l.procs = .ok s₁ ∧ s' = s₁.clearInvalid.publish := by
  unfold refreshThread at h
  cases hl : env.openproc s.pids with
  | none =>
    rw [hl] at h
    cases h
  | some l =>
    rw [hl] at h
    obtain ⟨s₁, hloop, h⟩ := bind_eq_ok.1 h
    rw [foldlM_eq_runE] at hloop
    exact ⟨l, s₁, rfl, hloop, (Except.ok.inj h).symm⟩

/-- The record of a thread after a refresh. -/
def recordAfter (sysCpu cpuNum : UInt32) (l : Listing) (tid : Int)
    (data : Option ThreadCpuUsageData) : Option ThreadCpuUsageData :=
  match l.task? tid with
  | some task => some (sampled sysCpu cpuNum (data.map fun d => { d with valid := false }) task)
  | none => data.map fun d => { d with valid := false }.clearData

/-- The CPU time a record holds: zero stands for none. -/
def lastTime (data : Option ThreadCpuUsageData) : UInt64 := (data.getD {}).proctimeNew

theorem lastTime_recordAfter (sysCpu cpuNum : UInt32) (l : Listing) (tid : Int)
    (data : Option ThreadCpuUsageData) :
    lastTime (recordAfter sysCpu cpuNum l tid data) = (l.reading tid).getD 0 := by
  simp only [recordAfter, Listing.reading]
  cases l.task? tid with
  | some task => rfl
  | none => cases data <;> rfl

theorem refreshThread_ok {s s' : CpuUsage} {env : Env} (h : s.refreshThread env = .ok s') :
    ∃ l, env.openproc s.pids = some l ∧ SameSystem s s' ∧ ∀ tid, s'.threadCpuUsageData[tid]? =
      recordAfter s.getTotalCpuTimeDelta s.cpuNum l tid s.threadCpuUsageData[tid]? := by
  obtain ⟨l, s₁, hl, hloop, rfl⟩ := refreshThread_steps h
  obtain ⟨hdata, hsys⟩ := readProcs_ok hloop
  have hpublish (s : CpuUsage) : s.publish.threadCpuUsageData = s.threadCpuUsageData ∧
      SameSystem s s.publish := by
    simp only [publish]
    split_ifs <;> exact ⟨rfl, rfl, rfl, rfl⟩
  have hinvalid : SameSystem s s.invalidate := ⟨rfl, rfl, rfl⟩
  have hclear : SameSystem s₁ s₁.clearInvalid := ⟨rfl, rfl, rfl⟩
  refine ⟨l, hl, ((hinvalid.trans hsys).trans hclear).trans (hpublish _).2, fun tid => ?_⟩
  rw [(hpublish _).1]
  show (s₁.threadCpuUsageData.map fun _ data =>
    if data.valid then data else data.clearData)[tid]? = _
  have hbefore : s.invalidate.threadCpuUsageData[tid]? =
      s.threadCpuUsageData[tid]?.map fun d => { d with valid := false } :=
    ExtTreeMap.getElem?_map
  have hfold := Maps.getElem?_foldl_insert Task.tid
    (sampled s.getTotalCpuTimeDelta s.cpuNum) l.nodup_tids s.invalidate.threadCpuUsageData tid
  rw [hbefore] at hfold
  rw [ExtTreeMap.getElem?_map, hdata]
  simp only [recordAfter, Listing.task?, Listing.tasks]
  refine (congrArg (Option.map _) hfold).trans ?_
  cases (l.procs.flatMap Proc.tasks).find? fun task => task.tid = tid with
  | none => cases s.threadCpuUsageData[tid]? <;> rfl
  | some task => rfl

/-- **A refresh that returns.** -/
theorem refresh_ok {s s' : CpuUsage} {env : Env} (h : s.refresh env = .ok s') :
    ∃ stat l, env.stat = some stat ∧ s.listing env = some l ∧
      s'.totalCpuTimeNew = stat.total ∧ s'.cpuNum = s.cpuNum ∧
      ∀ tid, s'.threadCpuUsageData[tid]? =
        recordAfter (if s.totalCpuTimeNew = 0 then 0 else stat.total - s.totalCpuTimeNew)
          s.cpuNum l tid s.threadCpuUsageData[tid]? := by
  obtain ⟨stat, s₁, hstat, hthread, rfl⟩ := refresh_steps h
  obtain ⟨l, hl, hsys, hdata⟩ := refreshThread_ok hthread
  exact ⟨stat, l, hstat, hl, hsys.new, hsys.cpuNum, hdata⟩

/-! ## Histories -/

/-- The sampler, with what procps listed at the last refresh. -/
structure Tracked where
  cpu : CpuUsage
  seen : Option Listing

namespace Tracked

/-- A sampler on a machine with `cpuNum` CPUs. -/
def init (cpuNum : UInt32) : Tracked := ⟨{ cpuNum := cpuNum }, none⟩

/-- What the listing is after an operation: a refresh replaces it, `clear` forgets it. -/
def seenAfter (t : Tracked) : Op → Option Listing
  | .refresh env => t.cpu.listing env
  | .clear => none
  | _ => t.seen

def step (t : Tracked) (op : Op) : Except (CpuUsageFailure × CpuUsage) Tracked :=
  (t.cpu.step op).map fun cpu => ⟨cpu, t.seenAfter op⟩

theorem runE_forget (t : Tracked) (ops : List Op) :
    (runE step t ops).map Tracked.cpu = runE CpuUsage.step t.cpu ops := by
  refine runE_map CpuUsage.step (fun t op => ?_) t ops
  simp only [step]
  cases t.cpu.step op <;> rfl

/-- The CPU time of a thread at the last refresh. -/
def lastReading (t : Tracked) (tid : Int) : Option UInt64 := t.seen.bind fun l => l.reading tid

/-- The CPU time of a thread at a refresh made now. -/
def reading (t : Tracked) (env : Env) (tid : Int) : Option UInt64 :=
  (t.cpu.listing env).bind fun l => l.reading tid

/-- The time the system had between the last refresh and one made now. -/
def sysDelta (t : Tracked) (env : Env) : UInt32 :=
  ((env.stat.map Stat.total).getD 0) - t.cpu.totalCpuTimeNew

/-- The record of a thread holds the time read at the last refresh, or none; and the system's
time is kept from one refresh to the next. -/
structure Inv (t : Tracked) : Prop where
  times : ∀ tid, lastTime t.cpu.threadCpuUsageData[tid]? = (t.lastReading tid).getD 0
  first : t.seen = none → t.cpu.totalCpuTimeNew = 0

/-! ### The invariant -/

/-- A sampler without records. -/
theorem inv_of_empty {t : Tracked} (hdata : t.cpu.threadCpuUsageData = ∅) (hseen : t.seen = none)
    (hnew : t.cpu.totalCpuTimeNew = 0) : t.Inv := by
  refine ⟨fun tid => ?_, fun _ => hnew⟩
  simp only [lastReading]
  rw [hdata, hseen, ExtTreeMap.getElem?_empty]
  rfl

theorem inv_init (cpuNum : UInt32) : (init cpuNum).Inv := inv_of_empty rfl rfl rfl

theorem inv_step {t t' : Tracked} {op : Op} (h : t.Inv) (hstep : t.step op = .ok t') :
    t'.Inv := by
  obtain ⟨cpu, hcpu, rfl⟩ := map_eq_ok.1 hstep
  cases op with
  | setCallback callbackFunc | startWatching pid | stopWatching pid =>
    obtain rfl := Except.ok.inj hcpu
    exact ⟨h.times, h.first⟩
  | clear =>
    obtain rfl := Except.ok.inj hcpu
    exact inv_of_empty rfl rfl rfl
  | refresh env =>
    obtain ⟨stat, l, hstat, hl, hnew, hnum, hdata⟩ := refresh_ok hcpu
    have hread (tid : Int) : lastReading ⟨cpu, t.seenAfter (.refresh env)⟩ tid = l.reading tid :=
      congrArg (fun seen : Option Listing => seen.bind fun l => l.reading tid) hl
    refine ⟨fun tid => ?_, fun hnone => ?_⟩
    · rw [hread, hdata, lastTime_recordAfter]
    · rw [show seenAfter t (.refresh env) = some l from hl] at hnone
      cases hnone

theorem inv_run {cpuNum : UInt32} {ops : List Op} {t : Tracked}
    (hrun : runE step (init cpuNum) ops = .ok t) : t.Inv :=
  runE_invariant step (inv_init cpuNum) (fun _ _ _ => inv_step) hrun

/-! ### What a refresh reports -/

/-- The share of a thread since the last refresh, of which the system had `sysDelta`. -/
def share (t : Tracked) (env : Env) (r' r : UInt64) : Nat :=
  100 * t.cpu.cpuNum.toNat * (r.toNat - r'.toNat) / (t.sysDelta env).toNat

/-- What should be reported for a thread after a refresh: -1 if it is gone, 0 if it is new,
otherwise its share. -/
def expected (t : Tracked) (env : Env) (tid : Int) : Int :=
  match t.lastReading tid, t.reading env tid with
  | _, none => -1
  | none, some _ => 0
  | some r', some r => t.share env r' r

/-- The thread's CPU time was zero at the last refresh and its share since is not, or its share
is beyond the range of an `int`. -/
def Missed (t : Tracked) (env : Env) (tid : Int) : Prop :=
  ∃ r' r, t.lastReading tid = some r' ∧ t.reading env tid = some r ∧
    (r' = 0 ∧ (t.sysDelta env).toNat ≤ 100 * t.cpu.cpuNum.toNat * r.toNat ∨
      r' ≠ 0 ∧ 2 ^ 31 ≤ t.share env r' r)

/-- The readings of a thread fit the arithmetic of the sampler. -/
def Fits (t : Tracked) (env : Env) (tid : Int) : Prop :=
  ∀ r' r, t.lastReading tid = some r' → t.reading env tid = some r →
    r' ≤ r ∧ 100 * t.cpu.cpuNum.toNat * (r.toNat - r'.toNat) < 2 ^ 32

theorem share_toNat {x y : UInt64} {n : UInt32} (sys : UInt32) (h : y ≤ x)
    (hfits : 100 * n.toNat * (x.toNat - y.toNat) < 2 ^ 32) :
    ((x - y).toUInt32 * 100 * n / sys).toNat =
      100 * n.toNat * (x.toNat - y.toNat) / sys.toNat := by
  have hsub : (x - y).toNat = x.toNat - y.toNat := UInt64.toNat_sub_of_le x y h
  have hprod : ((x - y).toUInt32 * 100 * n).toNat = 100 * n.toNat * (x.toNat - y.toNat) := by
    rw [UInt32.toNat_mul, UInt32.toNat_mul, UInt64.toNat_toUInt32, hsub]
    calc
      (x.toNat - y.toNat) % 2 ^ 32 * UInt32.toNat 100 % 2 ^ 32 * n.toNat % 2 ^ 32
        = (x.toNat - y.toNat) * 100 * n.toNat % 2 ^ 32 := by simp only [Nat.mod_mul_mod]; rfl
      _ = 100 * n.toNat * (x.toNat - y.toNat) % 2 ^ 32 := by
        rw [Nat.mul_assoc, Nat.mul_comm]
      _ = 100 * n.toNat * (x.toNat - y.toNat) := Nat.mod_eq_of_lt hfits
  rw [UInt32.toNat_div, hprod]

/-- `static_cast<int>` of an `unsigned int`. -/
theorem toInt32_toInt (x : UInt32) :
    x.toInt32.toInt = if x.toNat < 2 ^ 31 then (x.toNat : Int) else x.toNat - 2 ^ 32 := by
  show x.toBitVec.toInt = _
  rw [BitVec.toInt_eq_toNat_cond]
  have hx : x.toBitVec.toNat = x.toNat := rfl
  rw [hx]
  split_ifs <;> omega

/-- The usage a sampled task is given: none if the system's time or its own is not known. -/
theorem sampled_cpuUsage {sysCpu cpuNum : UInt32} {data : Option ThreadCpuUsageData}
    (task : Task) :
    (sampled sysCpu cpuNum data task).cpuUsage.toInt =
      if lastTime data = 0 ∨ sysCpu = 0 then 0
      else ((task.utime + task.stime - lastTime data).toUInt32 * 100 * cpuNum
        / sysCpu).toInt32.toInt := by
  show (if sysCpu = 0 then 0
    else (task.utime + task.stime - if lastTime data = 0 then task.utime + task.stime
      else lastTime data).toUInt32 * 100 * cpuNum / sysCpu).toInt32.toInt = _
  by_cases hsys : sysCpu = 0
  · rw [if_pos hsys, if_pos (Or.inr hsys)]
    rfl
  · by_cases htime : lastTime data = 0
    · rw [if_neg hsys, if_pos htime, if_pos (Or.inl htime), UInt64.sub_self]
      simp
    · rw [if_neg hsys, if_neg htime, if_neg (not_or.2 ⟨htime, hsys⟩)]

theorem lastTime_invalidated (data : Option ThreadCpuUsageData) :
    lastTime (data.map fun d => { d with valid := false }) = lastTime data := by
  cases data <;> rfl

/-- What is read for a thread after a refresh. -/
theorem threadCpuUsage_after {s : CpuUsage} {tid : Int} {sysCpu cpuNum : UInt32} {l : Listing}
    {data : Option ThreadCpuUsageData}
    (h : s.threadCpuUsageData[tid]? = recordAfter sysCpu cpuNum l tid data) :
    s.threadCpuUsage tid = match l.task? tid with
      | some task => (sampled sysCpu cpuNum (data.map fun d => { d with valid := false })
          task).cpuUsage.toInt
      | none => -1 := by
  simp only [threadCpuUsage]
  rw [h]
  simp only [recordAfter]
  cases l.task? tid with
  | some task => rfl
  | none => cases data <;> rfl

/-- **What a refresh reports for a thread.** -/
theorem threadCpuUsage_refresh {t : Tracked} {env : Env} {cpu : CpuUsage} (h : t.Inv) (tid : Int)
    (hcpu : t.cpu.refresh env = .ok cpu) :
    cpu.threadCpuUsage tid = match t.reading env tid with
      | none => -1
      | some r =>
        if (t.lastReading tid).getD 0 = 0 ∨ t.cpu.totalCpuTimeNew = 0 ∨ t.sysDelta env = 0 then 0
        else ((r - (t.lastReading tid).getD 0).toUInt32 * 100 * t.cpu.cpuNum
          / t.sysDelta env).toInt32.toInt := by
  obtain ⟨stat, l, hstat, hl, -, -, hdata⟩ := refresh_ok hcpu
  have hdelta : t.sysDelta env = stat.total - t.cpu.totalCpuTimeNew := by
    simp only [sysDelta]
    rw [hstat]
    rfl
  have hreading : t.reading env tid = l.reading tid :=
    congrArg (fun seen : Option Listing => seen.bind fun l => l.reading tid) hl
  rw [threadCpuUsage_after (hdata tid), hreading, ← hdelta]
  simp only [Listing.reading]
  cases l.task? tid with
  | none => rfl
  | some task =>
    show (sampled _ _ _ task).cpuUsage.toInt = _
    rw [sampled_cpuUsage, lastTime_invalidated, h.times tid]
    by_cases hnew : t.cpu.totalCpuTimeNew = 0
    · simp [hnew]
    · simp [hnew]

theorem missed_iff {t : Tracked} {env : Env} {tid : Int} {r' r : UInt64}
    (hr' : t.lastReading tid = some r') (hr : t.reading env tid = some r) :
    t.Missed env tid ↔ if r' = 0 then
      (t.sysDelta env).toNat ≤ 100 * t.cpu.cpuNum.toNat * r.toNat
    else 2 ^ 31 ≤ t.share env r' r := by
  simp only [Missed]
  simp only [hr', hr, Option.some.injEq, exists_eq_left', exists_and_left]
  split_ifs with h <;> simp [h]

theorem zero_eq_share_iff {t : Tracked} {env : Env} {r' r : UInt64} (hr' : r' = 0)
    (hsys : t.sysDelta env ≠ 0) : (0 : Int) = t.share env r' r ↔
      100 * t.cpu.cpuNum.toNat * r.toNat < (t.sysDelta env).toNat := by
  have hpos : 0 < (t.sysDelta env).toNat := by
    rw [Nat.pos_iff_ne_zero]
    exact fun h => hsys (UInt32.toNat_inj.1 h)
  subst hr'
  simp only [share]
  rw [eq_comm, Int.natCast_eq_zero, Nat.div_eq_zero_iff_lt hpos]
  rfl

/-- **After any history, a refresh reports the share of a thread exactly unless the thread was
`Missed`.** -/
theorem reports_iff {cpuNum : UInt32} {ops : List Op} {t t' : Tracked} {env : Env} (tid : Int)
    (hrun : runE step (init cpuNum) ops = .ok t) (hrefresh : t.step (.refresh env) = .ok t')
    (hfits : t.Fits env tid)
    (hsys : t.seen.isSome → t.cpu.totalCpuTimeNew ≠ 0 ∧ t.sysDelta env ≠ 0) :
    t'.cpu.threadCpuUsage tid = t.expected env tid ↔ ¬ t.Missed env tid := by
  obtain ⟨cpu, hcpu, rfl⟩ := map_eq_ok.1 hrefresh
  rw [threadCpuUsage_refresh (inv_run hrun) tid hcpu]
  simp only [expected]
  cases hnow : t.reading env tid with
  | none =>
    have hmissed : ¬ t.Missed env tid := by
      intro h
      obtain ⟨r', r, -, hr, -⟩ := h
      exact Option.some_ne_none r (hr.symm.trans hnow)
    exact iff_of_true (by cases t.lastReading tid <;> rfl) hmissed
  | some r =>
    cases hlast : t.lastReading tid with
    | none =>
      have hmissed : ¬ t.Missed env tid := by
        intro h
        obtain ⟨r', r, hr', -⟩ := h
        exact Option.some_ne_none r' (hr'.symm.trans hlast)
      exact iff_of_true (if_pos (Or.inl rfl)) hmissed
    | some r' =>
      obtain ⟨seen, hseen, -⟩ := Option.bind_eq_some_iff.1 hlast
      obtain ⟨hnew, hzero⟩ := hsys (by rw [hseen]; rfl)
      obtain ⟨hle, hbound⟩ := hfits r' r hlast hnow
      rw [missed_iff hlast hnow]
      by_cases hr' : r' = 0
      · -- The code takes the thread for a new one.
        simp only [Option.getD_some, hr', true_or, if_true]
        rw [← hr', zero_eq_share_iff hr' hzero, Nat.not_le]
      · have hshare := share_toNat (t.sysDelta env) hle hbound
        simp only [Option.getD_some, hr', hnew, hzero, or_self, if_false]
        rw [toInt32_toInt, hshare]
        show _ ↔ ¬ 2 ^ 31 ≤ t.share env r' r
        simp only [share]
        split_ifs <;> omega

/-! ### A new thread -/

/-- A refresh that lists thread 7 of process 7 with the CPU time `utime`, when the system has had
`user`. -/
def envAt (user utime : UInt64) : Env where
  stat := some ⟨user, 0, 0, 0⟩
  openproc := fun _ => some ⟨[⟨7, [⟨7, 7, 0, utime, 0⟩]⟩], by simp⟩

/-- The process is watched from a refresh on at which its thread has the CPU time `utime`. -/
def firstSeenAt (utime : UInt64) : List Op := [.startWatching 7, .refresh (envAt 1000 utime)]

theorem fits_envAt {t : Tracked} {utime utime' : UInt64} (hnum : t.cpu.cpuNum = 1)
    (hlast : t.lastReading 7 = some utime)
    (hnow : t.reading (envAt 1100 utime') 7 = some utime')
    (h : utime ≤ utime' ∧ 100 * (utime'.toNat - utime.toNat) < 2 ^ 32) :
    t.Fits (envAt 1100 utime') 7 := by
  intro r' r hr' hr
  obtain rfl := Option.some.inj (hr'.symm.trans hlast)
  obtain rfl := Option.some.inj (hr.symm.trans hnow)
  rw [hnum]
  exact h

/-- A thread that has used no CPU time when it is first listed and then all of one CPU for a
second is reported at 0 instead of 100. -/
theorem not_reports_new_thread : ∃ t t', runE step (init 1) (firstSeenAt 0) = .ok t ∧
    t.step (.refresh (envAt 1100 100)) = .ok t' ∧ t.Fits (envAt 1100 100) 7 ∧
    (t.cpu.totalCpuTimeNew ≠ 0 ∧ t.sysDelta (envAt 1100 100) ≠ 0) ∧
    t'.cpu.threadCpuUsage 7 = 0 ∧ t.expected (envAt 1100 100) 7 = 100 := by
  obtain ⟨t, hrun, ht⟩ := exists_ok_of_any (x := runE step (init 1) (firstSeenAt 0))
    (p := fun t => t.cpu.cpuNum = 1 ∧ t.lastReading 7 = some 0 ∧
      t.reading (envAt 1100 100) 7 = some 100 ∧
      t.cpu.totalCpuTimeNew ≠ 0 ∧ t.sysDelta (envAt 1100 100) ≠ 0 ∧
      t.expected (envAt 1100 100) 7 = 100 ∧
      (t.step (.refresh (envAt 1100 100))).toOption.any
        (fun t' => t'.cpu.threadCpuUsage 7 = 0) = true) (by decide +kernel)
  obtain ⟨hnum, hlast, hnow, hnew, hzero, hexp, hany⟩ := of_decide_eq_true ht
  obtain ⟨t', hstep, ht'⟩ := exists_ok_of_any hany
  exact ⟨t, t', hrun, hstep, fits_envAt hnum hlast hnow (by decide), ⟨hnew, hzero⟩,
    of_decide_eq_true ht', hexp⟩

/-- A thread that had used some CPU time when it was first listed. -/
theorem reports_iff_old_thread : ∃ t t', runE step (init 1) (firstSeenAt 50) = .ok t ∧
    t.step (.refresh (envAt 1100 100)) = .ok t' ∧
    (t'.cpu.threadCpuUsage 7 = t.expected (envAt 1100 100) 7 ↔
      ¬ t.Missed (envAt 1100 100) 7) := by
  obtain ⟨t, hrun, ht⟩ := exists_ok_of_any (x := runE step (init 1) (firstSeenAt 50))
    (p := fun t => t.cpu.cpuNum = 1 ∧ t.lastReading 7 = some 50 ∧
      t.reading (envAt 1100 100) 7 = some 100 ∧
      t.cpu.totalCpuTimeNew ≠ 0 ∧ t.sysDelta (envAt 1100 100) ≠ 0 ∧
      (t.step (.refresh (envAt 1100 100))).toOption.isSome = true) (by decide +kernel)
  obtain ⟨hnum, hlast, hnow, hnew, hzero, hsome⟩ := of_decide_eq_true ht
  obtain ⟨t', hstep, -⟩ := exists_ok_of_any (p := fun _ => true)
    (x := t.step (.refresh (envAt 1100 100))) (by
      cases hs : t.step (.refresh (envAt 1100 100)) with
      | error e =>
        rw [hs] at hsome
        cases hsome
      | ok t' => rfl)
  exact ⟨t, t', hrun, hstep, reports_iff 7 hrun hstep
    (fits_envAt hnum hlast hnow (by decide)) (fun _ => ⟨hnew, hzero⟩)⟩

end Tracked

end CpuUsage

end LibVsf
