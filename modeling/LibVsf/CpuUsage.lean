import LibVsf.VmSet

/-!
# `CpuUsage`: the CPU usage of the threads of the watched processes

`vm/dynamic/cpu_usage.cpp`. A refresh reads the system's CPU time from `/proc/stat`, applies the
requests to watch processes and asks procps for the tasks of the watched ones. The share of a
thread is the CPU time it got since the previous refresh over what the system had.

`unsigned int` and `unsigned long long` wrap as in the source; a `static_cast` to `int`
reinterprets the bits. A `pid_t` is an `Int`. What procps and `/proc/stat` give at a refresh
is its `Env`.
-/

namespace LibVsf

open Std

/-! ## What a refresh reads -/

/-- The fields of a task's `proc_t` that are used. -/
structure Task where
  tid : Int
  tgid : Int
  processor : Int
  utime : UInt64
  stime : UInt64

/-- A process `readproc` gives, with the tasks `readtask` gives for it. -/
structure Proc where
  tid : Int
  tasks : List Task

/-- The number of tasks `refresh_thread` counts for a process. -/
def Proc.cnt (proc : Proc) : UInt32 := UInt32.ofNat proc.tasks.length

/-- What is read from an open `PROCTAB`. A thread is listed once. -/
structure Listing where
  procs : List Proc
  nodup_tids : ((procs.flatMap Proc.tasks).map Task.tid).Nodup

/-- The numbers in the first line of `/proc/stat`. -/
structure Stat where
  user : UInt64
  nice : UInt64
  system : UInt64
  idle : UInt64

/-- The total, as an `unsigned int`. -/
def Stat.total (stat : Stat) : UInt32 := (stat.user + stat.nice + stat.system + stat.idle).toUInt32

/-- What a refresh reads: `none` where `fopen` or `openproc` fails. -/
structure Env where
  stat : Option Stat
  openproc : List Int → Option Listing

/-! ## `ThreadCpuUsageData` -/

structure ThreadCpuUsageData where
  valid : Bool := false
  proctimeNew : UInt64 := 0
  proctimeOld : UInt64 := 0
  cpuUsage : Int32 := -1
  processor : Int := -1
  tgid : Int := -1
deriving Inhabited

namespace ThreadCpuUsageData

/-- `update`. The system's CPU time and the number of CPUs are `CpuUsage`'s. -/
def update (d : ThreadCpuUsageData) (sysCpu cpuNum : UInt32) (task : Task) :
    ThreadCpuUsageData :=
  let proctime := task.utime + task.stime
  let proctimeOld := if d.proctimeNew = 0 then proctime else d.proctimeNew
  let proctimeDelta := (proctime - proctimeOld).toUInt32
  { d with
    processor := task.processor
    tgid := task.tgid
    proctimeNew := proctime
    proctimeOld := proctimeOld
    cpuUsage := (if sysCpu = 0 then 0 else proctimeDelta * 100 * cpuNum / sysCpu).toInt32 }

def clearData (d : ThreadCpuUsageData) : ThreadCpuUsageData :=
  { d with proctimeNew := 0, proctimeOld := 0, cpuUsage := -1, processor := -1, tgid := -1 }

end ThreadCpuUsageData

/-! ## `CpuUsage` -/

/-- How a refresh ends other than by returning. -/
inductive CpuUsageFailure where
  | fileOpenFailed (what : String)
  | openProcFailed (what : String)
  /-- An integer division by zero ends the program. -/
  | divisionByZero
deriving DecidableEq, Repr

structure CpuUsage where
  threadCpuUsageData : ExtTreeMap Int ThreadCpuUsageData := ∅
  processCpuUsageData : ExtTreeMap Int Int32 := ∅
  toStartWatching : List Int := []
  toStopWatching : List Int := []
  totalCpuTimeNew : UInt32 := 0
  totalCpuTimeOld : UInt32 := 0
  totalCpuTimeDelta : UInt32 := 0
  idleTimeOld : UInt32 := 0
  idleTimeNew : UInt32 := 0
  idleTimeDelta : UInt32 := 0
  hasDataCnt : Nat := 0
  callbackFunc : Callback := .null
  /-- The calls `callback_func_` has got: tgid, tid and usage. -/
  published : List (Int × Int × Int32) := []
  cpuNum : UInt32

namespace CpuUsage

/-- A refresh that fails leaves what it had changed. -/
abbrev Result := Except (CpuUsageFailure × CpuUsage) CpuUsage

def hasData (s : CpuUsage) : Bool := 2 ≤ s.hasDataCnt

/-- `get_total_cpu_time_delta`. -/
def getTotalCpuTimeDelta (s : CpuUsage) : UInt32 :=
  if s.totalCpuTimeOld = 0 then 0 else s.totalCpuTimeDelta

def setCallback (s : CpuUsage) (callbackFunc : Callback) : CpuUsage :=
  { s with callbackFunc := callbackFunc }

def startWatching (s : CpuUsage) (pid : Int) : CpuUsage :=
  { s with toStartWatching := s.toStartWatching ++ [pid] }

def stopWatching (s : CpuUsage) (pid : Int) : CpuUsage :=
  { s with toStopWatching := s.toStopWatching ++ [pid] }

def clear (s : CpuUsage) : CpuUsage :=
  { s with
    threadCpuUsageData := ∅
    processCpuUsageData := ∅
    toStartWatching := []
    toStopWatching := []
    totalCpuTimeNew := 0
    totalCpuTimeOld := 0
    totalCpuTimeDelta := 0
    idleTimeOld := 0
    idleTimeNew := 0
    idleTimeDelta := 0
    hasDataCnt := 0 }

/-! ### Refreshing -/

def refreshSystem (s : CpuUsage) (env : Env) : Result :=
  match env.stat with
  | none => .error (.fileOpenFailed "To open file: /proc/stat", s)
  | some stat => .ok { s with
      totalCpuTimeOld := s.totalCpuTimeNew
      totalCpuTimeNew := stat.total
      totalCpuTimeDelta := stat.total - s.totalCpuTimeNew
      idleTimeOld := s.idleTimeNew
      idleTimeNew := stat.idle.toUInt32
      idleTimeDelta := stat.idle.toUInt32 - s.idleTimeNew }

def refreshWatching (s : CpuUsage) : CpuUsage :=
  let watched := s.toStartWatching.foldl (fun m pid => m.insertIfNew pid 0) s.processCpuUsageData
  let watched := s.toStopWatching.foldl (fun m pid => m.erase pid) watched
  { s with processCpuUsageData := watched, toStartWatching := [], toStopWatching := [] }

/-- `thread_cpu_usage_data_[tid] = data`. -/
def setThread (s : CpuUsage) (tid : Int) (data : ThreadCpuUsageData) : CpuUsage :=
  { s with threadCpuUsageData := s.threadCpuUsageData.insert tid data }

/-- `process_cpu_usage_data_[pid] = usage`. -/
def setProcess (s : CpuUsage) (pid : Int) (usage : Int32) : CpuUsage :=
  { s with processCpuUsageData := s.processCpuUsageData.insert pid usage }

/-- The body of the `readtask` loop, for a task of the process `pid`. -/
def readTask (pid : Int) (s : CpuUsage) (task : Task) : CpuUsage :=
  let data := (s.threadCpuUsageData.getD task.tid {}).update s.getTotalCpuTimeDelta s.cpuNum task
  let delta := (data.proctimeNew - data.proctimeOld).toUInt32.toInt32
  (s.setThread task.tid { data with valid := true }).setProcess pid
    (s.processCpuUsageData.getD pid 0 + delta)

/-- The `readtask` loop. -/
def readTasks (s : CpuUsage) (proc : Proc) : CpuUsage :=
  proc.tasks.foldl (readTask proc.tid) (s.setProcess proc.tid 0)

/-- The share of a process, after the loop over its tasks has added up their times. -/
def shareProcess (s : CpuUsage) (proc : Proc) : Result :=
  if s.totalCpuTimeOld = 0 ∨ s.totalCpuTimeDelta = 0 then .ok (s.setProcess proc.tid 0)
  else if proc.cnt = 0 then .error (.divisionByZero, s)
  else .ok (s.setProcess proc.tid ((s.processCpuUsageData.getD proc.tid 0).toUInt32 / proc.cnt
    * 100 * s.cpuNum / s.totalCpuTimeDelta).toInt32)

/-- The body of the `readproc` loop. -/
def readProc (s : CpuUsage) (proc : Proc) : Result := (s.readTasks proc).shareProcess proc

/-- The `pids` array, up to the zero that ends it. -/
def pids (s : CpuUsage) : List Int := s.processCpuUsageData.keys

/-- The text of the exception: the loop over `pids` stops one short of the last. -/
def pidsStr (pids : List Int) : String :=
  String.join ((pids.take (pids.length - 1)).map fun pid => toString pid ++ " ")

/-- `valid_ = false` for every thread. -/
def invalidate (s : CpuUsage) : CpuUsage :=
  { s with threadCpuUsageData := s.threadCpuUsageData.map fun _ data =>
      { data with valid := false } }

/-- `clear_data()` for every thread that was not read. -/
def clearInvalid (s : CpuUsage) : CpuUsage :=
  { s with threadCpuUsageData := s.threadCpuUsageData.map fun _ data =>
      if data.valid then data else data.clearData }

def publish (s : CpuUsage) : CpuUsage :=
  if s.callbackFunc = .null then s
  else { s with published := s.published ++
    s.threadCpuUsageData.toList.map fun (tid, data) => (data.tgid, tid, data.cpuUsage) }

def refreshThread (s : CpuUsage) (env : Env) : Result :=
  match env.openproc s.pids with
  | none => .error (.openProcFailed ("To open pids: " ++ pidsStr s.pids), s)
  | some listing => do
    let s ← listing.procs.foldlM readProc s.invalidate
    return s.clearInvalid.publish

def refresh (s : CpuUsage) (env : Env) : Result := do
  let s ← s.refreshSystem env
  let s ← s.refreshWatching.refreshThread env
  return { s with hasDataCnt := if s.hasDataCnt < 2 then s.hasDataCnt + 1 else s.hasDataCnt }

/-! ### Reading -/

/-- What `get_thread_cpu_usage_without_refresh` reads under the lock. -/
def threadCpuUsage (s : CpuUsage) (tid : Int) : Int :=
  match s.threadCpuUsageData[tid]? with
  | some data => if data.valid then data.cpuUsage.toInt else -1
  | none => -1

/-- `get_thread_cpu_usage_without_refresh`: `none` while it waits for data. -/
def getThreadCpuUsageWithoutRefresh (s : CpuUsage) (tid : Int) : Option Int :=
  if s.hasData then some (s.threadCpuUsage tid) else none

/-- What `get_thread_running_on_cpu_without_refresh` reads under the lock. -/
def threadRunningOnCpu (s : CpuUsage) (tid : Int) : Int :=
  match s.threadCpuUsageData[tid]? with
  | some data => if data.valid then data.processor else -1
  | none => -1

def getThreadRunningOnCpuWithoutRefresh (s : CpuUsage) (tid : Int) : Option Int :=
  if s.hasData then some (s.threadRunningOnCpu tid) else none

/-- What `get_process_cpu_usage_without_refresh` reads under the lock. -/
def processCpuUsage (s : CpuUsage) (pid : Int) : Int :=
  match s.processCpuUsageData[pid]? with
  | some usage => usage.toInt
  | none => -1

def getProcessCpuUsageWithoutRefresh (s : CpuUsage) (pid : Int) : Option Int :=
  if s.hasData then some (s.processCpuUsage pid) else none

/-! ### Operations -/

inductive Op where
  | setCallback (callbackFunc : Callback)
  | startWatching (pid : Int)
  | stopWatching (pid : Int)
  | clear
  | refresh (env : Env)

def step (s : CpuUsage) : Op → Result
  | .setCallback callbackFunc => .ok (s.setCallback callbackFunc)
  | .clear => .ok s.clear
  | .startWatching pid => .ok (s.startWatching pid)
  | .stopWatching pid => .ok (s.stopWatching pid)
  | .refresh env => s.refresh env

/-! ### A caller that goes on after an exception -/

/-- What a refresh meets: what it reads, and the call of the callback that throws, if one does. -/
structure Round where
  env : Env
  callbackThrows : Option Nat := none

/-- How a refresh ends that does not end the program. -/
inductive Ended where
  | returned
  | statFailed
  | openprocFailed
  | callbackThrew
deriving DecidableEq, Repr

/-- The calls of the callback for what a refresh has left. -/
def callbackCalls (s : CpuUsage) : List (Int × Int × Int32) :=
  if s.callbackFunc = .null then []
  else s.threadCpuUsageData.toList.map fun (tid, data) => (data.tgid, tid, data.cpuUsage)

/-- `refresh`, when the caller catches what it throws. The callback is called last: an exception
of its call `n` leaves out the calls after it and the count. -/
def tryRefresh (s : CpuUsage) (round : Round) : Except CpuUsageFailure (CpuUsage × Ended) :=
  match s.refresh round.env with
  | .ok s' =>
    match round.callbackThrows with
    | some n =>
      if n < s'.callbackCalls.length then
        .ok ({ s' with
          hasDataCnt := s.hasDataCnt
          published := s.published ++ s'.callbackCalls.take (n + 1) }, .callbackThrew)
      else .ok (s', .returned)
    | none => .ok (s', .returned)
  | .error (.fileOpenFailed _, s') => .ok (s', .statFailed)
  | .error (.openProcFailed _, s') => .ok (s', .openprocFailed)
  | .error (.divisionByZero, _) => .error .divisionByZero

inductive Act where
  | setCallback (callbackFunc : Callback)
  | startWatching (pid : Int)
  | stopWatching (pid : Int)
  | clear
  | refresh (round : Round)

def act (s : CpuUsage) : Act → Except CpuUsageFailure CpuUsage
  | .setCallback callbackFunc => .ok (s.setCallback callbackFunc)
  | .clear => .ok s.clear
  | .startWatching pid => .ok (s.startWatching pid)
  | .stopWatching pid => .ok (s.stopWatching pid)
  | .refresh round => (s.tryRefresh round).map Prod.fst

end CpuUsage

end LibVsf
