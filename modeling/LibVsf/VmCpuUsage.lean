import LibVsf.CpuUsage
import LibVsf.VmCacheMiss

/-!
# `VmCpuUsage`: the CPU usage of the VMs

`vm/dynamic/vm_cpu_usage.cpp`. A refresh asks `VmBase` for the VMs, tells `CpuUsage` which
processes are new and which are gone since the last time, and refreshes it. `last_pids_` is what
`CpuUsage` has been told to watch.

`CpuUsage` passes the usage of every thread to `cpu_usage_callback`, which passes it on to
`callback_func_`.
-/

namespace LibVsf

open Std

structure VmCpuUsage where
  cpuUsage : CpuUsage
  lastPids : Tids := ∅
  callbackFunc : Callback := .null
  /-- The calls `callback_func_` has got. -/
  published : List (Int × Int × Int32) := []

namespace VmCpuUsage

/-- The constructor, on a machine with `cpuNum` CPUs. -/
def init (cpuNum : UInt32) : VmCpuUsage where
  cpuUsage := { cpuNum := cpuNum, callbackFunc := .cpuUsageCallback }

/-- The pids of the VMs. -/
def pidsOf (vmIds : List VmId) : Tids := ExtTreeSet.ofList (vmIds.map VmId.pid)

/-- The section of `refresh` that holds the lock, after `get_vm_ids`. -/
def prepare (s : VmCpuUsage) (vmIds : List VmId) : VmCpuUsage :=
  let pids := pidsOf vmIds
  let toStart := pids.toList.filter fun pid => !s.lastPids.contains pid
  let toStop := s.lastPids.toList.filter fun pid => !pids.contains pid
  { s with
    lastPids := pids
    cpuUsage := toStop.foldl CpuUsage.stopWatching
      (toStart.foldl CpuUsage.startWatching s.cpuUsage) }

/-- What the calls of `cpu_usage_callback` since `old` pass on. -/
def cpuUsageCallback (s : VmCpuUsage) (old : CpuUsage) : VmCpuUsage :=
  if s.callbackFunc = .null then s
  else { s with published := s.published ++ s.cpuUsage.published.drop old.published.length }

/-- `cpu_usage_->refresh()`. One that fails leaves what it had changed. -/
def refreshCpuUsage (s : VmCpuUsage) (env : Env) :
    Except (CpuUsageFailure × VmCpuUsage) VmCpuUsage :=
  match s.cpuUsage.refresh env with
  | .ok cpuUsage => .ok ({ s with cpuUsage := cpuUsage }.cpuUsageCallback s.cpuUsage)
  | .error (failure, cpuUsage) => .error (failure, { s with cpuUsage := cpuUsage })

/-- `refresh`, if `VmBase` answers. -/
def refresh (s : VmCpuUsage) (vmIds : List VmId) (env : Env) :
    Except (CpuUsageFailure × VmCpuUsage) VmCpuUsage :=
  (s.prepare vmIds).refreshCpuUsage env

def clear (s : VmCpuUsage) : VmCpuUsage :=
  { s with cpuUsage := s.cpuUsage.clear, lastPids := ∅ }

/-! ### Operations -/

inductive Op where
  | setCallback (callbackFunc : Callback)
  | refresh (vmIds : List VmId) (env : Env)
  | clear

def step (s : VmCpuUsage) : Op → Except (CpuUsageFailure × VmCpuUsage) VmCpuUsage
  | .setCallback callbackFunc => .ok { s with callbackFunc := callbackFunc }
  | .refresh vmIds env => s.refresh vmIds env
  | .clear => .ok s.clear

end VmCpuUsage

end LibVsf
