import LibVsf.CacheMiss
import LibVsf.VmId
import Std.Data.ExtTreeSet

/-!
# `VmCacheMiss`: the cache misses of the VMs

`vm/dynamic/vm_cache_miss.cpp`. A refresh has three critical sections. The first asks `VmBase`
for the threads of the VMs and tells `CacheMiss` which to start and stop watching; the second
and third are the `start_sample` and `stop_sample` of `CacheMiss`, whose callback
`cal_vm_miss_rate` adds the counts of a thread to those of its VM.

What `VmBase` answers in the first section is a `VmView`; in the third it is asked for the VM of
every thread (`toVmId`). The map of the counts compares the `VmId`s that are its keys with the
tolerance of `operator<`.
-/

namespace LibVsf

open Std

/-! ## `VmBase` -/

/-- `std::set<pid_t>`. -/
abbrev Tids := ExtTreeSet Int

/-- The VMs and their threads. -/
structure VmView where
  vmIds : List VmId
  stable : VmId → Tids
  volatile : VmId → Tids

/-- `map[tid] = vm_id` for the threads of every VM. -/
def assignThreads (threads : VmId → Tids) (vmIds : List VmId) (m : ExtTreeMap Int VmId) :
    ExtTreeMap Int VmId :=
  vmIds.foldl (fun m vmId => (threads vmId).toList.foldl (fun m tid => m.insert tid vmId) m) m

namespace VmView

/-- The threads that `refresh` collects. -/
def tids (view : VmView) : Tids :=
  view.vmIds.foldl (fun tids vmId =>
    (tids.insertMany (view.stable vmId).toList).insertMany (view.volatile vmId).toList) ∅

/-- `stable_vmthread_id_to_vm_id`: the map is filled with the stable threads. -/
def stableVmthreadIdToVmId (view : VmView) (tid : Int) : VmId :=
  (assignThreads view.stable view.vmIds ∅).getD tid {}

end VmView

/-! ## `VmCacheMiss` -/

structure VmCacheMiss where
  cacheMiss : CacheMiss := { callbackFunc := .calVmMissRate }
  vmCacheMissData : EqvMap VmId CacheMissData := ∅
  lastTids : Tids := ∅
  volatileVmthreadIdToVmId : ExtTreeMap Int VmId := ∅
  callbackFunc : Callback := .null
  /-- What `callback_func_` has been called with. -/
  published : List CacheMissData := []

namespace CacheMissData

/-- `+=` of the four counts, and `update_miss_rate`. -/
def accumulate (d data : CacheMissData) : CacheMissData :=
  (d.mapEvents fun e p => { p with count := p.count + (data.event e).count }).updateMissRate

end CacheMissData

namespace VmCacheMiss

/-! ### The critical sections of a refresh -/

/-- The first section. -/
def prepare (s : VmCacheMiss) (view : VmView) : VmCacheMiss :=
  let toStart := view.tids.toList.filter fun tid => !s.lastTids.contains tid
  let toStop := s.lastTids.toList.filter fun tid => !view.tids.contains tid
  { s with
    vmCacheMissData := ∅
    volatileVmthreadIdToVmId :=
      assignThreads view.volatile view.vmIds s.volatileVmthreadIdToVmId
    lastTids := view.tids
    cacheMiss := toStop.foldl CacheMiss.stopWatching
      (toStart.foldl CacheMiss.startWatching s.cacheMiss) }

def startSample (s : VmCacheMiss) (env : SampleEnv) : VmCacheMiss :=
  { s with cacheMiss := s.cacheMiss.startSample env }

/-- `cal_vm_miss_rate`, after the VM has been found. -/
def addToVm (s : VmCacheMiss) (vmId : VmId) (data : CacheMissData) : VmCacheMiss :=
  { s with
    vmCacheMissData :=
      s.vmCacheMissData.insert vmId (((s.vmCacheMissData.find vmId).getD {}).accumulate data)
    published := if s.callbackFunc = .null then s.published else s.published ++ [data] }

/-- `cal_vm_miss_rate`. The second lookup is an `operator[]`, which inserts an id for a thread
that has none. -/
def calVmMissRate (toVmId : Int → VmId) (s : VmCacheMiss) (data : CacheMissData) : VmCacheMiss :=
  if (toVmId data.tid).startTimestamp ≠ 0 then s.addToVm (toVmId data.tid) data
  else
    let vmId := s.volatileVmthreadIdToVmId.getD data.tid {}
    let s := { s with
      volatileVmthreadIdToVmId := s.volatileVmthreadIdToVmId.insertIfNew data.tid {} }
    if vmId.startTimestamp = 0 then s else s.addToVm vmId data

/-- `stop_sample`, with the calls of its callback. -/
def stopSample (s : VmCacheMiss) (toVmId : Int → VmId) (env : SampleEnv) : VmCacheMiss :=
  let (cacheMiss, published) := s.cacheMiss.stopSample env
  let s := { s with cacheMiss := cacheMiss }
  match s.cacheMiss.callbackFunc with
  | .calVmMissRate => published.foldl (calVmMissRate toVmId) s
  | _ => s

/-- `has_data_ = true`, at the end of a refresh. -/
def setHasData (s : VmCacheMiss) : VmCacheMiss :=
  { s with cacheMiss := { s.cacheMiss with hasData := true } }

/-- `refresh`, by one caller. -/
def refresh (s : VmCacheMiss) (view : VmView) (env : SampleEnv) : VmCacheMiss :=
  (((s.prepare view).startSample env).stopSample view.stableVmthreadIdToVmId env).setHasData

def clear (s : VmCacheMiss) : VmCacheMiss :=
  { s with
    cacheMiss := s.cacheMiss.clear
    vmCacheMissData := ∅
    lastTids := ∅
    volatileVmthreadIdToVmId := ∅ }

/-- What `get_cache_miss` returns for a VM. -/
def getCacheMiss (s : VmCacheMiss) (vmId : VmId) : CacheMissData :=
  (s.vmCacheMissData.find vmId).getD { tid := vmId.pid }

/-- The refreshes of one caller. -/
def step (s : VmCacheMiss) (r : VmView × SampleEnv) : VmCacheMiss := s.refresh r.1 r.2

end VmCacheMiss

end LibVsf
