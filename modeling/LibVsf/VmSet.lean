import LibVsf.FuncOption

/-!
# `VmSet`: the options of the VM modules

`VmSet` (`framework/vm.cpp`) passes the parameters of the three VM options it knows to their
modules and keeps them in the option store, which also owns the callback objects the user
allocated. This is the part of the modules that can be configured; what they sample is modelled
with the samplers.

Reading the callback object of a parameter dereferences the pointer stored in it. A null one
ends the program: `Fault.nullCallback`. Reads and deletions of callback objects are logged.
-/

namespace LibVsf

open Std

/-! ## Parameters of the modules -/

/-- What a module's `std::function` holds: nothing, the function one sampler registers with
another, or a copy of a callback object of the user. -/
inductive Callback where
  | null
  | cpuUsageCallback
  | calVmMissRate
  | user (obj : Nat)
deriving DecidableEq, Repr, Inhabited

/-- The parameters of `VmBase`. -/
structure VmBaseParam where
  vmCmd : String := "qemu-system-x86_64"
  intervalMs : Int := 5000
  callbackFunc : Callback := .null
deriving DecidableEq, Repr, Inhabited

/-- The parameters of `CpuUsage`. -/
structure CpuUsageParam where
  intervalMs : Int := 1000
  callbackFunc : Callback := .null
deriving DecidableEq, Repr, Inhabited

/-- The parameters of `VmCpuUsage` and of the `CpuUsage` it drives, whose callback the
constructor registers. -/
structure VmCpuUsageParam where
  intervalMs : Int := 1000
  callbackFunc : Callback := .null
  cpuUsage : CpuUsageParam := { callbackFunc := .cpuUsageCallback }
deriving DecidableEq, Repr, Inhabited

/-- The parameters of `CacheMiss`. -/
structure CacheMissParam where
  loopIntervalMs : Int := 1000
  sampleIntervalUs : Int := 50000
  callbackFunc : Callback := .null
deriving DecidableEq, Repr, Inhabited

/-- The parameters of `VmCacheMiss` and of the `CacheMiss` it drives. -/
structure VmCacheMissParam where
  loopIntervalMs : Int := 1000
  callbackFunc : Callback := .null
  cacheMiss : CacheMissParam := { callbackFunc := .calVmMissRate }
deriving DecidableEq, Repr, Inhabited

def VmBaseParam.clearParam (s : VmBaseParam) : VmBaseParam :=
  { s with intervalMs := 5000, vmCmd := "qemu-system-x86_64", callbackFunc := .null }

def CpuUsageParam.clearParam (s : CpuUsageParam) : CpuUsageParam :=
  { s with intervalMs := 1000, callbackFunc := .null }

def VmCpuUsageParam.clearParam (s : VmCpuUsageParam) : VmCpuUsageParam :=
  { s with
    cpuUsage := { s.cpuUsage.clearParam with callbackFunc := .cpuUsageCallback }
    intervalMs := 1000
    callbackFunc := .null }

def CacheMissParam.clearParam (s : CacheMissParam) : CacheMissParam :=
  { s with loopIntervalMs := 1000, sampleIntervalUs := 50000, callbackFunc := .null }

def VmCacheMissParam.clearParam (s : VmCacheMissParam) : VmCacheMissParam :=
  { s with
    cacheMiss := { s.cacheMiss.clearParam with callbackFunc := .calVmMissRate }
    loopIntervalMs := 1000
    callbackFunc := .null }

/-! ## The class -/

/-- An access to a callback object on the heap. -/
inductive CallbackEvent where
  | read (obj : Nat)
  | delete (obj : Nat)
deriving DecidableEq, Repr

/-- Dereferences of a null pointer. -/
inductive Fault where
  | nullCallback
  | nullHost
deriving DecidableEq, Repr

structure VmSet where
  funcOption : FuncOption := {}
  vmBase : VmBaseParam := {}
  vmCpuUsage : VmCpuUsageParam := {}
  vmCacheMiss : VmCacheMissParam := {}
  events : List CallbackEvent := []

namespace VmSet

/-- `delete` of the object a parameter points to; nothing happens for a null pointer. -/
def delete (s : VmSet) (v : OptionParamVal) : VmSet :=
  match v.getPointer with
  | none => s
  | some obj => { s with events := s.events ++ [.delete obj] }

/-- `delete_callback`: the three cases differ in the type they cast the pointer to. -/
def deleteCallback (s : VmSet) (op : OptionId) : VmSet :=
  match op with
  | .vmBase | .vmCpuUsage | .vmCacheMiss =>
    if s.funcOption.checkOption op then
      (s.funcOption.getParam op).foldl
        (fun s p v => match p with | .callback => s.delete v | _ => s) s
    else s
  | _ => s

/-! ### Setting parameters -/

/-- `*((..._callback_t *) p.second.get_pointer())`. -/
def readCallback (s : VmSet) (v : OptionParamVal) : Except Fault (VmSet × Callback) :=
  match v.getPointer with
  | none => .error .nullCallback
  | some obj => .ok ({ s with events := s.events ++ [.read obj] }, .user obj)

/-- One parameter in `set_param_by_option`. -/
def setOneParam (op : OptionId) (s : VmSet) (p : OptionParam × OptionParamVal) :
    Except Fault VmSet :=
  match op, p with
  | .vmBase, (.vmCmd, v) => .ok { s with vmBase := { s.vmBase with vmCmd := v.getString } }
  | .vmBase, (.loopInterval, v) =>
    .ok { s with vmBase := { s.vmBase with intervalMs := v.getInt } }
  | .vmBase, (.callback, v) => do
    let (s, f) ← s.readCallback v
    return { s with vmBase := { s.vmBase with callbackFunc := f } }
  | .vmCpuUsage, (.loopInterval, v) =>
    .ok { s with vmCpuUsage := { s.vmCpuUsage with intervalMs := v.getInt } }
  | .vmCpuUsage, (.callback, v) => do
    let (s, f) ← s.readCallback v
    return { s with vmCpuUsage := { s.vmCpuUsage with callbackFunc := f } }
  | .vmCacheMiss, (.loopInterval, v) =>
    .ok { s with vmCacheMiss := { s.vmCacheMiss with loopIntervalMs := v.getInt } }
  | .vmCacheMiss, (.sampleInterval, v) =>
    .ok { s with vmCacheMiss := { s.vmCacheMiss with
      cacheMiss := { s.vmCacheMiss.cacheMiss with sampleIntervalUs := v.getInt } } }
  | .vmCacheMiss, (.callback, v) => do
    let (s, f) ← s.readCallback v
    return { s with vmCacheMiss := { s.vmCacheMiss with callbackFunc := f } }
  | _, _ => .ok s

def setParamByOption (s : VmSet) (op : OptionId) (params : Params) : Except Fault VmSet :=
  params.toList.foldlM (setOneParam op) s

/-- One option in `set_param`. -/
def setOneOption (s : VmSet) (p : OptionId × Params) : Except Fault VmSet :=
  match p.1 with
  | .vmBase | .vmCpuUsage | .vmCacheMiss =>
    (if s.funcOption.checkOption p.1 then s.deleteCallback p.1 else s).setParamByOption p.1 p.2
  | _ => .ok s

def setParam (s : VmSet) (ops : Options) : Except Fault VmSet := do
  let s ← ops.toList.foldlM setOneOption s
  return { s with funcOption := s.funcOption.enableOption ops }

/-! ### Clearing parameters -/

/-- The record `clear_param` stores for an option. Its callback is `NULL`. -/
def defaultParams : OptionId → Params
  | .vmBase => .of [(.vmCmd, .str "qemu-system-x86_64"), (.loopInterval, .int 5000),
      (.callback, .ptr none)]
  | .vmCpuUsage => .of [(.loopInterval, .int 1000), (.callback, .ptr none)]
  | .vmCacheMiss => .of [(.loopInterval, .int 1000), (.sampleInterval, .int 50000),
      (.callback, .ptr none)]
  | _ => ∅

/-- `clear_param()` of the module of an option. -/
def clearModule (s : VmSet) : OptionId → VmSet
  | .vmBase => { s with vmBase := s.vmBase.clearParam }
  | .vmCpuUsage => { s with vmCpuUsage := s.vmCpuUsage.clearParam }
  | .vmCacheMiss => { s with vmCacheMiss := s.vmCacheMiss.clearParam }
  | _ => s

/-- The statements under one label of the `switch` in `clear_param`. The label is `target`; the
`if` asks about the option `op` of the call. -/
def clearCase (op target : OptionId) (s : VmSet) : VmSet :=
  let s :=
    if s.funcOption.checkOption op then
      let s := s.deleteCallback op
      { s with funcOption := s.funcOption.enableOption (.of [(target, defaultParams target)]) }
    else s
  s.clearModule target

/-- One option in `clear_param`. Only the last of the three labels has a `break`. -/
def clearOneOption (s : VmSet) (op : OptionId) : VmSet :=
  match op with
  | .vmBase =>
    clearCase op .vmCacheMiss (clearCase op .vmCpuUsage (clearCase op .vmBase s))
  | .vmCpuUsage => clearCase op .vmCacheMiss (clearCase op .vmCpuUsage s)
  | .vmCacheMiss => clearCase op .vmCacheMiss s
  | _ => s

def clearParam (s : VmSet) (ops : List OptionId) : VmSet := ops.foldl clearOneOption s

/-! ### Starting the samplers -/

/-- The block of `init_vms` for one option: its stored parameters are applied again. -/
def applyStored (s : VmSet) (op : OptionId) : Except Fault VmSet :=
  if s.funcOption.checkOption op then s.setParamByOption op (s.funcOption.getParam op) else .ok s

/-- `init_vms`, without the samplers it starts and the VMs it returns. -/
def initVms (s : VmSet) : Except Fault VmSet := do
  let s ← s.applyStored .vmBase
  let s ← s.applyStored .vmCpuUsage
  s.applyStored .vmCacheMiss

end VmSet

end LibVsf
