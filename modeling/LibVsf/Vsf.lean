import LibVsf.NodeTestDist
import LibVsf.VmSet

/-!
# `Vsf`: the calls of the framework

`vsf.cpp` and the option handling of `framework/host.cpp`. A call names any number of options;
those after the separator of `enum class Option` go to `VmSet` and the others to the `Host` that
`init_host` has constructed. Before that `host_` is null, and a call that names a host option
dereferences it: `Fault.nullHost`.
-/

namespace LibVsf

open Std

/-! ## `Host` -/

/-- The option store and the one host module with parameters. -/
structure Host where
  funcOption : FuncOption := {}
  nodeTestDist : NodeTestDist := {}

namespace Host

/-- `option_param_to_micro_param`. -/
def optionParamToMicroParam (params : Params) : MicroParam :=
  params.foldl (fun p k v =>
    match k with
    | .path => { p with path := v.getString }
    | .sizeInMb => { p with sizeInMb := v.getInt }
    | .workloadType => { p with type := v.getChar }
    | .loop => { p with loop := v.getInt }
    | _ => p) {}

/-- `micro_param_to_option_param`. -/
def microParamToOptionParam (p : MicroParam) : Params :=
  .of [(.path, .str p.path), (.sizeInMb, .int p.sizeInMb), (.workloadType, .char p.type),
    (.loop, .int p.loop)]

/-- What the constructor of `Host` meets outside of the library. -/
structure Env where
  /-- `NodeCpu::refresh` throws. -/
  nodeCpuThrows : Bool
  /-- The measurement of `NodeTestDist::refresh`, if it makes one. -/
  bench : Bench

/-- The constructor, and whether it completes. -/
def construct (s : Host) (env : Env) : Host × Bool :=
  if s.funcOption.checkOption .hsNodeCpu && env.nodeCpuThrows then (s, false)
  else if s.funcOption.checkOption .hsNodeTestDist then
    let dist := s.nodeTestDist.setParam
      (optionParamToMicroParam (s.funcOption.getParam .hsNodeTestDist))
    let (dist, result) := dist.getNodeTestDist env.bench
    ({ s with nodeTestDist := dist }, result.isSome)
  else (s, true)

def setParam (s : Host) (ops : Options) : Host :=
  let dist := ops.foldl (fun dist op params =>
    match op with
    | .hsNodeTestDist => dist.setParam (optionParamToMicroParam params)
    | _ => dist) s.nodeTestDist
  { funcOption := s.funcOption.enableOption ops, nodeTestDist := dist }

/-- One option in `clear_param`. -/
def clearOneOption (s : Host) (op : OptionId) : Host :=
  match op with
  | .hsNodeTestDist =>
    let funcOption :=
      if s.funcOption.checkOption .hsNodeTestDist then
        s.funcOption.enableOption (.of [(.hsNodeTestDist, microParamToOptionParam {})])
      else s.funcOption
    { funcOption := funcOption, nodeTestDist := s.nodeTestDist.clearParam }
  | _ => s

def clearParam (s : Host) (ops : List OptionId) : Host := ops.foldl clearOneOption s

end Host

/-! ## `Vsf` -/

structure Vsf where
  vmSet : VmSet := {}
  nodeTestDist : NodeTestDist := {}
  /-- `host_` is not null. -/
  host : Bool := false

namespace Vsf

/-- The host's view of the singletons it shares with `VmSet`. -/
def toHost (s : Vsf) : Host := ⟨s.vmSet.funcOption, s.nodeTestDist⟩

def withHost (s : Vsf) (h : Host) : Vsf :=
  { s with vmSet := { s.vmSet with funcOption := h.funcOption }, nodeTestDist := h.nodeTestDist }

/-- `init`, the first call of a run. -/
def init (ops : Options) : Vsf :=
  { vmSet := { funcOption := FuncOption.enableOption {} ops } }

/-- `init_host`. `Host::get_instance` constructs the host unless an earlier call has; if the
constructor throws, `host_` is not assigned. -/
def initHost (s : Vsf) (env : Host.Env) : Vsf :=
  if s.host then s
  else
    let (h, completed) := s.toHost.construct env
    { s.withHost h with host := completed }

/-- `host_->f()`. -/
def onHost (s : Vsf) (f : Host → Host) : Except Fault Vsf :=
  if s.host then .ok (s.withHost (f s.toHost)) else .error .nullHost

/-- `vm_set_->f()`. -/
def onVmSet (s : Vsf) (f : VmSet → Except Fault VmSet) : Except Fault Vsf := do
  let vmSet ← f s.vmSet
  return { s with vmSet := vmSet }

/-- One option in `set_param`, passed on in a map of its own. -/
def setOneOption (s : Vsf) (p : OptionId × Params) : Except Fault Vsf :=
  if p.1.isVm then s.onVmSet fun vmSet => vmSet.setParam (.of [p])
  else s.onHost fun host => host.setParam (.of [p])

def setParam (s : Vsf) (ops : Options) : Except Fault Vsf := ops.toList.foldlM setOneOption s

/-- One option in `clear_param`. -/
def clearOneOption (s : Vsf) (op : OptionId) : Except Fault Vsf :=
  if op.isVm then s.onVmSet fun vmSet => .ok (vmSet.clearParam [op])
  else s.onHost fun host => host.clearParam [op]

def clearParam (s : Vsf) (ops : List OptionId) : Except Fault Vsf := ops.foldlM clearOneOption s

def initVms (s : Vsf) : Except Fault Vsf := s.onVmSet VmSet.initVms

/-! ## Calls -/

/-- The calls after `init`. -/
inductive Call where
  | initHost (env : Host.Env)
  | setParam (ops : Options)
  | clearParam (ops : List OptionId)
  | initVms

def step (s : Vsf) : Call → Except Fault Vsf
  | .initHost env => .ok (s.initHost env)
  | .setParam ops => s.setParam ops
  | .clearParam ops => s.clearParam ops
  | .initVms => s.initVms

end Vsf

end LibVsf
