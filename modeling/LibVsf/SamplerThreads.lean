import LibVsf.CacheMissFd
import LibVsf.RunnableSessions
import LibVsf.SamplerLocking
import LibVsf.VmBase

/-!
# The threads of the modules

`VmBase`, `VmCpuUsage` and `VmCacheMiss` are the `Runnable`s that a `VmSet` starts. Each `run` is a
loop of refreshes and a `clear`, and each destructor calls `stop`. A refresh of `VmBase` holds its
mutex; that of `VmCpuUsage` lets go of the mutex once, and that of `VmCacheMiss` three times.

**Theorem (`stopped_asNew`).** Whenever a module has been stopped, its data are those of a new
instance, its parameters apart, unless a getter has refreshed since.

**Theorem (`stopped_closed`).** So every descriptor that a stopped `VmCacheMiss` has opened has been
closed once since.
-/

namespace LibVsf

open Std Runs Handles Locking Runnable

/-! ## `VmBase` -/

namespace VmBase

inductive Param where
  | vmCmd (vmCmd : String)
  | interval (intervalMs : Int)
  | callback (callbackFunc : Bool)
  | clear

def assign (s : VmBase) : Param → VmBase
  | .vmCmd vmCmd => s.setVmCmd vmCmd
  | .interval intervalMs => s.setInterval intervalMs
  | .callback callbackFunc => s.setCallback callbackFunc
  | .clear => s.clearParam

def runLoop : RunLoop VmBase VmHost Param where
  parts := [fun s host => (s.refresh host).mapError Prod.snd]
  clear := clear
  assign := assign

/-- A new instance, with parameters and a callback that has been called before. -/
def AsNew (s : VmBase) : Prop :=
  s = { vmCmd := s.vmCmd, intervalMs := s.intervalMs, callbackFunc := s.callbackFunc,
        notices := s.notices }

theorem asNew_assign {s : VmBase} (h : s.AsNew) (param : Param) : (s.assign param).AsNew := by
  rw [AsNew] at h ⊢
  rw [h]
  cases param <;> rfl

end VmBase

/-! ## `VmCpuUsage` -/

namespace VmCpuUsage

/-- `set_callback`, or `clear_param`, which sets none. -/
def setCallback (s : VmCpuUsage) (callbackFunc : Callback) : VmCpuUsage :=
  { s with callbackFunc := callbackFunc }

def runLoop : RunLoop VmCpuUsage (Answers × Env) Callback where
  parts := [
    fun s env => (prepareSection env.1 s).mapError Prod.snd,
    fun s env => (s.refreshCpuUsage env.2).mapError Prod.snd]
  clear := clear
  assign := setCallback

def AsNew (s : VmCpuUsage) : Prop :=
  s = { cpuUsage := s.cpuUsage, callbackFunc := s.callbackFunc, published := s.published } ∧
    s.cpuUsage = { cpuNum := s.cpuUsage.cpuNum, callbackFunc := s.cpuUsage.callbackFunc,
                   published := s.cpuUsage.published }

end VmCpuUsage

/-! ## `VmCacheMiss` -/

namespace VmCacheMiss

def setCallback (s : VmCacheMiss) (callbackFunc : Callback) : VmCacheMiss :=
  { s with callbackFunc := callbackFunc }

/-- What a refresh finds: the answers of `VmBase` in its first part, the counters, and the answers
while the counts are passed on, where `VmBase` may throw. -/
structure RefreshEnv where
  answers : Answers
  sample : SampleEnv
  toVmId : Int → Option VmId

/-- `cal_vm_miss_rate`, if `VmBase` answers. -/
def tryCalVmMissRate (toVmId : Int → Option VmId) (s : VmCacheMiss) (data : CacheMissData) :
    Except VmCacheMiss VmCacheMiss :=
  match toVmId data.tid with
  | some vmId => .ok (s.calVmMissRate (fun _ => vmId) data)
  | none => .error s

/-- `stop_sample`, which passes the counts to `cal_vm_miss_rate`. -/
def tryStopSample (s : VmCacheMiss) (env : RefreshEnv) : Except VmCacheMiss VmCacheMiss :=
  let (cacheMiss, published) := s.cacheMiss.stopSample env.sample
  let s := { s with cacheMiss := cacheMiss }
  match s.cacheMiss.callbackFunc with
  | .calVmMissRate => published.foldlM (tryCalVmMissRate env.toVmId) s
  | _ => .ok s

def runLoop : RunLoop VmCacheMiss RefreshEnv Callback where
  parts := [
    fun s env => (prepareSection env.answers s).mapError Prod.snd,
    fun s env => .ok (s.startSample env.sample),
    tryStopSample,
    fun s _ => .ok s.setHasData]
  clear := clear
  assign := setCallback

def AsNew (s : VmCacheMiss) : Prop :=
  s = { cacheMiss := s.cacheMiss, callbackFunc := s.callbackFunc, published := s.published } ∧
    s.cacheMiss = { callbackFunc := s.cacheMiss.callbackFunc, fdEvents := s.cacheMiss.fdEvents }

end VmCacheMiss

/-! ## Stopping -/

/-- Whenever the module has been stopped, and no getter has worked on its data since its thread
ended, they have the property. -/
def StopsWith {σ η π : Type} (m : RunLoop σ η π) (data : σ) (P : σ → Prop) : Prop :=
  ∀ es : List (Event η π), (after m data es).waits = false → (after m data es).stop = true →
    P (after m data es).data ∨
      ∃ g k env, (after m data es).log.getLast? = some (.getter g, .part k env)

theorem VmCacheMiss.stopsWith_asNew : StopsWith VmCacheMiss.runLoop {} VmCacheMiss.AsNew := by
  refine cleared_after_stop _ ⟨rfl, rfl⟩ (fun _ => ⟨rfl, rfl⟩) fun s callbackFunc h => ?_
  refine ⟨?_, h.2⟩
  show s.setCallback callbackFunc = _
  rw [h.1]
  rfl

/-- **A module that has been stopped is as new.** -/
theorem stopped_asNew (cpuNum : UInt32) :
    StopsWith VmBase.runLoop {} VmBase.AsNew ∧
    StopsWith VmCpuUsage.runLoop (VmCpuUsage.init cpuNum) VmCpuUsage.AsNew ∧
    StopsWith VmCacheMiss.runLoop {} VmCacheMiss.AsNew := by
  refine ⟨?_, ?_, VmCacheMiss.stopsWith_asNew⟩
  · exact cleared_after_stop _ rfl (fun _ => rfl) fun _ param h => VmBase.asNew_assign h param
  · refine cleared_after_stop _ ⟨rfl, rfl⟩ (fun _ => ⟨rfl, rfl⟩) fun s callbackFunc h => ?_
    refine ⟨?_, h.2⟩
    show s.setCallback callbackFunc = _
    rw [h.1]
    rfl

/-! ## The descriptors of a stopped `VmCacheMiss` -/

namespace VmCacheMiss

def Accounted (s : VmCacheMiss) : Prop := s.cacheMiss.Accounted

theorem accounted_prepareSection {s : VmCacheMiss} (h : s.Accounted) (env : RefreshEnv) :
    (RunLoop.left (fun s (env : RefreshEnv) => (prepareSection env.answers s).mapError Prod.snd)
      s env).Accounted := by
  have hsteps : ∀ step ∈ s.prepareSteps env.answers.view, ∀ s' : VmCacheMiss, s'.Accounted →
      (step.2 s').Accounted := by
    intro step hstep s' h'
    simp only [prepareSteps, List.mem_append, List.mem_cons, List.mem_flatMap, List.mem_map,
      List.not_mem_nil, or_false] at hstep
    rcases hstep with (((rfl | ⟨vmId, -, rfl | rfl | rfl⟩) | rfl) | ⟨tid, -, rfl⟩) | ⟨tid, -, rfl⟩
    · exact h'
    · exact h'
    · exact h'
    · exact h'
    · exact h'
    · exact CacheMiss.accounted_step h' (.startWatching tid)
    · exact CacheMiss.accounted_step h' (.stopWatching tid)
  have hsection := perform_invariant env.answers.throws (I := Accounted)
    (s := { s with vmCacheMissData := ∅ }) h hsteps
  simp only [RunLoop.left, prepareSection]
  cases hrun : runE (perform env.answers.throws) { s with vmCacheMissData := ∅ }
      (s.prepareSteps env.answers.view) with
  | ok s' => exact hsection.1 s' hrun
  | error p => exact hsection.2 p.1 p.2 hrun

theorem cacheMiss_calVmMissRate (toVmId : Int → VmId) (s : VmCacheMiss) (data : CacheMissData) :
    (s.calVmMissRate toVmId data).cacheMiss = s.cacheMiss :=
  (cacheMiss_foldl_calVmMissRate toVmId [data] s).1

theorem accounted_foldlM {s : VmCacheMiss} (h : s.Accounted) (env : RefreshEnv)
    (published : List CacheMissData) :
    (RunLoop.left (fun s (env : RefreshEnv) => published.foldlM (tryCalVmMissRate env.toVmId) s)
      s env).Accounted := by
  induction published generalizing s with
  | nil => exact h
  | cons data published ih =>
    simp only [RunLoop.left, List.foldlM_cons, tryCalVmMissRate] at ih ⊢
    cases env.toVmId data.tid with
    | none => exact h
    | some vmId =>
      refine ih ?_
      rw [Accounted, cacheMiss_calVmMissRate]
      exact h

theorem accounted_tryStopSample {s : VmCacheMiss} (h : s.Accounted) (env : RefreshEnv) :
    (RunLoop.left tryStopSample s env).Accounted := by
  have hstop : VmCacheMiss.Accounted
      { s with cacheMiss := (s.cacheMiss.stopSample env.sample).1 } :=
    CacheMiss.accounted_step h (.stopSample env.sample)
  simp only [RunLoop.left, tryStopSample]
  cases (s.cacheMiss.stopSample env.sample).1.callbackFunc with
  | calVmMissRate => exact accounted_foldlM hstop env _
  | null | cpuUsageCallback | user => exact hstop

theorem accounted_after (es : List (Event RefreshEnv Callback)) :
    (after runLoop {} es).data.Accounted := by
  have hparts : ∀ part ∈ runLoop.parts, ∀ (s : VmCacheMiss) env, s.Accounted →
      (RunLoop.left part s env).Accounted := by
    intro part hpart s env h
    simp only [runLoop, List.mem_cons, List.not_mem_nil, or_false] at hpart
    rcases hpart with rfl | rfl | rfl | rfl
    · exact accounted_prepareSection h env
    · exact CacheMiss.accounted_step h (.startSample env.sample)
    · exact accounted_tryStopSample h env
    · exact h
  have hnew : Accounted {} := CacheMiss.accounted_init .calVmMissRate
  exact data_invariant runLoop hnew hparts (fun s h => CacheMiss.accounted_clear h)
    (fun s param h => h) es

/-- **A `VmCacheMiss` that has been stopped has closed every descriptor** since it opened it, once,
if the kernel opens only descriptors that are not open. -/
theorem stopped_closed (es : List (Event RefreshEnv Callback))
    (hkernel : Fresh (after runLoop {} es).data.cacheMiss.fdLog)
    (hwaits : (after runLoop {} es).waits = false) (hstop : (after runLoop {} es).stop = true) :
    (Proper (after runLoop {} es).data.cacheMiss.fdLog ∧
      ∀ pre rest fd, (after runLoop {} es).data.cacheMiss.fdLog = pre ++ .acquired fd :: rest →
        (tenure fd rest).count (.released fd) = 1) ∨
      ∃ g k env, (after runLoop {} es).log.getLast? = some (.getter g, .part k env) := by
  have haccounted : CacheMiss.Accounted _ := accounted_after es
  rcases stopsWith_asNew es hwaits hstop with hnew | hgetter
  · refine Or.inl ⟨haccounted.proper, fun pre rest fd hlog => ?_⟩
    have hrecorded : (after runLoop {} es).data.cacheMiss.recorded = 0 := by
      rw [CacheMiss.recorded, show (after runLoop {} es).data.cacheMiss.cacheMissData = ∅ from
        congrArg CacheMiss.cacheMissData hnew.2]
      rfl
    have hheld : held (after runLoop {} es).data.cacheMiss.fdLog = 0 :=
      haccounted.run_eq.trans hrecorded
    rw [released_once hkernel haccounted.proper hlog, if_neg]
    rw [hheld]
    exact fun h => Multiset.notMem_zero fd h.2
  · exact Or.inr hgetter

/-- One VM, with one thread, whose events have the descriptors `1` to `4`. -/
def oneThread : RefreshEnv where
  answers := {
    view := {
      vmIds := [⟨5, 7⟩]
      stable := fun _ => ExtTreeSet.ofList [(7 : Int)]
      volatile := fun _ => ∅ }
    throws := fun _ => none }
  sample := {
    openFd := fun _ _ e => 1 + PerfEvent.all.idxOf e
    first := fun _ _ => some 0
    second := fun _ _ => some 5 }
  toVmId := fun _ => some ⟨5, 7⟩

/-- Two sessions of one refresh: the descriptors are opened and closed in each. -/
def twoSessions : List (Event RefreshEnv Callback) :=
  let session (i : Nat) := .start :: List.replicate 6 (.turn i oneThread) ++
    .stop :: List.replicate 3 (.turn i oneThread) ++ [.returns]
  session 0 ++ session 1

theorem stopped_closed_twoSessions :
    (Proper (after runLoop {} twoSessions).data.cacheMiss.fdLog ∧
      ∀ pre rest fd,
        (after runLoop {} twoSessions).data.cacheMiss.fdLog = pre ++ .acquired fd :: rest →
        (tenure fd rest).count (.released fd) = 1) ∨
      ∃ g k env, (after runLoop {} twoSessions).log.getLast? = some (.getter g, .part k env) :=
  stopped_closed twoSessions (by decide +kernel) (by decide +kernel) (by decide +kernel)

end VmCacheMiss

end LibVsf
