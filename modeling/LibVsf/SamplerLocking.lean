import LibVsf.Lib.Locking
import LibVsf.VmCacheMissProof
import LibVsf.VmCpuUsage

/-!
# The mutexes of `VmCpuUsage` and `VmCacheMiss`

The samplers of the VMs guard their data by the mutex of the sampler they drive. Their `refresh`
takes it by hand for the section that asks `VmBase` for the VMs and queues the requests, and
`VmBase` may throw there: `get_vm_ids` refreshes it when its thread does not run, which lists
directories, opens files and parses numbers. Every other section is in the scope of a
`unique_lock`.

**Theorem (`mutex_free_iff`).** In a run of a sampler's calls the mutex is free again after each of
them, and none blocks, exactly if no call in the section that prepares a refresh throws.
-/

namespace LibVsf

open Std Runs Locking

/-! ## The preparing sections -/

/-- The calls made between `lock()` and `unlock()`. -/
inductive PrepareCall where
  | getVmIds
  | getStableVmthreadIds (vmId : VmId)
  | getVolatileVmthreadIds (vmId : VmId)
  /-- The insertions of what is known of a VM. -/
  | insert (vmId : VmId)
  /-- `set_difference` and the assignment to the last ids. -/
  | setDifference
  | startWatching (id : Int)
  | stopWatching (id : Int)
deriving DecidableEq

/-- What an exception says. -/
inductive Thrown where
  | byCall (what : String)
  | byCpuUsage (failure : CpuUsageFailure)

/-- What the calls of a preparing section return, and which end by an exception instead. -/
structure Answers where
  view : VmView
  throws : PrepareCall → Option Thrown

namespace VmCpuUsage

/-- The calls of the preparing section, with what each does. -/
def prepareSteps (s : VmCpuUsage) (vmIds : List VmId) : Steps PrepareCall VmCpuUsage :=
  let pids := pidsOf vmIds
  let toStart := pids.toList.filter fun pid => !s.lastPids.contains pid
  let toStop := s.lastPids.toList.filter fun pid => !pids.contains pid
  (.getVmIds, id) :: vmIds.map (fun vmId => (.insert vmId, id)) ++
    [(.setDifference, fun s => { s with lastPids := pids })] ++
    toStart.map (fun pid => (.startWatching pid, fun s =>
      { s with cpuUsage := s.cpuUsage.startWatching pid })) ++
    toStop.map (fun pid => (.stopWatching pid, fun s =>
      { s with cpuUsage := s.cpuUsage.stopWatching pid }))

/-- The section of `refresh` that is locked by hand. -/
def prepareSection (answers : Answers) : Body Thrown VmCpuUsage := fun s =>
  runE (perform answers.throws) s (s.prepareSteps answers.view.vmIds)

/-- `cpu_usage_->refresh()`. An exception that the model does not know of, as one of an allocation
or of the callback, leaves `fault`. -/
def cpuUsageSection (env : Env) (fault : Option (Thrown × VmCpuUsage)) :
    Body Thrown VmCpuUsage := fun s =>
  match fault with
  | some thrown => .error thrown
  | none =>
    match s.refreshCpuUsage env with
    | .ok s => .ok s
    | .error (failure, s) => .error (.byCpuUsage failure, s)

inductive LockedOp where
  | refresh (answers : Answers) (env : Env) (fault : Option (Thrown × VmCpuUsage))
  | clear
  | clearParam
  /-- A getter of the sampler, which reads under the lock. -/
  | get

def lockedOp : LockedOp → Guarded VmCpuUsage → Outcome Thrown VmCpuUsage
  | .refresh answers env fault, g =>
    (byHand (prepareSection answers) g).andThen (uniqueLock (cpuUsageSection env fault))
  | .clear, g => uniqueLock (fun s => .ok s.clear) g
  | .clearParam, g => uniqueLock (fun s => .ok { s with callbackFunc := .null }) g
  | .get, g => uniqueLock .ok g

end VmCpuUsage

namespace VmCacheMiss

/-- The calls of the preparing section, with what each does. -/
def prepareSteps (s : VmCacheMiss) (view : VmView) : Steps PrepareCall VmCacheMiss :=
  let toStart := view.tids.toList.filter fun tid => !s.lastTids.contains tid
  let toStop := s.lastTids.toList.filter fun tid => !view.tids.contains tid
  (.getVmIds, id) ::
    view.vmIds.flatMap (fun vmId => [
      (.getStableVmthreadIds vmId, id),
      (.getVolatileVmthreadIds vmId, id),
      (.insert vmId, fun s => { s with
        volatileVmthreadIdToVmId := (view.volatile vmId).toList.foldl
          (fun m tid => m.insert tid vmId) s.volatileVmthreadIdToVmId })]) ++
    [(.setDifference, fun s => { s with lastTids := view.tids })] ++
    toStart.map (fun tid => (.startWatching tid, fun s =>
      { s with cacheMiss := s.cacheMiss.startWatching tid })) ++
    toStop.map (fun tid => (.stopWatching tid, fun s =>
      { s with cacheMiss := s.cacheMiss.stopWatching tid }))

/-- The section of `refresh` that is locked by hand. -/
def prepareSection (answers : Answers) : Body Thrown VmCacheMiss := fun s =>
  runE (perform answers.throws) { s with vmCacheMissData := ∅ } (s.prepareSteps answers.view)

/-- A section in the scope of a `unique_lock`: an exception leaves `fault`. -/
def scopedSection (f : VmCacheMiss → VmCacheMiss) (fault : Option (Thrown × VmCacheMiss)) :
    Body Thrown VmCacheMiss := fun s =>
  match fault with
  | some thrown => .error thrown
  | none => .ok (f s)

inductive LockedOp where
  | refresh (answers : Answers) (env : SampleEnv)
      (startFault stopFault : Option (Thrown × VmCacheMiss))
  | clear
  | setCallback (callbackFunc : Callback)
  /-- A getter of the sampler, which reads under the lock. -/
  | get

def lockedOp : LockedOp → Guarded VmCacheMiss → Outcome Thrown VmCacheMiss
  | .refresh answers env startFault stopFault, g =>
    (byHand (prepareSection answers) g).andThen fun g =>
      (uniqueLock (scopedSection (fun s => s.startSample env) startFault) g).andThen fun g =>
        (uniqueLock (scopedSection
            (fun s => s.stopSample answers.view.stableVmthreadIdToVmId env) stopFault) g).andThen
          fun g => .returned { g with state := g.state.setHasData }
  | .clear, g => uniqueLock (fun s => .ok s.clear) g
  | .setCallback callbackFunc, g =>
    uniqueLock (fun s => .ok { s with callbackFunc := callbackFunc }) g
  | .get, g => uniqueLock .ok g

end VmCacheMiss

/-! ## The sections without exceptions -/

/-- The requests at the end of a section change a part of the state, what is watched. -/
theorem foldl_requests {σ ω : Type} (watched : ω → σ) {starts stops : Int → σ → σ}
    {start stop : ω → Int → ω} (hstart : ∀ w id, starts id (watched w) = watched (start w id))
    (hstop : ∀ w id, stops id (watched w) = watched (stop w id)) (toStart toStop : List Int)
    {front : Steps PrepareCall σ} {s : σ} {w : ω}
    (hfront : front.foldl (fun s step => step.2 s) s = watched w) :
    (front ++ (toStart.map fun id => (PrepareCall.startWatching id, starts id)) ++
        toStop.map fun id => (PrepareCall.stopWatching id, stops id)).foldl
      (fun s step => step.2 s) s = watched (toStop.foldl stop (toStart.foldl start w)) := by
  have hstarts : toStart.foldl (fun s id => starts id s) (watched w) =
      watched (toStart.foldl start w) := List.foldl_hom watched hstart
  have hstops (w : ω) : toStop.foldl (fun s id => stops id s) (watched w) =
      watched (toStop.foldl stop w) := List.foldl_hom watched hstop
  rw [List.foldl_append, List.foldl_append, List.foldl_map, List.foldl_map, hfront, hstarts, hstops]

namespace VmCpuUsage

/-- The calls made between `lock()` and `unlock()`. -/
def prepareCalls (s : VmCpuUsage) (vmIds : List VmId) : List PrepareCall :=
  (s.prepareSteps vmIds).map Prod.fst

theorem foldl_prepareSteps (s : VmCpuUsage) (vmIds : List VmId) :
    (s.prepareSteps vmIds).foldl (fun s step => step.2 s) s = s.prepare vmIds := by
  have hinsert (vmIds : List VmId) (s : VmCpuUsage) : vmIds.foldl (fun s _ => s) s = s :=
    List.foldl_fixed' (fun _ => rfl) vmIds
  let watched (cpuUsage : CpuUsage) : VmCpuUsage :=
    { s with lastPids := pidsOf vmIds, cpuUsage := cpuUsage }
  refine foldl_requests watched (fun _ _ => rfl) (fun _ _ => rfl) _ _ ?_
  simp only [List.cons_append, List.foldl_cons, List.foldl_append, List.foldl_map, List.foldl_nil,
    id_eq, hinsert, watched]

/-- **If nothing throws, the section is `prepare`.** -/
theorem prepareSection_ok {answers : Answers} {s : VmCpuUsage}
    (h : ∀ c ∈ s.prepareCalls answers.view.vmIds, answers.throws c = none) :
    prepareSection answers s = .ok (s.prepare answers.view.vmIds) :=
  (runE_perform h s).trans (congrArg Except.ok (s.foldl_prepareSteps answers.view.vmIds))

/-- No call in the section that prepares a refresh throws. -/
def NoneThrows (s : VmCpuUsage) : LockedOp → Prop
  | .refresh answers _ _ => ∀ c ∈ s.prepareCalls answers.view.vmIds, answers.throws c = none
  | _ => True

theorem free_lockedOp_iff (op : LockedOp) (g : Guarded VmCpuUsage) (h : g.locked = false) :
    Free (lockedOp op g).next ↔ g.state.NoneThrows op := by
  cases op with
  | refresh answers env fault => exact free_byHand_perform h fun s => free_uniqueLock rfl
  | clear | clearParam | get =>
    simp only [lockedOp, NoneThrows]
    exact iff_of_true (free_uniqueLock h) trivial

end VmCpuUsage

namespace VmCacheMiss

/-- The calls made between `lock()` and `unlock()`. -/
def prepareCalls (s : VmCacheMiss) (view : VmView) : List PrepareCall :=
  (s.prepareSteps view).map Prod.fst

theorem foldl_prepareSteps (s : VmCacheMiss) (view : VmView) :
    (s.prepareSteps view).foldl (fun s step => step.2 s) { s with vmCacheMissData := ∅ } =
      s.prepare view := by
  have hassign (vmIds : List VmId) (s : VmCacheMiss) :
      vmIds.foldl (fun s vmId => { s with
        volatileVmthreadIdToVmId := (view.volatile vmId).toList.foldl
          (fun m tid => m.insert tid vmId) s.volatileVmthreadIdToVmId }) s =
        { s with
          volatileVmthreadIdToVmId :=
            assignThreads view.volatile vmIds s.volatileVmthreadIdToVmId } :=
    List.foldl_hom (fun m => { s with volatileVmthreadIdToVmId := m }) fun _ _ => rfl
  let watched (cacheMiss : CacheMiss) : VmCacheMiss :=
    { s with
      vmCacheMissData := ∅
      volatileVmthreadIdToVmId :=
        assignThreads view.volatile view.vmIds s.volatileVmthreadIdToVmId
      lastTids := view.tids
      cacheMiss := cacheMiss }
  refine foldl_requests watched (fun _ _ => rfl) (fun _ _ => rfl) _ _ ?_
  simp only [List.cons_append, List.foldl_cons, List.foldl_append, List.foldl_nil,
    List.foldl_flatMap, id_eq, hassign, watched]

/-- **If nothing throws, the section is `prepare`.** -/
theorem prepareSection_ok {answers : Answers} {s : VmCacheMiss}
    (h : ∀ c ∈ s.prepareCalls answers.view, answers.throws c = none) :
    prepareSection answers s = .ok (s.prepare answers.view) :=
  (runE_perform h _).trans (congrArg Except.ok (s.foldl_prepareSteps answers.view))

/-- No call in the section that prepares a refresh throws. -/
def NoneThrows (s : VmCacheMiss) : LockedOp → Prop
  | .refresh answers _ _ _ => ∀ c ∈ s.prepareCalls answers.view, answers.throws c = none
  | _ => True

theorem free_lockedOp_iff (op : LockedOp) (g : Guarded VmCacheMiss) (h : g.locked = false) :
    Free (lockedOp op g).next ↔ g.state.NoneThrows op := by
  cases op with
  | refresh answers env startFault stopFault =>
    apply free_byHand_perform h
    intro s
    apply free_uniqueLock_andThen rfl
    intro s₁
    apply free_uniqueLock_andThen rfl
    intro s₂
    exact free_some s₂.setHasData
  | clear | setCallback _ | get =>
    simp only [lockedOp, NoneThrows]
    exact iff_of_true (free_uniqueLock h) trivial

end VmCacheMiss

/-! ## Runs -/

/-- **The mutex of a sampler is free again after every call, and no call blocks forever, exactly in
the runs in which no call between `lock()` and `unlock()` throws.** -/
theorem mutex_free_iff (cpuNum : UInt32) (cpuOps : List VmCpuUsage.LockedOp)
    (missOps : List VmCacheMiss.LockedOp) :
    (Holds (call VmCpuUsage.lockedOp) Free (some ⟨.init cpuNum, false⟩) cpuOps ↔
      Along (call VmCpuUsage.lockedOp) (Meets VmCpuUsage.NoneThrows)
        (some ⟨.init cpuNum, false⟩) cpuOps) ∧
    (Holds (call VmCacheMiss.lockedOp) Free (some ⟨{}, false⟩) missOps ↔
      Along (call VmCacheMiss.lockedOp) (Meets VmCacheMiss.NoneThrows) (some ⟨{}, false⟩)
        missOps) :=
  ⟨holds_free_iff VmCpuUsage.free_lockedOp_iff _ cpuOps,
    holds_free_iff VmCacheMiss.free_lockedOp_iff _ missOps⟩

/-- `VmBase` cannot open the directory of a VM's threads. -/
def dirGone : Answers where
  view := ⟨[], fun _ => ∅, fun _ => ∅⟩
  throws := fun c => if c = .getVmIds then some (.byCall "open dir failed") else none

/-- After a refresh that `get_vm_ids` ends by an exception, a getter blocks. -/
theorem not_mutex_free_dirGone :
    ¬ Holds (call VmCpuUsage.lockedOp) Free (some ⟨.init 1, false⟩)
        [.refresh dirGone ⟨none, fun _ => none⟩ none, .get] ∧
      ¬ Holds (call VmCacheMiss.lockedOp) Free (some ⟨{}, false⟩)
        [.refresh dirGone ⟨fun _ _ _ => 3, fun _ _ => none, fun _ _ => none⟩ none none, .get] := by
  refine ⟨?_, ?_⟩
  · intro h
    obtain ⟨g, hg, -⟩ := h _ (List.prefix_refl _)
    cases hg
  · intro h
    obtain ⟨g, hg, -⟩ := h _ (List.prefix_refl _)
    cases hg

end LibVsf
