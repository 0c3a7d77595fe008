import LibVsf.VmBaseRuns

/-!
# `VmBase`: what the callback changes

The arguments of the callback are looked up with `operator[]`, which inserts. The maps that `-smp`
fills have no entry for a VM whose command line does not give the number, and then have a `0`.

**Theorem (`same_getters_iff`).** After a refresh all getters return the same with and without a
callback, exactly if the refresh throws or `-smp` gives the three numbers of every VM. The ids that
it lists are ordered lawfully.
-/

namespace LibVsf

open Writing EqvMap

/-- What a refresh leaves, by returning or by throwing. -/
def VmBase.afterRefresh (s : VmBase) (host : VmHost) : VmBase :=
  match s.refresh host with
  | .ok t => t
  | .error (_, t) => t

/-- All getters return the same. -/
structure SameGetters (d e : VmData) : Prop where
  vmIds : d.getVmIds = e.getVmIds
  toVmId : ∀ tid, d.toVmId tid = e.toVmId tid
  name : ∀ v, d.getName v = e.getName v
  uuid : ∀ v, d.getUuid v = e.getUuid v
  vsocketNum : ∀ v, d.getVsocketNum v = e.getVsocketNum v
  vcoreNum : ∀ v, d.getVcoreNum v = e.getVcoreNum v
  vhpthreadNum : ∀ v, d.getVhpthreadNum v = e.getVhpthreadNum v
  totalMemSize : ∀ v, d.getTotalMemSize v = e.getTotalMemSize v
  vcpuIds : ∀ v, d.getVcpuIds v = e.getVcpuIds v
  vcpuNum : ∀ v, d.getVcpuNum v = e.getVcpuNum v
  stableVmthreadIds : ∀ v, d.getStableVmthreadIds v = e.getStableVmthreadIds v
  stableVmthreadNum : ∀ v, d.getStableVmthreadNum v = e.getStableVmthreadNum v

theorem SameGetters.refl (d : VmData) : SameGetters d d where
  vmIds := rfl
  toVmId _ := rfl
  name _ := rfl
  uuid _ := rfl
  vsocketNum _ := rfl
  vcoreNum _ := rfl
  vhpthreadNum _ := rfl
  totalMemSize _ := rfl
  vcpuIds _ := rfl
  vcpuNum _ := rfl
  stableVmthreadIds _ := rfl
  stableVmthreadNum _ := rfl

/-- `-smp` has given the three numbers of every listed VM. -/
structure VmData.Topology (d : VmData) : Prop where
  vsocketNum : ∀ v ∈ d.getVmIds, d.vsocketNum.contains v = true
  vcoreNum : ∀ v ∈ d.getVmIds, d.vcoreNum.contains v = true
  vhpthreadNum : ∀ v ∈ d.getVmIds, d.vhpthreadNum.contains v = true

theorem sameGetters_fillTopology_iff (d : VmData) :
    SameGetters d (d.fillTopology d.getVmIds) ↔ d.Topology := by
  have hne : (-1 : Int) ≠ 0 := by decide
  refine ⟨?_, ?_⟩
  · intro h
    exact ⟨(find_fill_iff hne).1 h.vsocketNum, (find_fill_iff hne).1 h.vcoreNum,
      (find_fill_iff hne).1 h.vhpthreadNum⟩
  · intro h
    have hfill : d.fillTopology d.getVmIds = d := by
      simp only [VmData.fillTopology, fill_eq h.vsocketNum, fill_eq h.vcoreNum,
        fill_eq h.vhpthreadNum]
    rw [hfill]
    exact SameGetters.refl d

namespace VmBase

/-! ## The passes do not read the callback -/

/-- A result, with the callback set. -/
def withCallback (b : Bool) (x : Result VmBase) : Result VmBase :=
  (x.map (·.setCallback b)).mapError fun es => (es.1, es.2.setCallback b)

theorem refreshMost_setCallback (s : VmBase) (host : VmHost) (b : Bool) :
    (s.setCallback b).refreshMost host = withCallback b (s.refreshMost host) := by
  have hfold (ws : List VmWrite) (s : VmBase) :
      ws.foldl write (s.setCallback b) = (ws.foldl write s).setCallback b := by
    simp only [foldl_write, setCallback]
  have hfold := hfold (host.listing s.vmCmd).entries
    { s with data := ({} : VmData).withThreads s.data.vcpuIds s.data.stableVmthreadIds }
  simp only [refreshMost, setCallback, Log.replay] at hfold ⊢
  rw [hfold]
  cases (host.listing s.vmCmd).failure <;> rfl

theorem refreshVcpus_setCallback (host : VmHost) (b : Bool) (s : VmBase) (v : VmId) :
    refreshVcpus host (s.setCallback b) v = withCallback b (refreshVcpus host s v) := by
  simp only [refreshVcpus, setCallback]
  cases readVcpus host ((s.data.name.find v).getD []) <;> rfl

theorem refreshVcpuStableVmthread_setCallback (s : VmBase) (host : VmHost) (b : Bool) :
    (s.setCallback b).refreshVcpuStableVmthread host =
      withCallback b (s.refreshVcpuStableVmthread host) := by
  simp only [refreshVcpuStableVmthread, Runs.foldlM_eq_runE]
  exact Runs.runE_mapError _ (refreshVcpus_setCallback host b)
    { s with data := s.data.withThreads ∅ ∅ } s.data.vmIds.keys

/-- **The passes do the same** with and without a callback. -/
theorem collectVms_setCallback (s : VmBase) (host : VmHost) (b : Bool) :
    (s.setCallback b).collectVms host = withCallback b (s.collectVms host) := by
  simp only [collectVms, refreshMost_setCallback]
  cases s.refreshMost host with
  | error es => rfl
  | ok t => exact refreshVcpuStableVmthread_setCallback t host b

/-! ## The getters after a refresh -/

/-- What a refresh leaves, with or without a callback. -/
theorem afterRefresh_data {s t : VmBase} {host : VmHost} (h : s.collectVms host = .ok t) :
    ((s.setCallback false).afterRefresh host).data = t.data ∧
      ((s.setCallback true).afterRefresh host).data = t.data.fillTopology t.data.getVmIds := by
  have hrefresh (b : Bool) : (s.setCallback b).refresh host =
      .ok { (t.setCallback b).notifyAll with hasData := true } := by
    rw [refresh_eq, collectVms_setCallback, h]
    rfl
  simp only [afterRefresh, hrefresh]
  refine ⟨rfl, ?_⟩
  have hconsistent : Consistent t.data := consistent_collectVms h
  exact foldl_notify_data (s := t.setCallback true) hconsistent fun v hv => hv

theorem afterRefresh_error_data {s t : VmBase} {host : VmHost} {e : ReadFailure}
    (h : s.collectVms host = .error (e, t)) (b : Bool) :
    ((s.setCallback b).afterRefresh host).data = t.data := by
  have hrefresh : (s.setCallback b).refresh host = .error (e, t.setCallback b) := by
    rw [refresh_eq_error_iff, collectVms_setCallback, h]
    rfl
  simp only [afterRefresh, hrefresh]
  rfl

theorem sameGetters_afterRefresh_iff (s : VmBase) (host : VmHost) :
    SameGetters ((s.setCallback false).afterRefresh host).data
        ((s.setCallback true).afterRefresh host).data ↔
      (host.Readable s.vmCmd → (host.listed s.vmCmd).Topology) := by
  rw [← refresh_ok_iff]
  cases hcollect : s.collectVms host with
  | error et =>
    obtain ⟨e, t⟩ := et
    rw [afterRefresh_error_data hcollect, afterRefresh_error_data hcollect]
    refine iff_of_true (SameGetters.refl _) ?_
    intro h
    obtain ⟨t', ht'⟩ := h
    rw [refresh_eq_error_iff.2 hcollect] at ht'
    cases ht'
  | ok t =>
    obtain ⟨hwithout, hwith⟩ := afterRefresh_data hcollect
    rw [hwithout, hwith, sameGetters_fillTopology_iff]
    have hok : ∃ t', s.refresh host = .ok t' := ⟨_, refresh_eq_ok_iff.2 ⟨t, hcollect, rfl⟩⟩
    obtain ⟨_, _, _, rfl⟩ := sameVms_collectVms hcollect
    refine ⟨?_, ?_⟩
    · intro h _
      exact ⟨h.vsocketNum, h.vcoreNum, h.vhpthreadNum⟩
    · intro h
      have htopology := h hok
      exact ⟨htopology.vsocketNum, htopology.vcoreNum, htopology.vhpthreadNum⟩

/-- The trees hold the maps with and without a callback. -/
theorem held_afterRefresh {s : VmBase} {host : VmHost}
    (hlawful : VmId.StrictWeakOn (host.ids s.vmCmd)) (h : host.Readable s.vmCmd) (b : Bool) :
    ((s.setCallback b).afterRefresh host).data.Held (host.ids s.vmCmd) := by
  obtain ⟨t, ht⟩ := (refresh_ok_iff (s.setCallback b) host).2 h
  rw [afterRefresh, ht]
  exact held_refresh (s := s.setCallback b) hlawful subset_rfl ht

/-- **Notifying the observer is not seen by the getters** exactly if the refresh throws before, or
`-smp` gives the numbers of sockets, cores and threads of every VM that is listed; and trees hold
the maps, if it does not throw. -/
theorem same_getters_iff {s : VmBase} {host : VmHost}
    (hlawful : VmId.StrictWeakOn (host.ids s.vmCmd)) :
    (SameGetters ((s.setCallback false).afterRefresh host).data
        ((s.setCallback true).afterRefresh host).data ↔
      (host.Readable s.vmCmd → (host.listed s.vmCmd).Topology)) ∧
    (host.Readable s.vmCmd → ∀ b : Bool,
      ((s.setCallback b).afterRefresh host).data.Held (host.ids s.vmCmd)) :=
  ⟨sameGetters_afterRefresh_iff s host, held_afterRefresh hlawful⟩

theorem same_getters_iff_oneVm :
    (SameGetters ((setCallback {} false).afterRefresh (VmBaseThread.oneVm (some []))).data
        ((setCallback {} true).afterRefresh (VmBaseThread.oneVm (some []))).data ↔
      ((VmBaseThread.oneVm (some [])).Readable defaultVmCmd →
        ((VmBaseThread.oneVm (some [])).listed defaultVmCmd).Topology)) ∧
    ((VmBaseThread.oneVm (some [])).Readable defaultVmCmd → ∀ b : Bool,
      ((setCallback {} b).afterRefresh (VmBaseThread.oneVm (some []))).data.Held
        ((VmBaseThread.oneVm (some [])).ids defaultVmCmd)) :=
  same_getters_iff (s := {})
    ((VmId.StrictWeakOn.singleton _).mono (VmBaseThread.oneVm_ids (some []) defaultVmCmd))

/-- `-smp 4` gives none of the numbers: without a callback they are `-1`, with one `0`. -/
theorem not_same_getters :
    ¬ SameGetters
      ((setCallback {} false).afterRefresh (VmBaseThread.oneVm (some []))).data
      ((setCallback {} true).afterRefresh (VmBaseThread.oneVm (some []))).data := by
  intro h
  exact absurd (h.vsocketNum ⟨990, 42⟩) (by decide +kernel)

end VmBase

end LibVsf
