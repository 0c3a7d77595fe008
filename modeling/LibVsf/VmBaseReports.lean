import LibVsf.VmBaseRuns

/-!
# `VmBase`: what the callback is told

The arguments of the callback are references to the entries of the maps, which `operator[]` makes
where there are none.

**Theorem (`notices_agree`).** A refresh that returns, of ids that are ordered lawfully, calls the
callback once for each VM, in the order of `get_vm_ids`, with what the getters return for the VM
after the refresh.
-/

namespace LibVsf

open EqvMap EqvOrd

/-- What the getters return for a VM. -/
def VmData.noticeOf (d : VmData) (v : VmId) : VmNotice where
  vmId := v
  name := d.getName v
  uuid := d.getUuid v
  vsocketNum := d.getVsocketNum v
  vcoreNum := d.getVcoreNum v
  vhpthreadNum := d.getVhpthreadNum v
  totalMemSize := d.getTotalMemSize v
  vcpuIds := d.getVcpuIds v
  stableVmthreadIds := d.getStableVmthreadIds v

namespace VmBase

variable {s t : VmBase}

/-- The defaults differ, but the numbers are there. -/
theorem getD_find_fill {m : EqvMap VmId Int} {ks : List VmId}
    (hks : ks.Pairwise fun a b => ¬ eqv a b) {v : VmId} (hv : v ∈ ks) (x : Int) :
    ((m.fill ks 0).find v).getD x = (m.find v).getD 0 := by
  rw [find_fill hks hv]
  rfl

/-- What the getters return after the calls for these VMs. -/
theorem noticeOf_fillTopology {d : VmData} {ks : List VmId}
    (hks : ks.Pairwise fun a b => ¬ eqv a b) {v : VmId} (hv : v ∈ ks) :
    (d.fillTopology ks).noticeOf v = { d.noticeOf v with
      vsocketNum := (d.vsocketNum.find v).getD 0
      vcoreNum := (d.vcoreNum.find v).getD 0
      vhpthreadNum := (d.vhpthreadNum.find v).getD 0 } := by
  simp only [VmData.noticeOf, VmData.fillTopology, VmData.getName, VmData.getUuid,
    VmData.getVsocketNum, VmData.getVcoreNum, VmData.getVhpthreadNum, VmData.getTotalMemSize,
    VmData.getVcpuIds, VmData.getStableVmthreadIds, getDataByVmId, getD_find_fill hks hv]

theorem fillTopology_append (d : VmData) (ks js : List VmId) :
    d.fillTopology (ks ++ js) = (d.fillTopology ks).fillTopology js := by
  simp only [VmData.fillTopology, fill, List.foldl_append]

/-- A call of the callback. -/
theorem notices_notify (hs : Consistent s.data) {v : VmId} (hv : v ∈ s.data.vmIds.keys) :
    (s.notify v).notices = s.notices ++ [(s.data.fillTopology [v]).noticeOf v] := by
  have hone : [v].Pairwise fun a b => ¬ eqv a b := List.pairwise_singleton _ v
  have hmem : ∃ size, s.data.totalMemSize.find v = some size := by
    have hcontains : s.data.totalMemSize.contains v = true :=
      contains_of_mem_keys (hs.mem_keys ▸ hv)
    rw [← Option.ne_none_iff_exists', Ne, find_eq_none_iff, hcontains]
    decide
  obtain ⟨size, hsize⟩ := hmem
  rw [noticeOf_fillTopology hone List.mem_cons_self]
  simp only [notify, lookUp_data hs hv]
  simp only [VmData.fillTopology, getD_find_fill hone List.mem_cons_self, VmData.noticeOf,
    VmData.getName, VmData.getUuid, VmData.getTotalMemSize, VmData.getVcpuIds,
    VmData.getStableVmthreadIds, getDataByVmId, hsize]
  rfl

/-- The calls for several VMs. -/
theorem notices_foldl (hs : Consistent s.data) {ks : List VmId}
    (hpair : ks.Pairwise fun a b => ¬ eqv a b) (hks : ∀ v ∈ ks, v ∈ s.data.vmIds.keys) :
    (ks.foldl notify s).notices = s.notices ++ ks.map (s.data.fillTopology ks).noticeOf := by
  induction ks using List.reverseRecOn with
  | nil => exact (List.append_nil _).symm
  | append_singleton ks k ih =>
    obtain ⟨hinit, -, hlast⟩ := List.pairwise_append.1 hpair
    have hkeys : ∀ v ∈ ks, v ∈ s.data.vmIds.keys := fun v hv => hks v (List.mem_append_left _ hv)
    have hdata := foldl_notify_data hs hkeys
    have hconsistent : Consistent (ks.foldl notify s).data := by
      rw [hdata]
      exact hs.fillTopology ks
    have hk : k ∈ (ks.foldl notify s).data.vmIds.keys := by
      rw [hdata]
      exact hks k (List.mem_append_right _ List.mem_cons_self)
    have hold : ∀ v ∈ ks, (s.data.fillTopology ks).noticeOf v =
        (s.data.fillTopology (ks ++ [k])).noticeOf v := by
      intro v hv
      rw [noticeOf_fillTopology hinit hv,
        noticeOf_fillTopology hpair (List.mem_append_left _ hv)]
    rw [List.foldl_append, List.map_append, ← List.map_congr_left hold, ← List.append_assoc,
      ← ih hinit hkeys]
    refine (notices_notify hconsistent hk).trans ?_
    rw [hdata, ← fillTopology_append]
    rfl

theorem notices_refresh {host : VmHost} (h : s.refresh host = .ok t)
    (hset : s.callbackFunc = true) :
    t.notices = s.notices ++ t.data.getVmIds.map t.data.noticeOf := by
  obtain ⟨s', hs', rfl⟩ := refresh_eq_ok_iff.1 h
  have hconsistent := consistent_collectVms hs'
  have hsame : s'.callbackFunc = s.callbackFunc ∧ s'.notices = s.notices := by
    obtain ⟨_, _, _, rfl⟩ := sameVms_collectVms hs'
    exact ⟨rfl, rfl⟩
  have hall : s'.notifyAll = s'.data.vmIds.keys.foldl notify s' := by
    rw [notifyAll, hsame.1, hset]
    rfl
  have hkeys : ∀ v ∈ s'.data.vmIds.keys, v ∈ s'.data.vmIds.keys := fun v hv => hv
  have hdata : s'.notifyAll.data = s'.data.fillTopology s'.data.vmIds.keys := by
    rw [hall, foldl_notify_data hconsistent hkeys]
  have hnotices := notices_foldl hconsistent (keys_pairwise s'.data.vmIds) hkeys
  show s'.notifyAll.notices = s.notices ++ s'.notifyAll.data.getVmIds.map s'.notifyAll.data.noticeOf
  rw [hdata, hall, hnotices, hsame.2]
  rfl

/-- **The callback is told what the getters return**, and trees hold the maps. -/
theorem notices_agree {host : VmHost} (hlawful : VmId.StrictWeakOn (host.ids s.vmCmd))
    (h : s.refresh host = .ok t) (hset : s.callbackFunc = true) :
    t.notices = s.notices ++ t.data.getVmIds.map t.data.noticeOf ∧
      t.data.Held {v | v ∈ t.data.getVmIds} :=
  ⟨notices_refresh h hset, held_listed hlawful h⟩

theorem notices_agree_oneVm : ∃ t,
    ({ callbackFunc := true } : VmBase).refresh (VmBaseThread.oneVm (some [])) = .ok t ∧
      t.notices = ({ callbackFunc := true } : VmBase).notices ++
        t.data.getVmIds.map t.data.noticeOf ∧ t.data.Held {v | v ∈ t.data.getVmIds} := by
  have hok : ((VmBase.refresh { callbackFunc := true }
      (VmBaseThread.oneVm (some []))).toOption.isSome) = true := by
    decide +kernel
  cases h : VmBase.refresh { callbackFunc := true } (VmBaseThread.oneVm (some [])) with
  | ok t =>
    have hlawful : VmId.StrictWeakOn ((VmBaseThread.oneVm (some [])).ids defaultVmCmd) :=
      (VmId.StrictWeakOn.singleton _).mono (VmBaseThread.oneVm_ids (some []) defaultVmCmd)
    exact ⟨t, rfl, notices_agree hlawful h rfl⟩
  | error es =>
    rw [h] at hok
    cases hok

end VmBase

end LibVsf
