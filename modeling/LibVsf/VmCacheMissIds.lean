import LibVsf.VmCacheMissProof

/-!
# `VmCacheMiss`: the ids of the VMs, and their counts

The map of the counts is a search tree that is keyed by `VmId`s. They come from `VmBase`, which is
asked for the VMs and for the VM of each thread, and from `volatile_vmthread_id_to_vm_id_`, which
keeps what earlier refreshes have been answered.

Where all of them are of a set that is ordered lawfully, the entries stay in order, so that the tree
finds what the map of the model does (`IdsIn.held`), and a lookup finds the counts that were added
for an id that is `==` (`IdsIn.vmData_foldl`).

**Theorem (`vmCounts_eq_sum`).** After a refresh of VMs no two of which are `==`, whatever came
before, the counts of a VM are the sums, modulo `2 ^ 64`, of the counts of its threads that are
being sampled, and its rates are those of the sums; and trees hold the counts where the ids are
ordered lawfully.
-/

namespace LibVsf

open Std Runs EqvMap EqvOrd SearchTree

namespace VmCacheMiss

open CacheMiss (envOf)
open CacheMissData

/-- The counts are in order, and the VMs of the volatile threads are of the set. -/
structure IdsIn (S : Set VmId) (s : VmCacheMiss) : Prop where
  counts : Sorted S s.vmCacheMissData.entries
  volatile : ∀ (tid : Int) (v : VmId), s.volatileVmthreadIdToVmId[tid]? = some v →
    v.startTimestamp ≠ 0 → v ∈ S

/-- What `VmBase` answers for a thread is of the set. -/
def ThreadsIn (S : Set VmId) (toVmId : Int → VmId) : Prop :=
  ∀ tid, (toVmId tid).startTimestamp ≠ 0 → toVmId tid ∈ S

variable {S : Set VmId} {s : VmCacheMiss} {toVmId : Int → VmId}

theorem idsIn_init : IdsIn S {} := by
  refine ⟨.empty, fun tid v h => ?_⟩
  rw [ExtTreeMap.getElem?_empty] at h
  cases h

theorem threadsIn_view {view : VmView} (hview : ∀ v ∈ view.vmIds, v ∈ S) :
    ThreadsIn S view.stableVmthreadIdToVmId :=
  fun _ h => hview _ (view.stableVmthreadIdToVmId_mem h)

namespace IdsIn

/-- **Trees hold the counts.** -/
theorem held (h : s.IdsIn S) (hS : VmId.StrictWeakOn S) : HeldOn S s.vmCacheMissData :=
  h.counts.heldOn hS.weakOn

theorem prepare (h : s.IdsIn S) {view : VmView} (hview : ∀ v ∈ view.vmIds, v ∈ S) :
    (s.prepare view).IdsIn S := by
  refine ⟨.empty, fun tid v hv hstart => ?_⟩
  rcases of_assignThreads hv with hv | hv
  · exact hview v hv
  · exact h.volatile tid v hv hstart

/-- The VM that is found for a thread. -/
theorem vmOf_mem (h : s.IdsIn S) (hthreads : ThreadsIn S toVmId) {tid : Int}
    (hstart : (s.vmOf toVmId tid).startTimestamp ≠ 0) : s.vmOf toVmId tid ∈ S := by
  rw [vmOf] at hstart ⊢
  split_ifs at hstart ⊢ with hstable
  · exact hthreads tid hstable
  · rw [ExtTreeMap.getD_eq_getD_getElem?] at hstart ⊢
    cases hv : s.volatileVmthreadIdToVmId[tid]? with
    | none =>
      rw [hv] at hstart
      exact absurd rfl hstart
    | some v =>
      rw [hv] at hstart
      exact h.volatile tid v hv hstart

theorem finds (h : s.IdsIn S) (hthreads : ThreadsIn S toVmId) (ds : List CacheMissData) :
    s.Finds S toVmId ds :=
  fun _ _ => h.vmOf_mem hthreads

/-- The inserting lookup enters no VM. -/
theorem of_volatile_calVmMissRate {data : CacheMissData} {tid : Int} {v : VmId}
    (h : (s.calVmMissRate toVmId data).volatileVmthreadIdToVmId[tid]? = some v) :
    s.volatileVmthreadIdToVmId[tid]? = some v ∨ v = {} := by
  have hinsert : (s.volatileVmthreadIdToVmId.insertIfNew data.tid {})[tid]? = some v →
      s.volatileVmthreadIdToVmId[tid]? = some v ∨ v = {} := by
    intro h
    rw [ExtTreeMap.getElem?_insertIfNew] at h
    split_ifs at h
    · exact Or.inr (Option.some.inj h).symm
    · exact Or.inl h
  simp only [calVmMissRate] at h
  split_ifs at h
  · exact Or.inl h
  · exact hinsert h
  · exact hinsert h

theorem foldl_calVmMissRate (h : s.IdsIn S) (hS : VmId.StrictWeakOn S)
    (hthreads : ThreadsIn S toVmId) (ds : List CacheMissData) :
    (ds.foldl (calVmMissRate toVmId) s).IdsIn S := by
  refine ⟨kept_foldl (kept_sorted hS.weakOn) (h.finds hthreads ds) h.counts, ?_⟩
  refine run_invariant (calVmMissRate toVmId)
    (I := fun s => ∀ (tid : Int) (v : VmId), s.volatileVmthreadIdToVmId[tid]? = some v →
      v.startTimestamp ≠ 0 → v ∈ S) h.volatile (fun s' data hs' tid v hv hstart => ?_) ds
  rcases of_volatile_calVmMissRate hv with hv | rfl
  · exact hs' tid v hv hstart
  · exact absurd rfl hstart

theorem stopSample (h : s.IdsIn S) (hS : VmId.StrictWeakOn S) (hthreads : ThreadsIn S toVmId)
    (env : SampleEnv) : (s.stopSample toVmId env).IdsIn S := by
  have hread : IdsIn S { s with cacheMiss := (s.cacheMiss.stopSample env).1 } :=
    ⟨h.counts, h.volatile⟩
  simp only [VmCacheMiss.stopSample]
  split
  · exact hread.foldl_calVmMissRate hS hthreads _
  · exact hread

theorem refresh (h : s.IdsIn S) (hS : VmId.StrictWeakOn S) {view : VmView}
    (hview : ∀ v ∈ view.vmIds, v ∈ S) (env : SampleEnv) : (s.refresh view env).IdsIn S := by
  have hprepared := h.prepare hview
  have hstarted : ((s.prepare view).startSample env).IdsIn S :=
    ⟨hprepared.counts, hprepared.volatile⟩
  have hstopped := hstarted.stopSample hS (threadsIn_view hview) env
  exact ⟨hstopped.counts, hstopped.volatile⟩

/-- **The callback adds to a VM what its threads contribute.** -/
theorem vmData_foldl (h : s.IdsIn S) (hS : VmId.StrictWeakOn S) (hthreads : ThreadsIn S toVmId)
    (ds : List CacheMissData) {v : VmId} (hv : v ∈ S) :
    (ds.foldl (calVmMissRate toVmId) s).vmData v =
      (s.contributions toVmId v ds).foldl accumulate (s.vmData v) :=
  VmCacheMiss.foldl_calVmMissRate (transOn hS.weakOn) h.counts.keys (h.finds hthreads ds) hv

end IdsIn

/-- **Refreshes** with views of the set. -/
theorem idsIn_run (hS : VmId.StrictWeakOn S) {rs : List (VmView × SampleEnv)}
    (hrs : ∀ r ∈ rs, ∀ v ∈ r.1.vmIds, v ∈ S) : (run step {} rs).IdsIn S := by
  induction rs using List.reverseRecOn with
  | nil => exact idsIn_init
  | append_singleton rs r ih =>
    rw [run_concat]
    have hinit := ih fun r hr => hrs r (List.mem_append_left _ hr)
    exact hinit.refresh hS (hrs r (List.mem_append_right _ List.mem_cons_self)) r.2

/-! ## The counts after a refresh -/

/-- `get_cache_miss` returns the counts held for the VM, and the thread id of the VM if none are. -/
theorem getCacheMiss_event (s : VmCacheMiss) (vmId : VmId) (e : PerfEvent) :
    (s.getCacheMiss vmId).event e = (s.vmData vmId).event e := by
  simp only [getCacheMiss, vmData]
  cases s.vmCacheMissData.find vmId with
  | none => cases e <;> rfl
  | some d => rfl

/-- **After any history, a refresh leaves for each VM the sums over its sampled threads**, and trees
hold them where the ids are ordered lawfully. -/
theorem vmCounts_eq_sum (rs : List (VmView × SampleEnv)) (view : VmView) (env : SampleEnv)
    (hdistinct : view.Distinct) (hown : view.OwnThreads)
    (hstart : ∀ vmId ∈ view.vmIds, vmId.startTimestamp ≠ 0) :
    (∀ vmId ∈ view.vmIds, (((run step {} rs).refresh view env).vmData vmId).SumsOf
      (((run step {} rs).refresh view env).threadsOf view vmId)) ∧
    ∀ S, VmId.StrictWeakOn S → (∀ r ∈ rs, ∀ v ∈ r.1.vmIds, v ∈ S) → (∀ v ∈ view.vmIds, v ∈ S) →
      HeldOn S ((run step {} rs).refresh view env).vmCacheMissData := by
  refine ⟨fun vmId hv => ?_, fun S hS hrs hview => ?_⟩
  · rw [vmData_refresh (inv_run rs) env hdistinct hown hstart hv]
    exact sumsOf_total _
  · exact ((idsIn_run hS hrs).refresh hS hview env).held hS

theorem distinct_viewOf (vmId : VmId) (tids : List Int) : (viewOf vmId tids).Distinct :=
  List.pairwise_singleton _ vmId

theorem ownThreads_viewOf (vmId : VmId) (tids : List Int) : (viewOf vmId tids).OwnThreads := by
  intro v hv w hw _ _ _
  rw [List.mem_singleton.1 hv, List.mem_singleton.1 hw]

/-- Thread 1 was of another VM at the refresh before. -/
theorem vmCounts_eq_sum_reused :
    (((run step {} [(viewOf ⟨1, 7⟩ [1, 2], envOf (some 0) (some 5))]).refresh
      (viewOf ⟨9, 8⟩ [1, 3]) (envOf (some 5) (some 8))).vmData ⟨9, 8⟩).SumsOf
    (((run step {} [(viewOf ⟨1, 7⟩ [1, 2], envOf (some 0) (some 5))]).refresh
      (viewOf ⟨9, 8⟩ [1, 3]) (envOf (some 5) (some 8))).threadsOf (viewOf ⟨9, 8⟩ [1, 3])
      ⟨9, 8⟩) :=
  (vmCounts_eq_sum [(viewOf ⟨1, 7⟩ [1, 2], envOf (some 0) (some 5))] (viewOf ⟨9, 8⟩ [1, 3])
    (envOf (some 5) (some 8)) (distinct_viewOf _ _) (ownThreads_viewOf _ _) (by decide)).1 ⟨9, 8⟩
    List.mem_cons_self

/-- Two threads of a VM count `2 ^ 63` each: the sum wraps around to 0, and the rates are still
those of the first thread. -/
theorem not_ratesAgree_wrapped :
    (viewOf ⟨1, 7⟩ [1, 2]).Distinct ∧ (viewOf ⟨1, 7⟩ [1, 2]).OwnThreads ∧
    (∀ vmId ∈ (viewOf ⟨1, 7⟩ [1, 2]).vmIds, vmId.startTimestamp ≠ 0) ∧
    ¬ RatesAgree (((run step {} []).refresh (viewOf ⟨1, 7⟩ [1, 2])
      (envOf (some 0) (some (2 ^ 63)))).vmData ⟨1, 7⟩) := by
  refine ⟨distinct_viewOf _ _, ownThreads_viewOf _ _, by decide, fun hagree => ?_⟩
  have hvm : (fun d => (d.cpuCycles.count, d.mptc)) (((run step {} []).refresh
      (viewOf ⟨1, 7⟩ [1, 2]) (envOf (some 0) (some (2 ^ 63)))).vmData ⟨1, 7⟩) = (0, 1000) := by
    decide +kernel
  obtain ⟨hcycles, hmptc⟩ := Prod.mk.inj hvm
  have hrate := hagree.mptc
  unfold rateOver at hrate
  rw [hcycles, hmptc, if_neg (by decide)] at hrate
  exact absurd hrate (by decide)

end VmCacheMiss

end LibVsf
