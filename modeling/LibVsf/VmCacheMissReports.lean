import LibVsf.VmCacheMissIds

/-!
# `VmCacheMiss`: what the callback is told

`cal_vm_miss_rate` adds the counts of each sampled thread to those of its VM, and passes the same
data on to the callback that the user has set.

**Theorem (`told_totals`).** In a refresh, after any calls of `set_callback`, `refresh` and `clear`,
the callback is told each sampled thread that has a VM, once and in the order of the ids, with what
the getter returns for the thread then; and what the getter returns for a VM is the total of what
the callback has been told of its threads. The ids that `VmBase` answers are of a set that is
ordered lawfully, and its answers do not change during a refresh.
-/

namespace LibVsf

open Std Runs EqvMap EqvOrd SearchTree

namespace VmCacheMiss

open CacheMissData

variable {S : Set VmId} {s : VmCacheMiss}

/-! ## The calls of the callback -/

theorem callbackFunc_calVmMissRate (toVmId : Int → VmId) (s : VmCacheMiss) (d : CacheMissData) :
    (s.calVmMissRate toVmId d).callbackFunc = s.callbackFunc := by
  simp only [calVmMissRate]
  split_ifs <;> rfl

/-- A thread that has a VM is passed on. -/
theorem published_calVmMissRate (toVmId : Int → VmId) (hset : s.callbackFunc ≠ .null)
    (d : CacheMissData) : (s.calVmMissRate toVmId d).published = s.published ++
      [d].filter fun d => (s.vmOf toVmId d.tid).startTimestamp ≠ 0 := by
  have hadd (t : VmCacheMiss) (ht : t.callbackFunc = s.callbackFunc) (vmId : VmId) :
      (t.addToVm vmId d).published = t.published ++ [d] :=
    if_neg (ht.symm ▸ hset)
  rw [List.filter_singleton]
  by_cases hstable : (toVmId d.tid).startTimestamp ≠ 0
  · have hvm : s.vmOf toVmId d.tid = toVmId d.tid := if_pos hstable
    rw [hvm, calVmMissRate, if_pos hstable, hadd s rfl]
    simp [hstable]
  · have hvm : s.vmOf toVmId d.tid = s.volatileVmthreadIdToVmId.getD d.tid {} := if_neg hstable
    rw [hvm, calVmMissRate, if_neg hstable]
    by_cases hzero : (s.volatileVmthreadIdToVmId.getD d.tid {}).startTimestamp = 0
    · rw [if_pos hzero]
      simp [hzero]
    · rw [if_neg hzero, hadd]
      · simp [hzero]
      · rfl

theorem foldl_published (toVmId : Int → VmId) (ds : List CacheMissData)
    (hset : s.callbackFunc ≠ .null) : (ds.foldl (calVmMissRate toVmId) s).published =
      s.published ++ ds.filter fun d => (s.vmOf toVmId d.tid).startTimestamp ≠ 0 := by
  induction ds generalizing s with
  | nil => exact (List.append_nil _).symm
  | cons d ds ih =>
    have hnext : (s.calVmMissRate toVmId d).callbackFunc ≠ .null := by
      rw [callbackFunc_calVmMissRate]
      exact hset
    rw [List.foldl_cons, ih hnext, published_calVmMissRate toVmId hset, List.append_assoc]
    simp only [vmOf_calVmMissRate]
    rw [← List.filter_append, List.singleton_append]

/-! ## A refresh -/

/-- What the callback is told, and what the getters return for VMs of the set. -/
structure Told (S : Set VmId) (toVm : Int → VmId) (s : VmCacheMiss) (calls : List CacheMissData) :
    Prop where
  /-- A thread is told once. -/
  ordered : calls.Pairwise fun c c' => c.tid < c'.tid
  thread : ∀ c ∈ calls, s.cacheMiss.cacheMissData[c.tid]? = some c
  sampled : ∀ tid, ∀ d ∈ s.cacheMiss.cacheMissData[tid]?,
    d ∈ calls ↔ (toVm tid).startTimestamp ≠ 0
  vm : ∀ vmId ∈ S, s.vmData vmId = total (calls.filter fun c => (toVm c.tid).eqv vmId)

/-- The VMs that `cal_vm_miss_rate` finds in a refresh. -/
def vmsOf (s : VmCacheMiss) (view : VmView) (tid : Int) : VmId :=
  (s.prepare view).vmOf view.stableVmthreadIdToVmId tid

/-- **A refresh tells the threads and adds them up.** -/
theorem told_refresh (hS : VmId.StrictWeakOn S) (h : s.Inv) (hids : s.IdsIn S) {view : VmView}
    (hview : ∀ v ∈ view.vmIds, v ∈ S) (env : SampleEnv) (hset : s.callbackFunc ≠ .null) :
    ∃ calls, (s.refresh view env).published = s.published ++ calls ∧
      Told S (s.vmsOf view) (s.refresh view env) calls := by
  have hkeyed := (inv_step h (view, env)).keyed
  change (s.refresh view env).cacheMiss.Keyed at hkeyed
  have hrefresh := refresh_eq_foldl h view env
  have hread : (s.read view env).IdsIn S :=
    ⟨(hids.prepare hview).counts, (hids.prepare hview).volatile⟩
  have hsampled : ∀ p ∈ (s.refresh view env).cacheMiss.cacheMissData.toList, p.2.tid = p.1 :=
    fun p hp => hkeyed p.1 p.2 (ExtTreeMap.mem_toList_iff_getElem?_eq_some.1 hp)
  refine ⟨(s.refresh view env).sampled.filter fun d => (s.vmsOf view d.tid).startTimestamp ≠ 0,
    ?_, ?_, fun c hc => ?_, fun tid d hd => ?_, fun vmId hvmId => ?_⟩
  · have hfold := foldl_published view.stableVmthreadIdToVmId (s := s.read view env)
      (s.refresh view env).sampled hset
    exact (congrArg published hrefresh).trans hfold
  · refine List.Pairwise.filter _ (List.pairwise_map.2 ?_)
    refine ExtTreeMap.ordered_keys_toList.imp_of_mem fun hp hq hlt => ?_
    rw [hsampled _ hp, hsampled _ hq]
    exact compare_lt_iff_lt.1 hlt
  · obtain ⟨p, hp, rfl⟩ := List.mem_map.1 (List.mem_filter.1 hc).1
    rw [hsampled p hp]
    exact ExtTreeMap.mem_toList_iff_getElem?_eq_some.1 hp
  · have hmem : d ∈ (s.refresh view env).sampled :=
      List.mem_map_of_mem (f := Prod.snd) (ExtTreeMap.mem_toList_iff_getElem?_eq_some.2 hd)
    rw [List.mem_filter, hkeyed tid d hd, decide_eq_true_iff]
    exact and_iff_right hmem
  · have hfold := hread.vmData_foldl hS (threadsIn_view hview) (s.refresh view env).sampled hvmId
    have hvm : (s.refresh view env).vmData vmId =
        total (((s.refresh view env).sampled).filter fun d =>
          (s.vmsOf view d.tid).startTimestamp ≠ 0 ∧ (s.vmsOf view d.tid).eqv vmId) :=
      (congrArg (fun s => s.vmData vmId) hrefresh).trans hfold
    rw [hvm, List.filter_filter]
    refine congrArg total (List.filter_congr fun d _ => ?_)
    rw [← Bool.decide_and, decide_eq_decide]
    exact and_comm

/-! ## Runs -/

/-- The calls of a program that has no thread of the sampler. -/
inductive Call where
  | setCallback (callbackFunc : Callback)
  | refresh (view : VmView) (env : SampleEnv)
  | clear

def call (s : VmCacheMiss) : Call → VmCacheMiss
  | .setCallback callbackFunc => { s with callbackFunc := callbackFunc }
  | .refresh view env => s.refresh view env
  | .clear => s.clear

theorem inv_call (h : s.Inv) (c : Call) : (s.call c).Inv := by
  cases c with
  | setCallback => exact ⟨h.callback, h.started, h.stopping, h.entries, h.keyed⟩
  | refresh view env => exact inv_step h (view, env)
  | clear =>
    refine ⟨h.callback, rfl, nofun, fun tid hentry => ?_, fun tid d hd => ?_⟩
    · simp [call, clear, CacheMiss.clear] at hentry
    · simp [call, clear, CacheMiss.clear] at hd

/-- The VMs that a refresh is answered are of the set. -/
def Call.IdsIn (S : Set VmId) (c : Call) : Prop :=
  ∀ view env, c = .refresh view env → ∀ v ∈ view.vmIds, v ∈ S

theorem idsIn_calls (hS : VmId.StrictWeakOn S) {cs : List Call} (hcs : ∀ c ∈ cs, c.IdsIn S) :
    (run call {} cs).IdsIn S := by
  induction cs using List.reverseRecOn with
  | nil => exact idsIn_init
  | append_singleton cs c ih =>
    rw [run_concat]
    have hinit := ih fun c hc => hcs c (List.mem_append_left _ hc)
    have hlast := hcs c (List.mem_append_right _ List.mem_cons_self)
    cases c with
    | setCallback => exact ⟨hinit.counts, hinit.volatile⟩
    | refresh view env => exact hinit.refresh hS (hlast view env rfl) env
    | clear => exact ⟨.empty, idsIn_init.volatile⟩

/-- **What the callback is told** is what there is to read, of the threads and of the VMs, in the
trees too. -/
theorem told_totals (hS : VmId.StrictWeakOn S) {cs : List Call} (hcs : ∀ c ∈ cs, c.IdsIn S)
    (hset : (run call {} cs).callbackFunc ≠ .null) {view : VmView}
    (hview : ∀ v ∈ view.vmIds, v ∈ S) (env : SampleEnv) : ∃ calls,
      ((run call {} cs).refresh view env).published = (run call {} cs).published ++ calls ∧
        Told S ((run call {} cs).vmsOf view) ((run call {} cs).refresh view env) calls ∧
        HeldOn S ((run call {} cs).refresh view env).vmCacheMissData := by
  have hinv := run_invariant call inv_init (fun _ c h => inv_call h c) cs
  have hids := idsIn_calls hS hcs
  obtain ⟨calls, hpublished, htold⟩ := told_refresh hS hinv hids hview env hset
  exact ⟨calls, hpublished, htold, (hids.refresh hS hview env).held hS⟩

theorem told_totals_twoThreads : ∃ calls,
    ((run call {} [.setCallback (.user 0)]).refresh (viewOf ⟨1, 7⟩ [7, 8])
        (CacheMiss.envOf (some 0) (some 5))).published =
      (run call {} [.setCallback (.user 0)]).published ++ calls ∧
        Told {⟨1, 7⟩} ((run call {} [.setCallback (.user 0)]).vmsOf (viewOf ⟨1, 7⟩ [7, 8]))
          ((run call {} [.setCallback (.user 0)]).refresh (viewOf ⟨1, 7⟩ [7, 8])
            (CacheMiss.envOf (some 0) (some 5))) calls ∧
        HeldOn {⟨1, 7⟩} ((run call {} [.setCallback (.user 0)]).refresh (viewOf ⟨1, 7⟩ [7, 8])
          (CacheMiss.envOf (some 0) (some 5))).vmCacheMissData := by
  have hcs : ∀ c ∈ [Call.setCallback (.user 0)], c.IdsIn {⟨1, 7⟩} := by
    rintro _ (_ | ⟨_, h⟩) _ _ hrefresh
    · cases hrefresh
    · cases h
  exact told_totals (.singleton _) hcs nofun (fun _ => List.mem_singleton.1) _

end VmCacheMiss

end LibVsf
