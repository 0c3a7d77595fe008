import LibVsf.CacheMissProof
import LibVsf.VmCacheMiss
import LibVsf.VmIdMaps
import Mathlib.Data.List.Pairwise
import Mathlib.Data.UInt

/-!
# `VmCacheMiss`: which threads are sampled, and for which VM

`VmCacheMiss` asks `CacheMiss` to watch a thread when it joins the threads of the VMs and to
stop when it leaves. `CacheMiss` stops watching it on its own when its events cannot be opened
or read, and `VmCacheMiss` never learns of that.

* `foldl_calVmMissRate`: the callback adds the counts of a thread to the VM it finds for it, if
  `==` is transitive on the ids of the VMs.
* `vmData_refresh`: after a refresh of VMs no two of which are `==`, what is held for a VM is the
  total of its threads that are being sampled.
* **Theorem (`resampled_iff`).** A thread that stays is sampled exactly if its events could be
  opened when it joined and all reads of it have succeeded since. Otherwise it is never sampled
  again while it stays (`not_sampled_of_unsteady`).
-/

namespace LibVsf

open Std Runs EqvMap EqvOrd

/-! ## The threads of the VMs -/

theorem assign_getElem? (tids : List Int) (vmId : VmId) (m : ExtTreeMap Int VmId) (tid : Int) :
    (tids.foldl (fun m tid => m.insert tid vmId) m)[tid]? =
      if tid ∈ tids then some vmId else m[tid]? := by
  induction tids generalizing m with
  | nil => simp
  | cons t tids ih =>
    rw [List.foldl_cons, ih, ExtTreeMap.getElem?_insert]
    by_cases h : t = tid
    · simp [h]
    · simp [h, Ne.symm h]

theorem assignThreads_of_not_mem {threads : VmId → Tids} {vmIds : List VmId} {tid : Int}
    (h : ∀ vmId ∈ vmIds, tid ∉ threads vmId) (m : ExtTreeMap Int VmId) :
    (assignThreads threads vmIds m)[tid]? = m[tid]? := by
  simp only [assignThreads]
  induction vmIds generalizing m with
  | nil => rfl
  | cons v vmIds ih =>
    rw [List.foldl_cons, ih fun w hw => h w (List.mem_cons_of_mem v hw), assign_getElem?,
      if_neg fun hmem => h v List.mem_cons_self (ExtTreeSet.mem_toList.1 hmem)]

theorem assignThreads_of_mem {threads : VmId → Tids} {vmIds : List VmId} {vmId : VmId}
    {tid : Int} (hmem : vmId ∈ vmIds) (ht : tid ∈ threads vmId)
    (huniq : ∀ w ∈ vmIds, tid ∈ threads w → w = vmId) (m : ExtTreeMap Int VmId) :
    (assignThreads threads vmIds m)[tid]? = some vmId := by
  induction vmIds generalizing m with
  | nil => cases hmem
  | cons v vmIds ih =>
    have huniq' : ∀ w ∈ vmIds, tid ∈ threads w → w = vmId :=
      fun w hw => huniq w (List.mem_cons_of_mem v hw)
    by_cases hrest : ∃ w ∈ vmIds, tid ∈ threads w
    · obtain ⟨w, hw, hwt⟩ := hrest
      obtain rfl := huniq' w hw hwt
      exact ih hw huniq' _
    · have hlast : v = vmId := by
        rcases List.mem_cons.1 hmem with rfl | hmem
        · rfl
        · exact absurd ⟨vmId, hmem, ht⟩ hrest
      subst hlast
      show (assignThreads threads vmIds _)[tid]? = _
      rw [assignThreads_of_not_mem fun w hw hwt => hrest ⟨w, hw, hwt⟩, assign_getElem?,
        if_pos (ExtTreeSet.mem_toList.2 ht)]

/-- The VM that is assigned to a thread is one of those, or was assigned before. -/
theorem of_assignThreads {threads : VmId → Tids} {vmIds : List VmId} {m : ExtTreeMap Int VmId}
    {tid : Int} {v : VmId} (h : (assignThreads threads vmIds m)[tid]? = some v) :
    v ∈ vmIds ∨ m[tid]? = some v := by
  simp only [assignThreads] at h
  induction vmIds generalizing m with
  | nil => exact Or.inr h
  | cons w vmIds ih =>
    rcases ih h with hv | hv
    · exact Or.inl (List.mem_cons_of_mem w hv)
    · rw [assign_getElem?] at hv
      split_ifs at hv
      · exact Or.inl (Option.some.inj hv ▸ List.mem_cons_self)
      · exact Or.inr hv

namespace VmView

/-- No two of the VMs are `==`. -/
def Distinct (view : VmView) : Prop := view.vmIds.Pairwise fun v w => ¬ v.eqv w

theorem Distinct.eq_of_eqv {view : VmView} (h : view.Distinct) {v w : VmId}
    (hv : v ∈ view.vmIds) (hw : w ∈ view.vmIds) (heqv : eqv v w) : v = w := by
  have _ : Std.Symm fun v w : VmId => ¬ v.eqv w := ⟨fun v w hne heqv => hne (eqv_symm w v heqv)⟩
  by_contra hne
  exact List.Pairwise.forall h hv hw hne heqv

theorem Distinct.transOn {view : VmView} (h : view.Distinct) :
    TransOn {v | v ∈ view.vmIds} := by
  intro a ha b hb c _ hab hbc
  rw [h.eq_of_eqv ha hb hab]
  exact hbc

/-- The VM that is found for a thread, if there is one, is one of the VMs. -/
theorem stableVmthreadIdToVmId_mem (view : VmView) {tid : Int}
    (h : (view.stableVmthreadIdToVmId tid).startTimestamp ≠ 0) :
    view.stableVmthreadIdToVmId tid ∈ view.vmIds := by
  rw [stableVmthreadIdToVmId, ExtTreeMap.getD_eq_getD_getElem?] at h ⊢
  cases hfound : (assignThreads view.stable view.vmIds ∅)[tid]? with
  | none =>
    rw [hfound] at h
    exact absurd rfl h
  | some v =>
    rcases of_assignThreads hfound with hv | hv
    · exact hv
    · rw [ExtTreeMap.getElem?_empty] at hv
      cases hv

/-- The thread is one of the VM. -/
def IsThread (view : VmView) (vmId : VmId) (tid : Int) : Prop :=
  tid ∈ view.stable vmId ∨ tid ∈ view.volatile vmId

instance (view : VmView) (vmId : VmId) (tid : Int) : Decidable (view.IsThread vmId tid) :=
  inferInstanceAs (Decidable (_ ∨ _))

theorem mem_tids (view : VmView) (tid : Int) :
    tid ∈ view.tids ↔ ∃ vmId ∈ view.vmIds, view.IsThread vmId tid := by
  have hinsert (t : Tids) (t' : Tids) : tid ∈ t.insertMany t'.toList ↔ tid ∈ t ∨ tid ∈ t' := by
    rw [ExtTreeSet.mem_insertMany_list, List.contains_iff_mem, ExtTreeSet.mem_toList]
  have hloop (vmIds : List VmId) (t : Tids) :
      tid ∈ vmIds.foldl (fun tids vmId =>
        (tids.insertMany (view.stable vmId).toList).insertMany (view.volatile vmId).toList) t ↔
        tid ∈ t ∨ ∃ vmId ∈ vmIds, view.IsThread vmId tid := by
    induction vmIds generalizing t with
    | nil => simp
    | cons v vmIds ih =>
      rw [List.foldl_cons, ih, hinsert, hinsert]
      simp only [IsThread]
      simp only [List.mem_cons, exists_eq_or_imp, or_assoc]
  simp only [tids]
  rw [hloop]
  simp

/-- No two VMs share a thread. -/
def OwnThreads (view : VmView) : Prop :=
  ∀ v ∈ view.vmIds, ∀ w ∈ view.vmIds, ∀ tid, view.IsThread v tid → view.IsThread w tid → v = w

end VmView

/-! ## The counts of a VM -/

namespace CacheMissData

/-- What the rates over an event are if it has a count. -/
def quotients (d : CacheMissData) : PerfEvent → List ℚ
  | .cacheMisses => []
  | .cpuCycles => [1000 * d.cacheMisses.count.toNat / d.cpuCycles.count.toNat]
  | .instructions => [1000 * d.cacheMisses.count.toNat / d.instructions.count.toNat,
      1000 * d.cacheReferences.count.toNat / d.instructions.count.toNat,
      (d.cpuCycles.count.toNat : ℚ) / d.instructions.count.toNat]
  | .cacheReferences => [1000 * d.cacheMisses.count.toNat / d.cacheReferences.count.toNat]

theorem rates_updateMissRate (d : CacheMissData) (e : PerfEvent) :
    d.updateMissRate.rates e = if (d.event e).count > 0 then d.quotients e else d.rates e := by
  rw [updateMissRate_eq]
  by_cases h : (d.event e).count > 0
  · rw [if_pos h]
    cases e <;> simp only [event] at h <;>
      simp only [rates, quotients, rateOver, h, if_true, one_mul]
  · rw [if_neg h]
    cases e <;> simp only [event] at h <;> simp only [rates, h, if_false]

theorem quotients_updateMissRate (d : CacheMissData) :
    d.updateMissRate.quotients = d.quotients := by
  funext e
  rw [updateMissRate_eq]
  cases e <;> rfl

/-- The sum of the counts of an event. -/
def sumCounts (ds : List CacheMissData) (e : PerfEvent) : UInt64 :=
  (ds.map fun d => (d.event e).count).sum

theorem count_accumulate (d data : CacheMissData) (e : PerfEvent) :
    ((d.accumulate data).event e).count = (d.event e).count + (data.event e).count := by
  simp only [accumulate]
  rw [event_updateMissRate, event_mapEvents]

theorem count_foldl_accumulate (ds : List CacheMissData) (d : CacheMissData) (e : PerfEvent) :
    ((ds.foldl accumulate d).event e).count = (d.event e).count + sumCounts ds e := by
  simp only [sumCounts]
  induction ds generalizing d with
  | nil => exact (UInt64.add_zero _).symm
  | cons data ds ih =>
    rw [List.foldl_cons, ih, count_accumulate, List.map_cons, List.sum_cons, UInt64.add_assoc]

theorem count_pos_iff {p : PerfData} : p.count > 0 ↔ p.count ≠ 0 := by
  rw [gt_iff_lt, UInt64.lt_iff_toNat_lt, Ne, ← UInt64.toNat_inj]
  exact Nat.pos_iff_ne_zero

/-- What the counts of the threads `ds` add up to. -/
def total (ds : List CacheMissData) : CacheMissData := ds.foldl accumulate {}

theorem count_total (ds : List CacheMissData) (e : PerfEvent) :
    ((total ds).event e).count = sumCounts ds e := by
  simp only [total]
  rw [count_foldl_accumulate]
  cases e <;> exact UInt64.zero_add _

theorem sum_map_eq_zero {ι : Type*} {l : List ι} {f : ι → UInt64} (h : ∀ k ∈ l, f k = 0) :
    (l.map f).sum = 0 := by
  induction l with
  | nil => rfl
  | cons k l ih =>
    rw [List.map_cons, List.sum_cons, h k List.mem_cons_self,
      ih fun k' hk' => h k' (List.mem_cons_of_mem k hk')]
    rfl

theorem sumCounts_eq_zero {ds : List CacheMissData} {e : PerfEvent}
    (h : ∀ data ∈ ds, (data.event e).count = 0) : sumCounts ds e = 0 :=
  sum_map_eq_zero h

theorem total_concat (ds : List CacheMissData) (data : CacheMissData) :
    total (ds ++ [data]) = (total ds).accumulate data := by
  simp only [total]
  rw [List.foldl_append]
  rfl

theorem rates_accumulate (d data : CacheMissData) (e : PerfEvent) :
    (d.accumulate data).rates e = if ((d.accumulate data).event e).count > 0 then
      (d.accumulate data).quotients e else d.rates e := by
  unfold accumulate
  rw [rates_updateMissRate, event_updateMissRate, quotients_updateMissRate, rates_mapEvents]

/-- Over an event that has a count, the rates are those of the counts. -/
theorem rates_total_of_ne {ds : List CacheMissData} {e : PerfEvent}
    (h : ((total ds).event e).count ≠ 0) : (total ds).rates e = (total ds).quotients e := by
  cases ds using List.reverseRecOn with
  | nil => exact absurd (by cases e <;> rfl) h
  | append_singleton ds data =>
    rw [total_concat] at h ⊢
    rw [rates_accumulate, if_pos (count_pos_iff.2 h)]

/-- Over an event that no thread has a count of, there are none. -/
theorem unrated_total {ds : List CacheMissData} {e : PerfEvent}
    (h : ∀ data ∈ ds, (data.event e).count = 0) : Unrated (total ds) e := by
  induction ds using List.reverseRecOn with
  | nil => cases e <;> simp [Unrated, total, rates]
  | append_singleton ds data ih =>
    have hzero : ¬ ((total (ds ++ [data])).event e).count > 0 := by
      rw [count_total, sumCounts_eq_zero h]
      decide
    simp only [Unrated]
    rw [total_concat] at hzero ⊢
    rw [rates_accumulate, if_neg hzero]
    exact ih fun d hd => h d (List.mem_append_left _ hd)

theorem toNat_sumCounts (ds : List CacheMissData) (e : PerfEvent) :
    (sumCounts ds e).toNat = (ds.map fun d => (d.event e).count.toNat).sum % 2 ^ 64 := by
  simp only [sumCounts]
  induction ds with
  | nil => rfl
  | cons data ds ih =>
    simp only [List.map_cons, List.sum_cons, UInt64.toNat_add, ih]
    omega

/-- The counts are the sums of those of the threads, as unsigned integers of 64 bits, and the
rates those of the counts. An event whose counts add up to zero has no rates, unless they wrap
around. -/
structure SumsOf (d : CacheMissData) (threads : List CacheMissData) : Prop where
  counts : ∀ e, (d.event e).count.toNat =
    (threads.map fun data => (data.event e).count.toNat).sum % 2 ^ 64
  rates : ∀ e, (d.event e).count ≠ 0 → d.rates e = d.quotients e
  unrated : ∀ e, (∀ data ∈ threads, (data.event e).count = 0) → Unrated d e

theorem sumsOf_total (ds : List CacheMissData) : (total ds).SumsOf ds where
  counts e := by rw [count_total, toNat_sumCounts]
  rates _ h := rates_total_of_ne h
  unrated _ h := unrated_total h

end CacheMissData

/-! ## The callback -/

namespace VmCacheMiss

open CacheMiss (envOf)
open CacheMissData

/-- The VM that `cal_vm_miss_rate` finds for a thread. -/
def vmOf (s : VmCacheMiss) (toVmId : Int → VmId) (tid : Int) : VmId :=
  if (toVmId tid).startTimestamp ≠ 0 then toVmId tid
  else s.volatileVmthreadIdToVmId.getD tid {}

/-- The counts held for a VM. -/
def vmData (s : VmCacheMiss) (vmId : VmId) : CacheMissData :=
  (s.vmCacheMissData.find vmId).getD {}

/-- What the threads `ds` contribute to a VM. -/
def contributions (s : VmCacheMiss) (toVmId : Int → VmId) (vmId : VmId)
    (ds : List CacheMissData) : List CacheMissData :=
  ds.filter fun d => (s.vmOf toVmId d.tid).startTimestamp ≠ 0 ∧ (s.vmOf toVmId d.tid).eqv vmId

/-- The inserting lookup changes no id that is found later. -/
theorem vmOf_calVmMissRate (s : VmCacheMiss) (toVmId : Int → VmId) (data : CacheMissData)
    (tid : Int) : (s.calVmMissRate toVmId data).vmOf toVmId tid = s.vmOf toVmId tid := by
  have hinsert : (s.volatileVmthreadIdToVmId.insertIfNew data.tid {}).getD tid {} =
      s.volatileVmthreadIdToVmId.getD tid {} := by
    rw [ExtTreeMap.getD_insertIfNew]
    split_ifs with h
    · obtain ⟨heq, hmem⟩ := h
      rw [← LawfulEqCmp.eq_of_compare heq, ExtTreeMap.getD_eq_fallback hmem]
    · rfl
  have hmap : (s.calVmMissRate toVmId data).volatileVmthreadIdToVmId.getD tid {} =
      s.volatileVmthreadIdToVmId.getD tid {} := by
    simp only [calVmMissRate]
    by_cases hstable : (toVmId data.tid).startTimestamp ≠ 0
    · rw [if_pos hstable]
      rfl
    · rw [if_neg hstable]
      by_cases hzero : (s.volatileVmthreadIdToVmId.getD data.tid {}).startTimestamp = 0
      · rw [if_pos hzero]
        exact hinsert
      · rw [if_neg hzero]
        exact hinsert
  simp only [vmOf]
  rw [hmap]

/-- **The callback** adds to the VM that is found, if there is one. -/
theorem calVmMissRate_cases (toVmId : Int → VmId) (s : VmCacheMiss) (data : CacheMissData) :
    (s.calVmMissRate toVmId data).vmCacheMissData =
      if (s.vmOf toVmId data.tid).startTimestamp ≠ 0 then
        s.vmCacheMissData.insert (s.vmOf toVmId data.tid)
          ((s.vmData (s.vmOf toVmId data.tid)).accumulate data)
      else s.vmCacheMissData := by
  simp only [calVmMissRate, vmOf]
  by_cases hstable : (toVmId data.tid).startTimestamp ≠ 0
  · simp only [if_pos hstable]
    rfl
  · simp only [if_neg hstable]
    by_cases hzero : (s.volatileVmthreadIdToVmId.getD data.tid {}).startTimestamp = 0
    · rw [if_pos hzero, if_neg (not_not.2 hzero)]
    · rw [if_neg hzero, if_pos hzero]
      rfl

section Ids

variable {S : Set VmId}

/-- The VMs that are found for the threads `ds` are of a set. -/
def Finds (s : VmCacheMiss) (S : Set VmId) (toVmId : Int → VmId) (ds : List CacheMissData) : Prop :=
  ∀ d ∈ ds, (s.vmOf toVmId d.tid).startTimestamp ≠ 0 → s.vmOf toVmId d.tid ∈ S

theorem Finds.tail {s : VmCacheMiss} {toVmId : Int → VmId} {data : CacheMissData}
    {ds : List CacheMissData} (h : s.Finds S toVmId (data :: ds)) :
    (s.calVmMissRate toVmId data).Finds S toVmId ds := by
  intro d hd hstart
  rw [vmOf_calVmMissRate] at hstart ⊢
  exact h d (List.mem_cons_of_mem data hd) hstart

/-- What insertions for these VMs keep, the callback keeps. -/
theorem kept_foldl {Q : ∀ α : Type, EqvMap VmId α → Prop} (hQ : KeptOn S Q) {toVmId : Int → VmId}
    {ds : List CacheMissData} {s : VmCacheMiss} (hfinds : s.Finds S toVmId ds)
    (h : Q _ s.vmCacheMissData) : Q _ (ds.foldl (calVmMissRate toVmId) s).vmCacheMissData := by
  induction ds generalizing s with
  | nil => exact h
  | cons data ds ih =>
    refine ih hfinds.tail ?_
    rw [calVmMissRate_cases]
    split_ifs with hstart
    · exact hQ.insert h (hfinds data List.mem_cons_self hstart)
    · exact h

theorem vmData_calVmMissRate (hS : TransOn S) {s : VmCacheMiss}
    (hkeys : ∀ k ∈ s.vmCacheMissData.keys, k ∈ S) {toVmId : Int → VmId} {data : CacheMissData}
    (hfound : (s.vmOf toVmId data.tid).startTimestamp ≠ 0 → s.vmOf toVmId data.tid ∈ S) {v : VmId}
    (hv : v ∈ S) : (s.calVmMissRate toVmId data).vmData v =
      if (s.vmOf toVmId data.tid).startTimestamp ≠ 0 ∧ (s.vmOf toVmId data.tid).eqv v then
        (s.vmData v).accumulate data
      else s.vmData v := by
  simp only [vmData, calVmMissRate_cases]
  by_cases hstart : (s.vmOf toVmId data.tid).startTimestamp ≠ 0
  · have hw := hfound hstart
    rw [if_pos hstart, find_insert hS hkeys hw hv]
    by_cases heqv : (s.vmOf toVmId data.tid).eqv v
    · have hboth : eqv (s.vmOf toVmId data.tid) v := heqv
      simp only [hstart, heqv, hboth, and_self, if_true, Option.getD_some, ne_eq,
        not_false_eq_true]
      rw [find_congr hS hkeys hw hv hboth]
    · have hneither : ¬ eqv (s.vmOf toVmId data.tid) v := heqv
      simp only [heqv, hneither, and_false, if_false]
  · rw [if_neg hstart]
    simp only [hstart, false_and, if_false]

/-- **The callback adds to a VM what its threads contribute.** -/
theorem foldl_calVmMissRate (hS : TransOn S) {toVmId : Int → VmId} {ds : List CacheMissData}
    {s : VmCacheMiss} (hkeys : ∀ k ∈ s.vmCacheMissData.keys, k ∈ S)
    (hfinds : s.Finds S toVmId ds) {v : VmId} (hv : v ∈ S) :
    (ds.foldl (calVmMissRate toVmId) s).vmData v =
      (s.contributions toVmId v ds).foldl accumulate (s.vmData v) := by
  induction ds generalizing s with
  | nil => rfl
  | cons data ds ih =>
    have hfound := hfinds data List.mem_cons_self
    have hone : s.Finds S toVmId [data] := by
      intro d hd hstart
      obtain rfl := List.mem_singleton.1 hd
      exact hfound hstart
    have hnext : ∀ k ∈ (s.calVmMissRate toVmId data).vmCacheMissData.keys, k ∈ S :=
      kept_foldl (kept_keys S) hone hkeys
    rw [List.foldl_cons, ih hnext hfinds.tail, vmData_calVmMissRate hS hkeys hfound hv]
    simp only [contributions, vmOf_calVmMissRate]
    rw [List.filter_cons]
    by_cases h : (s.vmOf toVmId data.tid).startTimestamp ≠ 0 ∧ (s.vmOf toVmId data.tid).eqv v
    · rw [if_pos h, if_pos (decide_eq_true h)]
      rfl
    · rw [if_neg h, if_neg fun hd => h (of_decide_eq_true hd)]

end Ids

/-! ## Who is watched -/

theorem foldl_startWatching (tids : List Int) (c : CacheMiss) :
    tids.foldl CacheMiss.startWatching c =
      { c with toStartWatching := c.toStartWatching ++ tids } := by
  induction tids generalizing c with
  | nil => simp
  | cons tid tids ih => simp [ih, CacheMiss.startWatching]

theorem foldl_stopWatching (tids : List Int) (c : CacheMiss) :
    tids.foldl CacheMiss.stopWatching c =
      { c with toStopWatching := c.toStopWatching ++ tids } := by
  induction tids generalizing c with
  | nil => simp
  | cons tid tids ih => simp [ih, CacheMiss.stopWatching]

theorem prepare_cacheMiss (s : VmCacheMiss) (view : VmView) :
    (s.prepare view).cacheMiss = { s.cacheMiss with
      toStartWatching := s.cacheMiss.toStartWatching ++
        view.tids.toList.filter fun tid => !s.lastTids.contains tid
      toStopWatching := s.cacheMiss.toStopWatching ++
        s.lastTids.toList.filter fun tid => !view.tids.contains tid } := by
  show List.foldl CacheMiss.stopWatching (List.foldl CacheMiss.startWatching s.cacheMiss _) _ = _
  rw [foldl_stopWatching, foldl_startWatching]

/-- The thread has an entry that the next round will sample. -/
def Healthy (s : VmCacheMiss) (tid : Int) : Prop :=
  tid ∉ s.cacheMiss.toStopWatching ∧ (s.cacheMiss.cacheMissData[tid]?).isSome

/-- The events of a thread can be opened in the coming round, which it is to join. -/
def Joins (s : VmCacheMiss) (view : VmView) (env : SampleEnv) (tid : Int) : Prop :=
  CacheMiss.Opens env (s.prepare view).cacheMiss.toStartWatching.zipIdx tid

/-- Between two refreshes: `CacheMiss` watches only threads that `VmCacheMiss` has asked for. -/
structure Inv (s : VmCacheMiss) : Prop where
  callback : s.cacheMiss.callbackFunc = .calVmMissRate
  started : s.cacheMiss.toStartWatching = []
  stopping : ∀ tid ∈ s.cacheMiss.toStopWatching, tid ∈ s.lastTids
  entries : ∀ tid, (s.cacheMiss.cacheMissData[tid]?).isSome → tid ∈ s.lastTids
  keyed : s.cacheMiss.Keyed

theorem mem_of_opens {env : SampleEnv} {tids : List Int} {tid : Int}
    (h : CacheMiss.Opens env tids.zipIdx tid) : tid ∈ tids := by
  obtain ⟨⟨t, k⟩, hmem, rfl, -⟩ := h
  exact (List.mem_zipIdx' hmem).2 ▸ List.getElem_mem _

theorem not_contains (tids : Tids) (tid : Int) : tids.contains tid = false ↔ tid ∉ tids := by
  rw [ExtTreeSet.mem_iff_contains, Bool.not_eq_true]

theorem mem_toStart_prepare {s : VmCacheMiss} (h : s.Inv) (view : VmView) (tid : Int) :
    tid ∈ (s.prepare view).cacheMiss.toStartWatching ↔ tid ∈ view.tids ∧ tid ∉ s.lastTids := by
  rw [prepare_cacheMiss]
  show tid ∈ s.cacheMiss.toStartWatching ++ _ ↔ _
  rw [h.started]
  simp [not_contains]

theorem mem_toStop_prepare (s : VmCacheMiss) (view : VmView) (tid : Int) :
    tid ∈ (s.prepare view).cacheMiss.toStopWatching ↔
      tid ∈ s.cacheMiss.toStopWatching ∨ tid ∈ s.lastTids ∧ tid ∉ view.tids := by
  rw [prepare_cacheMiss]
  simp [not_contains]

theorem cacheMissData_prepare (s : VmCacheMiss) (view : VmView) :
    (s.prepare view).cacheMiss.cacheMissData = s.cacheMiss.cacheMissData := by
  rw [prepare_cacheMiss]

theorem callbackFunc_prepare (s : VmCacheMiss) (view : VmView) :
    (s.prepare view).cacheMiss.callbackFunc = s.cacheMiss.callbackFunc := by
  rw [prepare_cacheMiss]

/-- **The threads a round samples** are the threads of the VMs that were there before and are
healthy, and those that have just joined, if their events can be opened. -/
theorem watched_prepare {s : VmCacheMiss} (h : s.Inv) (view : VmView) (env : SampleEnv)
    (tid : Int) : (s.prepare view).cacheMiss.Watched env tid ↔
      tid ∈ view.tids ∧ (tid ∈ s.lastTids → s.Healthy tid) ∧
        (tid ∉ s.lastTids → s.Joins view env tid) := by
  have hjoins : s.Joins view env tid → tid ∈ view.tids ∧ tid ∉ s.lastTids :=
    fun hj => (mem_toStart_prepare h view tid).1 (mem_of_opens hj)
  simp only [CacheMiss.Watched, Healthy]
  rw [mem_toStop_prepare, cacheMissData_prepare]
  by_cases hlast : tid ∈ s.lastTids
  · -- It has been asked for before, so it is not opened again.
    have hno : ¬ s.Joins view env tid := fun hj => (hjoins hj).2 hlast
    show (_ ∧ (_ ∨ s.Joins view env tid)) ↔ _
    tauto
  · have hnone : ¬ (s.cacheMiss.cacheMissData[tid]?).isSome := fun he => hlast (h.entries tid he)
    have hstop : tid ∉ s.cacheMiss.toStopWatching := fun hs => hlast (h.stopping tid hs)
    show (_ ∧ (_ ∨ s.Joins view env tid)) ↔ _
    tauto

/-! ## One refresh -/

theorem cacheMiss_foldl_calVmMissRate (toVmId : Int → VmId) (ds : List CacheMissData)
    (s : VmCacheMiss) : (ds.foldl (calVmMissRate toVmId) s).cacheMiss = s.cacheMiss ∧
      (ds.foldl (calVmMissRate toVmId) s).lastTids = s.lastTids := by
  refine run_invariant (calVmMissRate toVmId)
    (I := fun s' => s'.cacheMiss = s.cacheMiss ∧ s'.lastTids = s.lastTids) ⟨rfl, rfl⟩
    (fun s' data hs' => ?_) ds
  simp only [calVmMissRate]
  by_cases hstable : (toVmId data.tid).startTimestamp ≠ 0
  · rw [if_pos hstable]
    exact hs'
  · rw [if_neg hstable]
    by_cases hzero : (s'.volatileVmthreadIdToVmId.getD data.tid {}).startTimestamp = 0
    · rw [if_pos hzero]
      exact hs'
    · rw [if_neg hzero]
      exact hs'

theorem stopSample_eq {s : VmCacheMiss} (h : s.cacheMiss.callbackFunc = .calVmMissRate)
    (toVmId : Int → VmId) (env : SampleEnv) :
    s.stopSample toVmId env =
      (s.cacheMiss.stopSample env).2.foldl (calVmMissRate toVmId)
        { s with cacheMiss := (s.cacheMiss.stopSample env).1 } := by
  have hcallback : (s.cacheMiss.stopSample env).1.callbackFunc = .calVmMissRate := h
  simp only [stopSample]
  simp only [hcallback]

/-- **A refresh is a round of `CacheMiss`**, and its callback. -/
theorem refresh_eq {s : VmCacheMiss} (h : s.Inv) (view : VmView) (env : SampleEnv) :
    s.refresh view env =
      (((s.prepare view).cacheMiss.refresh env).2.foldl
        (calVmMissRate view.stableVmthreadIdToVmId)
        { s.prepare view with
          cacheMiss := (((s.prepare view).cacheMiss.startSample env).stopSample env).1
        }).setHasData := by
  have hcallback : ((s.prepare view).startSample env).cacheMiss.callbackFunc = .calVmMissRate := by
    exact (CacheMiss.callbackFunc_startSample _ env).trans
      ((callbackFunc_prepare s view).trans h.callback)
  simp only [refresh]
  rw [stopSample_eq hcallback]
  rfl

theorem cacheMiss_refresh {s : VmCacheMiss} (h : s.Inv) (view : VmView) (env : SampleEnv) :
    (s.refresh view env).cacheMiss = ((s.prepare view).cacheMiss.refresh env).1 := by
  rw [refresh_eq h]
  simp only [setHasData]
  rw [(cacheMiss_foldl_calVmMissRate _ _ _).1]
  rfl

theorem lastTids_refresh {s : VmCacheMiss} (h : s.Inv) (view : VmView) (env : SampleEnv) :
    (s.refresh view env).lastTids = view.tids := by
  rw [refresh_eq h]
  exact (cacheMiss_foldl_calVmMissRate _ _ _).2

/-- The threads a refresh samples. -/
theorem isSome_refresh {s : VmCacheMiss} (h : s.Inv) (view : VmView) (env : SampleEnv)
    (tid : Int) : ((s.refresh view env).cacheMiss.cacheMissData[tid]?).isSome ↔
      (s.prepare view).cacheMiss.Watched env tid := by
  rw [cacheMiss_refresh h, CacheMiss.refresh_getElem?, Option.isSome_map,
    CacheMiss.applyRequests_isSome]

theorem inv_step {s : VmCacheMiss} (h : s.Inv) (r : VmView × SampleEnv) : (s.step r).Inv := by
  obtain ⟨view, env⟩ := r
  have htids {tid : Int} (hw : (s.prepare view).cacheMiss.Watched env tid) :
      tid ∈ (s.refresh view env).lastTids := by
    rw [lastTids_refresh h]
    exact ((watched_prepare h view env tid).1 hw).1
  refine ⟨?_, ?_, fun tid hstop => ?_, fun tid hentry => ?_, ?_⟩
  · show (s.refresh view env).cacheMiss.callbackFunc = .calVmMissRate
    rw [cacheMiss_refresh h]
    exact (CacheMiss.callbackFunc_startSample _ env).trans
      ((callbackFunc_prepare s view).trans h.callback)
  · show (s.refresh view env).cacheMiss.toStartWatching = []
    rw [cacheMiss_refresh h]
    rfl
  · change tid ∈ (s.refresh view env).cacheMiss.toStopWatching at hstop
    rw [cacheMiss_refresh h, CacheMiss.mem_refresh_toStop] at hstop
    exact htids hstop.1
  · exact htids ((isSome_refresh h view env tid).1 hentry)
  · have hkeyed : (s.prepare view).cacheMiss.Keyed := by
      intro tid d hd
      rw [cacheMissData_prepare] at hd
      exact h.keyed tid d hd
    show (s.refresh view env).cacheMiss.Keyed
    rw [cacheMiss_refresh h]
    exact CacheMiss.keyed_step hkeyed (.refresh env)

theorem inv_init : Inv {} := by
  refine ⟨rfl, rfl, fun tid hstop => ?_, fun tid hentry => ?_, CacheMiss.keyed_init⟩
  · cases hstop
  · change (((∅ : ExtTreeMap Int CacheMissData)[tid]?).isSome = true) at hentry
    rw [ExtTreeMap.getElem?_empty] at hentry
    cases hentry

theorem inv_run (rs : List (VmView × SampleEnv)) : (run step {} rs).Inv :=
  run_invariant step inv_init (fun _ r h => inv_step h r) rs

/-! ## The counts after a refresh -/

/-- The entries of the threads of a VM that are being sampled. -/
def threadsOf (s : VmCacheMiss) (view : VmView) (vmId : VmId) : List CacheMissData :=
  (s.cacheMiss.cacheMissData.toList.filter fun p => view.IsThread vmId p.1).map Prod.snd

/-- **The callback finds the VM of every thread of the VMs**, whatever the map of volatile threads
held before. -/
theorem vmOf_prepare (s : VmCacheMiss) {view : VmView} (hown : view.OwnThreads)
    (hstart : ∀ w ∈ view.vmIds, w.startTimestamp ≠ 0) {w : VmId} (hw : w ∈ view.vmIds)
    {tid : Int} (ht : view.IsThread w tid) :
    (s.prepare view).vmOf view.stableVmthreadIdToVmId tid = w := by
  have huniq : ∀ u ∈ view.vmIds, view.IsThread u tid → u = w :=
    fun u hu hut => hown u hu w hw tid hut ht
  unfold vmOf VmView.stableVmthreadIdToVmId
  rw [ExtTreeMap.getD_eq_getD_getElem?, ExtTreeMap.getD_eq_getD_getElem?]
  by_cases hstable : tid ∈ view.stable w
  · rw [assignThreads_of_mem hw hstable fun u hu hut => huniq u hu (Or.inl hut)]
    exact if_pos (hstart w hw)
  · -- It is a volatile thread of `w` and no stable thread at all.
    have hvolatile : tid ∈ view.volatile w := ht.resolve_left hstable
    have hnone : ∀ u ∈ view.vmIds, tid ∉ view.stable u := by
      intro u hu hut
      rw [huniq u hu (Or.inl hut)] at hut
      exact hstable hut
    show ite _ _ ((assignThreads view.volatile view.vmIds
      s.volatileVmthreadIdToVmId)[tid]?.getD {}) = w
    rw [assignThreads_of_not_mem hnone, ExtTreeMap.getElem?_empty,
      assignThreads_of_mem hw hvolatile fun u hu hut => huniq u hu (Or.inr hut)]
    rfl

/-- The threads that have been sampled, as `CacheMiss` passes them on. -/
def sampled (s : VmCacheMiss) : List CacheMissData := s.cacheMiss.cacheMissData.toList.map Prod.snd

theorem published_cacheMiss {s : VmCacheMiss} (h : s.Inv) (view : VmView) (env : SampleEnv) :
    ((s.prepare view).cacheMiss.refresh env).2 = (s.refresh view env).sampled := by
  have hcallback := (inv_step h (view, env)).callback
  change (s.refresh view env).cacheMiss.callbackFunc = .calVmMissRate at hcallback
  rw [sampled, cacheMiss_refresh h]
  rw [cacheMiss_refresh h] at hcallback
  refine if_neg fun hnull => ?_
  exact absurd (hnull.symm.trans hcallback) nofun

/-- The state after the second reads, before the callback is called. -/
def read (s : VmCacheMiss) (view : VmView) (env : SampleEnv) : VmCacheMiss :=
  { s.prepare view with
    cacheMiss := (((s.prepare view).cacheMiss.startSample env).stopSample env).1 }

/-- **A refresh passes the sampled threads to the callback.** -/
theorem refresh_eq_foldl {s : VmCacheMiss} (h : s.Inv) (view : VmView) (env : SampleEnv) :
    s.refresh view env = ((s.refresh view env).sampled.foldl
      (calVmMissRate view.stableVmthreadIdToVmId) (s.read view env)).setHasData := by
  rw [← published_cacheMiss h]
  exact refresh_eq h view env

/-- Every sampled thread is one of a VM, for which it is found. -/
theorem exists_vmOf_sampled {s : VmCacheMiss} (h : s.Inv) {view : VmView} {env : SampleEnv}
    (hown : view.OwnThreads) (hstart : ∀ w ∈ view.vmIds, w.startTimestamp ≠ 0)
    {p : Int × CacheMissData} (hp : p ∈ (s.refresh view env).cacheMiss.cacheMissData.toList) :
    ∃ w ∈ view.vmIds, view.IsThread w p.1 ∧
      (s.prepare view).vmOf view.stableVmthreadIdToVmId p.2.tid = w := by
  have hentry := ExtTreeMap.mem_toList_iff_getElem?_eq_some.1 hp
  have hwatched : (s.prepare view).cacheMiss.Watched env p.1 := by
    rw [← isSome_refresh h, hentry]
    rfl
  have htids := ((watched_prepare h view env p.1).1 hwatched).1
  obtain ⟨w, hw, hwt⟩ := (view.mem_tids p.1).1 htids
  refine ⟨w, hw, hwt, ?_⟩
  rw [(inv_step h (view, env)).keyed p.1 p.2 hentry]
  exact vmOf_prepare s hown hstart hw hwt

/-- **The counts of a VM are the totals of its sampled threads.** -/
theorem vmData_refresh {s : VmCacheMiss} (h : s.Inv) {view : VmView} (env : SampleEnv)
    (hdistinct : view.Distinct) (hown : view.OwnThreads)
    (hstart : ∀ w ∈ view.vmIds, w.startTimestamp ≠ 0) {vmId : VmId}
    (hv : vmId ∈ view.vmIds) :
    (s.refresh view env).vmData vmId = total ((s.refresh view env).threadsOf view vmId) := by
  -- The VMs of the threads are of the view, where `==` is equality.
  have hfinds : (s.read view env).Finds {v | v ∈ view.vmIds} view.stableVmthreadIdToVmId
      (s.refresh view env).sampled := by
    intro d hd _
    obtain ⟨p, hp, rfl⟩ := List.mem_map.1 hd
    obtain ⟨w, hw, -, hvm⟩ := exists_vmOf_sampled h hown hstart hp
    exact hvm.symm ▸ hw
  have hmine : ∀ p ∈ (s.refresh view env).cacheMiss.cacheMissData.toList,
      (((s.prepare view).vmOf view.stableVmthreadIdToVmId p.2.tid).startTimestamp ≠ 0 ∧
        ((s.prepare view).vmOf view.stableVmthreadIdToVmId p.2.tid).eqv vmId) ↔
          view.IsThread vmId p.1 := by
    intro p hp
    obtain ⟨w, hw, hwt, hvm⟩ := exists_vmOf_sampled h hown hstart hp
    rw [hvm]
    refine ⟨?_, ?_⟩
    · intro hmem
      rw [← hdistinct.eq_of_eqv hw hv hmem.2]
      exact hwt
    · intro hvt
      rw [hown w hw vmId hv p.1 hwt hvt]
      exact ⟨hstart vmId hv, eqv_refl vmId⟩
  have hfold := foldl_calVmMissRate hdistinct.transOn (s := s.read view env) nofun hfinds hv
  calc (s.refresh view env).vmData vmId
    _ = total ((s.prepare view).contributions view.stableVmthreadIdToVmId vmId
        (s.refresh view env).sampled) :=
      (congrArg (fun s => s.vmData vmId) (refresh_eq_foldl h view env)).trans hfold
    _ = total ((s.refresh view env).threadsOf view vmId) := by
      simp only [contributions, threadsOf, sampled]
      rw [List.filter_map]
      refine congrArg total (congrArg (List.map Prod.snd) (List.filter_congr fun p hp => ?_))
      exact decide_eq_decide.2 (hmine p hp)

/-- One VM, all threads of which are stable. -/
def viewOf (vmId : VmId) (tids : List Int) : VmView where
  vmIds := [vmId]
  stable := fun _ => ExtTreeSet.ofList tids
  volatile := fun _ => ∅

/-! ## Which threads are sampled -/

/-- A run, with the threads that have been sampled without a failure since they joined. -/
structure Tracked where
  vm : VmCacheMiss
  steady : Int → Prop

namespace Tracked

def init : Tracked := ⟨{}, fun _ => False⟩

/-- The threads of the VMs that were not there at the refresh before. -/
def joining (t : Tracked) (view : VmView) : List Int :=
  view.tids.toList.filter fun tid => !t.vm.lastTids.contains tid

def step (t : Tracked) (r : VmView × SampleEnv) : Tracked where
  vm := t.vm.step r
  steady tid := tid ∈ r.1.tids ∧ (tid ∈ t.vm.lastTids → t.steady tid) ∧
    (tid ∉ t.vm.lastTids → CacheMiss.Opens r.2 (t.joining r.1).zipIdx tid) ∧
    AllRead (r.2.first tid) ∧ AllRead (r.2.second tid)

/-- The refresh leaves every thread sampled that was there at the refresh before and whose events
can be opened. -/
def Resampled (t : Tracked) (r : VmView × SampleEnv) : Prop :=
  ∀ tid ∈ t.vm.lastTids, tid ∈ r.1.tids → (∀ k, CanOpen (r.2.openFd tid k)) →
    (((t.vm.step r).cacheMiss.cacheMissData)[tid]?).isSome

/-- Every such thread has been sampled without a failure since it joined. -/
def Steady (t : Tracked) (r : VmView × SampleEnv) : Prop :=
  ∀ tid ∈ t.vm.lastTids, tid ∈ r.1.tids → (∀ k, CanOpen (r.2.openFd tid k)) → t.steady tid

/-- `CacheMiss` will sample the threads that are steady, and of those `VmCacheMiss` takes to be
watched no others. -/
structure Inv (t : Tracked) : Prop where
  vm : t.vm.Inv
  healthy : ∀ tid ∈ t.vm.lastTids, t.vm.Healthy tid ↔ t.steady tid

theorem watched_iff {t : Tracked} (h : t.Inv) (view : VmView) (env : SampleEnv) (tid : Int) :
    (t.vm.prepare view).cacheMiss.Watched env tid ↔ tid ∈ view.tids ∧
      (tid ∈ t.vm.lastTids → t.steady tid) ∧
      (tid ∉ t.vm.lastTids → CacheMiss.Opens env (t.joining view).zipIdx tid) := by
  have hjoining : (t.vm.prepare view).cacheMiss.toStartWatching = t.joining view := by
    rw [prepare_cacheMiss]
    show t.vm.cacheMiss.toStartWatching ++ t.joining view = t.joining view
    rw [h.vm.started, List.nil_append]
  rw [watched_prepare h.vm]
  simp only [Joins]
  rw [hjoining]
  have hhealthy : (tid ∈ t.vm.lastTids → t.vm.Healthy tid) ↔
      (tid ∈ t.vm.lastTids → t.steady tid) := forall_congr' (h.healthy tid)
  rw [hhealthy]

theorem inv_step {t : Tracked} (h : t.Inv) (r : VmView × SampleEnv) : (t.step r).Inv := by
  obtain ⟨view, env⟩ := r
  refine ⟨VmCacheMiss.inv_step h.vm (view, env), fun tid _ => ?_⟩
  have hsteady : (t.step (view, env)).steady tid ↔
      (t.vm.prepare view).cacheMiss.Watched env tid ∧
        (AllRead (env.first tid) ∧ AllRead (env.second tid)) := by
    rw [watched_iff h, and_assoc, and_assoc]
    rfl
  show (t.vm.refresh view env).Healthy tid ↔ _
  simp only [Healthy]
  rw [hsteady, isSome_refresh h.vm, cacheMiss_refresh h.vm, CacheMiss.mem_refresh_toStop]
  refine ⟨?_, ?_⟩
  · intro hnow
    exact ⟨hnow.2, not_not.1 fun hread => hnow.1 ⟨hnow.2, hread⟩⟩
  · intro hnow
    exact ⟨fun hstop => hstop.2 hnow.2, hnow.1⟩

theorem inv_init : Inv init := by
  refine ⟨VmCacheMiss.inv_init, fun tid hlast => ?_⟩
  exact absurd hlast ExtTreeSet.not_mem_empty

/-- **A thread that stays is sampled in every refresh of a run exactly if it has been sampled
without a failure since it joined.** -/
theorem resampled_iff (rs : List (VmView × SampleEnv)) :
    Along step Resampled init rs ↔ Along step Steady init rs := by
  apply along_congr step (I := Inv) (fun _ r h => inv_step h r) _ inv_init
  intro t r h
  apply forall_congr'
  intro tid
  apply forall_congr'
  intro hlast
  apply forall_congr'
  intro htids
  apply imp_congr_right
  intro _
  show ((t.vm.refresh r.1 r.2).cacheMiss.cacheMissData[tid]?).isSome ↔ _
  rw [isSome_refresh h.vm, watched_iff h]
  simp [hlast, htids]

/-- **A thread that has failed once and stays is never sampled again.** -/
theorem not_sampled_of_unsteady {t : Tracked} (h : t.Inv) {tid : Int}
    (hlast : tid ∈ t.vm.lastTids) (hfailed : ¬ t.steady tid) {rs : List (VmView × SampleEnv)}
    (hstays : ∀ r ∈ rs, tid ∈ r.1.tids) (r : VmView × SampleEnv) :
    ¬ (((run step t rs).vm.step r).cacheMiss.cacheMissData[tid]?).isSome := by
  induction rs generalizing t with
  | nil =>
    intro hsome
    rw [run_nil] at hsome
    change ((t.vm.refresh r.1 r.2).cacheMiss.cacheMissData[tid]?).isSome at hsome
    rw [isSome_refresh h.vm, watched_iff h] at hsome
    exact hfailed (hsome.2.1 hlast)
  | cons r₀ rs ih =>
    refine ih (inv_step h r₀) ?_ ?_ fun r' hr' => hstays r' (List.mem_cons_of_mem r₀ hr')
    · show tid ∈ (t.vm.refresh r₀.1 r₀.2).lastTids
      rw [lastTids_refresh h.vm]
      exact hstays r₀ List.mem_cons_self
    · intro hsteady
      exact hfailed (hsteady.2.1 hlast)

/-- All first reads of the first refresh fail; in the second one everything could be read. -/
theorem not_resampled_failed_read : ¬ Along step Resampled init
    [(viewOf ⟨1, 7⟩ [1], envOf none none), (viewOf ⟨1, 7⟩ [1], envOf (some 0) (some 5))] := by
  intro h
  obtain ⟨-, hresampled, -⟩ := h
  have hgone : (((run VmCacheMiss.step {} [(viewOf ⟨1, 7⟩ [1], envOf none none),
      (viewOf ⟨1, 7⟩ [1], envOf (some 0) (some 5))]).cacheMiss.cacheMissData)[(1 : Int)]?).isSome =
      false := by decide +kernel
  have hopen (k : Nat) : CanOpen ((envOf (some 0) (some 5)).openFd 1 k) := by
    intro _ _
    show (0 : Int) ≤ 3
    decide
  exact absurd ((hresampled 1 (by decide) (by decide) hopen).symm.trans hgone) (by decide)

end Tracked

end VmCacheMiss

end LibVsf
