import LibVsf.CpuUsageUnknown
import LibVsf.CpuUsageWindows
import LibVsf.VmCpuUsageProof

/-!
# `VmCpuUsage`: what getters return and what the callback is told

**Theorem (`gone_unknown`).** After every refresh of a run in which no call throws, the getters
return `-1` for exactly the VMs that `VmBase` has not listed, and for exactly the threads that
procps has not. `CpuUsage` by itself may have usages of processes that are gone; here they are not
watched any more. (A refresh that threw may have left `-1` for a VM that the next one lists.)

**Theorem (`observer_agrees`).** In such a refresh the callback is called once for every thread that
is listed or has a record of an earlier refresh, and for no other, in the order of their ids: with
what the getter returns for the thread then, which is `-1` for a thread that is listed no more.
-/

namespace LibVsf

open Std Runs Watching

/-! ## `CpuUsage` -/

namespace CpuUsage

/-- A share that is not computed, or one that is. -/
theorem sampled_ne_neg_one (sysCpu cpuNum : UInt32) (data : Option ThreadCpuUsageData)
    (task : Task) : (sampled sysCpu cpuNum data task).cpuUsage.toInt ≠ -1 := by
  have hne : (sampled sysCpu cpuNum data task).cpuUsage ≠ -1 := by
    show (if sysCpu = 0 then 0 else _ * 100 * cpuNum / sysCpu).toInt32 ≠ -1
    by_cases hsys : sysCpu = 0
    · rw [if_pos hsys]
      decide
    · rw [if_neg hsys]
      exact share_ne_neg_one _ _ _
  exact fun heq => hne (Int32.toInt_inj.1 heq)

theorem mem_tids_iff {l : Listing} {tid : Int} :
    tid ∈ l.tids ↔ ∃ task, l.task? tid = some task := by
  rw [← Option.isSome_iff_exists, Listing.task?, List.find?_isSome, Listing.tasks, Listing.tids,
    List.mem_map]
  simp [Listing.tasks]

/-- **A thread is reported** exactly if it is listed. -/
theorem threadCpuUsage_eq_neg_one_iff {s s' : CpuUsage} {env : Env} {l : Listing}
    (h : s.refresh env = .ok s') (hl : s.listing env = some l) (tid : Int) :
    s'.threadCpuUsage tid = -1 ↔ tid ∉ l.tids := by
  obtain ⟨stat, l', -, hl', -, -, hdata⟩ := refresh_ok h
  obtain rfl : l = l' := Option.some.inj (hl.symm.trans hl')
  rw [Tracked.threadCpuUsage_after (hdata tid), mem_tids_iff]
  cases htask : l.task? tid with
  | none => simp
  | some task => simp [sampled_ne_neg_one]

/-- A record is of a thread that is listed, or has been cleared. -/
theorem of_recordAfter {sysCpu cpuNum : UInt32} {l : Listing} {tid : Int}
    {old : Option ThreadCpuUsageData} {data : ThreadCpuUsageData}
    (h : recordAfter sysCpu cpuNum l tid old = some data) :
    data.valid = true ∧ tid ∈ l.tids ∨
      data.valid = false ∧ data.cpuUsage = -1 ∧ data.tgid = -1 := by
  rw [recordAfter] at h
  cases htask : l.task? tid with
  | some task =>
    rw [htask] at h
    refine Or.inl ⟨?_, mem_tids_iff.2 ⟨task, htask⟩⟩
    rw [← Option.some.inj h]
    rfl
  | none =>
    rw [htask] at h
    obtain ⟨old, -, rfl⟩ := Option.map_eq_some_iff.1 h
    exact Or.inr ⟨rfl, rfl, rfl⟩

/-! ### What is published -/

theorem readProc_published {s s' : CpuUsage} {proc : Proc} (h : s.readProc proc = .ok s') :
    s'.published = s.published := by
  have hstart : (s.setProcess proc.tid 0).published = s.published := rfl
  have htasks : (s.readTasks proc).published = s.published :=
    run_invariant (readTask proc.tid) (I := fun s' => s'.published = s.published) hstart
      (fun _ _ hs' => hs') proc.tasks
  unfold readProc shareProcess at h
  split_ifs at h
  · rw [← Except.ok.inj h]
    exact htasks
  · rw [← Except.ok.inj h]
    exact htasks

theorem callbackFunc_refresh {s s' : CpuUsage} {env : Env} (h : s.refresh env = .ok s') :
    s'.callbackFunc = s.callbackFunc := by
  obtain ⟨stat, s₁, -, hrest, rfl⟩ := rest_refresh h
  show s₁.callbackFunc = s.callbackFunc
  exact (eq_of_rest callbackFunc (fun _ => rfl) hrest).trans rfl

/-- **The calls of the callback** tell what the refresh has left. -/
theorem published_refresh {s s' : CpuUsage} {env : Env} (h : s.refresh env = .ok s') :
    s'.published = s.published ++ s'.callbackCalls := by
  obtain ⟨stat, s₂, -, hthread, rfl⟩ := refresh_steps h
  obtain ⟨l, s₁, -, hloop, rfl⟩ := refreshThread_steps hthread
  have hstart : (s.systemRead stat).refreshWatching.invalidate.published = s.published := rfl
  have hsame : s₁.published = s.published :=
    runE_invariant readProc (I := fun s' => s'.published = s.published) hstart
      (fun _ _ _ hs hread => (readProc_published hread).trans hs) hloop
  simp only [publish, callbackCalls]
  split_ifs with hnull
  · exact hsame.trans (List.append_nil _).symm
  · exact congrArg (· ++ _) hsame

/-- A refresh drops no record. -/
theorem isSome_recordAfter {sysCpu cpuNum : UInt32} {l : Listing} {tid : Int}
    {old : Option ThreadCpuUsageData} :
    (recordAfter sysCpu cpuNum l tid old).isSome ↔ tid ∈ l.tids ∨ old.isSome := by
  rw [mem_tids_iff, recordAfter]
  cases htask : l.task? tid with
  | some task => simp
  | none => simp

/-- What the callback is told after a refresh of `s` with a listing, that leaves `s'`. -/
structure Told (s : CpuUsage) (l : Listing) (s' : CpuUsage) (calls : List (Int × Int × Int32)) :
    Prop where
  /-- A thread is told once. -/
  ordered : calls.Pairwise fun c c' => c.2.1 < c'.2.1
  listed : ∀ task ∈ l.tasks, ∃ usage, (task.tgid, task.tid, usage) ∈ calls
  gone : ∀ tid ∈ s.threadCpuUsageData, tid ∉ l.tids → (-1, tid, -1) ∈ calls
  only : ∀ c ∈ calls, c.2.1 ∈ l.tids ∨ c.2.1 ∈ s.threadCpuUsageData
  usage : ∀ c ∈ calls, c.2.2.toInt = s'.threadCpuUsage c.2.1

theorem told_callbackCalls {s s' : CpuUsage} {env : Env} {l : Listing}
    (h : s.refresh env = .ok s') (hl : s.listing env = some l)
    (hset : s'.callbackFunc ≠ .null) : Told s l s' s'.callbackCalls := by
  obtain ⟨stat, l', -, hl', -, -, hdata⟩ := refresh_ok h
  obtain rfl : l = l' := Option.some.inj (hl.symm.trans hl')
  have hcalls : s'.callbackCalls =
      s'.threadCpuUsageData.toList.map fun p => (p.2.tgid, p.1, p.2.cpuUsage) := if_neg hset
  rw [hcalls]
  refine ⟨?_, fun task htask => ?_, fun tid hold hgone => ?_, fun c hc => ?_, fun c hc => ?_⟩
  · refine List.pairwise_map.2 (ExtTreeMap.ordered_keys_toList.imp fun hlt => ?_)
    exact compare_lt_iff_lt.1 hlt
  · obtain ⟨data, hrecord, htgid⟩ :
        ∃ data, s'.threadCpuUsageData[task.tid]? = some data ∧ data.tgid = task.tgid := by
      rw [hdata, recordAfter, task?_of_mem htask]
      exact ⟨_, rfl, rfl⟩
    have hmem := ExtTreeMap.mem_toList_iff_getElem?_eq_some.2 hrecord
    rw [← htgid]
    exact ⟨data.cpuUsage, List.mem_map_of_mem hmem⟩
  · obtain ⟨data, hrecord⟩ : ∃ data, s'.threadCpuUsageData[tid]? = some data := by
      rw [hdata, ← Option.isSome_iff_exists, isSome_recordAfter]
      exact Or.inr (ExtTreeMap.isSome_getElem?_iff_mem.2 hold)
    have hmem := ExtTreeMap.mem_toList_iff_getElem?_eq_some.2 hrecord
    rw [hdata] at hrecord
    rcases of_recordAfter hrecord with ⟨-, hlisted⟩ | ⟨-, husage, htgid⟩
    · exact absurd hlisted hgone
    · rw [← htgid, ← husage]
      exact List.mem_map_of_mem hmem
  · obtain ⟨⟨tid, data⟩, hmem, rfl⟩ := List.mem_map.1 hc
    have hrecord := ExtTreeMap.mem_toList_iff_getElem?_eq_some.1 hmem
    rw [← ExtTreeMap.isSome_getElem?_iff_mem, ← isSome_recordAfter, ← hdata, hrecord]
    rfl
  · obtain ⟨⟨tid, data⟩, hmem, rfl⟩ := List.mem_map.1 hc
    have hrecord := ExtTreeMap.mem_toList_iff_getElem?_eq_some.1 hmem
    show data.cpuUsage.toInt = s'.threadCpuUsage tid
    rw [threadCpuUsage, hrecord]
    rw [hdata] at hrecord
    rcases of_recordAfter hrecord with ⟨hvalid, -⟩ | ⟨hvalid, husage, -⟩
    · exact (if_pos hvalid).symm
    · simp only [hvalid, husage]
      rfl

end CpuUsage

/-! ## `VmCpuUsage` -/

namespace VmCpuUsage

/-- `get_cpu_usage` of a VM, after its refreshes. -/
def getCpuUsage (s : VmCpuUsage) (vmId : VmId) : Option Int :=
  s.cpuUsage.getProcessCpuUsageWithoutRefresh vmId.pid

/-- `get_cpu_usage` of a thread. -/
def getCpuUsageOf (s : VmCpuUsage) (vmthreadId : Int) : Option Int :=
  s.cpuUsage.getThreadCpuUsageWithoutRefresh vmthreadId

theorem prepare_kept (s : VmCpuUsage) (vmIds : List VmId) :
    (s.prepare vmIds).cpuUsage.processCpuUsageData = s.cpuUsage.processCpuUsageData ∧
      (s.prepare vmIds).cpuUsage.threadCpuUsageData = s.cpuUsage.threadCpuUsageData ∧
      (s.prepare vmIds).cpuUsage.callbackFunc = s.cpuUsage.callbackFunc := by
  rw [prepare_cpuUsage]
  refine run_invariant CpuUsage.call
    (I := fun t => t.processCpuUsageData = s.cpuUsage.processCpuUsageData ∧
      t.threadCpuUsageData = s.cpuUsage.threadCpuUsageData ∧
      t.callbackFunc = s.cpuUsage.callbackFunc) ⟨rfl, rfl, rfl⟩ (fun t c ht => ?_)
    (s.requests vmIds)
  cases c <;> exact ht

/-! ### What is gone -/

/-- What every state has that a run without failures reaches. -/
structure Steady (s : VmCpuUsage) : Prop where
  told : s.Told
  known : CpuUsage.Known s.cpuUsage.processCpuUsageData

theorem Steady.refresh {s s' : VmCpuUsage} {vmIds : List VmId} {env : Env} (h : s.Steady)
    (henv : env.RequestedOnly) (hrefresh : s.refresh vmIds env = .ok s') : s'.Steady := by
  obtain ⟨hcpu, -⟩ := refresh_ok hrefresh
  obtain ⟨l, -, hreturned⟩ := CpuUsage.processes_refresh hcpu
  have hknown := h.known
  rw [← (s.prepare_kept vmIds).1] at hknown
  refine ⟨(told_refresh h.told henv hrefresh).1, ?_⟩
  exact CpuUsage.known_of_returned hreturned (CpuUsage.known_refreshWatching hknown)

theorem Steady.step {s s' : VmCpuUsage} {op : Op} (h : s.Steady) (hop : op.RequestedOnly)
    (hstep : s.step op = .ok s') : s'.Steady := by
  cases op with
  | setCallback callbackFunc =>
    rw [← Except.ok.inj hstep]
    exact ⟨h.told, h.known⟩
  | refresh vmIds env => exact h.refresh hop hstep
  | clear =>
    rw [← Except.ok.inj hstep]
    exact ⟨rfl, fun pid => by simp [clear, CpuUsage.clear]⟩

theorem steady_run {cpuNum : UInt32} {ops : List Op} {s : VmCpuUsage}
    (hops : ∀ op ∈ ops, op.RequestedOnly) (hrun : runE step (init cpuNum) ops = .ok s) :
    s.Steady := by
  have hnew : (init cpuNum).Steady := ⟨told_init cpuNum, fun pid => by simp [init]⟩
  refine runE_invariant_mem step hnew (fun t op t' hmem ht hstep => ?_) hrun
  exact ht.step (hops op hmem) hstep

/-- **What is gone is unknown**, and nothing else. -/
theorem gone_unknown {cpuNum : UInt32} {ops : List Op} {s s' : VmCpuUsage}
    (hops : ∀ op ∈ ops, op.RequestedOnly) (hrun : runE step (init cpuNum) ops = .ok s)
    {vmIds : List VmId} {env : Env} (henv : env.RequestedOnly)
    (hrefresh : s.refresh vmIds env = .ok s') :
    ∃ l, (s.prepare vmIds).cpuUsage.listing env = some l ∧
      (∀ vmId, ∀ usage ∈ s'.getCpuUsage vmId, usage = -1 ↔ ∀ v ∈ vmIds, v.pid ≠ vmId.pid) ∧
      ∀ tid, ∀ usage ∈ s'.getCpuUsageOf tid, usage = -1 ↔ tid ∉ l.tids := by
  have hsteady := steady_run hops hrun
  obtain ⟨hcpu, -⟩ := refresh_ok hrefresh
  obtain ⟨l, hl, -⟩ := CpuUsage.processes_refresh hcpu
  refine ⟨l, hl, fun vmId usage husage => ?_, fun tid usage husage => ?_⟩
  · have hwatched : vmId.pid ∈ s'.cpuUsage.processCpuUsageData ↔ ∃ v ∈ vmIds, v.pid = vmId.pid := by
      obtain ⟨htold', hpids⟩ := told_refresh hsteady.told henv hrefresh
      have hall : s'.cpuUsage.watched = {pid | ∃ v ∈ vmIds, v.pid = pid} :=
        (congrArg Queued.watched htold').trans hpids
      exact Set.ext_iff.1 hall vmId.pid
    simp only [getCpuUsage, CpuUsage.getProcessCpuUsageWithoutRefresh,
      Option.mem_ite_none_right, Option.mem_some_iff] at husage
    obtain ⟨-, rfl⟩ := husage
    rw [CpuUsage.process_unlisted rfl (hsteady.refresh henv hrefresh).known, hwatched]
    push Not
    rfl
  · simp only [getCpuUsageOf, CpuUsage.getThreadCpuUsageWithoutRefresh,
      Option.mem_ite_none_right, Option.mem_some_iff] at husage
    obtain ⟨-, rfl⟩ := husage
    exact CpuUsage.threadCpuUsage_eq_neg_one_iff hcpu hl tid

/-- Process 20 has one thread. -/
def oneProcess : Env where
  stat := some ⟨1000, 0, 0, 0⟩
  openproc pids :=
    if 20 ∈ pids then some ⟨[⟨20, [⟨20, 20, 3, 50, 0⟩]⟩], List.nodup_singleton 20⟩
    else some ⟨[], List.nodup_nil⟩

theorem requestedOnly_oneProcess : oneProcess.RequestedOnly := by
  intro pids listing h proc hproc
  simp only [oneProcess] at h
  split_ifs at h with hpids
  · obtain rfl := Option.some.inj h
    obtain rfl := List.mem_singleton.1 hproc
    exact hpids
  · obtain rfl := Option.some.inj h
    cases hproc

/-- The VM of process 10 goes after the first refresh. -/
theorem gone_unknown_oneVm : ∃ s s',
    runE step (init 1) [.refresh [⟨1, 10⟩, ⟨2, 20⟩] oneProcess] = .ok s ∧
      s.refresh [⟨2, 20⟩] oneProcess = .ok s' ∧
      ∃ l, (s.prepare [⟨2, 20⟩]).cpuUsage.listing oneProcess = some l ∧
        (∀ vmId, ∀ usage ∈ s'.getCpuUsage vmId,
          usage = -1 ↔ ∀ v ∈ ([⟨2, 20⟩] : List VmId), v.pid ≠ vmId.pid) ∧
        ∀ tid, ∀ usage ∈ s'.getCpuUsageOf tid, usage = -1 ↔ tid ∉ l.tids := by
  refine ⟨_, _, rfl, rfl, @gone_unknown 1 [.refresh [⟨1, 10⟩, ⟨2, 20⟩] oneProcess] _ _
    (fun op hop => ?_) rfl _ _ requestedOnly_oneProcess rfl⟩
  obtain rfl := List.mem_singleton.1 hop
  exact requestedOnly_oneProcess

/-! ### What the callback is told -/

theorem callbackFunc_step {s s' : VmCpuUsage} {op : Op}
    (h : s.cpuUsage.callbackFunc = .cpuUsageCallback) (hstep : s.step op = .ok s') :
    s'.cpuUsage.callbackFunc = .cpuUsageCallback := by
  cases op with
  | setCallback callbackFunc | clear =>
    rw [← Except.ok.inj hstep]
    exact h
  | refresh vmIds env =>
    obtain ⟨hcpu, -⟩ := refresh_ok hstep
    rw [CpuUsage.callbackFunc_refresh hcpu, (s.prepare_kept vmIds).2.2, h]

/-- The calls are passed on. -/
theorem published_ok {s s' : VmCpuUsage} {vmIds : List VmId} {env : Env}
    (h : s.refresh vmIds env = .ok s') (hset : s.callbackFunc ≠ .null) :
    s'.published = s.published ++ s'.cpuUsage.callbackCalls := by
  obtain ⟨hcpu, -⟩ := refresh_ok h
  have hset' : (s.prepare vmIds).callbackFunc ≠ .null := hset
  simp only [refresh, refreshCpuUsage, hcpu, cpuUsageCallback, if_neg hset',
    CpuUsage.published_refresh hcpu, List.drop_left] at h
  exact (congrArg published (Except.ok.inj h)).symm

/-- **What the callback is told** is what there is to read. -/
theorem observer_agrees {cpuNum : UInt32} {ops : List Op} {s s' : VmCpuUsage}
    (hrun : runE step (init cpuNum) ops = .ok s) {vmIds : List VmId} {env : Env}
    (hrefresh : s.refresh vmIds env = .ok s') (hset : s.callbackFunc ≠ .null) :
    ∃ l calls, (s.prepare vmIds).cpuUsage.listing env = some l ∧
      s'.published = s.published ++ calls ∧ CpuUsage.Told s.cpuUsage l s'.cpuUsage calls := by
  have hcallback : s'.cpuUsage.callbackFunc = .cpuUsageCallback := by
    have hcallback : s.cpuUsage.callbackFunc = .cpuUsageCallback :=
      runE_invariant step (I := fun t => t.cpuUsage.callbackFunc = .cpuUsageCallback) rfl
        (fun _ _ _ h hstep => callbackFunc_step h hstep) hrun
    have hstep : s.step (.refresh vmIds env) = .ok s' := hrefresh
    exact callbackFunc_step hcallback hstep
  obtain ⟨hcpu, -⟩ := refresh_ok hrefresh
  obtain ⟨l, hl, -⟩ := CpuUsage.processes_refresh hcpu
  have htold : CpuUsage.Told (s.prepare vmIds).cpuUsage l s'.cpuUsage s'.cpuUsage.callbackCalls :=
    CpuUsage.told_callbackCalls hcpu hl (by rw [hcallback]; exact nofun)
  have hold := (s.prepare_kept vmIds).2.1
  exact ⟨l, _, hl, published_ok hrefresh hset, htold.ordered, htold.listed, hold ▸ htold.gone,
    hold ▸ htold.only, htold.usage⟩

theorem observer_agrees_oneVm : ∃ s s',
    runE step (init 1) [.setCallback (.user 0), .refresh [⟨2, 20⟩] oneProcess] = .ok s ∧
      s.refresh [] oneProcess = .ok s' ∧
      ∃ l calls, (s.prepare []).cpuUsage.listing oneProcess = some l ∧
        s'.published = s.published ++ calls ∧ CpuUsage.Told s.cpuUsage l s'.cpuUsage calls :=
  ⟨_, _, rfl, rfl, @observer_agrees 1
    [.setCallback (.user 0), .refresh [⟨2, 20⟩] oneProcess] _ _ rfl _ _ rfl nofun⟩

end VmCpuUsage

end LibVsf
