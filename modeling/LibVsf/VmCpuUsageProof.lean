import LibVsf.SamplerWatching
import LibVsf.VmCpuUsage

/-!
# `VmCpuUsage`: what is watched is what there is

**Theorem (`watches_vms`).** In a run of `VmCpuUsage` without failures, `CpuUsage` watches after a
refresh exactly the processes of the VMs of this refresh, and nothing after a `clear`.

The invariant `Told` is that `CpuUsage` watches `last_pids_` and has no requests waiting. A refresh
breaks it in two ways, by replacing `last_pids_` and by queueing the differences, and the
`CpuUsage::refresh` that follows restores it.
-/

namespace LibVsf

open Std Runs Watching

namespace VmCpuUsage

/-- The processes `CpuUsage` has been told to watch. -/
def told (s : VmCpuUsage) : Set Int := {pid | pid ∈ s.lastPids}

/-- `CpuUsage` watches what it has been told to and has no requests waiting. -/
def Told (s : VmCpuUsage) : Prop := s.cpuUsage.queued = ⟨s.told, [], []⟩

theorem mem_pidsOf {vmIds : List VmId} {pid : Int} :
    pid ∈ pidsOf vmIds ↔ ∃ vmId ∈ vmIds, vmId.pid = pid := by
  simp only [pidsOf, ExtTreeSet.mem_ofList, List.contains_iff_mem, List.mem_map]

/-- The calls `prepare` makes. -/
def requests (s : VmCpuUsage) (vmIds : List VmId) : List (Call Int) :=
  ((pidsOf vmIds).toList.filter fun pid => !s.lastPids.contains pid).map .start ++
    (s.lastPids.toList.filter fun pid => !(pidsOf vmIds).contains pid).map .stop

theorem prepare_cpuUsage (s : VmCpuUsage) (vmIds : List VmId) :
    (s.prepare vmIds).cpuUsage = run CpuUsage.call s.cpuUsage (s.requests vmIds) := by
  rw [requests, run_append]
  simp only [run, List.foldl_map]
  rfl

/-- The requests turn what was watched into the processes of the VMs. -/
theorem drain_prepare {s : VmCpuUsage} (h : s.Told) (vmIds : List VmId) :
    (s.prepare vmIds).cpuUsage.queued.drain = {pid | pid ∈ pidsOf vmIds} := by
  have hstarts : s.cpuUsage.queued.starts = [] := by rw [h]
  rw [prepare_cpuUsage, CpuUsage.queued_run_call, Queued.drain_run hstarts, h]
  apply Set.ext
  intro pid
  simp only [deferred, requests, told, Set.mem_ofPred_eq, List.mem_append, List.mem_map,
    List.mem_filter, ExtTreeSet.mem_toList, Bool.not_eq_true', ← Bool.not_eq_true,
    ExtTreeSet.contains_iff_mem, List.not_mem_nil, not_false_eq_true]
  by_cases hnew : pid ∈ pidsOf vmIds <;> by_cases hold : pid ∈ s.lastPids <;> simp [hnew, hold]

/-- What a refresh that returns has done: `CpuUsage` was refreshed after the section that prepares
it. -/
theorem refresh_ok {s s' : VmCpuUsage} {vmIds : List VmId} {env : Env}
    (h : s.refresh vmIds env = .ok s') :
    (s.prepare vmIds).cpuUsage.refresh env = .ok s'.cpuUsage ∧
      s'.lastPids = (s.prepare vmIds).lastPids := by
  simp only [refresh, refreshCpuUsage] at h
  cases hcpu : (s.prepare vmIds).cpuUsage.refresh env with
  | error failure =>
    rw [hcpu] at h
    cases h
  | ok cpuUsage =>
    rw [hcpu] at h
    rw [← Except.ok.inj h]
    simp only [cpuUsageCallback]
    split_ifs <;> exact ⟨rfl, rfl⟩

theorem told_refresh {s s' : VmCpuUsage} {vmIds : List VmId} {env : Env} (h : s.Told)
    (henv : env.RequestedOnly) (hrefresh : s.refresh vmIds env = .ok s') :
    s'.Told ∧ s'.told = {pid | ∃ vmId ∈ vmIds, vmId.pid = pid} := by
  obtain ⟨hcpu, hlast⟩ := refresh_ok hrefresh
  have htold : s'.told = {pid | pid ∈ pidsOf vmIds} := by
    simp only [told, hlast]
    rfl
  have hqueued := CpuUsage.queued_refresh henv hcpu
  rw [drain_prepare h, ← htold] at hqueued
  refine ⟨hqueued, ?_⟩
  rw [htold]
  simp only [mem_pidsOf]

/-- The requirement of an operation: procps lists only processes it was asked for. -/
def Op.RequestedOnly : Op → Prop
  | .refresh _ env => env.RequestedOnly
  | _ => True

theorem told_step {s s' : VmCpuUsage} {op : Op} (h : s.Told) (hop : op.RequestedOnly)
    (hstep : s.step op = .ok s') : s'.Told := by
  cases op with
  | setCallback callbackFunc =>
    rw [← Except.ok.inj hstep]
    exact h
  | refresh vmIds env => exact (told_refresh h hop hstep).1
  | clear =>
    rw [← Except.ok.inj hstep]
    rfl

theorem told_init (cpuNum : UInt32) : (init cpuNum).Told := rfl

/-- What an operation is to leave: the processes of the VMs watched and as `last_pids_`, nothing
waiting; or nothing at all. -/
def Leaves (s : VmCpuUsage) : Op → Prop
  | .setCallback _ => True
  | .refresh vmIds _ =>
    s.cpuUsage.watched = {pid | ∃ vmId ∈ vmIds, vmId.pid = pid} ∧
      s.cpuUsage.watched = {pid | pid ∈ s.lastPids} ∧
      s.cpuUsage.toStartWatching = [] ∧ s.cpuUsage.toStopWatching = []
  | .clear =>
    s.cpuUsage.processCpuUsageData = ∅ ∧ s.lastPids = ∅ ∧
      s.cpuUsage.toStartWatching = [] ∧ s.cpuUsage.toStopWatching = []

/-- **After each refresh the VMs' processes are watched and nothing waits, after each clear nothing
is there**, in every run in which nothing fails. -/
theorem watches_vms (cpuNum : UInt32) (ops : List Op) (op : Op) {s : VmCpuUsage}
    (henv : ∀ op' ∈ ops ++ [op], op'.RequestedOnly)
    (hrun : runE step (init cpuNum) (ops ++ [op]) = .ok s) : s.Leaves op := by
  have hsplit : ∃ s₁, runE step (init cpuNum) ops = .ok s₁ ∧ s₁.step op = .ok s :=
    (runE_concat_ok step).1 hrun
  obtain ⟨s₁, hops, hop⟩ := hsplit
  have htold : s₁.Told := by
    refine runE_invariant_mem step (told_init cpuNum) (fun s op s' hmem h hstep => ?_) hops
    exact told_step h (henv op (List.mem_append_left _ hmem)) hstep
  cases op with
  | setCallback callbackFunc => trivial
  | refresh vmIds env =>
    have hlast := henv _ (List.mem_append_right ops List.mem_cons_self)
    obtain ⟨h, htold'⟩ := told_refresh htold hlast hop
    have hwatched : s.cpuUsage.watched = s.told := congrArg Queued.watched h
    exact ⟨hwatched.trans htold', hwatched, congrArg Queued.starts h, congrArg Queued.stops h⟩
  | clear =>
    rw [← Except.ok.inj hop]
    exact ⟨rfl, rfl, rfl, rfl⟩

/-- Two VMs come, all are cleared, and one of them returns. -/
theorem watches_vms_returned : ∃ s,
    runE step (init 1) ([.refresh [⟨1, 10⟩, ⟨2, 20⟩] idleEnv, .clear] ++
      [.refresh [⟨2, 20⟩] idleEnv]) = .ok s ∧ s.Leaves (.refresh [⟨2, 20⟩] idleEnv) := by
  refine ⟨_, rfl, watches_vms 1 [.refresh [⟨1, 10⟩, ⟨2, 20⟩] idleEnv, .clear]
    (.refresh [⟨2, 20⟩] idleEnv) ?_ rfl⟩
  intro op hop
  simp only [List.cons_append, List.nil_append, List.mem_cons, List.not_mem_nil, or_false] at hop
  obtain rfl | rfl | rfl := hop
  · exact requestedOnly_idleEnv
  · trivial
  · exact requestedOnly_idleEnv

end VmCpuUsage

end LibVsf
