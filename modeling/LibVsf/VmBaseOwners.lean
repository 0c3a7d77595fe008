import LibVsf.VmBaseRuns

/-!
# `VmBase`: whose a thread is

The second pass enters the threads of one VM after the other in `stable_vmthread_id_to_vm_id_`, so a
thread that several VMs have is the last one's. A refresh that throws has got to some of the VMs
only, or has not begun with them.

**Theorem (`owners_read`).** In every state that a run with lawful listings reaches, whatever has
been thrown in it, there is a beginning of the list of VMs such that a lookup of a thread finds the
last of them that has it as a stable thread, and nothing if none has. So no lookup names a VM that
is not listed, or one without the thread. Where the state has data, and no getter has thrown that
refreshed data which were there, all VMs have been got to.
-/

namespace LibVsf

open Std Writing EqvMap EqvOrd

/-- The second pass has got to these VMs. -/
structure Owners (read : List VmId) (d : VmData) : Prop where
  listed : read <+: d.getVmIds
  stable_eq : ∀ v ∈ read, d.getStableVmthreadIds v = (d.getVcpuIds v).insert v.pid
  owner : ∀ tid, d.stableVmthreadIdToVmId[tid]? =
    (read.filter fun v => tid ∈ d.getStableVmthreadIds v).getLast?

namespace Owners

variable {read : List VmId} {d : VmData} {tid : Int} {v : VmId}

/-- Nothing can be looked up. -/
theorem nil (h : d.stableVmthreadIdToVmId = ∅) : Owners [] d where
  listed := List.nil_prefix
  stable_eq _ hv := absurd hv List.not_mem_nil
  owner _ := by
    rw [h]
    rfl

theorem empty : Owners [] ({} : VmData) := nil rfl

/-- **What a lookup finds** is listed and has the thread. -/
theorem owns (h : Owners read d) (hv : d.stableVmthreadIdToVmId[tid]? = some v) :
    v ∈ d.getVmIds ∧ tid ∈ d.getStableVmthreadIds v := by
  rw [h.owner] at hv
  obtain ⟨hread, hmem⟩ := List.mem_filter.1 (List.mem_of_getLast? hv)
  exact ⟨h.listed.subset hread, of_decide_eq_true hmem⟩

theorem fillTopology (h : Owners read d) (ks : List VmId) : Owners read (d.fillTopology ks) :=
  ⟨h.listed, h.stable_eq, h.owner⟩

end Owners

/-! ## The second pass -/

namespace VmBase

variable {s t : VmBase} {host : VmHost}

/-- The loop over the VMs, when it has got to the end. -/
theorem owner_run {ks : List VmId} (hks : ks.Pairwise fun a b => ¬ eqv a b)
    (h : Runs.runE (refreshVcpus host) (s.listedState host) ks = .ok t) (tid : Int) :
    t.data.stableVmthreadIdToVmId[tid]? =
      (ks.filter fun v => tid ∈ t.data.getStableVmthreadIds v).getLast? := by
  induction ks using List.reverseRecOn generalizing t with
  | nil =>
    cases h
    have hempty : (s.listedState host).data.stableVmthreadIdToVmId = ∅ :=
      foldl_write_toVmId (host.listing s.vmCmd).entries {}
    rw [hempty]
    rfl
  | append_singleton ks k ih =>
    obtain ⟨s', hpre, hstep⟩ := (Runs.runE_concat_ok _).1 h
    obtain ⟨hpairwise, -, hk⟩ := List.pairwise_append.1 hks
    obtain ⟨ids, -, rfl⟩ := refreshVcpus_eq_ok.1 hstep
    have hthreaded := threaded_run hpairwise (threaded_listedState s host) hpre
    have hold : (ks.filter fun v => tid ∈ (s'.data.assignVcpus k ids).getStableVmthreadIds v) =
        ks.filter fun v => tid ∈ s'.data.getStableVmthreadIds v := by
      refine List.filter_congr fun v hv => ?_
      rw [hthreaded.getStableVmthreadIds_old (fun v hv => hk v hv k List.mem_cons_self) ids hv]
    show (s'.data.assignVcpus k ids).stableVmthreadIdToVmId[tid]? = _
    rw [VmData.toVmId_assignVcpus, List.filter_append, hold]
    by_cases hmem : tid ∈ ids.insert k.pid
    · have hlast : decide (tid ∈ (s'.data.assignVcpus k ids).getStableVmthreadIds k) = true := by
        rw [VmData.getStableVmthreadIds_assignVcpus_self]
        exact decide_eq_true hmem
      rw [if_pos hmem, List.filter_singleton, hlast]
      simp
    · have hlast : decide (tid ∈ (s'.data.assignVcpus k ids).getStableVmthreadIds k) = false := by
        rw [VmData.getStableVmthreadIds_assignVcpus_self]
        exact decide_eq_false hmem
      rw [if_neg hmem, List.filter_singleton, hlast, ih hpairwise hpre]
      simp

/-- **The VMs that the loop has got to.** -/
theorem owners_run {ks post : List VmId}
    (hkeys : (host.listed s.vmCmd).vmIds.keys = ks ++ post)
    (h : Runs.runE (refreshVcpus host) (s.listedState host) ks = .ok t) : Owners ks t.data := by
  have hpairwise := keys_pairwise (host.listed s.vmCmd).vmIds
  rw [hkeys] at hpairwise
  have hks := (List.pairwise_append.1 hpairwise).1
  have hthreaded := threaded_run hks (threaded_listedState s host) h
  refine ⟨?_, hthreaded.stable_eq, owner_run hks h⟩
  obtain ⟨_, _, _, rfl⟩ := sameVms_run h
  exact ⟨post, hkeys.symm⟩

/-! ## `refresh` -/

theorem owners_notifyAll (hs : Consistent s.data) {read : List VmId} (h : Owners read s.data) :
    Owners read s.notifyAll.data := by
  simp only [notifyAll]
  split_ifs
  · rw [foldl_notify_data hs fun v hv => hv]
    exact h.fillTopology _
  · exact h

/-- **A refresh that returns** has got to all VMs. -/
theorem owners_of_refresh (h : s.refresh host = .ok t) : Owners t.data.getVmIds t.data := by
  obtain ⟨s', hs', rfl⟩ := refresh_eq_ok_iff.1 h
  obtain ⟨-, hrun⟩ := collectVms_eq_ok_iff.1 hs'
  have hconsistent := consistent_collectVms hs'
  have hread := owners_notifyAll hconsistent (owners_run (List.append_nil _).symm hrun)
  have hkeys : s'.notifyAll.data.getVmIds = (host.listed s.vmCmd).getVmIds := by
    obtain ⟨_, _, _, rfl⟩ := sameVms_collectVms hs'
    simp only [notifyAll]
    split_ifs
    · rw [foldl_notify_data hconsistent fun v hv => hv]
      rfl
    · rfl
  have hall : Owners s'.notifyAll.data.getVmIds s'.notifyAll.data := by
    rw [hkeys]
    exact hread
  exact hall

/-- **A refresh that throws** has got to a beginning of the VMs, and trees hold what it has read. -/
theorem owners_of_refresh_error (hlawful : VmId.StrictWeakOn (host.ids s.vmCmd)) {e : ReadFailure}
    (h : s.refresh host = .error (e, t)) :
    ∃ read, Owners read t.data ∧ t.data.Held {v | v ∈ read} := by
  cases hlisting : (host.listing s.vmCmd).failure with
  | none =>
    obtain ⟨pre, v, post, hkeys, hpre⟩ := exists_of_refresh_error hlisting h
    have hlisted : ∀ v ∈ pre, v ∈ (host.listed s.vmCmd).vmIds.keys := by
      intro v hv
      rw [hkeys]
      exact List.mem_append_left _ hv
    have hsorted := all_run (kept_sorted hlawful.weakOn) subset_rfl hlisted hpre
    refine ⟨pre, owners_run hkeys hpre, (hsorted.held hlawful).mono fun v hv => ?_⟩
    exact (all_listed (kept_keys _) subset_rfl).vmIds v (hlisted v hv)
  | some failure =>
    rw [refresh_error_listing hlisting h]
    refine ⟨[], Owners.nil ?_, VmData.held_nil _⟩
    exact foldl_write_toVmId (host.listing s.vmCmd).entries {}

end VmBase

/-! ## Runs -/

namespace VmBaseThread

variable {t : VmBaseThread} {op : Op} {host : VmHost}

/-- The second pass has got to some VMs, and trees hold what it has read of them. -/
def SomeRead (t : VmBaseThread) : Prop :=
  ∃ read, Owners read t.base.data ∧ t.base.data.Held {v | v ∈ read}

theorem someRead_new : SomeRead {} := ⟨[], Owners.empty, VmData.held_new _⟩

/-- **A step**, whether it throws or not. -/
theorem someRead_step (ht : SomeRead t) (hlawful : Lawful ∅ t op) : SomeRead (t.step op) := by
  refine data_step (P := fun d => ∃ read, Owners read d ∧ d.Held {v | v ∈ read}) ht someRead_new
    fun host hhost => ?_
  have hids := hlawful.of_empty hhost
  exact ⟨fun s h => ⟨_, VmBase.owners_of_refresh h, VmBase.held_listed hids h⟩,
    fun e s h => VmBase.owners_of_refresh_error hids h⟩

/-- With data the second pass has got to all VMs. -/
def AllRead (t : VmBaseThread) : Prop :=
  t.terminated = false → t.base.hasData = true → Owners t.base.data.getVmIds t.base.data

/-- **A safe step.** -/
theorem allRead_step (ht : AllRead t) (hsafe : Safe t op) : AllRead (t.step op) :=
  withData_step (P := fun d => Owners d.getVmIds d) ht hsafe fun _ _ _ h =>
    VmBase.owners_of_refresh h

/-- **What lookups of threads find**, in the trees too. -/
theorem owners_read {ops : List Op} (hlawful : Runs.Along step (Lawful ∅) {} ops) :
    (∃ read, Owners read (Runs.run step {} ops).base.data ∧
      (Runs.run step {} ops).base.data.Held {v | v ∈ read} ∧
      ∀ tid, ∀ v ∈ (Runs.run step {} ops).base.data.stableVmthreadIdToVmId[tid]?,
        v ∈ (Runs.run step {} ops).base.data.getVmIds ∧
          tid ∈ (Runs.run step {} ops).base.data.getStableVmthreadIds v) ∧
      (Runs.Along step Safe {} ops →
        AllRead (Runs.run step {} ops) ∧ HeldListed (Runs.run step {} ops)) := by
  refine ⟨?_, fun hsafe => ?_⟩
  · obtain ⟨read, hread, hheld⟩ := Runs.holds_of_along step (fun _ _ => someRead_step)
      someRead_new hlawful ops (List.prefix_refl ops)
    exact ⟨read, hread, hheld, fun tid v hv => hread.owns hv⟩
  · refine Runs.holds_of_along step (P := fun t => AllRead t ∧ HeldListed t)
      (fun t op ht hop => ?_) ⟨withData_new, withData_new⟩
      ((Runs.along_and step).2 ⟨hsafe, hlawful⟩) ops (List.prefix_refl ops)
    exact ⟨allRead_step ht.1 hop.1, heldListed_step ht.2 hop.1 hop.2⟩

/-- The second refresh throws before it has got to the VM. -/
theorem owners_read_oneVm :
    (∃ read, Owners read
        (Runs.run step {} [.get (oneVm (some [])), .get (oneVm none)]).base.data ∧
      (Runs.run step {} [.get (oneVm (some [])), .get (oneVm none)]).base.data.Held
        {v | v ∈ read} ∧
      ∀ tid, ∀ v ∈ (Runs.run step {}
          [.get (oneVm (some [])), .get (oneVm none)]).base.data.stableVmthreadIdToVmId[tid]?,
        v ∈ (Runs.run step {} [.get (oneVm (some [])), .get (oneVm none)]).base.data.getVmIds ∧
          tid ∈ (Runs.run step {}
            [.get (oneVm (some [])), .get (oneVm none)]).base.data.getStableVmthreadIds v) ∧
      (Runs.Along step Safe {} [.get (oneVm (some [])), .get (oneVm none)] →
        AllRead (Runs.run step {} [.get (oneVm (some [])), .get (oneVm none)]) ∧
          HeldListed (Runs.run step {} [.get (oneVm (some [])), .get (oneVm none)])) := by
  have hops : ∀ op ∈ [Op.get (oneVm (some [])), .get (oneVm none)], op.ListsIn {⟨990, 42⟩} := by
    simp only [List.forall_mem_cons]
    exact ⟨listsIn_get (oneVm_ids (some [])), listsIn_get (oneVm_ids none), nofun⟩
  exact owners_read (along_lawful (.singleton _) (Set.empty_subset _) hops {})

end VmBaseThread

end LibVsf
