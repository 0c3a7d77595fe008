import LibVsf.VmBaseRuns

/-!
# `VmBase`: the ids of VMs

A caller keeps the id of a VM and asks for the VM's data by it, after any number of refreshes. Each
refresh takes the start of a process anew, as the time less how long `ps` says that it has run, and
both are whole seconds. So the ids of one process differ, and `operator==` lets the starts differ by
two seconds.

**Theorem (`ids_kept`).** If each listing has a process within a second of its start, and processes
with one pid start more than four seconds apart, then in every state that a run reaches, whatever
has been thrown in it, all ids of a process get the same answers: those that a lookup by process
gives. So an id that a VM was listed with once answers for it as long as it runs, and never for
another process with its pid.

The ids of each listing are ordered lawfully with the id that is kept, so that the trees find what
the maps do.
-/

namespace LibVsf

open Std Writing EqvMap EqvOrd

/-! ## Processes -/

/-- An id that a process may be listed with: its start is not off by more than a second. -/
def VmId.Of (proc k : VmId) : Prop :=
  |difftime k.startTimestamp proc.startTimestamp| ≤ 1 ∧ k.pid = proc.pid

instance (proc k : VmId) : Decidable (proc.Of k) := inferInstanceAs (Decidable (_ ∧ _))

/-- All processes that are ever listed, with their starts. -/
structure Processes where
  procs : Set VmId
  /-- A pid is not given again at once. -/
  apart : ∀ a ∈ procs, ∀ b ∈ procs, a.pid = b.pid → a ≠ b →
    4 < |difftime a.startTimestamp b.startTimestamp|

namespace Processes

variable (P : Processes)

/-- The id of one of the processes. -/
def Ids (k : VmId) : Prop := ∃ proc ∈ P.procs, proc.Of k

variable {P}

/-- **Ids are `==`** exactly if they are of the same process. -/
theorem eqv_iff {proc k j : VmId} (hproc : proc ∈ P.procs) (hk : proc.Of k) (hj : P.Ids j) :
    eqv j k ↔ proc.Of j := by
  obtain ⟨proc', hproc', hj⟩ := hj
  show j.eqv k ↔ proc.Of j
  refine ⟨fun heqv => ?_, fun hof => ?_⟩
  · by_cases hsame : proc' = proc
    · rw [← hsame]
      exact hj
    · have hpid : proc'.pid = proc.pid := hj.2.symm.trans (heqv.2.trans hk.2)
      have hapart := P.apart proc' hproc' proc hproc hpid hsame
      simp only [VmId.Of, VmId.eqv, difftime, abs_le, lt_abs] at hk hj heqv hapart
      omega
  · simp only [VmId.Of, VmId.eqv, difftime, abs_le] at hk hof ⊢
    omega

end Processes

/-- A lookup by process. -/
def answer {α : Type} (m : EqvMap VmId α) (proc : VmId) (failedRet : α) : α :=
  ((m.entries.find? fun p => proc.Of p.1).map Prod.snd).getD failedRet

/-- The keys of a map are ids of the processes. -/
def Keyed {α : Type} (P : Processes) (m : EqvMap VmId α) : Prop := ∀ k ∈ m.keys, P.Ids k

/-- Insertions of ids of the processes keep it. -/
theorem kept_keyed (P : Processes) : KeptOn {k | P.Ids k} fun _ m => Keyed P m := kept_keys _

/-- **A lookup by id** is one by process. -/
theorem Keyed.getDataByVmId_eq {P : Processes} {α : Type} {m : EqvMap VmId α} (h : Keyed P m)
    {proc k : VmId} (hproc : proc ∈ P.procs) (hk : proc.Of k) (failedRet : α) :
    VmBase.getDataByVmId m k failedRet = answer m proc failedRet := by
  rw [VmBase.getDataByVmId, answer,
    find_eq_of_forall_mem_keys fun j hj => Processes.eqv_iff hproc hk (h j hj)]

/-! ## Refreshes -/

/-- The listings of a host are of the processes. -/
def VmHost.Lists (P : Processes) (host : VmHost) : Prop :=
  ∀ vmCmd, ∀ w ∈ (host.listing vmCmd).entries, P.Ids w.key

theorem VmHost.Lists.ids {P : Processes} {host : VmHost} (h : host.Lists P) (vmCmd : String) :
    host.ids vmCmd ⊆ {k | P.Ids k} := by
  rintro k ⟨w, hw, rfl⟩
  exact h vmCmd w hw

/-- The keys of all maps are ids of the processes. -/
def VmData.Keyed (P : Processes) (d : VmData) : Prop := d.All fun _ m => LibVsf.Keyed P m

namespace VmBase

variable {P : Processes} {s t : VmBase} {host : VmHost}

theorem keyed_refresh (hlists : host.Lists P) (h : s.refresh host = .ok t) : t.data.Keyed P :=
  all_refresh (kept_keyed P) (hlists.ids s.vmCmd) h

/-- A refresh that throws leaves what it has written, and threads of earlier data. -/
theorem keyed_refresh_error (hlists : host.Lists P) (hs : s.data.Keyed P) {e : ReadFailure}
    (h : s.refresh host = .error (e, t)) : t.data.Keyed P := by
  rcases all_refresh_error (kept_keyed P) (hlists.ids s.vmCmd) h with hall | ⟨d, hd, hdata⟩
  · exact hall
  · rw [hdata]
    exact hd.withThreads hs.vcpuIds hs.stableVmthreadIds

end VmBase

/-! ## Runs -/

/-- What the getters answer for this id is what is there for the process. -/
structure VmData.Answers (d : VmData) (proc v : VmId) : Prop where
  name : d.getName v = answer d.name proc []
  uuid : d.getUuid v = answer d.uuid proc []
  vsocketNum : d.getVsocketNum v = answer d.vsocketNum proc (-1)
  vcoreNum : d.getVcoreNum v = answer d.vcoreNum proc (-1)
  vhpthreadNum : d.getVhpthreadNum v = answer d.vhpthreadNum proc (-1)
  totalMemSize : d.getTotalMemSize v = answer d.totalMemSize proc (-1)
  vcpuIds : d.getVcpuIds v = answer d.vcpuIds proc ∅
  stableVmthreadIds : d.getStableVmthreadIds v = answer d.stableVmthreadIds proc ∅

theorem VmData.Keyed.answers {P : Processes} {d : VmData} (h : d.Keyed P) {proc v : VmId}
    (hproc : proc ∈ P.procs) (hv : proc.Of v) : d.Answers proc v where
  name := h.name.getDataByVmId_eq hproc hv _
  uuid := h.uuid.getDataByVmId_eq hproc hv _
  vsocketNum := h.vsocketNum.getDataByVmId_eq hproc hv _
  vcoreNum := h.vcoreNum.getDataByVmId_eq hproc hv _
  vhpthreadNum := h.vhpthreadNum.getDataByVmId_eq hproc hv _
  totalMemSize := h.totalMemSize.getDataByVmId_eq hproc hv _
  vcpuIds := h.vcpuIds.getDataByVmId_eq hproc hv _
  stableVmthreadIds := h.stableVmthreadIds.getDataByVmId_eq hproc hv _

namespace VmBaseThread

/-- A refresh lists the processes. -/
def Op.Lists (P : Processes) (op : Op) : Prop :=
  ∀ host, op = .run host ∨ op = .get host → host.Lists P

theorem keyed_run {P : Processes} {ops : List Op} (hops : ∀ op ∈ ops, op.Lists P) :
    (Runs.run step {} ops).base.data.Keyed P := by
  induction ops using List.reverseRecOn with
  | nil => exact .new fun _ => (kept_keyed P).empty
  | append_singleton ops op ih =>
    have hinit := ih fun op hop => hops op (List.mem_append_left _ hop)
    have hlast := hops op (List.mem_append_right _ List.mem_cons_self)
    rw [Runs.run_concat]
    have hnew : VmData.Keyed P {} := .new fun _ => (kept_keyed P).empty
    refine data_step hinit hnew fun host hhost => ?_
    have hlists := hlast host (hhost.2.imp And.left And.left)
    exact ⟨fun s h => VmBase.keyed_refresh hlists h,
      fun e s h => VmBase.keyed_refresh_error hlists hinit h⟩

/-- **Ids that were listed once answer for their process**, in the trees too. -/
theorem ids_kept {P : Processes} {ops : List Op} (hops : ∀ op ∈ ops, op.Lists P) {pre : List Op}
    (hpre : pre <+: ops) {v : VmId} (hv : v ∈ (Runs.run step {} pre).base.data.getVmIds)
    (hlawful : Runs.Along step (Lawful {v}) {} ops) :
    ∃ proc ∈ P.procs, proc.Of v ∧ (Runs.run step {} ops).base.data.Answers proc v ∧
      (∀ w ∈ (Runs.run step {} ops).base.data.getVmIds, w.eqv v ↔ proc.Of w) ∧
        (Runs.run step {} ops).base.data.Held {v} := by
  have hkeyed := keyed_run fun op hop => hops op (hpre.subset hop)
  obtain ⟨proc, hproc, hof⟩ := hkeyed.vmIds v hv
  have hdata := keyed_run hops
  refine ⟨proc, hproc, hof, hdata.answers hproc hof, fun w hw => ?_, ?_⟩
  · exact Processes.eqv_iff hproc hof (hdata.vmIds w hw)
  · exact held_run hlawful ops (List.prefix_refl ops)

/-- The same VM, which `ps` says three seconds later to have run for two more. -/
def oneVmLater : VmHost :=
  { oneVm (some []) with
    curTime := 1003
    popen := fun _ => "00:12 42 qemu -name a -smp 4 -m 512\n".toList }

/-- The only process. -/
def oneProc : Processes where
  procs := {⟨990, 42⟩}
  apart _ ha _ hb _ hne := absurd (ha.trans hb.symm) hne

/-- The VM is listed as started a second later, and the id that it had before still answers. -/
theorem ids_kept_oneVm : ∃ proc ∈ oneProc.procs, proc.Of ⟨990, 42⟩ ∧
    (Runs.run step {} [.get (oneVm (some [])), .get oneVmLater]).base.data.Answers proc ⟨990, 42⟩ ∧
      (∀ w ∈ (Runs.run step {} [.get (oneVm (some [])), .get oneVmLater]).base.data.getVmIds,
        w.eqv ⟨990, 42⟩ ↔ proc.Of w) ∧
      (Runs.run step {} [.get (oneVm (some [])), .get oneVmLater]).base.data.Held {⟨990, 42⟩} := by
  have hlists (host : VmHost) (h : ∀ vmCmd, ∀ w ∈ (host.listing vmCmd).entries,
      VmId.Of ⟨990, 42⟩ w.key) : host.Lists oneProc :=
    fun vmCmd w hw => ⟨⟨990, 42⟩, rfl, h vmCmd w hw⟩
  have hfirst : (oneVm (some [])).Lists oneProc := hlists _ fun vmCmd => by
    show ∀ w ∈ ((oneVm (some [])).listing "").entries, VmId.Of ⟨990, 42⟩ w.key
    decide +kernel
  have hlater : oneVmLater.Lists oneProc := hlists _ fun vmCmd => by
    show ∀ w ∈ (oneVmLater.listing "").entries, VmId.Of ⟨990, 42⟩ w.key
    decide +kernel
  have hops : ∀ op ∈ [Op.get (oneVm (some [])), Op.get oneVmLater], op.Lists oneProc := by
    intro op hop host hhost
    simp only [List.mem_cons, List.not_mem_nil, or_false] at hop
    rcases hop with rfl | rfl
    · obtain rfl := Op.get.inj (hhost.resolve_left nofun)
      exact hfirst
    · obtain rfl := Op.get.inj (hhost.resolve_left nofun)
      exact hlater
  have hv : (⟨990, 42⟩ : VmId) ∈
      (Runs.run step {} [.get (oneVm (some []))]).base.data.getVmIds := by
    decide +kernel
  -- The starts are a second apart at most.
  have hnear : VmId.StrictWeakOn {k | VmId.Of ⟨990, 42⟩ k} := by
    refine VmId.StrictWeakOn.of_near fun x hx z hz => ?_
    have hx := abs_le.1 hx.1
    have hz := abs_le.1 hz.1
    simp only [difftime] at hx hz ⊢
    omega
  have hin : ∀ op ∈ [Op.get (oneVm (some [])), .get oneVmLater],
      op.ListsIn {k | VmId.Of ⟨990, 42⟩ k} := by
    have hids (k : VmId) (hk : oneProc.Ids k) : VmId.Of ⟨990, 42⟩ k := by
      obtain ⟨_, rfl, hof⟩ := hk
      exact hof
    intro op hop host hhost vmCmd k hk
    exact hids k ((hops op hop host hhost).ids vmCmd hk)
  have hfirst : {⟨990, 42⟩} ⊆ {k | VmId.Of ⟨990, 42⟩ k} := by
    rintro _ rfl
    decide
  exact ids_kept hops ⟨[.get oneVmLater], rfl⟩ hv (along_lawful hnear hfirst hin {})

end VmBaseThread

end LibVsf
