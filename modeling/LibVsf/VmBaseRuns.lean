import LibVsf.VmBaseMaps

/-!
# `VmBase`: the maps are consistent

A refresh that throws leaves the maps inconsistent and `has_data_` as it was. If the thread throws,
the process ends; a getter throws to its caller, and the instance remains.

**Theorem (`consistent_iff`).** In runs with listings whose ids are ordered lawfully, the maps are
consistent in all states with data, if no getter refreshes data that are there and throws. Where
getters only throw while they read cgroup files, they are consistent only then.

* `data_step`: a step changes the data by a refresh, or clears them.
* `withData_step`: what refreshes that return establish holds of the data of safe runs.
* `held_run`: the trees hold the maps of every state that a run reaches.
-/

namespace LibVsf

open Std Writing EqvMap EqvOrd

namespace VmBaseThread

variable {t : VmBaseThread} {op : Op} {host : VmHost}

/-- The step refreshes the data, by the thread or by a getter. -/
def Refreshes (t : VmBaseThread) (op : Op) (host : VmHost) : Prop :=
  t.terminated = false ∧
    (op = .run host ∧ t.joinable = true ∨ op = .get host ∧ t.joinable = false)

/-- **A step changes the data** by a refresh, which returns or throws, or clears them. -/
theorem data_step {P : VmData → Prop} (ht : P t.base.data) (hnew : P {})
    (hrefresh : ∀ host, t.Refreshes op host →
      (∀ s, t.base.refresh host = .ok s → P s.data) ∧
        ∀ e s, t.base.refresh host = .error (e, s) → P s.data) : P (t.step op).base.data := by
  simp only [step]
  split_ifs with hterminated
  · exact ht
  · have hrun := Bool.eq_false_iff.2 hterminated
    cases op with
    | setVmCmd => exact hnew
    | setInterval | setCallback | clearParam | start => exact ht
    | stop =>
      simp only [stop]
      split_ifs
      · exact hnew
      · exact ht
    | run host =>
      simp only [run]
      split_ifs with hjoinable
      · obtain ⟨hok, herror⟩ := hrefresh host ⟨hrun, .inl ⟨rfl, hjoinable⟩⟩
        cases hrefreshed : t.base.refresh host with
        | ok s => exact hok s hrefreshed
        | error es => exact herror es.1 es.2 hrefreshed
      · exact ht
    | get host =>
      simp only [get]
      split_ifs with hjoinable
      · exact ht
      · obtain ⟨hok, herror⟩ :=
          hrefresh host ⟨hrun, .inr ⟨rfl, Bool.eq_false_iff.2 hjoinable⟩⟩
        cases hrefreshed : t.base.refresh host with
        | ok s => exact hok s hrefreshed
        | error es => exact herror es.1 es.2 hrefreshed

/-! ## Safe runs -/

/-- The data, if there are any, have the property. -/
def WithData (P : VmData → Prop) (t : VmBaseThread) : Prop :=
  t.terminated = false → t.base.hasData = true → P t.base.data

/-- With data the maps are consistent. -/
def Sound (t : VmBaseThread) : Prop :=
  t.terminated = false → t.base.hasData = true → Consistent t.base.data

/-- A getter that refreshes data which are there can read what it has to. -/
def Safe (t : VmBaseThread) (op : Op) : Prop :=
  ∀ host, op = .get host → t.terminated = false → t.joinable = false → t.base.hasData = true →
    host.Readable t.base.vmCmd

/-- `ps` lists VMs only, for every command. -/
def ListsVms (op : Op) : Prop :=
  ∀ host, op = .get host → ∀ vmCmd, (host.listing vmCmd).failure = none

section WithData

variable {P : VmData → Prop}

theorem withData_new : WithData P {} := by
  intro _ hdata
  cases hdata

theorem withData_get (hrun : t.terminated = false) (ht : WithData P t) (hsafe : Safe t (.get host))
    (hrefresh : t.joinable = false → ∀ s, t.base.refresh host = .ok s → P s.data) :
    WithData P (t.get host) := by
  simp only [get]
  split_ifs with hjoinable
  · exact ht
  · have hjoinable := Bool.eq_false_iff.2 hjoinable
    cases hrefreshed : t.base.refresh host with
    | ok s => exact fun _ _ => hrefresh hjoinable s hrefreshed
    | error es =>
      obtain ⟨e, s⟩ := es
      intro _ hdata
      obtain ⟨_, rfl⟩ := VmBase.refresh_error_eq hrefreshed
      have hreadable := hsafe host rfl hrun hjoinable hdata
      obtain ⟨s', hs'⟩ := (VmBase.refresh_ok_iff t.base host).2 hreadable
      rw [hrefreshed] at hs'
      cases hs'

theorem withData_run (ht : WithData P t)
    (hrefresh : t.joinable = true → ∀ s, t.base.refresh host = .ok s → P s.data) :
    WithData P (t.run host) := by
  simp only [run]
  split_ifs with hjoinable
  · cases hrefreshed : t.base.refresh host with
    | ok s => exact fun _ _ => hrefresh hjoinable s hrefreshed
    | error es =>
      intro hrun
      cases hrun
  · exact ht

/-- **A safe step** keeps what refreshes that return establish. -/
theorem withData_step (ht : WithData P t) (hsafe : Safe t op)
    (hrefresh : ∀ host, t.Refreshes op host → ∀ s, t.base.refresh host = .ok s → P s.data) :
    WithData P (t.step op) := by
  simp only [step]
  split_ifs with hterminated
  · exact ht
  · have hrun := Bool.eq_false_iff.2 hterminated
    cases op with
    | setVmCmd =>
      intro _ hdata
      cases hdata
    | stop =>
      simp only [stop]
      split_ifs
      · intro _ hdata
        cases hdata
      · exact ht
    | setInterval | setCallback | clearParam | start => exact ht
    | run host =>
      exact withData_run ht fun hjoinable => hrefresh host ⟨hrun, .inl ⟨rfl, hjoinable⟩⟩
    | get host =>
      exact withData_get hrun ht hsafe fun hjoinable =>
        hrefresh host ⟨hrun, .inr ⟨rfl, hjoinable⟩⟩

end WithData

/-- **A safe step** keeps the maps consistent. -/
theorem sound_step (ht : Sound t) (hsafe : Safe t op) : Sound (t.step op) :=
  withData_step ht hsafe fun _ _ _ h => VmBase.consistent_of_refresh h

theorem sound_run {ops : List Op} (hsafe : Runs.Along step Safe {} ops) :
    Runs.Holds step Sound {} ops :=
  Runs.holds_of_along step (fun _ _ => sound_step) withData_new hsafe

/-! ## Runs with lawful listings -/

/-- The ids that a refresh lists are ordered lawfully, and these with them. -/
def Lawful (E : Set VmId) (t : VmBaseThread) (op : Op) : Prop :=
  ∀ host, t.Refreshes op host → VmId.StrictWeakOn (E ∪ host.ids t.base.vmCmd)

theorem Lawful.of_empty (h : Lawful ∅ t op) (hhost : t.Refreshes op host) :
    VmId.StrictWeakOn (host.ids t.base.vmCmd) :=
  (h host hhost).mono Set.subset_union_right

/-- The refresh, if the step may be one, lists VMs of a set. -/
def Op.ListsIn (S : Set VmId) (op : Op) : Prop :=
  ∀ host, op = .run host ∨ op = .get host → ∀ vmCmd, host.ids vmCmd ⊆ S

section ListsIn

variable {S : Set VmId}

theorem listsIn_run (h : ∀ vmCmd, host.ids vmCmd ⊆ S) : (Op.run host).ListsIn S := by
  rintro _ (hop | hop)
  · cases hop
    exact h
  · cases hop

theorem listsIn_get (h : ∀ vmCmd, host.ids vmCmd ⊆ S) : (Op.get host).ListsIn S := by
  rintro _ (hop | hop)
  · cases hop
  · cases hop
    exact h

/-- **Listings of VMs of a set that is ordered lawfully.** -/
theorem along_lawful {E : Set VmId} (hS : VmId.StrictWeakOn S) (hE : E ⊆ S) {ops : List Op}
    (hops : ∀ op ∈ ops, op.ListsIn S) (t : VmBaseThread) : Runs.Along step (Lawful E) t ops := by
  induction ops generalizing t with
  | nil => trivial
  | cons op ops ih =>
    obtain ⟨hop, hrest⟩ := List.forall_mem_cons.1 hops
    refine ⟨fun host hhost => hS.mono (Set.union_subset hE ?_), ih hrest _⟩
    exact hop host (hhost.2.imp And.left And.left) t.base.vmCmd

end ListsIn

/-- **The trees hold the maps**, whatever is thrown. -/
theorem held_run {E : Set VmId} {ops : List Op} (h : Runs.Along step (Lawful E) {} ops) :
    Runs.Holds step (fun t => t.base.data.Held E) {} ops := by
  refine Runs.holds_of_along step (fun t op ht hlawful => ?_) (VmData.held_new E) h
  refine data_step ht (VmData.held_new E) fun host hhost => ⟨fun s hs => ?_, fun e s hs => ?_⟩
  · exact (VmBase.held_refresh (hlawful host hhost) Set.subset_union_right hs).mono
      Set.subset_union_left
  · exact VmBase.held_refresh_error (hlawful host hhost) ht hs

/-- With data the trees hold the maps, for the VMs that are listed. -/
def HeldListed (t : VmBaseThread) : Prop :=
  t.terminated = false → t.base.hasData = true →
    t.base.data.Held {v | v ∈ t.base.data.getVmIds}

theorem heldListed_step (ht : HeldListed t) (hsafe : Safe t op) (hlawful : Lawful ∅ t op) :
    HeldListed (t.step op) :=
  withData_step (P := fun d => d.Held {v | v ∈ d.getVmIds}) ht hsafe fun _ hhost _ h =>
    VmBase.held_listed (hlawful.of_empty hhost) h

/-! ## Getters that throw -/

/-- A getter that throws while it reads cgroup files leaves data that are not consistent. -/
theorem not_sound_get (hrun : t.terminated = false) (hjoinable : t.joinable = false)
    (hdata : t.base.hasData = true) (hlisting : (host.listing t.base.vmCmd).failure = none)
    (hread : ¬ host.Readable t.base.vmCmd) : ¬ Sound (t.get host) := by
  intro h
  cases hrefresh : t.base.refresh host with
  | ok s => exact hread ((VmBase.refresh_ok_iff t.base host).1 ⟨s, hrefresh⟩)
  | error es =>
    obtain ⟨e, s⟩ := es
    obtain ⟨v, hv, hnot⟩ := VmBase.exists_not_mem_of_refresh_error hlisting hrefresh
    obtain ⟨_, rfl⟩ := VmBase.refresh_error_eq hrefresh
    simp only [get, hjoinable, hrefresh] at h
    exact hnot (((h hrun hdata).vcpu_keys v).2 hv)

/-- **The maps are consistent in all states with data that a run reaches**, and held by trees, if no
getter throws that refreshes data which are there; and only then, if getters throw only while they
read cgroup files. -/
theorem consistent_iff {ops : List Op} (hlawful : Runs.Along step (Lawful ∅) {} ops) :
    (Runs.Along step Safe {} ops →
      Runs.Holds step (fun t => Sound t ∧ HeldListed t) {} ops) ∧
      ((∀ op ∈ ops, ListsVms op) → Runs.Holds step Sound {} ops → Runs.Along step Safe {} ops) := by
  refine ⟨fun hsafe => ?_, ?_⟩
  · have hnew : HeldListed {} := by
      intro _ hdata
      cases hdata
    refine Runs.holds_of_along step (fun t op ht hop => ?_) ⟨withData_new, hnew⟩
      ((Runs.along_and step).2 ⟨hsafe, hlawful⟩)
    exact ⟨sound_step ht.1 hop.1, heldListed_step ht.2 hop.1 hop.2⟩
  · refine Runs.along_of_holds step (fun t op hop _ hsound => ?_)
    intro host hget hrun hjoinable hdata
    subst hget
    by_contra hread
    simp only [step, hrun] at hsound
    exact not_sound_get hrun hjoinable hdata (hop host rfl _) hread hsound

/-- A host with a VM, whose cgroup directory can be scanned or not. -/
def oneVm (entries : Option (List (List Char))) : VmHost where
  curTime := 1000
  popen _ := "00:10 42 qemu -name a -smp 4 -m 512\n".toList
  scandir _ := entries
  readFile _ := none

theorem oneVm_ids (entries : Option (List (List Char))) (vmCmd : String) :
    (oneVm entries).ids vmCmd ⊆ {⟨990, 42⟩} := by
  have hkeys : ∀ w ∈ ((oneVm none).listing "").entries, w.key = ⟨990, 42⟩ := by
    decide +kernel
  rintro k ⟨w, hw, rfl⟩
  exact hkeys w hw

theorem consistent_iff_oneVm :
    (Runs.Along step Safe {} [.get (oneVm (some []))] →
      Runs.Holds step (fun t => Sound t ∧ HeldListed t) {} [.get (oneVm (some []))]) ∧
      ((∀ op ∈ [Op.get (oneVm (some []))], ListsVms op) →
        Runs.Holds step Sound {} [.get (oneVm (some []))] →
          Runs.Along step Safe {} [.get (oneVm (some []))]) :=
  consistent_iff (along_lawful (.singleton _) (Set.empty_subset _)
    (List.forall_mem_singleton.2 (listsIn_get (oneVm_ids (some [])))) {})

/-- The second getter throws after the first pass has listed the VM, and the thread that is started
then is thought to have data. -/
theorem not_sound_thrown :
    ¬ Runs.Holds step Sound {} [.get (oneVm (some [])), .get (oneVm none), .start] := by
  intro h
  have hsound := h _ (List.prefix_refl _)
  have hconsistent := hsound (by decide +kernel) (by decide +kernel)
  have hkeys := hconsistent.vcpu_keys ⟨990, 42⟩
  exact absurd hkeys (by decide +kernel)

end VmBaseThread

end LibVsf
