import LibVsf.VmBaseProof
import LibVsf.VmIdMaps

/-!
# `VmBase`: what a refresh keeps of its maps

The maps of `VmBase` with `VmId`s as keys are search trees (`VmIdMaps`). A refresh makes them anew,
and assigns to the ids that it lists and to no others. So a property that insertions of these ids
keep (`KeptOn`) is one of all the maps that a refresh leaves, and where the ids are ordered
lawfully, the trees hold the maps.

* `all_refresh`: a refresh that returns leaves maps with the property.
* `all_refresh_error`: so does one that throws, but the maps of threads may be those that were
  there.
* `held_refresh`: the trees hold the maps after a refresh.
-/

namespace LibVsf

open Std Writing EqvMap EqvOrd SearchTree

/-! ## Ids -/

/-- The VM of an assignment. -/
def VmWrite.key : VmWrite → VmId
  | .vmId k | .name k _ | .uuid k _ | .vsocketNum k _ | .vcoreNum k _ | .vhpthreadNum k _
  | .totalMemSize k _ | .vsocketEntry k | .vcoreEntry k | .vhpthreadEntry k => k

/-- The ids that a listing assigns to. -/
def VmHost.ids (host : VmHost) (vmCmd : String) : Set VmId :=
  {k | ∃ w ∈ (host.listing vmCmd).entries, w.key = k}

/-! ## Properties of all maps -/

/-- A property of all maps with `VmId`s as keys. -/
structure VmData.All (Q : ∀ α : Type, EqvMap VmId α → Prop) (d : VmData) : Prop where
  vmIds : Q _ d.vmIds
  name : Q _ d.name
  uuid : Q _ d.uuid
  vsocketNum : Q _ d.vsocketNum
  vcoreNum : Q _ d.vcoreNum
  vhpthreadNum : Q _ d.vhpthreadNum
  totalMemSize : Q _ d.totalMemSize
  vcpuIds : Q _ d.vcpuIds
  stableVmthreadIds : Q _ d.stableVmthreadIds

variable {S : Set VmId} {Q Q' : ∀ α : Type, EqvMap VmId α → Prop}

namespace VmData

/-- Trees hold all maps, for lookups and assignments with these ids. -/
def Held (S : Set VmId) (d : VmData) : Prop := d.All fun _ m => HeldOn S m

namespace All

variable {d : VmData}

theorem imp (hQQ' : ∀ (α : Type) (m : EqvMap VmId α), Q α m → Q' α m) (h : d.All Q) :
    d.All Q' :=
  ⟨hQQ' _ _ h.vmIds, hQQ' _ _ h.name, hQQ' _ _ h.uuid, hQQ' _ _ h.vsocketNum, hQQ' _ _ h.vcoreNum,
    hQQ' _ _ h.vhpthreadNum, hQQ' _ _ h.totalMemSize, hQQ' _ _ h.vcpuIds,
    hQQ' _ _ h.stableVmthreadIds⟩

theorem new (hQ : ∀ α : Type, Q α ∅) : VmData.All Q {} :=
  ⟨hQ _, hQ _, hQ _, hQ _, hQ _, hQ _, hQ _, hQ _, hQ _⟩

theorem write (hQ : KeptOn S Q) (h : d.All Q) {w : VmWrite} (hw : w.key ∈ S) :
    (d.write w).All Q := by
  cases w with
  | vmId => exact { h with vmIds := hQ.insert h.vmIds hw }
  | name => exact { h with name := hQ.insert h.name hw }
  | uuid => exact { h with uuid := hQ.insert h.uuid hw }
  | vsocketNum => exact { h with vsocketNum := hQ.insert h.vsocketNum hw }
  | vcoreNum => exact { h with vcoreNum := hQ.insert h.vcoreNum hw }
  | vhpthreadNum => exact { h with vhpthreadNum := hQ.insert h.vhpthreadNum hw }
  | totalMemSize => exact { h with totalMemSize := hQ.insert h.totalMemSize hw }
  | vsocketEntry => exact { h with vsocketNum := hQ.insertIfNew h.vsocketNum hw }
  | vcoreEntry => exact { h with vcoreNum := hQ.insertIfNew h.vcoreNum hw }
  | vhpthreadEntry => exact { h with vhpthreadNum := hQ.insertIfNew h.vhpthreadNum hw }

theorem foldl_write (hQ : KeptOn S Q) (h : d.All Q) {ws : List VmWrite}
    (hws : ∀ w ∈ ws, w.key ∈ S) : (ws.foldl VmData.write d).All Q := by
  induction ws generalizing d with
  | nil => exact h
  | cons w ws ih =>
    obtain ⟨hw, hrest⟩ := List.forall_mem_cons.1 hws
    exact ih (h.write hQ hw) hrest

theorem assignVcpus (hQ : KeptOn S Q) (h : d.All Q) {v : VmId} (hv : v ∈ S) (ids : ExtTreeSet Int) :
    (d.assignVcpus v ids).All Q :=
  { h with
    vcpuIds := hQ.insert h.vcpuIds hv
    stableVmthreadIds := hQ.insert h.stableVmthreadIds hv }

/-- Threads of other data. -/
theorem withThreads (h : d.All Q) {vcpuIds stable : EqvMap VmId (ExtTreeSet Int)}
    (hvcpu : Q _ vcpuIds) (hstable : Q _ stable) : (d.withThreads vcpuIds stable).All Q :=
  { h with
    vcpuIds := hvcpu
    stableVmthreadIds := hstable }

/-- **Sorted maps are held by trees.** -/
theorem held (hS : VmId.StrictWeakOn S) (h : d.All fun _ m => Sorted S m.entries) : d.Held S :=
  h.imp fun _ _ hm => hm.heldOn hS.weakOn

end All

theorem Held.mono {T : Set VmId} {d : VmData} (h : d.Held T) (hST : S ⊆ T) : d.Held S :=
  h.imp fun _ _ hm => hm.mono hST

theorem held_new (S : Set VmId) : VmData.Held S {} := .new fun _ => heldOn_empty S

/-- Nothing is asked of the trees without ids. -/
theorem held_nil (d : VmData) : d.Held {v | v ∈ ([] : List VmId)} :=
  have hnil (α : Type) (m : EqvMap VmId α) : HeldOn {v | v ∈ ([] : List VmId)} m :=
    ⟨fun _ _ _ hk => absurd hk List.not_mem_nil, fun _ _ _ hk => absurd hk List.not_mem_nil⟩
  ⟨hnil _ _, hnil _ _, hnil _ _, hnil _ _, hnil _ _, hnil _ _, hnil _ _, hnil _ _, hnil _ _⟩

end VmData

/-! ## Refreshes -/

namespace VmBase

variable {s t : VmBase} {host : VmHost}

theorem all_listed (hQ : KeptOn S Q) {vmCmd : String} (hids : host.ids vmCmd ⊆ S) :
    (host.listed vmCmd).All Q :=
  (VmData.All.new fun _ => hQ.empty).foldl_write hQ fun w hw => hids ⟨w, hw, rfl⟩

theorem all_lookUp (hQ : KeptOn S Q) (h : s.data.All Q) {v : VmId} (hv : v ∈ S) :
    (s.lookUp v).data.All Q where
  vmIds := h.vmIds
  name := hQ.insertIfNew h.name hv
  uuid := hQ.insertIfNew h.uuid hv
  vsocketNum := hQ.insertIfNew h.vsocketNum hv
  vcoreNum := hQ.insertIfNew h.vcoreNum hv
  vhpthreadNum := hQ.insertIfNew h.vhpthreadNum hv
  totalMemSize := hQ.insertIfNew h.totalMemSize hv
  vcpuIds := hQ.insertIfNew h.vcpuIds hv
  stableVmthreadIds := hQ.insertIfNew h.stableVmthreadIds hv

theorem all_notifyAll (hQ : KeptOn S Q) (h : s.data.All Q) : s.notifyAll.data.All Q := by
  have hfold (ks : List VmId) (hks : ∀ v ∈ ks, v ∈ S) {s : VmBase} (hs : s.data.All Q) :
      (ks.foldl notify s).data.All Q := by
    induction ks generalizing s with
    | nil => exact hs
    | cons v ks ih =>
      obtain ⟨hv, hrest⟩ := List.forall_mem_cons.1 hks
      have hnotify : (s.notify v).data.All Q := all_lookUp hQ hs hv
      exact ih hrest hnotify
  simp only [notifyAll]
  split_ifs
  · exact hfold s.data.vmIds.keys (fun v hv => hQ.mem h.vmIds hv) h
  · exact h

/-- The loop over VMs. -/
theorem all_run (hQ : KeptOn S Q) (hids : host.ids s.vmCmd ⊆ S) {ks : List VmId}
    (hks : ∀ v ∈ ks, v ∈ (host.listed s.vmCmd).vmIds.keys)
    (h : Runs.runE (refreshVcpus host) (s.listedState host) ks = .ok t) : t.data.All Q := by
  have hlisted := all_listed hQ hids
  refine Runs.runE_invariant_mem _ (I := fun t : VmBase => t.data.All Q)
    (hlisted.withThreads hQ.empty hQ.empty) ?_ h
  intro s' v t' hv hs' hstep
  obtain ⟨ids, -, rfl⟩ := refreshVcpus_eq_ok.1 hstep
  exact hs'.assignVcpus hQ (hQ.mem hlisted.vmIds (hks v hv)) ids

/-- **A refresh that returns** leaves maps with the property. -/
theorem all_refresh (hQ : KeptOn S Q) (hids : host.ids s.vmCmd ⊆ S) (h : s.refresh host = .ok t) :
    t.data.All Q := by
  obtain ⟨s', hs', rfl⟩ := refresh_eq_ok_iff.1 h
  obtain ⟨-, hrun⟩ := collectVms_eq_ok_iff.1 hs'
  exact all_notifyAll hQ (all_run hQ hids (fun v hv => hv) hrun)

/-- **A refresh that throws** leaves such maps, or the threads of earlier data beside them. -/
theorem all_refresh_error (hQ : KeptOn S Q) (hids : host.ids s.vmCmd ⊆ S) {e : ReadFailure}
    (h : s.refresh host = .error (e, t)) : t.data.All Q ∨ ∃ d : VmData, d.All Q ∧
      t.data = d.withThreads s.data.vcpuIds s.data.stableVmthreadIds := by
  cases hlisting : (host.listing s.vmCmd).failure with
  | none =>
    obtain ⟨pre, v, post, hkeys, hpre⟩ := exists_of_refresh_error hlisting h
    refine Or.inl (all_run hQ hids (fun v hv => ?_) hpre)
    rw [hkeys]
    exact List.mem_append_left _ hv
  | some failure =>
    refine Or.inr ⟨host.listed s.vmCmd, all_listed hQ hids, ?_⟩
    rw [refresh_error_listing hlisting h]

/-- **The trees hold the maps** after a refresh of ids that are ordered lawfully. -/
theorem held_refresh (hS : VmId.StrictWeakOn S) (hids : host.ids s.vmCmd ⊆ S)
    (h : s.refresh host = .ok t) : t.data.Held S :=
  (all_refresh (kept_sorted hS.weakOn) hids h).held hS

/-- Where the refresh throws, those that were there are still held. -/
theorem held_refresh_error {E : Set VmId} (hS : VmId.StrictWeakOn (E ∪ host.ids s.vmCmd))
    (hs : s.data.Held E) {e : ReadFailure} (h : s.refresh host = .error (e, t)) :
    t.data.Held E := by
  have hE : E ⊆ E ∪ host.ids s.vmCmd := Set.subset_union_left
  rcases all_refresh_error (kept_sorted hS.weakOn) Set.subset_union_right h with
    hall | ⟨d, hd, hdata⟩
  · exact (hall.held hS).mono hE
  · have hheld : d.Held E := (hd.held hS).mono hE
    rw [hdata]
    exact VmData.All.withThreads hheld hs.vcpuIds hs.stableVmthreadIds

/-- **The trees hold the maps** for the VMs that are listed then. -/
theorem held_listed (hS : VmId.StrictWeakOn (host.ids s.vmCmd)) (h : s.refresh host = .ok t) :
    t.data.Held {v | v ∈ t.data.getVmIds} :=
  (held_refresh hS subset_rfl h).mono (all_refresh (kept_keys _) subset_rfl h).vmIds

end VmBase

end LibVsf
