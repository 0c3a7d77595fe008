import LibVsf.Lib.Maps
import LibVsf.Lib.Runs
import LibVsf.VmBase

/-!
# `VmBase`: what a refresh leaves

A refresh that returns has filled all maps for the VMs that `ps` lists. One that throws leaves some
of them filled for the new VMs and others for the old ones, and leaves `has_data_` as it was.

The first pass leaves the same keys in the maps of a VM's parameters (`Listed`). The second adds one
VM after the other to the maps of threads (`Threaded.assign`), and gets through the VMs exactly if
the files of all of them can be read.

* `refresh_ok_iff`: a refresh returns exactly if the host is readable.
* `consistent_of_refresh`: it leaves consistent maps.
* `exists_not_mem_of_refresh_error`: a second pass that throws leaves maps that are not.
-/

namespace LibVsf

open Std Writing EqvMap EqvOrd

/-! ## Consistency -/

/-- The maps of threads are filled for these VMs. -/
structure Threaded (vmIds : List VmId) (d : VmData) : Prop where
  vcpu_keys : ∀ v, v ∈ d.vcpuIds.keys ↔ v ∈ vmIds
  stable_keys : ∀ v, v ∈ d.stableVmthreadIds.keys ↔ v ∈ vmIds
  stable_eq : ∀ v ∈ vmIds, d.getStableVmthreadIds v = (d.getVcpuIds v).insert v.pid
  owner : (∀ v ∈ vmIds, ∀ w ∈ vmIds, v ≠ w → ∀ t ∈ d.getStableVmthreadIds v,
      t ∉ d.getStableVmthreadIds w) →
    ∀ t v, d.stableVmthreadIdToVmId[t]? = some v ↔ v ∈ vmIds ∧ t ∈ d.getStableVmthreadIds v

/-- The maps of parameters have the VMs as keys. -/
structure Listed (d : VmData) : Prop where
  name_keys : d.name.keys = d.vmIds.keys
  uuid_keys : d.uuid.keys = d.vmIds.keys
  mem_keys : d.totalMemSize.keys = d.vmIds.keys

/-- The maps agree with each other. -/
structure Consistent (d : VmData) : Prop extends Listed d, Threaded d.vmIds.keys d

/-- Data after calls of the callback for these VMs, if all other maps have them as keys. -/
def VmData.fillTopology (d : VmData) (ks : List VmId) : VmData :=
  { d with
    vsocketNum := d.vsocketNum.fill ks 0
    vcoreNum := d.vcoreNum.fill ks 0
    vhpthreadNum := d.vhpthreadNum.fill ks 0 }

theorem Consistent.fillTopology {d : VmData} (h : Consistent d) (ks : List VmId) :
    Consistent (d.fillTopology ks) :=
  ⟨⟨h.name_keys, h.uuid_keys, h.mem_keys⟩, ⟨h.vcpu_keys, h.stable_keys, h.stable_eq, h.owner⟩⟩

/-! ## What a line assigns -/

/-- The number of the virtual sockets, cores or threads. -/
inductive SmpKey where
  | sockets
  | cores
  | threads
deriving DecidableEq

namespace SmpKey

def ofText (key : List Char) : Option SmpKey :=
  if key = VmBase.socketsKey then some sockets
  else if key = VmBase.coresKey then some cores
  else if key = VmBase.threadsKey then some threads
  else none

def write (vmId : VmId) (n : Int) : SmpKey → VmWrite
  | sockets => .vsocketNum vmId n
  | cores => .vcoreNum vmId n
  | threads => .vhpthreadNum vmId n

def entry (vmId : VmId) : SmpKey → VmWrite
  | sockets => .vsocketEntry vmId
  | cores => .vcoreEntry vmId
  | threads => .vhpthreadEntry vmId

end SmpKey

namespace VmBase

/-- A key of `-smp` and its value. -/
def smpOp (op : List Char) : Option (SmpKey × List Char) :=
  match StrTools.split op '=' with
  | [key, value] => (SmpKey.ofText key).map fun k => (k, value)
  | _ => none

theorem smpOpWrites_eq (vmId : VmId) (op : List Char) :
    smpOpWrites vmId op = (smpOp op).elim {} fun p =>
      assigned p.2 (p.1.entry vmId) fun n => p.1.write vmId n := by
  simp only [smpOpWrites, smpOp]
  generalize StrTools.split op '=' = parts
  rcases parts with _ | ⟨key, _ | ⟨value, _ | _⟩⟩
  · rfl
  · rfl
  · simp only [SmpKey.ofText]
    split_ifs <;> rfl
  · rfl

/-- A text that `stoi` converts. -/
def Converts (text : List Char) : Prop := ∃ n, Text.stoi text = .ok n

instance (text : List Char) : Decidable (Converts text) :=
  decidable_of_iff ((Text.stoi text).toOption.isSome = true) (by
    rw [Converts]
    cases Text.stoi text <;> simp [Except.toOption])

theorem failure_converted {text : List Char} {f : Int → VmWrite} :
    (converted text f).failure = none ↔ Converts text := by
  rw [converted, Converts]
  cases Text.stoi text <;> simp

theorem mem_converted {text : List Char} {f : Int → VmWrite} {w : VmWrite}
    (h : w ∈ (converted text f).entries) : ∃ n, w = f n := by
  rw [converted] at h
  cases hn : Text.stoi text with
  | error failure =>
    rw [hn] at h
    cases h
  | ok n =>
    rw [hn] at h
    exact ⟨n, List.mem_singleton.1 h⟩

theorem failure_assigned {text : List Char} {entry : VmWrite} {f : Int → VmWrite} :
    (assigned text entry f).failure = none ↔ Converts text := by
  rw [assigned, Converts]
  cases Text.stoi text <;> simp

/-- A value that is converted is assigned. -/
theorem assigned_eq {text : List Char} (h : Converts text) (entry : VmWrite) (f : Int → VmWrite) :
    assigned text entry f = converted text f := by
  obtain ⟨n, hn⟩ := h
  rw [assigned, converted, hn]

theorem mem_assigned {text : List Char} {entry : VmWrite} {f : Int → VmWrite} {w : VmWrite}
    (h : w ∈ (assigned text entry f).entries) : w = entry ∨ ∃ n, w = f n := by
  rw [assigned] at h
  cases hn : Text.stoi text with
  | error failure =>
    rw [hn] at h
    exact .inl (List.mem_singleton.1 h)
  | ok n =>
    rw [hn] at h
    exact .inr ⟨n, List.mem_singleton.1 h⟩

/-- The parts of the value of `-smp`. -/
def smpOps (args : List (List Char)) : List (List Char) :=
  (optionArg args smpOption).elim [] fun arg => StrTools.split arg ','

theorem smpWrites_eq (vmId : VmId) (args : List (List Char)) :
    smpWrites vmId args = Log.all (smpOpWrites vmId) (smpOps args) := by
  rw [smpWrites, smpOps]
  cases optionArg args smpOption <;> rfl

/-- The keys of `-smp` and their values. -/
def smpPairs (args : List (List Char)) : List (SmpKey × List Char) := (smpOps args).filterMap smpOp

theorem mem_smpOpWrites {vmId : VmId} {op : List Char} {w : VmWrite}
    (hw : w ∈ (smpOpWrites vmId op).entries) :
    ∃ k : SmpKey, w = k.entry vmId ∨ ∃ n, w = k.write vmId n := by
  rw [smpOpWrites_eq] at hw
  cases hp : smpOp op with
  | none =>
    rw [hp] at hw
    cases hw
  | some p =>
    rw [hp] at hw
    exact ⟨p.1, mem_assigned hw⟩

theorem failure_smpOpWrites {vmId : VmId} {op : List Char} :
    (smpOpWrites vmId op).failure = none ↔ ∀ p, smpOp op = some p → Converts p.2 := by
  rw [smpOpWrites_eq]
  cases smpOp op with
  | none => simp
  | some p => simp [failure_assigned]

theorem failure_smpWrites {vmId : VmId} {args : List (List Char)} :
    (smpWrites vmId args).failure = none ↔ ∀ p ∈ smpPairs args, Converts p.2 := by
  rw [smpWrites_eq, Log.failure_all]
  simp only [failure_smpOpWrites, smpPairs, List.mem_filterMap]
  exact ⟨fun h p ⟨op, hop, hp⟩ => h op hop p hp, fun h op hop p hp => h p ⟨op, hop, hp⟩⟩

theorem failure_memWrites {vmId : VmId} {args : List (List Char)} :
    (memWrites vmId args).failure = none ↔ ∀ v, optionArg args memOption = some v → Converts v := by
  rw [memWrites]
  cases optionArg args memOption with
  | none => simp
  | some v => simp [failure_converted]

/-- What `stoi` converts a text to. -/
def intOf (text : List Char) : Int := (Text.stoi text).toOption.getD 0

theorem stoi_eq_ok {text : List Char} {n : Int} (h : Text.stoi text = .ok n) : intOf text = n := by
  rw [intOf, h]
  rfl

theorem entries_converted {text : List Char} {f : Int → VmWrite} (h : Converts text) :
    (converted text f).entries = [f (intOf text)] := by
  obtain ⟨n, hn⟩ := h
  rw [stoi_eq_ok hn, converted, hn]

theorem entries_memWrites {vmId : VmId} {args : List (List Char)}
    (h : (memWrites vmId args).failure = none) : (memWrites vmId args).entries =
      [.totalMemSize vmId ((optionArg args memOption).elim (-1) intOf)] := by
  have hconverts := failure_memWrites.1 h
  rw [memWrites]
  cases hv : optionArg args memOption with
  | none => rfl
  | some v => exact entries_converted (hconverts v hv)

theorem entries_vmWrites {vmId : VmId} {args : List (List Char)}
    (h : (vmWrites vmId args).failure = none) : (vmWrites vmId args).entries =
      (idWrites vmId args).entries ++ ((smpWrites vmId args).entries ++
        [.totalMemSize vmId ((optionArg args memOption).elim (-1) intOf)]) := by
  obtain ⟨-, h⟩ := Log.failure_andThen.1 h
  obtain ⟨hsmp, hmem⟩ := Log.failure_andThen.1 h
  rw [vmWrites, Log.entries_andThen rfl, Log.entries_andThen hsmp, entries_memWrites hmem]

end VmBase

/-! ## The first pass -/

/-- An assignment to one of the maps that `-smp` fills. -/
def VmWrite.OfSmp : VmWrite → Prop
  | .vsocketNum _ _ | .vcoreNum _ _ | .vhpthreadNum _ _
  | .vsocketEntry _ | .vcoreEntry _ | .vhpthreadEntry _ => True
  | _ => False

namespace VmBase

theorem ofSmp_smpWrites {vmId : VmId} {args : List (List Char)} {w : VmWrite}
    (hw : w ∈ (smpWrites vmId args).entries) : w.OfSmp := by
  rw [smpWrites_eq] at hw
  obtain ⟨op, -, hop⟩ := Log.mem_all hw
  obtain ⟨k, rfl | ⟨n, rfl⟩⟩ := mem_smpOpWrites hop
  · cases k <;> trivial
  · cases k <;> trivial

end VmBase

/-- Assignments to the maps of `-smp` leave the others. -/
theorem VmData.foldl_ofSmp {ws : List VmWrite} (hws : ∀ w ∈ ws, w.OfSmp) (d : VmData) :
    (ws.foldl VmData.write d).vmIds = d.vmIds ∧ (ws.foldl VmData.write d).name = d.name ∧
      (ws.foldl VmData.write d).uuid = d.uuid ∧
      (ws.foldl VmData.write d).totalMemSize = d.totalMemSize := by
  induction ws generalizing d with
  | nil => exact ⟨rfl, rfl, rfl, rfl⟩
  | cons w ws ih =>
    obtain ⟨hw, hrest⟩ := List.forall_mem_cons.1 hws
    obtain ⟨h₁, h₂, h₃, h₄⟩ := ih hrest (d.write w)
    rw [List.foldl_cons, h₁, h₂, h₃, h₄]
    cases w with
    | vsocketNum | vcoreNum | vhpthreadNum | vsocketEntry | vcoreEntry | vhpthreadEntry =>
      exact ⟨rfl, rfl, rfl, rfl⟩
    | vmId | name | uuid | totalMemSize => exact hw.elim

namespace VmBase

theorem listed_vmWrites {vmId : VmId} {args : List (List Char)}
    (h : (vmWrites vmId args).failure = none) {d : VmData} (hd : Listed d) :
    Listed ((vmWrites vmId args).entries.foldl VmData.write d) := by
  rw [entries_vmWrites h, List.foldl_append, List.foldl_append]
  -- `-smp` leaves what the ids have been inserted to, and the memory is inserted last.
  have hids (d : VmData) : (idWrites vmId args).entries.foldl VmData.write d =
      { d with
        vmIds := d.vmIds.insert vmId ()
        name := d.name.insert vmId ((optionArg args nameOption).getD [])
        uuid := d.uuid.insert vmId ((optionArg args uuidOption).getD []) } := rfl
  obtain ⟨h₁, h₂, h₃, h₄⟩ := VmData.foldl_ofSmp
    (fun w (hw : w ∈ (smpWrites vmId args).entries) => ofSmp_smpWrites hw)
    ((idWrites vmId args).entries.foldl VmData.write d)
  rw [hids] at h₁ h₂ h₃ h₄ ⊢
  simp only [List.foldl_cons, List.foldl_nil, VmData.write]
  refine ⟨?_, ?_, ?_⟩
  · simp only [h₁, h₂, keys_insert, hd.name_keys]
  · simp only [h₁, h₃, keys_insert, hd.uuid_keys]
  · simp only [h₁, h₄, keys_insert, hd.mem_keys]

/-- **Lines without a conversion that throws** leave the VMs as keys. -/
theorem listed_psWrites {curTime : Int} {cur : PsCursor} {ls : List (List Char)}
    (h : (psWrites curTime cur ls).failure = none) {d : VmData} (hd : Listed d) :
    Listed ((psWrites curTime cur ls).entries.foldl VmData.write d) := by
  induction ls generalizing cur d with
  | nil => exact hd
  | cons line ls ih =>
    simp only [psWrites] at h ⊢
    obtain ⟨hline, hrest⟩ := Log.failure_andThen.1 h
    rw [Log.entries_andThen hline, List.foldl_append]
    refine ih hrest ?_
    simp only [lineWrites] at hline ⊢
    split at hline
    · cases hline
    · exact listed_vmWrites hline hd

end VmBase

/-- The data of a first pass that throws nothing. -/
def VmHost.listed (host : VmHost) (vmCmd : String) : VmData :=
  (host.listing vmCmd).entries.foldl VmData.write {}

namespace VmBase

theorem foldl_write (ws : List VmWrite) (s : VmBase) :
    ws.foldl write s = { s with data := ws.foldl VmData.write s.data } :=
  List.foldl_hom (fun data => { s with data := data }) fun _ _ => rfl

/-- Assignments of the first pass commute with those to the maps of threads. -/
theorem foldl_write_threads (ws : List VmWrite) (d : VmData)
    (vcpuIds stable : EqvMap VmId (ExtTreeSet Int)) :
    ws.foldl VmData.write (d.withThreads vcpuIds stable) =
      (ws.foldl VmData.write d).withThreads vcpuIds stable := by
  refine List.foldl_hom (fun d : VmData => d.withThreads vcpuIds stable) fun d w => ?_
  cases w <;> rfl

/-- What the first pass leaves. -/
theorem refreshMost_eq_ok {s t : VmBase} {host : VmHost} :
    s.refreshMost host = .ok t ↔ (host.listing s.vmCmd).failure = none ∧
      t = { s with data :=
        (host.listed s.vmCmd).withThreads s.data.vcpuIds s.data.stableVmthreadIds } := by
  simp only [refreshMost, Log.replay_eq_ok, foldl_write, VmHost.listed]
  rw [foldl_write_threads, eq_comm (b := t)]

end VmBase

theorem VmHost.listed_listed {host : VmHost} {vmCmd : String}
    (h : (host.listing vmCmd).failure = none) : Listed (host.listed vmCmd) :=
  VmBase.listed_psWrites h ⟨rfl, rfl, rfl⟩

/-! ## The second pass -/

namespace VmData

variable {d : VmData} {k v : VmId} (ids : ExtTreeSet Int)

theorem getVcpuIds_assignVcpus_self : (d.assignVcpus k ids).getVcpuIds k = ids := by
  simp only [getVcpuIds, assignVcpus, VmBase.getDataByVmId, find_insert_self, Option.getD_some]

theorem getStableVmthreadIds_assignVcpus_self :
    (d.assignVcpus k ids).getStableVmthreadIds k = ids.insert k.pid := by
  simp only [getStableVmthreadIds, assignVcpus, VmBase.getDataByVmId, find_insert_self,
    Option.getD_some]

theorem getVcpuIds_assignVcpus_of_not_eqv (hk : d.vcpuIds.contains k = false) (h : ¬ eqv k v) :
    (d.assignVcpus k ids).getVcpuIds v = d.getVcpuIds v := by
  simp only [getVcpuIds, assignVcpus, VmBase.getDataByVmId]
  rw [find_insert_of_not_eqv hk h]

theorem getStableVmthreadIds_assignVcpus_of_not_eqv
    (hk : d.stableVmthreadIds.contains k = false) (h : ¬ eqv k v) :
    (d.assignVcpus k ids).getStableVmthreadIds v = d.getStableVmthreadIds v := by
  simp only [getStableVmthreadIds, assignVcpus, VmBase.getDataByVmId]
  rw [find_insert_of_not_eqv hk h]

/-- The last VM that a thread is assigned to. -/
theorem toVmId_assignVcpus (t : Int) : (d.assignVcpus k ids).stableVmthreadIdToVmId[t]? =
    if t ∈ ids.insert k.pid then some k else d.stableVmthreadIdToVmId[t]? := by
  simp only [← ExtTreeSet.mem_toList (t := ids.insert k.pid)]
  exact Maps.getElem?_foldl_insert_const k _ d.stableVmthreadIdToVmId t

end VmData

namespace Threaded

open VmData

variable {vmIds : List VmId} {d : VmData} {k : VmId}

/-- The stable threads of the VMs that were there. -/
theorem getStableVmthreadIds_old (h : Threaded vmIds d) (hk : ∀ v ∈ vmIds, ¬ eqv v k)
    (ids : ExtTreeSet Int) {v : VmId} (hv : v ∈ vmIds) :
    (d.assignVcpus k ids).getStableVmthreadIds v = d.getStableVmthreadIds v := by
  have hstable : d.stableVmthreadIds.contains k = false :=
    contains_eq_false.2 fun v hv => hk v ((h.stable_keys v).1 hv)
  exact getStableVmthreadIds_assignVcpus_of_not_eqv ids hstable
    fun heqv => hk v hv (eqv_symm _ _ heqv)

/-- Threads that no two VMs share are those of their VM. -/
theorem owner_assign (h : Threaded vmIds d) (hk : ∀ v ∈ vmIds, ¬ eqv v k) (ids : ExtTreeSet Int)
    (hdisjoint : ∀ v ∈ vmIds ++ [k], ∀ w ∈ vmIds ++ [k], v ≠ w →
      ∀ t ∈ (d.assignVcpus k ids).getStableVmthreadIds v,
        t ∉ (d.assignVcpus k ids).getStableVmthreadIds w) (t : Int) (v : VmId) :
    (d.assignVcpus k ids).stableVmthreadIdToVmId[t]? = some v ↔
      v ∈ vmIds ++ [k] ∧ t ∈ (d.assignVcpus k ids).getStableVmthreadIds v := by
  have hlast : k ∈ vmIds ++ [k] := List.mem_append_right _ List.mem_cons_self
  have hdisjointOld : ∀ v ∈ vmIds, ∀ w ∈ vmIds, v ≠ w → ∀ t ∈ d.getStableVmthreadIds v,
      t ∉ d.getStableVmthreadIds w := by
    intro v hv w hw hvw t ht
    have hnot := hdisjoint v (List.mem_append_left _ hv) w (List.mem_append_left _ hw) hvw t
    rw [h.getStableVmthreadIds_old hk ids hv, h.getStableVmthreadIds_old hk ids hw] at hnot
    exact hnot ht
  have hfresh : ∀ v ∈ vmIds, t ∈ d.getStableVmthreadIds v → t ∉ ids.insert k.pid := by
    intro v hv ht
    have hne : v ≠ k := by
      intro heq
      exact hk v hv (heq ▸ eqv_refl v)
    have hnot := hdisjoint v (List.mem_append_left _ hv) k hlast hne t
    rw [h.getStableVmthreadIds_old hk ids hv, getStableVmthreadIds_assignVcpus_self] at hnot
    exact hnot ht
  rw [toVmId_assignVcpus]
  constructor
  · intro hv
    split_ifs at hv with ht
    · obtain rfl := Option.some.inj hv
      rw [getStableVmthreadIds_assignVcpus_self]
      exact ⟨hlast, ht⟩
    · obtain ⟨hmem, ht⟩ := (h.owner hdisjointOld t v).1 hv
      rw [h.getStableVmthreadIds_old hk ids hmem]
      exact ⟨List.mem_append_left _ hmem, ht⟩
  · rintro ⟨hmem, ht⟩
    rcases List.mem_append.1 hmem with hmem | hmem
    · rw [h.getStableVmthreadIds_old hk ids hmem] at ht
      rw [if_neg (hfresh v hmem ht)]
      exact (h.owner hdisjointOld t v).2 ⟨hmem, ht⟩
    · obtain rfl := List.mem_singleton.1 hmem
      rw [getStableVmthreadIds_assignVcpus_self] at ht
      exact if_pos ht

/-- **A further VM.** -/
theorem assign (h : Threaded vmIds d) (hk : ∀ v ∈ vmIds, ¬ eqv v k) (ids : ExtTreeSet Int) :
    Threaded (vmIds ++ [k]) (d.assignVcpus k ids) := by
  have hvcpu : d.vcpuIds.contains k = false :=
    contains_eq_false.2 fun v hv => hk v ((h.vcpu_keys v).1 hv)
  have hstable : d.stableVmthreadIds.contains k = false :=
    contains_eq_false.2 fun v hv => hk v ((h.stable_keys v).1 hv)
  refine ⟨fun v => ?_, fun v => ?_, fun v hv => ?_, h.owner_assign hk ids⟩
  · simp only [assignVcpus, mem_keys_insert hvcpu, h.vcpu_keys, List.mem_append,
      List.mem_singleton]
    exact or_comm
  · simp only [assignVcpus, mem_keys_insert hstable, h.stable_keys, List.mem_append,
      List.mem_singleton]
    exact or_comm
  · rcases List.mem_append.1 hv with hv | hv
    · have hkv : ¬ eqv k v := fun heqv => hk v hv (eqv_symm _ _ heqv)
      rw [h.getStableVmthreadIds_old hk ids hv, getVcpuIds_assignVcpus_of_not_eqv ids hvcpu hkv]
      exact h.stable_eq v hv
    · obtain rfl := List.mem_singleton.1 hv
      rw [getStableVmthreadIds_assignVcpus_self, getVcpuIds_assignVcpus_self]

end Threaded

namespace VmBase

/-- Only the threads of VMs differ. -/
def SameVms (s t : VmBase) : Prop :=
  ∃ vcpuIds stable toVmId, t = { s with data := { s.data with
    vcpuIds := vcpuIds, stableVmthreadIds := stable, stableVmthreadIdToVmId := toVmId } }

theorem SameVms.trans {s t u : VmBase} (h : SameVms s t) (h' : SameVms t u) : SameVms s u := by
  obtain ⟨_, _, _, rfl⟩ := h
  obtain ⟨vcpuIds, stable, toVmId, rfl⟩ := h'
  exact ⟨vcpuIds, stable, toVmId, rfl⟩

theorem refreshVcpus_eq_ok {host : VmHost} {s t : VmBase} {v : VmId} :
    refreshVcpus host s v = .ok t ↔ ∃ ids, readVcpus host (s.data.getName v) = .ok ids ∧
      { s with data := s.data.assignVcpus v ids } = t := by
  simp only [refreshVcpus, VmData.getName, getDataByVmId]
  cases readVcpus host ((s.data.name.find v).getD []) <;> simp

theorem sameVms_of_refreshVcpus {host : VmHost} {s t : VmBase} {v : VmId}
    (h : refreshVcpus host s v = .ok t) : SameVms s t := by
  obtain ⟨ids, -, rfl⟩ := refreshVcpus_eq_ok.1 h
  exact ⟨_, _, _, rfl⟩

theorem refreshVcpus_eq_error {host : VmHost} {s t : VmBase} {v : VmId} {e : ReadFailure}
    (h : refreshVcpus host s v = .error (e, t)) : t = s := by
  simp only [refreshVcpus] at h
  cases hread : readVcpus host ((s.data.name.find v).getD []) with
  | error failure =>
    rw [hread] at h
    cases h
    rfl
  | ok ids =>
    rw [hread] at h
    cases h

theorem sameVms_run {host : VmHost} {ks : List VmId} {s t : VmBase}
    (h : Runs.runE (refreshVcpus host) s ks = .ok t) : SameVms s t :=
  Runs.runE_invariant _ (I := SameVms s) ⟨_, _, _, rfl⟩
    (fun _ _ _ hs hstep => hs.trans (sameVms_of_refreshVcpus hstep)) h

/-- **The loop over the VMs**, when it has got to the end. -/
theorem threaded_run {host : VmHost} {ks : List VmId} (hks : ks.Pairwise fun a b => ¬ eqv a b)
    {s t : VmBase} (hs : Threaded [] s.data) (h : Runs.runE (refreshVcpus host) s ks = .ok t) :
    Threaded ks t.data := by
  induction ks using List.reverseRecOn generalizing t with
  | nil =>
    cases h
    exact hs
  | append_singleton ks k ih =>
    obtain ⟨s', hpre, hstep⟩ := (Runs.runE_concat_ok _).1 h
    obtain ⟨hpairwise, -, hk⟩ := List.pairwise_append.1 hks
    obtain ⟨ids, -, rfl⟩ := refreshVcpus_eq_ok.1 hstep
    exact (ih hpairwise hpre).assign (fun v hv => hk v hv k List.mem_cons_self) ids

/-- **The loop gets to the end** exactly if the files of every VM can be read. -/
theorem run_ok_iff (host : VmHost) (ks : List VmId) (s : VmBase) :
    (∃ t, Runs.runE (refreshVcpus host) s ks = .ok t) ↔
      ∀ v ∈ ks, ∃ ids, readVcpus host (s.data.getName v) = .ok ids := by
  refine Runs.runE_ok_iff_forall _ (I := fun t => t.data.name = s.data.name)
    (C := fun v => ∃ ids, readVcpus host (s.data.getName v) = .ok ids)
    (fun t v t' ht hstep => ?_) (fun t v ht => ?_) rfl ks
  · obtain ⟨_, _, _, rfl⟩ := sameVms_of_refreshVcpus hstep
    exact ht
  · have hname : t.data.getName v = s.data.getName v := by
      rw [VmData.getName, VmData.getName, ht]
    simp only [refreshVcpus_eq_ok, hname]
    rw [exists_comm]
    refine exists_congr fun ids => ?_
    rw [exists_and_left]
    exact and_iff_left ⟨_, rfl⟩

end VmBase

/-! ## `refresh` -/

/-- A refresh that lists the VMs of the command can read what it has to. -/
def VmHost.Readable (host : VmHost) (vmCmd : String) : Prop :=
  (host.listing vmCmd).failure = none ∧ ∀ v ∈ (host.listed vmCmd).getVmIds,
    ∃ ids, VmBase.readVcpus host ((host.listed vmCmd).getName v) = .ok ids

namespace VmBase

theorem foldl_write_toVmId (ws : List VmWrite) (d : VmData) :
    (ws.foldl VmData.write d).stableVmthreadIdToVmId = d.stableVmthreadIdToVmId := by
  induction ws generalizing d with
  | nil => rfl
  | cons w ws ih =>
    rw [List.foldl_cons, ih]
    cases w <;> rfl

/-- The state in which the second pass starts. -/
def listedState (s : VmBase) (host : VmHost) : VmBase :=
  { s with data := (host.listed s.vmCmd).withThreads ∅ ∅ }

theorem threaded_listedState (s : VmBase) (host : VmHost) :
    Threaded [] (s.listedState host).data where
  vcpu_keys _ := Iff.rfl
  stable_keys _ := Iff.rfl
  stable_eq := by
    intro v hv
    cases hv
  owner := by
    intro _ t v
    have hnone : (s.listedState host).data.stableVmthreadIdToVmId = ∅ :=
      foldl_write_toVmId (host.listing s.vmCmd).entries {}
    rw [hnone]
    simp

/-- The two passes. -/
def collectVms (s : VmBase) (host : VmHost) : Result VmBase :=
  s.refreshMost host >>= fun s => s.refreshVcpuStableVmthread host

theorem refresh_eq (s : VmBase) (host : VmHost) :
    s.refresh host = s.collectVms host >>= fun s => .ok { s.notifyAll with hasData := true } := by
  simp only [refresh, collectVms, bind_assoc]
  rfl

theorem refresh_eq_ok_iff {s t : VmBase} {host : VmHost} :
    s.refresh host = .ok t ↔
      ∃ s', s.collectVms host = .ok s' ∧ { s'.notifyAll with hasData := true } = t := by
  rw [refresh_eq, Runs.bind_eq_ok]
  simp only [Except.ok.injEq]

theorem refresh_eq_error_iff {s : VmBase} {host : VmHost} {es : ReadFailure × VmBase} :
    s.refresh host = .error es ↔ s.collectVms host = .error es := by
  rw [refresh_eq]
  cases s.collectVms host with
  | error es' => exact Iff.rfl
  | ok s' => exact iff_of_false nofun nofun

/-- **The passes**, after a first one that throws nothing. -/
theorem collectVms_eq {s : VmBase} {host : VmHost} (h : (host.listing s.vmCmd).failure = none) :
    s.collectVms host =
      Runs.runE (refreshVcpus host) (s.listedState host) (host.listed s.vmCmd).getVmIds := by
  simp only [collectVms]
  rw [refreshMost_eq_ok.2 ⟨h, rfl⟩, ← Runs.foldlM_eq_runE]
  rfl

theorem collectVms_eq_ok_iff {s t : VmBase} {host : VmHost} :
    s.collectVms host = .ok t ↔ (host.listing s.vmCmd).failure = none ∧
      Runs.runE (refreshVcpus host) (s.listedState host) (host.listed s.vmCmd).getVmIds =
        .ok t := by
  refine ⟨?_, ?_⟩
  · intro h
    obtain ⟨s', hs', -⟩ := Runs.bind_eq_ok.1 h
    have hlisting := (refreshMost_eq_ok.1 hs').1
    rw [collectVms_eq hlisting] at h
    exact ⟨hlisting, h⟩
  · intro h
    rw [collectVms_eq h.1]
    exact h.2

/-- **A refresh returns** exactly if the host is readable. -/
theorem refresh_ok_iff (s : VmBase) (host : VmHost) :
    (∃ t, s.refresh host = .ok t) ↔ host.Readable s.vmCmd := by
  have hrun := run_ok_iff host (host.listed s.vmCmd).getVmIds (s.listedState host)
  have hcollect : (∃ t, s.refresh host = .ok t) ↔ ∃ s', s.collectVms host = .ok s' := by
    simp only [refresh_eq_ok_iff]
    rw [exists_comm]
    refine exists_congr fun s' => ?_
    rw [exists_and_left]
    exact and_iff_left ⟨_, rfl⟩
  simp only [hcollect, collectVms_eq_ok_iff, exists_and_left, hrun]
  rfl

/-- **A call of the callback** inserts the numbers that `-smp` has not given. -/
theorem lookUp_data {s : VmBase} (h : Consistent s.data) {v : VmId} (hv : v ∈ s.data.vmIds.keys) :
    (s.lookUp v).data = s.data.fillTopology [v] := by
  have hname : s.data.name.contains v = true := contains_of_mem_keys (h.name_keys ▸ hv)
  have huuid : s.data.uuid.contains v = true := contains_of_mem_keys (h.uuid_keys ▸ hv)
  have hmem : s.data.totalMemSize.contains v = true := contains_of_mem_keys (h.mem_keys ▸ hv)
  have hvcpu : s.data.vcpuIds.contains v = true := contains_of_mem_keys ((h.vcpu_keys v).2 hv)
  have hstable : s.data.stableVmthreadIds.contains v = true :=
    contains_of_mem_keys ((h.stable_keys v).2 hv)
  simp only [lookUp, insertIfNew_of_contains hname, insertIfNew_of_contains huuid,
    insertIfNew_of_contains hmem, insertIfNew_of_contains hvcpu, insertIfNew_of_contains hstable]
  rfl

/-- **The calls of the callback.** -/
theorem foldl_notify_data {s : VmBase} (h : Consistent s.data) {ks : List VmId}
    (hks : ∀ v ∈ ks, v ∈ s.data.vmIds.keys) :
    (ks.foldl notify s).data = s.data.fillTopology ks := by
  induction ks generalizing s with
  | nil => rfl
  | cons v ks ih =>
    obtain ⟨hv, hrest⟩ := List.forall_mem_cons.1 hks
    have hnotify : (s.notify v).data = s.data.fillTopology [v] := lookUp_data h hv
    rw [List.foldl_cons, ih, hnotify]
    · rfl
    · rw [hnotify]
      exact h.fillTopology [v]
    · rw [hnotify]
      exact hrest

theorem consistent_notifyAll {s : VmBase} (h : Consistent s.data) :
    Consistent s.notifyAll.data := by
  simp only [notifyAll]
  split_ifs
  · rw [foldl_notify_data h fun v hv => hv]
    exact h.fillTopology _
  · exact h

/-- **The passes** fill the maps of the listed VMs. -/
theorem sameVms_collectVms {s t : VmBase} {host : VmHost} (h : s.collectVms host = .ok t) :
    SameVms (s.listedState host) t :=
  sameVms_run (collectVms_eq_ok_iff.1 h).2

theorem consistent_collectVms {s t : VmBase} {host : VmHost} (h : s.collectVms host = .ok t) :
    Consistent t.data := by
  obtain ⟨hlisting, hrun⟩ := collectVms_eq_ok_iff.1 h
  have hthreaded := threaded_run (keys_pairwise (host.listed s.vmCmd).vmIds)
    (threaded_listedState s host) hrun
  obtain ⟨_, _, _, rfl⟩ := sameVms_run hrun
  have hlisted := host.listed_listed hlisting
  exact ⟨⟨hlisted.name_keys, hlisted.uuid_keys, hlisted.mem_keys⟩, hthreaded⟩

/-- **A refresh that returns** leaves consistent maps. -/
theorem consistent_of_refresh {s t : VmBase} {host : VmHost} (h : s.refresh host = .ok t) :
    Consistent t.data := by
  obtain ⟨s', hs', rfl⟩ := refresh_eq_ok_iff.1 h
  exact consistent_notifyAll (consistent_collectVms hs')

/-- A second pass that throws does so at one of the VMs. -/
theorem exists_of_refresh_error {s t : VmBase} {host : VmHost} {e : ReadFailure}
    (hlisting : (host.listing s.vmCmd).failure = none) (h : s.refresh host = .error (e, t)) :
    ∃ pre v post, (host.listed s.vmCmd).vmIds.keys = pre ++ v :: post ∧
      Runs.runE (refreshVcpus host) (s.listedState host) pre = .ok t := by
  rw [refresh_eq_error_iff, collectVms_eq hlisting] at h
  obtain ⟨pre, v, post, s', hks, hpre, hv⟩ := Runs.exists_of_runE_eq_error _ h
  obtain rfl := refreshVcpus_eq_error hv
  exact ⟨pre, v, post, hks, hpre⟩

/-- **A second pass that throws** has not got to one of the VMs. -/
theorem exists_not_mem_of_refresh_error {s t : VmBase} {host : VmHost} {e : ReadFailure}
    (hlisting : (host.listing s.vmCmd).failure = none) (h : s.refresh host = .error (e, t)) :
    ∃ v ∈ t.data.vmIds.keys, v ∉ t.data.vcpuIds.keys := by
  obtain ⟨pre, v, post, hkeys, hpre⟩ := exists_of_refresh_error hlisting h
  have hpairwise := keys_pairwise (host.listed s.vmCmd).vmIds
  rw [hkeys] at hpairwise
  obtain ⟨hpairwise, -, hlater⟩ := List.pairwise_append.1 hpairwise
  have hthreaded := threaded_run hpairwise (threaded_listedState s host) hpre
  obtain ⟨_, _, _, rfl⟩ := sameVms_run hpre
  refine ⟨v, ?_, ?_⟩
  · show v ∈ (host.listed s.vmCmd).vmIds.keys
    rw [hkeys]
    exact List.mem_append_right _ List.mem_cons_self
  · intro hmem
    exact hlater v ((hthreaded.vcpu_keys v).1 hmem) v List.mem_cons_self (eqv_refl v)

/-- **A first pass that throws** leaves what it has written, and the threads of earlier data. -/
theorem refresh_error_listing {s t : VmBase} {host : VmHost} {e failure : ReadFailure}
    (hlisting : (host.listing s.vmCmd).failure = some failure)
    (h : s.refresh host = .error (e, t)) :
    t = { s with
      data := (host.listed s.vmCmd).withThreads s.data.vcpuIds s.data.stableVmthreadIds } := by
  have hmost : s.refreshMost host = .error (failure, (host.listing s.vmCmd).entries.foldl write
      { s with data := ({} : VmData).withThreads s.data.vcpuIds s.data.stableVmthreadIds }) :=
    (Log.replay_eq_error write).2 ⟨hlisting, rfl⟩
  simp only [refresh, hmost] at h
  cases h
  rw [foldl_write, foldl_write_threads, ← VmHost.listed]

/-- **A refresh that throws** leaves all but the data. -/
theorem refresh_error_eq {s t : VmBase} {host : VmHost} {e : ReadFailure}
    (h : s.refresh host = .error (e, t)) : ∃ data, t = { s with data := data } := by
  cases hlisting : (host.listing s.vmCmd).failure with
  | none =>
    obtain ⟨pre, v, post, -, hpre⟩ := exists_of_refresh_error hlisting h
    obtain ⟨_, _, _, rfl⟩ := sameVms_run hpre
    exact ⟨_, rfl⟩
  | some failure => exact ⟨_, refresh_error_listing hlisting h⟩

theorem notifyAll_eq (s : VmBase) :
    ∃ data notices, s.notifyAll = { s with data := data, notices := notices } := by
  have hfold : ∃ data notices, s.data.vmIds.keys.foldl notify s =
      { s with data := data, notices := notices } := by
    refine Runs.run_invariant notify
      (I := fun t => ∃ data notices, t = { s with data := data, notices := notices })
      ⟨_, _, rfl⟩ (fun t v ht => ?_) _
    obtain ⟨data, notices, rfl⟩ := ht
    exact ⟨_, _, rfl⟩
  simp only [notifyAll]
  split_ifs
  · exact hfold
  · exact ⟨_, _, rfl⟩

/-- **A refresh that returns** leaves the parameters. -/
theorem refresh_ok_eq {s t : VmBase} {host : VmHost} (h : s.refresh host = .ok t) :
    ∃ data notices, t = { s with data := data, notices := notices, hasData := true } := by
  obtain ⟨s', hs', rfl⟩ := refresh_eq_ok_iff.1 h
  obtain ⟨_, _, _, rfl⟩ := sameVms_collectVms hs'
  obtain ⟨data, notices, hnotify⟩ := notifyAll_eq { s.listedState host with data := _ }
  rw [hnotify]
  exact ⟨_, _, rfl⟩

end VmBase

end LibVsf
