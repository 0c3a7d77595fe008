import LibVsf.Lib.FlaggedCache
import Mathlib.Algebra.BigOperators.Group.Finset.Basic
import Mathlib.Algebra.BigOperators.Group.Finset.Piecewise
import Mathlib.Algebra.Order.Ring.Int
import Mathlib.Tactic.Ring

/-!
# The memory of the host

`host/dymatic/hs_used_mem_size.cpp` and `host/static/total_mem_size.cpp`. Both ask `libnuma` for the
sizes of the nodes, under a mutex, and their getters do so only where a flag is not set. It is
`init` for the sizes, which a refresh sets; and `thread_run` for the memory in use, which the thread
sets after its first refresh.

**Theorem (`HsUsedMemSize.figures_whole`).** In every order of the steps of getters and of the
thread, what a getter returns is of one refresh, the last, and the figures of the nodes add up to
the one of the host. But once the thread has run, getters refresh no more, also when it has stopped.

**Theorem (`TotalMemSize.sizes_whole`).** The same of the sizes, which only `update` fetches again.

The figures are `long long`s, which hold any size of memory.
-/

namespace LibVsf

open FlaggedCache

/-- What `libnuma` answers. -/
structure MemHost where
  numaMaxNode : Int
  /-- `-1` for a node that is not there. -/
  numaNodeSize64 : Nat → Int
  /-- What the second argument of `numa_node_size64` is assigned. -/
  nodeFree : Nat → Int

/-- The loops run to `numa_max_node`. -/
def MemHost.nodes (host : MemHost) : List Nat := List.range (host.numaMaxNode + 1).toNat

/-! ## Lists of nodes -/

section Nodes

variable {α : Type}

/-- The entry of a node among those of the nodes that are there. -/
theorem find?_nodes (n : Nat) (p : Nat → Prop) [DecidablePred p] (f : Nat → α) (id : Int) :
    (((List.range n).filter fun i => p i).map fun i : Nat => ((i : Int), f i)).find?
        (fun x => x.1 = id) =
      if 0 ≤ id ∧ id < n ∧ p id.toNat then some (id, f id.toNat) else none := by
  induction n with
  | zero =>
    rw [if_neg (by omega)]
    rfl
  | succ n ih =>
    rw [List.range_succ, List.filter_append, List.map_append, List.find?_append, ih]
    by_cases hid : id = n
    · subst hid
      by_cases hp : p n
      · simp [hp]
      · simp [hp]
    · have hne : (n : Int) ≠ id := Ne.symm hid
      have hlt : id < (n : Int) + 1 ↔ id < n := by omega
      by_cases hp : p n
      · simp [hp, hne, hlt]
      · simp [hp, hlt]

theorem sum_range_filter_succ (n : Nat) (p : Nat → Prop) [DecidablePred p] (f : Nat → Int) :
    (∑ i ∈ (Finset.range (n + 1)).filter p, f i) =
      (∑ i ∈ (Finset.range n).filter p, f i) + if p n then f n else 0 := by
  rw [Finset.sum_filter, Finset.sum_filter, Finset.sum_range_succ]

end Nodes

/-! ## The memory in use -/

structure MemInfo where
  memFree : Int
  memTotal : Int
deriving DecidableEq, Repr

/-- The members that are fetched. -/
structure UsedMem where
  nodeNum : Int := -1
  totalFree : Int := 0
  totalMem : Int := 0
  memInfos : List (Int × MemInfo) := []

namespace HsUsedMemSize

/-- The body of the loop over the nodes. -/
def addNode (host : MemHost) (m : UsedMem) (i : Nat) : UsedMem :=
  if host.numaNodeSize64 i = -1 then m
  else { m with
    memInfos := m.memInfos ++ [((i : Int), ⟨host.nodeFree i, host.numaNodeSize64 i⟩)]
    totalFree := m.totalFree + host.nodeFree i
    totalMem := m.totalMem + host.numaNodeSize64 i }

def getNumaFreeSpaceInfo (host : MemHost) : UsedMem :=
  let m := host.nodes.foldl (addNode host) {}
  { m with nodeNum := m.memInfos.length }

def getUsedMemSize (m : UsedMem) : Int := m.totalMem - m.totalFree

/-- With a node, which may not be there. -/
def getUsedMemSizeOf (m : UsedMem) (nodeId : Int) : Except String Int :=
  match m.memInfos.find? fun x => x.1 = nodeId with
  | none => .error "Node id is invalid!\n"
  | some x => .ok (x.2.memTotal - x.2.memFree)

/-- The flag is `thread_run`. A `pass` is a refresh of the thread, or `reflesh`. -/
def cache : Cache MemHost UsedMem where
  fetch host := some (getNumaFreeSpaceInfo host)
  raises := false

/-- What is in use of a node. -/
def used (host : MemHost) (i : Nat) : Int := host.numaNodeSize64 i - host.nodeFree i

/-- The figures are those of one state of the host. -/
structure Whole (host : MemHost) (m : UsedMem) : Prop where
  total : getUsedMemSize m = ∑ i ∈ (Finset.range (host.numaMaxNode + 1).toNat).filter fun i =>
    host.numaNodeSize64 i ≠ -1, used host i
  node : ∀ nodeId : Int, getUsedMemSizeOf m nodeId =
    if 0 ≤ nodeId ∧ nodeId ≤ host.numaMaxNode ∧ host.numaNodeSize64 nodeId.toNat ≠ -1 then
      .ok (used host nodeId.toNat)
    else .error "Node id is invalid!\n"

theorem foldl_addNode (host : MemHost) (n : Nat) :
    getUsedMemSize ((List.range n).foldl (addNode host) {}) =
        (∑ i ∈ (Finset.range n).filter fun i => host.numaNodeSize64 i ≠ -1, used host i) ∧
      ((List.range n).foldl (addNode host) {}).memInfos =
        ((List.range n).filter fun i => host.numaNodeSize64 i ≠ -1).map fun i : Nat =>
          ((i : Int), ⟨host.nodeFree i, host.numaNodeSize64 i⟩) := by
  induction n with
  | zero => exact ⟨rfl, rfl⟩
  | succ n ih =>
    obtain ⟨hsum, hinfos⟩ := ih
    rw [List.range_succ, List.foldl_append, List.foldl_cons, List.foldl_nil,
      sum_range_filter_succ, List.filter_append, List.map_append]
    by_cases hsize : host.numaNodeSize64 n = -1
    · rw [addNode, if_pos hsize, hsum, hinfos]
      simp [hsize]
    · rw [addNode, if_neg hsize, hinfos, ← hsum]
      constructor
      · simp only [getUsedMemSize, used, ne_eq, hsize, not_false_eq_true, if_true]
        ring
      · simp [hsize]

theorem whole_getNumaFreeSpaceInfo (host : MemHost) : Whole host (getNumaFreeSpaceInfo host) := by
  obtain ⟨hsum, hinfos⟩ := foldl_addNode host (host.numaMaxNode + 1).toNat
  refine ⟨hsum, fun nodeId => ?_⟩
  have hbound : 0 ≤ nodeId ∧ nodeId < ((host.numaMaxNode + 1).toNat : Int) ∧
        host.numaNodeSize64 nodeId.toNat ≠ -1 ↔
      0 ≤ nodeId ∧ nodeId ≤ host.numaMaxNode ∧ host.numaNodeSize64 nodeId.toNat ≠ -1 := by
    omega
  rw [getUsedMemSizeOf, getNumaFreeSpaceInfo, MemHost.nodes, hinfos, find?_nodes]
  simp only [hbound]
  split_ifs
  · rfl
  · rfl

/-- **The figures of a getter** are of one refresh, the last. Once the thread has run, they change
with its refreshes only. -/
theorem figures_whole (es : List (Event Nat MemHost)) :
    (∀ g, (after cache {} es).phase g = .reading →
      ∃ host, (after cache {} es).fetched.getLast? = some host ∧
        Whole host (after cache {} es).data) ∧
    ((after cache {} es).flag = true → (∀ g, (after cache {} es).phase g ≠ .refreshing) →
      ∀ fs, (∀ e ∈ fs, ¬ e.IsPass) →
        (after cache {} (es ++ fs)).data = (after cache {} es).data) :=
  reads_fetched (fun host => ⟨_, rfl, whole_getNumaFreeSpaceInfo host⟩) es

end HsUsedMemSize

/-! ## The sizes -/

structure TotalMem where
  nodeInfo : List (Int × Int) := []
  /-- Not initialized before `init` is set. -/
  totalMem : Int := 0

namespace TotalMemSize

/-- The body of the loop over the nodes. -/
def addNode (host : MemHost) (m : TotalMem) (i : Nat) : TotalMem :=
  if 0 ≤ host.numaNodeSize64 i then
    { nodeInfo := m.nodeInfo ++ [((i : Int), host.numaNodeSize64 i)]
      totalMem := m.totalMem + host.numaNodeSize64 i }
  else m

def getPhyNodeMem (host : MemHost) : TotalMem := host.nodes.foldl (addNode host) {}

def getTotalMemSize (m : TotalMem) : Int := m.totalMem

def getTotalMemSizeOf (m : TotalMem) (nodeId : Int) : Int :=
  match m.nodeInfo.find? fun elem => elem.1 = nodeId with
  | none => -1
  | some elem => elem.2

/-- The flag is `init`. A `pass` is `update`. -/
def cache : Cache MemHost TotalMem where
  fetch host := some (getPhyNodeMem host)
  raises := true

/-- The sizes are those of one state of the host. -/
structure Whole (host : MemHost) (m : TotalMem) : Prop where
  total : getTotalMemSize m = ∑ i ∈ (Finset.range (host.numaMaxNode + 1).toNat).filter fun i =>
    0 ≤ host.numaNodeSize64 i, host.numaNodeSize64 i
  node : ∀ nodeId : Int, getTotalMemSizeOf m nodeId =
    if 0 ≤ nodeId ∧ nodeId ≤ host.numaMaxNode ∧ 0 ≤ host.numaNodeSize64 nodeId.toNat then
      host.numaNodeSize64 nodeId.toNat
    else -1

theorem foldl_addNode (host : MemHost) (n : Nat) :
    ((List.range n).foldl (addNode host) {}).totalMem =
        (∑ i ∈ (Finset.range n).filter fun i => 0 ≤ host.numaNodeSize64 i,
          host.numaNodeSize64 i) ∧
      ((List.range n).foldl (addNode host) {}).nodeInfo =
        ((List.range n).filter fun i => 0 ≤ host.numaNodeSize64 i).map fun i : Nat =>
          ((i : Int), host.numaNodeSize64 i) := by
  induction n with
  | zero => exact ⟨rfl, rfl⟩
  | succ n ih =>
    obtain ⟨hsum, hinfo⟩ := ih
    rw [List.range_succ, List.foldl_append, List.foldl_cons, List.foldl_nil,
      sum_range_filter_succ, List.filter_append, List.map_append]
    by_cases hsize : 0 ≤ host.numaNodeSize64 n
    · rw [addNode, if_pos hsize, hsum, hinfo]
      simp [hsize]
    · rw [addNode, if_neg hsize, hsum, hinfo]
      simp [hsize]

theorem whole_getPhyNodeMem (host : MemHost) : Whole host (getPhyNodeMem host) := by
  obtain ⟨hsum, hinfo⟩ := foldl_addNode host (host.numaMaxNode + 1).toNat
  refine ⟨hsum, fun nodeId => ?_⟩
  have hbound : 0 ≤ nodeId ∧ nodeId < ((host.numaMaxNode + 1).toNat : Int) ∧
        0 ≤ host.numaNodeSize64 nodeId.toNat ↔
      0 ≤ nodeId ∧ nodeId ≤ host.numaMaxNode ∧ 0 ≤ host.numaNodeSize64 nodeId.toNat := by
    omega
  rw [getTotalMemSizeOf, getPhyNodeMem, MemHost.nodes, hinfo, find?_nodes]
  simp only [hbound]
  split_ifs
  · rfl
  · rfl

/-- **The sizes of a getter** are of one refresh, the last. After the first, they change with
`update` only, and with getters that have not seen it. -/
theorem sizes_whole (es : List (Event Nat MemHost)) :
    (∀ g, (after cache {} es).phase g = .reading →
      ∃ host, (after cache {} es).fetched.getLast? = some host ∧
        Whole host (after cache {} es).data) ∧
    ((after cache {} es).flag = true → (∀ g, (after cache {} es).phase g ≠ .refreshing) →
      ∀ fs, (∀ e ∈ fs, ¬ e.IsPass) →
        (after cache {} (es ++ fs)).data = (after cache {} es).data) :=
  reads_fetched (fun host => ⟨_, rfl, whole_getPhyNodeMem host⟩) es

end TotalMemSize

end LibVsf
