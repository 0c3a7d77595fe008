import LibVsf.NodeCpuProof
import LibVsf.NodeCpuRefresh
import LibVsf.NodeSysDist
import Mathlib.Data.Finset.Interval
import Mathlib.Order.Interval.Finset.Nat
import Mathlib.Data.Int.Interval

/-!
# The nodes that are measured

`NodeTestDist` takes the number of nodes from `NodeCpu` and measures the nodes `0`, `1`, … of this
number. `NodeCpu` takes the ids of the nodes from the names of their directories.

* `mem_getNodeIds_iff`: the ids of `NodeCpu` are those of the directories.
* `measure_eq`, `measured_eq`: what a measurement leaves, and whose commands it runs.
* `measuresNodes_iff`: each entry by node ids is the figure of these nodes, and each pair of nodes
  is measured once, exactly when the ids of the directories are `0`, `1`, … without a gap.
-/

namespace LibVsf

open Std MapOfSets Writing

/-! ## The ids of the nodes -/

/-- The directory of the node is there. -/
def HostFiles.Listed (files : HostFiles) (name : List Char) : Prop :=
  ∃ names, files.nodeDir = some names ∧ name ∈ names ∧
    StrTools.prefixAndDigits "node".toList name = true

/-- The node with the id has a directory. -/
def HostFiles.HasNode (files : HostFiles) (id : Int) : Prop :=
  ∃ name, files.Listed name ∧ Text.stoi (name.drop 4) = .ok id

/-- A host whose files can be read, with the data that a refresh leaves. -/
structure NumaHost where
  files : HostFiles
  nodeCpu : NodeCpu
  refreshed : ({} : NodeCpu).refresh files = .ok nodeCpu
  /-- The `cpulist` of each node names a hardware thread. -/
  cpulist_ne : ∀ name, files.Listed name → (NodeCpu.nodeContents files name).entries ≠ []

namespace NodeCpu

/-- What is inserted for a directory is inserted for its id. -/
theorem mem_nodeContents {files : HostFiles} {name : List Char} {entry : Entry}
    (h : entry ∈ (nodeContents files name).entries) :
    ∃ id, Text.stoi (name.drop 4) = .ok id ∧ entry.nodeId = some ⟨id⟩ := by
  simp only [nodeContents] at h
  cases hlist : files.cpulist name with
  | none => simp [hlist] at h
  | some text =>
    cases hid : Text.stoi (name.drop 4) with
    | error failure => simp [hlist, hid] at h
    | ok id =>
      simp only [hlist, hid] at h
      exact ⟨id, rfl, mem_cpulistContents h⟩

theorem mem_linesContents {cur : Cursor} {ls : List (List Char)} {entry : Entry}
    (h : entry ∈ (linesContents cur ls).entries) : ∃ cur, entry = .hpthread cur := by
  induction ls generalizing cur with
  | nil => cases h
  | cons line ls ih =>
    simp only [linesContents] at h
    split_ifs at h
    · cases hwords : (StrTools.split line ':').foldlM
          (fun cur _ => readField (StrTools.split line ':') cur) cur with
      | error failure => simp [hwords] at h
      | ok cur => exact ih (by simpa [hwords] using h)
    · rcases Log.mem_andThen h with h | h
      · exact ⟨cur, List.mem_singleton.1 h⟩
      · exact ih h

theorem nodeId_of_mem_cpuinfoContents {files : HostFiles} {entry : Entry}
    (h : entry ∈ (cpuinfoContents files).entries) : entry.nodeId = none := by
  simp only [cpuinfoContents] at h
  cases hcpuinfo : files.cpuinfo with
  | none => simp [hcpuinfo] at h
  | some text =>
    rw [hcpuinfo] at h
    obtain ⟨cur, rfl⟩ := mem_linesContents h
    rfl

/-- The directories' entries, in a refresh that does not fail. -/
theorem mem_nodesContents {files : HostFiles} (hok : (nodesContents files).failure = none)
    {entry : Entry} : entry ∈ (nodesContents files).entries ↔
      ∃ name, files.Listed name ∧ entry ∈ (nodeContents files name).entries := by
  cases hdir : files.nodeDir with
  | none =>
    have hdirs : StrTools.getDirs nodeDirPath "node".toList none =
        .error (.scandirFailed ("To scan directory: " ++ nodeDirPath)) := if_pos (.inr (.inl rfl))
    simp only [nodesContents, hdir, hdirs] at hok
    cases hok
  | some names =>
    have hdirs : StrTools.getDirs nodeDirPath "node".toList (some names) =
        .ok (names.filter (StrTools.prefixAndDigits "node".toList)) := if_pos (.inr (.inl rfl))
    simp only [nodesContents, hdir, hdirs] at hok ⊢
    rw [Log.entries_all hok]
    simp [HostFiles.Listed, hdir, and_assoc]

end NodeCpu

namespace NumaHost

variable (h : NumaHost)

/-- **The ids of the nodes are those of the directories.** -/
theorem mem_getNodeIds_iff {id : Int} : ⟨id⟩ ∈ h.nodeCpu.getNodeIds ↔ h.files.HasNode id := by
  have hrefresh := h.refreshed
  rw [NodeCpu.refresh_eq rfl, Runs.bind_eq_ok] at hrefresh
  obtain ⟨s, hread, hs⟩ := hrefresh
  have hmap : h.nodeCpu.nodeHpthread = s.nodeHpthread := by
    rw [← Except.ok.inj hs]
    rfl
  obtain ⟨hok, rfl⟩ :=
    (Log.replay_eq_ok _).1 ((NodeCpu.readFiles_writes h.files {}).symm.trans hread)
  obtain ⟨hnodes, -⟩ := Log.failure_andThen.1 hok
  rw [NodeCpu.getNodeIds, NodeCpu.mem_getKeys, hmap, NodeCpu.nodeHpthread_foldl,
    NodeCpu.mem_foldl_insertNode, HostFiles.contents, Log.entries_andThen hnodes]
  simp only [List.mem_append, NodeCpu.mem_nodesContents hnodes]
  constructor
  · rintro (⟨entry, hentry | hentry, hnodeId⟩ | hempty)
    · obtain ⟨name, hname, hentry⟩ := hentry
      obtain ⟨id', hid, hnodeId'⟩ := NodeCpu.mem_nodeContents hentry
      obtain rfl : id' = id := by simpa [hnodeId] using hnodeId'.symm
      exact ⟨name, hname, hid⟩
    · rw [NodeCpu.nodeId_of_mem_cpuinfoContents hentry] at hnodeId
      cases hnodeId
    · exact absurd hempty ExtTreeMap.not_mem_empty
  · intro h
    obtain ⟨name, hname, hid⟩ := h
    obtain ⟨entry, hentry⟩ := List.exists_mem_of_ne_nil _ (h.cpulist_ne name hname)
    obtain ⟨id', hid', hnodeId⟩ := NodeCpu.mem_nodeContents hentry
    obtain rfl : id = id' := Except.ok.inj (hid.symm.trans hid')
    exact .inl ⟨entry, .inl ⟨name, hname, hentry⟩, hnodeId⟩

/-- The ids that have a directory. -/
def nodes : Finset Int := (h.nodeCpu.getNodeIds.toList.map NodeId.id).toFinset

theorem mem_nodes {id : Int} : id ∈ h.nodes ↔ h.files.HasNode id := by
  rw [← h.mem_getNodeIds_iff, nodes, List.mem_toFinset, List.mem_map]
  constructor
  · intro h
    obtain ⟨nodeId, hmem, rfl⟩ := h
    exact ExtTreeSet.mem_toList.1 hmem
  · intro hmem
    exact ⟨⟨id⟩, ExtTreeSet.mem_toList.2 hmem, rfl⟩

theorem card_nodes : h.nodes.card = h.nodeCpu.getNodeNum := by
  have hnodup : (h.nodeCpu.getNodeIds.toList.map NodeId.id).Nodup := by
    refine List.pairwise_map.2 (ExtTreeSet.distinct_toList.imp fun {a b} hne heq => hne ?_)
    exact (congrArg (compare a.id) heq.symm).trans ReflCmp.compare_self
  rw [nodes, List.toFinset_card_of_nodup hnodup, List.length_map, ExtTreeSet.length_toList,
    NodeCpu.getNodeNum, NodeCpu.getKeyNum_eq, NodeCpu.getNodeIds]

/-- The names of directories end in digits. -/
theorem nonneg_of_hasNode {id : Int} (hid : h.files.HasNode id) : 0 ≤ id := by
  obtain ⟨name, ⟨names, -, -, hname⟩, hid⟩ := hid
  simp only [StrTools.prefixAndDigits, Bool.and_eq_true] at hname
  exact Text.stoi_nonneg (List.all_eq_true.1 hname.2) hid

/-- The directories are those of the nodes `0`, `1`, … without a gap. -/
def Contiguous (files : HostFiles) : Prop :=
  ∃ n : Nat, ∀ id : Int, files.HasNode id ↔ 0 ≤ id ∧ id < n

/-- **There is no gap exactly when each id is below the number of nodes.** -/
theorem contiguous_iff :
    Contiguous h.files ↔ ∀ id : Int, h.files.HasNode id → id < h.nodeCpu.getNodeNum := by
  constructor
  · rintro ⟨n, hn⟩ id hid
    have hnodes : h.nodes = Finset.Ico 0 (n : Int) := by
      ext id
      rw [h.mem_nodes, hn, Finset.mem_Ico]
    have hcard := h.card_nodes
    rw [hnodes, Int.card_Ico, Int.sub_zero, Int.toNat_natCast] at hcard
    rw [← hcard]
    exact ((hn id).1 hid).2
  · intro hlt
    refine ⟨h.nodeCpu.getNodeNum, fun id => ?_⟩
    have hsub : h.nodes ⊆ Finset.Ico 0 (h.nodeCpu.getNodeNum : Int) := by
      intro id hid
      have hid := h.mem_nodes.1 hid
      exact Finset.mem_Ico.2 ⟨h.nonneg_of_hasNode hid, hlt id hid⟩
    have hcard : (Finset.Ico 0 (h.nodeCpu.getNodeNum : Int)).card ≤ h.nodes.card := by
      rw [Int.card_Ico, h.card_nodes]
      simp
    rw [← h.mem_nodes, Finset.eq_of_subset_of_card_le hsub hcard, Finset.mem_Ico]

end NumaHost

/-! ## What is measured -/

/-- The pairs whose commands a row runs, in order: it is cut short when one does not run. -/
def Bench.rowMeasured (b : Bench) (p : MicroParam) (cpu : Nat) : List Nat → List (Nat × Nat)
  | [] => []
  | mem :: mems =>
    (cpu, mem) :: if (b.popen (p.command cpu mem)).isSome then b.rowMeasured p cpu mems else []

def Bench.rowsMeasured (b : Bench) (p : MicroParam) (nodeSize : Nat) :
    List Nat → List (Nat × Nat)
  | [] => []
  | cpu :: cpus =>
    b.rowMeasured p cpu (List.range nodeSize) ++
      if (b.row p cpu (List.range nodeSize) (b.baseTime cpu) []).isSome then
        b.rowsMeasured p nodeSize cpus
      else []

/-- The pairs whose commands a measurement runs. -/
def Bench.measured (b : Bench) (p : MicroParam) : List (Nat × Nat) :=
  match b.nodeNum with
  | none => []
  | some nodeSize => b.rowsMeasured p nodeSize (List.range nodeSize)

/-- A bench on which every command runs. -/
def Bench.timed (nodeNum : Nat) (time : String → ℚ) (baseTime : Nat → ℚ) : Bench where
  nodeNum := some nodeNum
  popen := fun command => some (time command)
  baseTime := baseTime

section Timed

variable (n : Nat) (p : MicroParam) (time : String → ℚ) (baseTime : Nat → ℚ)

/-- What the time of the memory node `mem` is related to: until the loop is at the diagonal, what
`base_time` holds. -/
def baseOf (cpu mem : Nat) : ℚ :=
  if mem < cpu then baseTime cpu else time (p.command cpu cpu)

/-- The figure for the cpu node `cpu` and the memory node `mem`. -/
def figure (cpu mem : Nat) : Int :=
  truncate (time (p.command cpu mem) / baseOf p time baseTime cpu mem * 10)

/-- The figures from `mem` on, where `base_time` holds what the entry before has left. -/
theorem row_timed (cpu mem m : Nat) (row : List Int) :
    (Bench.timed n time baseTime).row p cpu (List.range' mem m)
        (if mem ≤ cpu then baseTime cpu else time (p.command cpu cpu)) row =
      some (row ++ (List.range' mem m).map (figure p time baseTime cpu)) := by
  induction m generalizing mem row with
  | zero => simp [Bench.row]
  | succ m ih =>
    have hbase : (if mem = cpu then time (p.command cpu mem) else
        if mem ≤ cpu then baseTime cpu else time (p.command cpu cpu)) =
          baseOf p time baseTime cpu mem := by
      rcases Nat.lt_trichotomy mem cpu with hlt | rfl | hgt
      · simp [baseOf, hlt, hlt.ne, hlt.le]
      · simp [baseOf]
      · simp [baseOf, hgt.ne', hgt.not_ge, hgt.not_gt]
    rw [List.range'_succ, Bench.row]
    simp only [Bench.timed, hbase]
    have hnext := ih (mem + 1) (row ++ [figure p time baseTime cpu mem])
    simp only [Nat.succ_le_iff] at hnext
    refine hnext.trans (congrArg some ?_)
    rw [List.map_cons, List.append_assoc]
    rfl

theorem rows_timed (cpus : List Nat) (dist : Matrix) :
    (Bench.timed n time baseTime).rows p n cpus dist =
      dist ++ cpus.map fun cpu => (List.range n).map (figure p time baseTime cpu) := by
  induction cpus generalizing dist with
  | nil => simp [Bench.rows]
  | cons cpu cpus ih =>
    have hrow := row_timed n p time baseTime cpu 0 n []
    rw [if_pos (Nat.zero_le cpu), ← List.range_eq_range', List.nil_append] at hrow
    rw [Bench.rows]
    simp only [Bench.timed] at hrow ih ⊢
    rw [hrow]
    simp [ih]

/-- **What is left of a measurement**: the figure for each pair of positions. -/
theorem measure_timed : (Bench.timed n time baseTime).measure p =
    (List.range n).map fun cpu => (List.range n).map (figure p time baseTime cpu) :=
  rows_timed n p time baseTime (List.range n) []

theorem rowMeasured_timed (cpu : Nat) (mems : List Nat) :
    (Bench.timed n time baseTime).rowMeasured p cpu mems = mems.map (Prod.mk cpu) := by
  induction mems with
  | nil => rfl
  | cons mem mems ih => simp [Bench.rowMeasured, Bench.timed, ← ih]

theorem rowsMeasured_timed (cpus : List Nat) :
    (Bench.timed n time baseTime).rowsMeasured p n cpus = cpus ×ˢ List.range n := by
  induction cpus with
  | nil => rfl
  | cons cpu cpus ih =>
    have hrow := row_timed n p time baseTime cpu 0 n []
    rw [if_pos (Nat.zero_le cpu), ← List.range_eq_range'] at hrow
    rw [Bench.rowsMeasured, ih, rowMeasured_timed, List.product_cons]
    rw [show (Bench.timed n time baseTime).baseTime cpu = baseTime cpu from rfl, hrow]
    rfl

/-- **Each pair of positions is measured once, and no other.** -/
theorem count_measured_timed (cpu mem : Nat) :
    ((Bench.timed n time baseTime).measured p).count (cpu, mem) =
      if cpu < n ∧ mem < n then 1 else 0 := by
  have hmeasured : (Bench.timed n time baseTime).measured p = List.range n ×ˢ List.range n :=
    rowsMeasured_timed n p time baseTime (List.range n)
  have hnodup : (List.range n ×ˢ List.range n).Nodup :=
    List.Nodup.product List.nodup_range List.nodup_range
  rw [hmeasured]
  split_ifs with hlt
  · exact List.count_eq_one_of_mem hnodup (by simp [hlt])
  · exact List.count_eq_zero_of_not_mem (by simpa using hlt)

end Timed

/-! ## By ids of nodes -/

/-- The overload of `get_node_test_dist` that returns one entry. -/
def NodeTestDist.getNodeTestDistOf (s : NodeTestDist) (b : Bench) (nodeId₀ nodeId₁ : Int) :
    Option Int := do
  let dist ← (s.getNodeTestDist b).2
  dist.entry nodeId₀ nodeId₁

namespace NumaHost

variable (h : NumaHost) (p : MicroParam) (time : String → ℚ) (baseTime : Nat → ℚ)

/-- The bench of a measurement on the host. -/
def bench : Bench := Bench.timed h.nodeCpu.getNodeNum time baseTime

/-- For each two nodes, a lookup by their ids that measures gives their figure, and runs the command
for them once. -/
def MeasuresNodes : Prop :=
  ∀ a b : Int, ⟨a⟩ ∈ h.nodeCpu.getNodeIds → ⟨b⟩ ∈ h.nodeCpu.getNodeIds →
    (∀ s : NodeTestDist, ¬ s.Cached → s.param = p →
      s.getNodeTestDistOf (h.bench time baseTime) a b =
        some (figure p time baseTime a.toNat b.toNat)) ∧
    ((h.bench time baseTime).measured p).count (a.toNat, b.toNat) = 1

/-- A node that is measured is below the number of nodes. -/
theorem MeasuresNodes.lt {time : String → ℚ} {baseTime : Nat → ℚ}
    (hmeasures : h.MeasuresNodes p time baseTime) {id : Int} (hid : h.files.HasNode id) :
    id < h.nodeCpu.getNodeNum := by
  have hmem := h.mem_getNodeIds_iff.2 hid
  have hcount := (hmeasures id id hmem hmem).2
  rw [bench, count_measured_timed] at hcount
  split_ifs at hcount with hlt
  have hnonneg := h.nonneg_of_hasNode hid
  omega

theorem entry_measure {n a b : Nat} (ha : a < n) (hb : b < n) :
    ((Bench.timed n time baseTime).measure p).entry a b = some (figure p time baseTime a b) := by
  simp [measure_timed, Matrix.entry, ha, hb]

/-- **Node ids as positions.** Lookups by the ids of nodes give their figures, each pair measured
once, exactly when the nodes are `0`, `1`, … without a gap. -/
theorem measuresNodes_iff : h.MeasuresNodes p time baseTime ↔ Contiguous h.files := by
  rw [contiguous_iff]
  constructor
  · intro hmeasures id hid
    exact hmeasures.lt h p hid
  · intro hlt a b ha hb
    have hbound {id : Int} (hid : ⟨id⟩ ∈ h.nodeCpu.getNodeIds) :
        (id.toNat : Int) = id ∧ id.toNat < h.nodeCpu.getNodeNum := by
      have hnode := h.mem_getNodeIds_iff.1 hid
      have hnonneg := h.nonneg_of_hasNode hnode
      have hlt := hlt id hnode
      omega
    obtain ⟨haid, ha⟩ := hbound ha
    obtain ⟨hbid, hb⟩ := hbound hb
    refine ⟨?_, ?_⟩
    · rintro s hs rfl
      have hget : s.getNodeTestDistOf (h.bench time baseTime) a b =
          ((h.bench time baseTime).measure s.param).entry a b := by
        simp [NodeTestDist.getNodeTestDistOf, NodeTestDist.getNodeTestDist, hs, bench, Bench.timed]
      rw [hget, ← entry_measure s.param time baseTime ha hb, haid, hbid]
      rfl
    · rw [bench, count_measured_timed, if_pos ⟨ha, hb⟩]

/-- A host with the nodes `0` and `2`. -/
def gapFiles : HostFiles where
  nodeDir := some ["node0".toList, "node2".toList]
  cpulist := fun name => some (if name = "node0".toList then "0\n".toList else "1\n".toList)
  cpuinfo := some []

/-- On a host with the nodes `0` and `2` the second is not measured. -/
theorem not_measuresNodes_gap :
    ∃ h : NumaHost, h.files = gapFiles ∧ ¬ h.MeasuresNodes {} (fun _ => 1) fun _ => 1 := by
  have hrefresh : (({} : NodeCpu).refresh gapFiles).toOption.any
      (fun t => t.getNodeNum = 2) = true := by decide +kernel
  obtain ⟨nodeCpu, hok, hnum⟩ := Runs.exists_ok_of_any hrefresh
  have hlisted {name : List Char} (hname : gapFiles.Listed name) :
      name = "node0".toList ∨ name = "node2".toList := by
    obtain ⟨names, hnames, hmem, -⟩ := hname
    obtain rfl := Option.some.inj hnames
    simpa using hmem
  let h : NumaHost := {
    files := gapFiles
    nodeCpu := nodeCpu
    refreshed := hok
    cpulist_ne := by
      intro name hname
      rcases hlisted hname with rfl | rfl <;> decide +kernel }
  refine ⟨h, rfl, fun hmeasures => ?_⟩
  have hnode : h.files.HasNode 2 :=
    ⟨"node2".toList, ⟨_, rfl, by decide, by decide⟩, by decide⟩
  have hlt := hmeasures.lt h {} hnode
  have hnum : h.nodeCpu.getNodeNum = 2 := by simpa using hnum
  omega

end NumaHost

end LibVsf
