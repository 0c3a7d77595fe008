import LibVsf.Lib.Runs
import LibVsf.Lib.Writing
import LibVsf.NodeCpu

/-!
# Refreshes of `NodeCpu` that fail

`refresh` inserts into the maps while it reads, and does not clear them first. An attempt that
throws leaves what it has inserted, and the next one adds to it.

**Theorem (`refresh_exact_iff`).** In a run of attempts and `clear`s, every attempt gives what a new
instance would give, or fails and changes nothing, exactly if no attempt fails after it has read
something to insert.

What an attempt inserts does not depend on the state (`refresh_writes`). So the failing attempt is
read off the files: their `contents` are what they say, in the order in which they are read, up to
the first failure. A single number that cannot be converted is something to insert: the entry of its
node is made before.
-/

namespace LibVsf

open Std MapOfSets Writing

namespace NodeCpu

/-! ## Contents -/

/-- What is inserted at a time. -/
inductive Entry where
  | node (nodeId : NodeId)
  | cpu (nodeId : NodeId) (hpthreadId : HpthreadId)
  | hpthread (cur : Cursor)

/-- The key of `node_hpthread_` that is looked up. -/
def Entry.nodeId : Entry → Option NodeId
  | .node nodeId | .cpu nodeId _ => some nodeId
  | .hpthread _ => none

def insertEntry (s : NodeCpu) : Entry → NodeCpu
  | .node nodeId => s.lookUpNode nodeId
  | .cpu nodeId hpthreadId =>
    { s with nodeHpthread := insertAt s.nodeHpthread nodeId hpthreadId }
  | .hpthread cur => s.insertHpthread cur

/-- Entries of files, and the failure to read them. -/
abbrev Contents := Log Entry ReadFailure

/-- What is inserted for a part that cannot be converted. -/
def unconverted (nodeId : NodeId) (substri : List Char) : List Entry :=
  if '-' ∈ substri then [] else [.node nodeId]

/-- The contents of a `cpulist`, from the character at `cnt` on. -/
def cpulistContents (nodeId : NodeId) (cpulist : List Char) : List Char → Nat → Nat → Contents
  | [], _, _ => {}
  | c :: cs, begIdx, cnt =>
    if c = ',' ∨ cnt + 1 = cpulist.length then
      let cnt := if cnt + 1 = cpulist.length then cnt + 1 else cnt
      let substri := (cpulist.drop begIdx).take cnt
      match cpusOf substri with
      | .error failure =>
        { entries := unconverted nodeId substri, failure := some (.conversionFailed failure) }
      | .ok cpus => Log.andThen { entries := cpus.map (.cpu nodeId) }
          (cpulistContents nodeId cpulist cs (cnt + 1) (cnt + 1))
    else cpulistContents nodeId cpulist cs begIdx (cnt + 1)

/-- The contents of a node directory. -/
def nodeContents (files : HostFiles) (nodeDir : List Char) : Contents :=
  match files.cpulist nodeDir with
  | none => { failure := some (.fileOpenFailed
      ("To open file: " ++ nodeDirPath ++ String.ofList nodeDir ++ "/cpulist")) }
  | some text =>
    match Text.stoi (nodeDir.drop 4) with
    | .error failure => { failure := some (.conversionFailed failure) }
    | .ok nodeId =>
      let cpulist := (Text.words text).headD []
      cpulistContents ⟨nodeId⟩ cpulist cpulist 0 0

def nodesContents (files : HostFiles) : Contents :=
  match StrTools.getDirs nodeDirPath "node".toList files.nodeDir with
  | .error failure => { failure := some failure }
  | .ok nodeDirs => Log.all (nodeContents files) nodeDirs

/-- The contents of lines. -/
def linesContents : Cursor → List (List Char) → Contents
  | _, [] => {}
  | cur, line :: ls =>
    if StrTools.strip line ≠ [] then
      let words := StrTools.split line ':'
      match words.foldlM (fun cur _ => readField words cur) cur with
      | .error failure => { failure := some (.conversionFailed failure) }
      | .ok cur => linesContents cur ls
    else Log.andThen { entries := [.hpthread cur] } (linesContents cur ls)

def cpuinfoContents (files : HostFiles) : Contents :=
  match files.cpuinfo with
  | none => { failure := some (.fileOpenFailed ("To open file: " ++ cpuinfoPath)) }
  | some text => linesContents {} (Text.lines text)

end NodeCpu

/-- What the files say, in order, up to the first failure. -/
def HostFiles.contents (files : HostFiles) : NodeCpu.Contents :=
  (NodeCpu.nodesContents files).andThen (NodeCpu.cpuinfoContents files)

namespace NodeCpu

/-! ## What an attempt inserts -/

theorem insertCpus_eq (s : NodeCpu) (nodeId : NodeId) (cpus : List HpthreadId) :
    s.insertCpus nodeId cpus = (cpus.map (Entry.cpu nodeId)).foldl insertEntry s := by
  induction cpus generalizing s with
  | nil => rfl
  | cons cpu cpus ih => exact ih (s.insertEntry (.cpu nodeId cpu))

theorem readCpulist_writes (nodeId : NodeId) (cpulist cs : List Char) (begIdx cnt : Nat) :
    Writes insertEntry (readCpulist nodeId cpulist cs begIdx cnt)
      (cpulistContents nodeId cpulist cs begIdx cnt) := by
  intro s
  induction cs generalizing begIdx cnt s with
  | nil => rfl
  | cons c cs ih =>
    simp only [readCpulist, cpulistContents]
    by_cases hcut : c = ',' ∨ cnt + 1 = cpulist.length
    · rw [if_pos hcut, if_pos hcut]
      generalize (if cnt + 1 = cpulist.length then cnt + 1 else cnt) = len
      cases cpusOf ((cpulist.drop begIdx).take len) with
      | error failure =>
        simp only [unconverted]
        split_ifs <;> rfl
      | ok cpus =>
        simp only [Log.replay_andThen, ih, insertCpus_eq]
        rfl
    · rw [if_neg hcut, if_neg hcut]
      exact ih begIdx (cnt + 1) s

theorem mem_cpulistContents {nodeId : NodeId} {cpulist cs : List Char} {begIdx cnt : Nat}
    {entry : Entry} (h : entry ∈ (cpulistContents nodeId cpulist cs begIdx cnt).entries) :
    entry.nodeId = some nodeId := by
  induction cs generalizing begIdx cnt with
  | nil => cases h
  | cons c cs ih =>
    simp only [cpulistContents] at h
    by_cases hcut : c = ',' ∨ cnt + 1 = cpulist.length
    · rw [if_pos hcut] at h
      generalize (if cnt + 1 = cpulist.length then cnt + 1 else cnt) = len at h
      cases hcpus : cpusOf ((cpulist.drop begIdx).take len) with
      | error failure =>
        simp only [hcpus, unconverted] at h
        split_ifs at h
        · cases h
        · rw [List.mem_singleton.1 h]
          rfl
      | ok cpus =>
        rw [hcpus] at h
        rcases Log.mem_andThen h with h | h
        · obtain ⟨cpu, -, rfl⟩ := List.mem_map.1 h
          rfl
        · exact ih h
    · rw [if_neg hcut] at h
      exact ih h

theorem readNode_writes (files : HostFiles) (nodeDir : List Char) :
    Writes insertEntry (fun s => readNode files s nodeDir) (nodeContents files nodeDir) := by
  intro s
  simp only [readNode, nodeContents]
  cases files.cpulist nodeDir with
  | none => rfl
  | some text =>
    cases Text.stoi (nodeDir.drop 4) with
    | error failure => rfl
    | ok nodeId => exact readCpulist_writes _ _ _ 0 0 s

theorem refreshNodeHpthread_writes (files : HostFiles) :
    Writes insertEntry (fun s => s.refreshNodeHpthread files) (nodesContents files) := by
  intro s
  simp only [refreshNodeHpthread, nodesContents]
  cases StrTools.getDirs nodeDirPath "node".toList files.nodeDir with
  | error failure => rfl
  | ok nodeDirs => exact Writes.foldlM (fun nodeDir _ => readNode_writes files nodeDir) s

/-- The lines' part of a state, without the cursor. -/
theorem readLines_writes (ls : List (List Char)) (cur : Cursor) :
    Writes insertEntry (fun s => Prod.fst <$> ls.foldlM readLine (s, cur))
      (linesContents cur ls) := by
  intro s
  induction ls generalizing cur s with
  | nil => rfl
  | cons line ls ih =>
    simp only [List.foldlM_cons, linesContents, readLine]
    split_ifs with hstrip
    · cases (StrTools.split line ':').foldlM
          (fun cur _ => readField (StrTools.split line ':') cur) cur with
      | error failure => rfl
      | ok cur => exact ih cur s
    · rw [Log.replay_andThen]
      exact ih cur (s.insertHpthread cur)

theorem refreshSocketCoreHpthread_writes (files : HostFiles) :
    Writes insertEntry (fun s => s.refreshSocketCoreHpthread files) (cpuinfoContents files) := by
  intro s
  simp only [refreshSocketCoreHpthread, cpuinfoContents]
  cases files.cpuinfo with
  | none => rfl
  | some text => exact readLines_writes (Text.lines text) {} s

/-- The two passes that read files. -/
def readFiles (s : NodeCpu) (files : HostFiles) : Result NodeCpu :=
  s.refreshNodeHpthread files >>= fun s => s.refreshSocketCoreHpthread files

/-- **What an attempt inserts is in the files**, whatever the maps hold. -/
theorem readFiles_writes (files : HostFiles) :
    Writes insertEntry (fun s => s.readFiles files) files.contents :=
  (refreshNodeHpthread_writes files).bind (refreshSocketCoreHpthread_writes files)

theorem refresh_eq {s : NodeCpu} (h : s.hasData = false) (files : HostFiles) :
    s.refresh files =
      s.readFiles files >>= fun s => .ok { s.refreshOthers with hasData := true } := by
  simp only [refresh, h, Bool.false_eq_true, if_false, readFiles, bind_assoc]
  rfl

theorem hasData_of_refresh {s t : NodeCpu} {files : HostFiles} (h : s.refresh files = .ok t) :
    t.hasData = true := by
  cases hdata : s.hasData with
  | true =>
    simp only [refresh, hdata, if_true] at h
    cases h
    exact hdata
  | false =>
    rw [refresh_eq hdata, Runs.bind_eq_ok] at h
    obtain ⟨s', -, hs'⟩ := h
    cases hs'
    rfl

theorem refresh_eq_error_iff {s t : NodeCpu} (h : s.hasData = false) {files : HostFiles}
    {e : ReadFailure} : s.refresh files = .error (e, t) ↔ s.readFiles files = .error (e, t) := by
  rw [refresh_eq h]
  cases s.readFiles files with
  | error e =>
    refine Iff.of_eq (congrArg (· = _) ?_)
    rfl
  | ok s =>
    refine iff_of_false ?_ ?_ <;> intro heq <;> cases heq

theorem insertEntry_ne (s : NodeCpu) (entry : Entry) : s.insertEntry entry ≠ {} := by
  intro heq
  cases entry with
  | node nodeId =>
    have hmap := congrArg nodeHpthread heq
    exact ExtTreeMap.insertIfNew_ne_empty hmap
  | cpu nodeId hpthreadId =>
    have hmap := congrArg nodeHpthread heq
    exact ExtTreeMap.insert_ne_empty hmap
  | hpthread cur =>
    have hset := congrArg hpthread heq
    exact ExtTreeSet.insert_ne_empty hset

/-! ## What entries leave in `node_hpthread_` -/

/-- What an entry does to `node_hpthread_`. -/
def insertNode (nodes : MapOfSets NodeId HpthreadId) : Entry → MapOfSets NodeId HpthreadId
  | .node nodeId => lookUp nodes nodeId
  | .cpu nodeId hpthreadId => insertAt nodes nodeId hpthreadId
  | .hpthread _ => nodes

theorem nodeHpthread_foldl (entries : List Entry) (s : NodeCpu) :
    (entries.foldl insertEntry s).nodeHpthread = entries.foldl insertNode s.nodeHpthread := by
  induction entries generalizing s with
  | nil => rfl
  | cons entry entries ih =>
    rw [List.foldl_cons, ih]
    cases entry <;> rfl

theorem mem_foldl_insertNode {entries : List Entry} {nodes : MapOfSets NodeId HpthreadId}
    {nodeId : NodeId} : nodeId ∈ entries.foldl insertNode nodes ↔
      (∃ entry ∈ entries, entry.nodeId = some nodeId) ∨ nodeId ∈ nodes := by
  induction entries generalizing nodes with
  | nil => simp
  | cons entry entries ih =>
    have hinsert : nodeId ∈ insertNode nodes entry ↔
        entry.nodeId = some nodeId ∨ nodeId ∈ nodes := by
      cases entry with
      | node nodeId' => exact mem_lookUp.trans (by simp [Entry.nodeId, eq_comm])
      | cpu nodeId' hpthreadId => exact mem_insertAt.trans (by simp [Entry.nodeId, eq_comm])
      | hpthread cur => simp [Entry.nodeId, insertNode]
    rw [List.foldl_cons, ih, hinsert]
    simp only [List.mem_cons, exists_eq_or_imp]
    exact or_left_comm.trans or_assoc.symm

theorem mem_valuesOf_foldl {entries : List Entry} {nodes : MapOfSets NodeId HpthreadId}
    {nodeId : NodeId} {hpthreadId : HpthreadId} :
    hpthreadId ∈ valuesOf (entries.foldl insertNode nodes) nodeId ↔
      hpthreadId ∈ valuesOf nodes nodeId ∨ Entry.cpu nodeId hpthreadId ∈ entries := by
  induction entries generalizing nodes with
  | nil => simp
  | cons entry entries ih =>
    rw [List.foldl_cons, ih, List.mem_cons]
    cases entry with
    | node nodeId' => simp [insertNode]
    | cpu nodeId' hpthreadId' =>
      rw [insertNode, mem_valuesOf_insertAt, Entry.cpu.injEq]
      tauto
    | hpthread cur => simp [insertNode]

/-! ## Runs -/

/-- What can happen to an instance. -/
inductive Call where
  | refresh (files : HostFiles)
  | clear

/-- A `refresh` that throws leaves what it has inserted. -/
def call (s : NodeCpu) : Call → NodeCpu
  | .refresh files =>
    match s.refresh files with
    | .ok t => t
    | .error (_, t) => t
  | .clear => s.clear

/-- An attempt gives what a new instance would give, or fails and changes nothing. An attempt that
finds data reads no files. -/
structure Exact (s : NodeCpu) (files : HostFiles) : Prop where
  of_ok : s.hasData = false → ∀ t, s.refresh files = .ok t →
    ({} : NodeCpu).refresh files = .ok t
  of_error : ∀ e t, s.refresh files = .error (e, t) → t = s

/-- The files of an attempt that reads them can be read to the end, or fail before they have said
anything. -/
def Clean (s : NodeCpu) (files : HostFiles) : Prop :=
  s.hasData = false → files.contents.failure = none ∨ files.contents.entries = []

def ExactCall (s : NodeCpu) (c : Call) : Prop := ∀ files, c = .refresh files → Exact s files

def CleanCall (s : NodeCpu) (c : Call) : Prop := ∀ files, c = .refresh files → Clean s files

/-- Without data the maps are empty. -/
def Tidy (s : NodeCpu) : Prop := s.hasData = false → s = {}

theorem exact_iff {s : NodeCpu} (hs : Tidy s) (files : HostFiles) :
    Exact s files ↔ Clean s files := by
  cases hdata : s.hasData with
  | true =>
    refine iff_of_true ⟨?_, ?_⟩ ?_
    · intro hfalse
      rw [hdata] at hfalse
      cases hfalse
    · intro e t h
      simp only [refresh, hdata, if_true] at h
      cases h
    · intro hfalse
      rw [hdata] at hfalse
      cases hfalse
  | false =>
    obtain rfl := hs hdata
    have hunchanged := (readFiles_writes files).unchanged_iff insertEntry_ne
    refine ⟨?_, ?_⟩
    · intro h _
      refine hunchanged.1 fun e t ht => ?_
      exact h.of_error e t ((refresh_eq_error_iff hdata).2 ht)
    · intro h
      refine ⟨fun _ t ht => ht, fun e t ht => ?_⟩
      exact hunchanged.2 (h hdata) e t ((refresh_eq_error_iff hdata).1 ht)

theorem tidy_call {s : NodeCpu} {c : Call} (hs : Tidy s) (h : ExactCall s c) :
    Tidy (s.call c) := by
  cases c with
  | clear =>
    intro _
    rfl
  | refresh files =>
    simp only [call]
    cases hrefresh : s.refresh files with
    | ok t =>
      intro hfalse
      rw [hasData_of_refresh hrefresh] at hfalse
      cases hfalse
    | error et =>
      obtain ⟨e, t⟩ := et
      have ht : t = s := (h files rfl).of_error e t hrefresh
      rw [ht]
      exact hs

/-- **Every attempt of a run is exact** exactly if no attempt fails after something to insert. -/
theorem refresh_exact_iff (cs : List Call) :
    Runs.Along call ExactCall {} cs ↔ Runs.Along call CleanCall {} cs := by
  refine Runs.along_iff_along call (I := Tidy) (fun s c => tidy_call) (fun s c hs => ?_) ?_ cs
  · exact forall_congr' fun files => forall_congr' fun _ => exact_iff hs files
  · intro _
    rfl

/-- The second node's directory vanishes between the scan and the reading. -/
def vanishing : HostFiles where
  nodeDir := some ["node0".toList, "node1".toList]
  cpulist dir := if dir = "node0".toList then some "0\n".toList else none
  cpuinfo := some []

/-- Then the only node has another hardware thread. -/
def replugged : HostFiles where
  nodeDir := some ["node0".toList]
  cpulist _ := some "1\n".toList
  cpuinfo := some []

/-- The attempt that fails leaves the hardware thread of the first node, and the one that succeeds
after it keeps the thread. -/
theorem not_refresh_exact :
    ¬ Runs.Along call ExactCall {} [.refresh vanishing, .refresh replugged] ∧
      ¬ Exact (call {} (.refresh vanishing)) replugged := by
  have hstale : ¬ Exact (call {} (.refresh vanishing)) replugged := by
    intro h
    have hafter : ((call {} (.refresh vanishing)).refresh replugged).toOption.any
        (fun t => (valuesOf t.nodeHpthread ⟨0⟩).contains ⟨0⟩) = true := by decide +kernel
    have hnew : (({} : NodeCpu).refresh replugged).toOption.any
        (fun t => (valuesOf t.nodeHpthread ⟨0⟩).contains ⟨0⟩) = false := by decide +kernel
    obtain ⟨t, ht, hthread⟩ := Runs.exists_ok_of_any hafter
    rw [h.of_ok rfl t ht] at hnew
    exact absurd (hthread.symm.trans hnew) (by decide)
  refine ⟨?_, hstale⟩
  intro h
  exact hstale (h.2.1 replugged rfl)

end NodeCpu

end LibVsf
