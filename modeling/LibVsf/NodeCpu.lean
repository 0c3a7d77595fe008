import LibVsf.Lib.MapOfSets
import LibVsf.StrTools

/-!
# `NodeCpu`: the topology of the host

`host/static/node_cpu.cpp`. The nodes' hardware threads are read from the `cpulist` files of the
node directories, those of the sockets and cores from `/proc/cpuinfo`; what belongs to what is
decided by inclusion. A refresh reads once: it returns at once when there are data.

The queries are those of the data a refresh has left. A refresh that throws leaves what it had
inserted.
-/

namespace LibVsf

open Std MapOfSets

/-! ## Ids -/

/-- `struct NodeId`; the default constructor's value is `{}`, as for the other ids. -/
structure NodeId where
  id : Int := -1
deriving DecidableEq, Repr

structure SocketId where
  id : Int := -1
deriving DecidableEq, Repr

structure CoreId where
  socketId : Int := -1
  coreId : Int := -1
deriving DecidableEq, Repr

structure HpthreadId where
  id : Int := -1
deriving DecidableEq, Repr

instance : Ord NodeId := ⟨compareOn NodeId.id⟩

instance : TransOrd NodeId := inferInstanceAs (TransCmp (compareOn NodeId.id))

instance : LawfulEqOrd NodeId where
  compare_self := ReflCmp.compare_self
  eq_of_compare {a b} h := by
    have hcompare : compare a.id b.id = .eq := h
    have hid := LawfulEqCmp.eq_of_compare hcompare
    cases a
    cases b
    exact congrArg NodeId.mk hid

instance : Ord SocketId := ⟨compareOn SocketId.id⟩

instance : TransOrd SocketId := inferInstanceAs (TransCmp (compareOn SocketId.id))

instance : LawfulEqOrd SocketId where
  compare_self := ReflCmp.compare_self
  eq_of_compare {a b} h := by
    have hcompare : compare a.id b.id = .eq := h
    have hid := LawfulEqCmp.eq_of_compare hcompare
    cases a
    cases b
    exact congrArg SocketId.mk hid

instance : Ord CoreId := ⟨compareLex (compareOn CoreId.socketId) (compareOn CoreId.coreId)⟩

instance : TransOrd CoreId :=
  inferInstanceAs (TransCmp (compareLex (compareOn CoreId.socketId) (compareOn CoreId.coreId)))

instance : LawfulEqOrd CoreId where
  compare_self := ReflCmp.compare_self
  eq_of_compare {a b} h := by
    obtain ⟨h₁, h₂⟩ := Ordering.then_eq_eq.1 (h : (compare _ _).then (compare _ _) = .eq)
    cases a
    cases b
    exact congrArg₂ CoreId.mk (LawfulEqCmp.eq_of_compare h₁) (LawfulEqCmp.eq_of_compare h₂)

instance : Ord HpthreadId := ⟨compareOn HpthreadId.id⟩

instance : TransOrd HpthreadId := inferInstanceAs (TransCmp (compareOn HpthreadId.id))

instance : LawfulEqOrd HpthreadId where
  compare_self := ReflCmp.compare_self
  eq_of_compare {a b} h := by
    have hcompare : compare a.id b.id = .eq := h
    have hid := LawfulEqCmp.eq_of_compare hcompare
    cases a
    cases b
    exact congrArg HpthreadId.mk hid

/-! ## Data -/

structure NodeCpu where
  nodeSocket : MapOfSets NodeId SocketId := ∅
  nodeCore : MapOfSets NodeId CoreId := ∅
  nodeHpthread : MapOfSets NodeId HpthreadId := ∅
  socketCore : MapOfSets SocketId CoreId := ∅
  socketHpthread : MapOfSets SocketId HpthreadId := ∅
  coreHpthread : MapOfSets CoreId HpthreadId := ∅
  hpthread : ExtTreeSet HpthreadId := ∅
  hasData : Bool := false

/-- What a refresh finds on the host. -/
structure HostFiles where
  /-- The entries of `/sys/devices/system/node/`, if it can be scanned. -/
  nodeDir : Option (List (List Char))
  /-- The `cpulist` of a node directory, if it can be opened. -/
  cpulist : List Char → Option (List Char)
  cpuinfo : Option (List Char)

namespace NodeCpu

/-- A step that throws leaves what it had inserted. -/
abbrev Result := Except (ReadFailure × NodeCpu)

/-! ## `refresh_node_hpthread` -/

/-- The hardware threads of a part of a `cpulist`: a range or a single one. -/
def cpusOf (substri : List Char) : Except Text.ConversionFailure (List HpthreadId) :=
  if '-' ∈ substri then do
    let cnt2 := substri.idxOf '-'
    let cpuBeg ← Text.stoi (substri.take cnt2)
    let cpuEnd ← Text.stoi ((substri.drop (cnt2 + 1)).take substri.length)
    return (List.range (cpuEnd + 1 - cpuBeg).toNat).map fun j => ⟨cpuBeg + j⟩
  else do
    let cpu ← Text.stoi substri
    return [⟨cpu⟩]

def insertCpus (s : NodeCpu) (nodeId : NodeId) (cpus : List HpthreadId) : NodeCpu :=
  { s with nodeHpthread := insertAll s.nodeHpthread (cpus.map fun cpu => (nodeId, cpu)) }

/-- `node_hpthread_[node_id]` makes the node's entry. -/
def lookUpNode (s : NodeCpu) (nodeId : NodeId) : NodeCpu :=
  { s with nodeHpthread := lookUp s.nodeHpthread nodeId }

/-- The loop over the characters of a `cpulist`, from the character at `cnt` on. A part is cut out
by `substr(beg_idx, cnt)`. The ends of a range are converted before `node_hpthread_[node_id]` is
looked up, and a single number after it. -/
def readCpulist (nodeId : NodeId) (cpulist : List Char) :
    List Char → Nat → Nat → NodeCpu → Result NodeCpu
  | [], _, _, s => .ok s
  | c :: cs, begIdx, cnt, s =>
    if c = ',' ∨ cnt + 1 = cpulist.length then
      let cnt := if cnt + 1 = cpulist.length then cnt + 1 else cnt
      let substri := (cpulist.drop begIdx).take cnt
      match cpusOf substri with
      | .error failure =>
        .error (.conversionFailed failure, if '-' ∈ substri then s else s.lookUpNode nodeId)
      | .ok cpus =>
        readCpulist nodeId cpulist cs (cnt + 1) (cnt + 1) (s.insertCpus nodeId cpus)
    else readCpulist nodeId cpulist cs begIdx (cnt + 1) s

def nodeDirPath : String := "/sys/devices/system/node/"

/-- The body of the loop over the node directories. -/
def readNode (files : HostFiles) (s : NodeCpu) (nodeDir : List Char) : Result NodeCpu :=
  match files.cpulist nodeDir with
  | none => .error (.fileOpenFailed
      ("To open file: " ++ nodeDirPath ++ String.ofList nodeDir ++ "/cpulist"), s)
  | some text =>
    let cpulist := (Text.words text).headD []
    match Text.stoi (nodeDir.drop 4) with
    | .error failure => .error (.conversionFailed failure, s)
    | .ok nodeId => readCpulist ⟨nodeId⟩ cpulist cpulist 0 0 s

def refreshNodeHpthread (s : NodeCpu) (files : HostFiles) : Result NodeCpu :=
  match StrTools.getDirs nodeDirPath "node".toList files.nodeDir with
  | .error failure => .error (failure, s)
  | .ok nodeDirs => nodeDirs.foldlM (readNode files) s

/-! ## `refresh_socket_core_hpthread` -/

/-- The variables of the loop over the lines. -/
structure Cursor where
  hpthreadId : HpthreadId := {}
  socketId : SocketId := {}
  coreId : CoreId := {}

def processorKey : List Char := "processor".toList

def physicalIdKey : List Char := "physical id".toList

def coreIdKey : List Char := "core id".toList

/-- The body of the loop over the words of a line, which looks at the first two. A line without a
second is undefined; here its conversion throws. -/
def readField (words : List (List Char)) (cur : Cursor) : Except Text.ConversionFailure Cursor :=
  if StrTools.strip (words.headD []) = processorKey then do
    let n ← Text.stoi (words.getD 1 [])
    return { cur with hpthreadId := ⟨n⟩ }
  else if StrTools.strip (words.headD []) = physicalIdKey then do
    let n ← Text.stoi (words.getD 1 [])
    return { cur with socketId := ⟨n⟩ }
  else if StrTools.strip (words.headD []) = coreIdKey then do
    let n ← Text.stoi (words.getD 1 [])
    return { cur with coreId := ⟨cur.socketId.id, n⟩ }
  else return cur

def insertHpthread (s : NodeCpu) (cur : Cursor) : NodeCpu :=
  { s with
    socketHpthread := insertAt s.socketHpthread cur.socketId cur.hpthreadId
    coreHpthread := insertAt s.coreHpthread cur.coreId cur.hpthreadId
    hpthread := s.hpthread.insert cur.hpthreadId }

/-- The body of the loop over the lines: a blank line ends a hardware thread. -/
def readLine (sc : NodeCpu × Cursor) (line : List Char) : Result (NodeCpu × Cursor) :=
  if StrTools.strip line ≠ [] then
    let words := StrTools.split line ':'
    match words.foldlM (fun cur _ => readField words cur) sc.2 with
    | .error failure => .error (.conversionFailed failure, sc.1)
    | .ok cur => .ok (sc.1, cur)
  else .ok (sc.1.insertHpthread sc.2, sc.2)

def cpuinfoPath : String := "/proc/cpuinfo"

def refreshSocketCoreHpthread (s : NodeCpu) (files : HostFiles) : Result NodeCpu :=
  match files.cpuinfo with
  | none => .error (.fileOpenFailed ("To open file: " ++ cpuinfoPath), s)
  | some text => do
    let (s, _) ← (Text.lines text).foldlM readLine (s, {})
    return s

/-! ## `refresh` and `clear` -/

def refreshOthers (s : NodeCpu) : NodeCpu :=
  { s with
    nodeSocket := groupBy s.nodeHpthread s.socketHpthread s.nodeSocket
    nodeCore := groupBy s.nodeHpthread s.coreHpthread s.nodeCore
    socketCore := groupBy s.socketHpthread s.coreHpthread s.socketCore }

def refresh (s : NodeCpu) (files : HostFiles) : Result NodeCpu :=
  if s.hasData then .ok s
  else do
    let s ← s.refreshNodeHpthread files
    let s ← s.refreshSocketCoreHpthread files
    return { s.refreshOthers with hasData := true }

def clear (_ : NodeCpu) : NodeCpu := {}

/-! ## Queries -/

section Queries

variable {κ α : Type} [Ord κ] [TransOrd κ] [Ord α] [TransOrd α]

def getKeys (data : MapOfSets κ α) : ExtTreeSet κ := ExtTreeSet.ofList data.keys

def getKeyNum (data : MapOfSets κ α) : Nat := data.size

def getValueByKey (data : MapOfSets κ α) (key : κ) : ExtTreeSet α :=
  if data.contains key then valuesOf data key else ∅

def getValueNumByKey (data : MapOfSets κ α) (key : κ) : Nat :=
  if data.contains key then (valuesOf data key).size else 0

end Queries

def getNodeNum (s : NodeCpu) : Nat := getKeyNum s.nodeHpthread

def getNodeIds (s : NodeCpu) : ExtTreeSet NodeId := getKeys s.nodeHpthread

def getNodeIdOfSocket (s : NodeCpu) (socketId : SocketId) : NodeId := keyOf {} s.nodeSocket socketId

def getNodeIdOfCore (s : NodeCpu) (coreId : CoreId) : NodeId := keyOf {} s.nodeCore coreId

def getNodeIdOfHpthread (s : NodeCpu) (hpthreadId : HpthreadId) : NodeId :=
  keyOf {} s.nodeHpthread hpthreadId

def getSocketNum (s : NodeCpu) : Nat := getKeyNum s.socketHpthread

def getSocketNumOfNode (s : NodeCpu) (nodeId : NodeId) : Nat := getValueNumByKey s.nodeSocket nodeId

def getSocketIds (s : NodeCpu) : ExtTreeSet SocketId := getKeys s.socketHpthread

def getSocketIdsOfNode (s : NodeCpu) (nodeId : NodeId) : ExtTreeSet SocketId :=
  getValueByKey s.nodeSocket nodeId

/-- Read off the id of the core. -/
def getSocketIdOfCore (_ : NodeCpu) (coreId : CoreId) : SocketId := ⟨coreId.socketId⟩

def getSocketIdOfHpthread (s : NodeCpu) (hpthreadId : HpthreadId) : SocketId :=
  keyOf {} s.socketHpthread hpthreadId

def getCoreNum (s : NodeCpu) : Nat := getKeyNum s.coreHpthread

def getCoreNumOfNode (s : NodeCpu) (nodeId : NodeId) : Nat := getValueNumByKey s.nodeCore nodeId

def getCoreNumOfSocket (s : NodeCpu) (socketId : SocketId) : Nat :=
  getValueNumByKey s.socketCore socketId

def getCoreIds (s : NodeCpu) : ExtTreeSet CoreId := getKeys s.coreHpthread

def getCoreIdsOfNode (s : NodeCpu) (nodeId : NodeId) : ExtTreeSet CoreId :=
  getValueByKey s.nodeCore nodeId

def getCoreIdsOfSocket (s : NodeCpu) (socketId : SocketId) : ExtTreeSet CoreId :=
  getValueByKey s.socketCore socketId

def getCoreIdOfHpthread (s : NodeCpu) (hpthreadId : HpthreadId) : CoreId :=
  keyOf {} s.coreHpthread hpthreadId

def getHpthreadNum (s : NodeCpu) : Nat := s.hpthread.size

def getHpthreadNumOfNode (s : NodeCpu) (nodeId : NodeId) : Nat :=
  getValueNumByKey s.nodeHpthread nodeId

def getHpthreadNumOfSocket (s : NodeCpu) (socketId : SocketId) : Nat :=
  getValueNumByKey s.socketHpthread socketId

def getHpthreadNumOfCore (s : NodeCpu) (coreId : CoreId) : Nat :=
  getValueNumByKey s.coreHpthread coreId

def getHpthreadIds (s : NodeCpu) : ExtTreeSet HpthreadId := s.hpthread

def getHpthreadIdsOfNode (s : NodeCpu) (nodeId : NodeId) : ExtTreeSet HpthreadId :=
  getValueByKey s.nodeHpthread nodeId

def getHpthreadIdsOfSocket (s : NodeCpu) (socketId : SocketId) : ExtTreeSet HpthreadId :=
  getValueByKey s.socketHpthread socketId

def getHpthreadIdsOfCore (s : NodeCpu) (coreId : CoreId) : ExtTreeSet HpthreadId :=
  getValueByKey s.coreHpthread coreId

end NodeCpu

end LibVsf
