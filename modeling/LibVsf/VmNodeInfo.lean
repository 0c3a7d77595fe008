import LibVsf.StrTools

/-!
# `vmNodeInfo`: the virtual nodes of a VM

`vm/static/vm_node_info.cpp`. The virtual nodes are read from the command line of the VM's process:
each `-numa` and the word after it describe one.

Some of the memory that is read has not been written: the rest of the buffer of the command line,
the numbers of a virtual node that are not given, and what comes after the copy of a list of cpus.
What it holds is a parameter, `Memory`. A result is `none` where the program is stopped: a
`std::string` is assigned from `NULL`, a size does not fit in an `int`, a division is by zero.
-/

namespace LibVsf

/-- `struct vm_vnode_static_info`. -/
structure VmVnodeStaticInfo where
  vnodeId : Int
  cpus : List Int := []
  memSizeMb : Int
  staticBind : Int
deriving DecidableEq, Repr

/-- `struct vm_vnode_return_structure`, without virtual nodes. -/
structure VmVnodeReturnStructure where
  vnodeSize : Int := 0
  vnodeInfo : List VmVnodeStaticInfo := []
deriving DecidableEq, Repr

/-- What memory holds that has not been written. -/
structure Memory where
  /-- After the bytes of the command line. -/
  afterCmdline : List Char
  /-- After the copy of a list of cpus. -/
  afterCpus : List Char → List Char
  /-- In the virtual node of a position. -/
  vnodeId : Nat → Int
  memSizeMb : Nat → Int
  staticBind : Nat → Int

namespace VmNodeInfo

/-! ## The command line -/

def bufSize : Nat := 10240

/-- The loop over the blocks that `fread` gives: the buffer is allocated anew for one more. -/
def readBlocks (buf : List Char) : List (List Char) → Option (List Char)
  | [] => some buf
  | block :: blocks =>
    if 2147483647 < buf.length + bufSize then none else readBlocks (buf ++ block) blocks

/-- The loop over all bytes but the last. -/
def nulToSpace (buf : List Char) : List Char :=
  (buf.take (buf.length - 1)).map (fun c => if c = '\x00' then ' ' else c) ++
    buf.drop (buf.length - 1)

/-- `read_cmd_line`, of the file that is there. Without a block there is no buffer. -/
def readCmdLine (memory : Memory) (cmdline : Option (List Char)) : Option (List Char) :=
  match cmdline with
  | none => some []
  | some file => do
    let buf ← readBlocks [] (Text.blocks bufSize file)
    if buf = [] then none else return Text.cString (nulToSpace buf ++ memory.afterCmdline)

/-! ## Attributes -/

/-- `find`, from the position of the rest of the string on. -/
def find (key : List Char) : List Char → Nat → Option Nat
  | [], pos => if key = [] then some pos else none
  | c :: cs, pos => if key.isPrefixOf (c :: cs) then some pos else find key cs (pos + 1)

/-- The loop that goes back from `end` to a comma, but not before `start`. -/
def backToComma (s : List Char) (start : Nat) : Nat → Nat
  | 0 => 0
  | stop + 1 =>
    if start < stop + 1 ∧ s[stop + 1]? ≠ some ',' then backToComma s start stop else stop + 1

/-- `extract_attr`. Where the attribute is absent, `find` gives the greatest `size_t`, and the sum
is one less than the length of `name=`: it is never the `-1` that is tested for. -/
def extractAttr (attrStr name : List Char) : List Char :=
  let key := name ++ ['=']
  let start :=
    match find key attrStr 0 with
    | some pos => pos + key.length
    | none => key.length - 1
  let stop := start + ((attrStr.drop start).takeWhile fun c => c ≠ '=').length
  let stop := if stop ≠ attrStr.length then backToComma attrStr start stop else stop
  (attrStr.drop start).take (stop - start)

/-- `parse_cpu_string`: the copy has no end of its own, so that `strtok` reads on after it. -/
def parseCpuString (memory : Memory) (cpuStr : List Char) : List Int :=
  (Text.pieces (fun c => c = ',') (Text.cString (cpuStr ++ memory.afterCpus cpuStr))).flatMap
    fun token =>
      if '-' ∈ token then
        let pos := token.idxOf '-'
        let first := Text.atoi (token.take pos)
        let last := Text.atoi (token.drop (pos + 1))
        (List.range (last + 1 - first).toNat).map fun i : Nat => first + i
      else [Text.atoi token]

/-! ## Virtual nodes -/

def numaOption : List Char := "-numa".toList

/-- A number that is given by an attribute, or what the memory holds. -/
def attrOr (token name : List Char) (held : Int) : Int :=
  if extractAttr token name ≠ [] then Text.atoi (extractAttr token name) else held

/-- The virtual node of a position, from the word after its `-numa`. -/
def vnodeOf (memory : Memory) (pos : Nat) (token : List Char) : VmVnodeStaticInfo where
  vnodeId := attrOr token "nodeid".toList (memory.vnodeId pos)
  cpus :=
    if extractAttr token "cpus".toList ≠ [] then
      parseCpuString memory (extractAttr token "cpus".toList)
    else []
  memSizeMb := attrOr token "mem".toList (memory.memSizeMb pos)
  staticBind := attrOr token "membind".toList (memory.staticBind pos)

/-- The loop over the words. The word after a `-numa` is read with it. -/
def readVnodes (memory : Memory) :
    List (List Char) → VmVnodeReturnStructure → VmVnodeReturnStructure
  | [], ret => ret
  | token :: tokens, ret =>
    if token = numaOption then
      match tokens with
      | [] => ret
      | value :: tokens => readVnodes memory tokens
        { vnodeSize := ret.vnodeSize + 1
          vnodeInfo := ret.vnodeInfo ++ [vnodeOf memory ret.vnodeInfo.length value] }
    else readVnodes memory tokens ret

def getVmVnodeStaticInfoFromCmdline (memory : Memory) (cmdline : List Char) :
    VmVnodeReturnStructure :=
  readVnodes memory (Text.words cmdline) {}

end VmNodeInfo

/-! ## The class -/

structure VmNodeInfo where
  vnodeNum : Int := -1
  vnodeInfo : List VmVnodeStaticInfo := []
  init : Bool := false
  pid : Nat
deriving DecidableEq, Repr

namespace VmNodeInfo

/-- `get_instance`: the instance is made with the pid of the first call. -/
def getInstance (inst : Option VmNodeInfo) (pid : Nat) : VmNodeInfo := inst.getD { pid := pid }

/-- `update`: the structure that is read is written over the members of the object. -/
def update (memory : Memory) (s : VmNodeInfo) (cmdline : Nat → Option (List Char)) :
    Option VmNodeInfo := do
  let cmdline ← readCmdLine memory (cmdline s.pid)
  let ret := getVmVnodeStaticInfoFromCmdline memory cmdline
  return { s with vnodeNum := ret.vnodeSize, vnodeInfo := ret.vnodeInfo, init := true }

/-- The start of each query. -/
def ensure (memory : Memory) (s : VmNodeInfo) (cmdline : Nat → Option (List Char)) :
    Option VmNodeInfo :=
  if s.init then some s else s.update memory cmdline

def getVnodeNum (s : VmNodeInfo) : Int := s.vnodeNum

def getVnodeIds (s : VmNodeInfo) : List Int := s.vnodeInfo.map VmVnodeStaticInfo.vnodeId

/-- `get_vcpu_ids`. Without cpus of its own, a virtual node has its part of all. -/
def getVcpuIds (s : VmNodeInfo) (vnodeId vcpuNum : Int) : Option (List Int) :=
  let cpus := ((s.vnodeInfo.find? fun vnode => vnode.vnodeId = vnodeId).map
    VmVnodeStaticInfo.cpus).getD []
  if cpus = [] ∧ 0 < vcpuNum then
    if s.vnodeNum = 0 then none
    else
      let first := vnodeId * vcpuNum.tdiv s.vnodeNum
      let last := (vnodeId + 1) * vcpuNum.tdiv s.vnodeNum
      some ((List.range (last - first).toNat).map fun i : Nat => first + i)
  else some cpus

end VmNodeInfo

end LibVsf
