import LibVsf.Lib.EqvMap
import LibVsf.Lib.Writing
import LibVsf.StrTools
import LibVsf.VmId
import Std.Data.ExtTreeMap
import Std.Data.ExtTreeSet

/-!
# `VmBase`: the VMs of the host

`vm/dynamic/vm_base.cpp`. A refresh lists the VMs with `ps` (`refreshMost`), reads their threads
from the cgroup files (`refreshVcpuStableVmthread`) and calls the callback. Both passes can throw,
and leave what they have written.

The members of `VmBase` that a thread must hold the mutex for are a `VmData`; every operation here
is one section of the mutex. Maps with `VmId`s as keys compare them with the tolerance of
`operator<`.
-/

namespace LibVsf

open Std Writing

/-! ## Data -/

structure VmData where
  vmIds : EqvSet VmId := ∅
  stableVmthreadIdToVmId : ExtTreeMap Int VmId := ∅
  name : EqvMap VmId (List Char) := ∅
  uuid : EqvMap VmId (List Char) := ∅
  vsocketNum : EqvMap VmId Int := ∅
  vcoreNum : EqvMap VmId Int := ∅
  vhpthreadNum : EqvMap VmId Int := ∅
  totalMemSize : EqvMap VmId Int := ∅
  vcpuIds : EqvMap VmId (ExtTreeSet Int) := ∅
  stableVmthreadIds : EqvMap VmId (ExtTreeSet Int) := ∅

/-- Data with these threads of VMs. -/
def VmData.withThreads (d : VmData) (vcpuIds stable : EqvMap VmId (ExtTreeSet Int)) : VmData :=
  { d with vcpuIds := vcpuIds, stableVmthreadIds := stable }

/-- What the callback is called with. -/
structure VmNotice where
  vmId : VmId
  name : List Char
  uuid : List Char
  vsocketNum : Int
  vcoreNum : Int
  vhpthreadNum : Int
  totalMemSize : Int
  vcpuIds : ExtTreeSet Int
  stableVmthreadIds : ExtTreeSet Int

def defaultVmCmd : String := "qemu-system-x86_64"

structure VmBase where
  data : VmData := {}
  hasData : Bool := false
  vmCmd : String := defaultVmCmd
  intervalMs : Int := 5000
  /-- Whether a function is set. -/
  callbackFunc : Bool := false
  /-- The calls of the callback. -/
  notices : List VmNotice := []

/-- What a refresh finds on the host. -/
structure VmHost where
  /-- `time`. -/
  curTime : Int
  /-- What a command prints. -/
  popen : String → List Char
  /-- The entries of a directory, if it can be scanned. -/
  scandir : String → Option (List (List Char))
  /-- The text of a file, if it can be opened. -/
  readFile : String → Option (List Char)

/-! ## Assignments -/

/-- An assignment of `refresh_most`, or the entry with `0` that is there when the value to be
assigned cannot be converted. -/
inductive VmWrite where
  | vmId (vmId : VmId)
  | name (vmId : VmId) (name : List Char)
  | uuid (vmId : VmId) (uuid : List Char)
  | vsocketNum (vmId : VmId) (n : Int)
  | vcoreNum (vmId : VmId) (n : Int)
  | vhpthreadNum (vmId : VmId) (n : Int)
  | totalMemSize (vmId : VmId) (size : Int)
  | vsocketEntry (vmId : VmId)
  | vcoreEntry (vmId : VmId)
  | vhpthreadEntry (vmId : VmId)

def VmData.write (d : VmData) : VmWrite → VmData
  | .vmId vmId => { d with vmIds := d.vmIds.insert vmId () }
  | .name vmId name => { d with name := d.name.insert vmId name }
  | .uuid vmId uuid => { d with uuid := d.uuid.insert vmId uuid }
  | .vsocketNum vmId n => { d with vsocketNum := d.vsocketNum.insert vmId n }
  | .vcoreNum vmId n => { d with vcoreNum := d.vcoreNum.insert vmId n }
  | .vhpthreadNum vmId n => { d with vhpthreadNum := d.vhpthreadNum.insert vmId n }
  | .totalMemSize vmId size => { d with totalMemSize := d.totalMemSize.insert vmId size }
  | .vsocketEntry vmId => { d with vsocketNum := d.vsocketNum.insertIfNew vmId 0 }
  | .vcoreEntry vmId => { d with vcoreNum := d.vcoreNum.insertIfNew vmId 0 }
  | .vhpthreadEntry vmId => { d with vhpthreadNum := d.vhpthreadNum.insertIfNew vmId 0 }

/-- The assignments of `refresh_vcpu_stable_vmthread` for a VM. -/
def VmData.assignVcpus (d : VmData) (vmId : VmId) (ids : ExtTreeSet Int) : VmData :=
  let stable := ids.insert vmId.pid
  { d with
    vcpuIds := d.vcpuIds.insert vmId ids
    stableVmthreadIds := d.stableVmthreadIds.insert vmId stable
    stableVmthreadIdToVmId := stable.toList.foldl (fun m tid => m.insert tid vmId)
      d.stableVmthreadIdToVmId }

/-- Assignments, in order, up to the first conversion that throws. -/
abbrev VmWrites := Log VmWrite ReadFailure

namespace VmBase

/-! ## A line of `ps` -/

/-- `[[dd-]hh:]mm:ss` before now. -/
def startTime (curTime : Int) (etime : List Char) : Int :=
  let seconds (days hours minutes seconds : Int) :=
    ((days * 24 + hours) * 60 + minutes) * 60 + seconds
  if '-' ∈ etime then
    let ns := Text.scanNumbers ['-', ':', ':'] etime
    curTime - seconds (ns.getD 0 0) (ns.getD 1 0) (ns.getD 2 0) (ns.getD 3 0)
  else if etime.count ':' = 2 then
    let ns := Text.scanNumbers [':', ':'] etime
    curTime - seconds 0 (ns.getD 0 0) (ns.getD 1 0) (ns.getD 2 0)
  else if etime.count ':' = 1 then
    let ns := Text.scanNumbers [':'] etime
    curTime - seconds 0 0 (ns.getD 0 0) (ns.getD 1 0)
  else curTime

/-- The strings that the loop over the lines keeps. -/
structure PsCursor where
  startTimestamp : List Char := []
  pid : List Char := []
  tmpStr : List Char := []

/-- The `>>` to the strings, which leave a string when no word is left, and the arguments. The loop
over the arguments ends after a `>>` has failed, so the last is there twice. -/
def PsCursor.read (cur : PsCursor) (line : List Char) : PsCursor × List (List Char) :=
  match Text.words line with
  | [] => (cur, [])
  | [startTimestamp] => ({ cur with startTimestamp := startTimestamp }, [])
  | startTimestamp :: pid :: args =>
    let tmpStr := args.getLast?.getD cur.tmpStr
    (⟨startTimestamp, pid, tmpStr⟩, args ++ [tmpStr])

/-- `find` of an option and the argument after it. After the last argument it is undefined; here it
is empty. -/
def optionArg (args : List (List Char)) (option : List Char) : Option (List Char) :=
  if option ∈ args then some ((args.dropWhile fun arg => arg ≠ option).getD 1 []) else none

/-- An assignment of a converted number. -/
def converted (text : List Char) (write : Int → VmWrite) : VmWrites :=
  match Text.stoi text with
  | .error failure => { failure := some (.conversionFailed failure) }
  | .ok n => { entries := [write n] }

/-- An assignment by `operator[]` of a converted number: the entry is made before. -/
def assigned (text : List Char) (entry : VmWrite) (write : Int → VmWrite) : VmWrites :=
  match Text.stoi text with
  | .error failure => { entries := [entry], failure := some (.conversionFailed failure) }
  | .ok n => { entries := [write n] }

def socketsKey : List Char := "sockets".toList

def coresKey : List Char := "cores".toList

def threadsKey : List Char := "threads".toList

/-- The body of the loop over the parts of `-smp`. -/
def smpOpWrites (vmId : VmId) (op : List Char) : VmWrites :=
  match StrTools.split op '=' with
  | [key, value] =>
    if key = socketsKey then assigned value (.vsocketEntry vmId) (.vsocketNum vmId)
    else if key = coresKey then assigned value (.vcoreEntry vmId) (.vcoreNum vmId)
    else if key = threadsKey then assigned value (.vhpthreadEntry vmId) (.vhpthreadNum vmId)
    else {}
  | _ => {}

def nameOption : List Char := "-name".toList

def uuidOption : List Char := "-uuid".toList

def smpOption : List Char := "-smp".toList

def memOption : List Char := "-m".toList

/-- The name and uuid of a VM, empty if they are not given. -/
def idWrites (vmId : VmId) (args : List (List Char)) : VmWrites where
  entries := [.vmId vmId, .name vmId ((optionArg args nameOption).getD []),
    .uuid vmId ((optionArg args uuidOption).getD [])]

def smpWrites (vmId : VmId) (args : List (List Char)) : VmWrites :=
  (optionArg args smpOption).elim {} fun arg => Log.all (smpOpWrites vmId) (StrTools.split arg ',')

def memWrites (vmId : VmId) (args : List (List Char)) : VmWrites :=
  (optionArg args memOption).elim { entries := [.totalMemSize vmId (-1)] } fun size =>
    converted size (.totalMemSize vmId)

/-- The assignments for a VM. -/
def vmWrites (vmId : VmId) (args : List (List Char)) : VmWrites :=
  (idWrites vmId args).andThen ((smpWrites vmId args).andThen (memWrites vmId args))

/-- `pid_t` of an `unsigned long long`. -/
def toPid (n : Nat) : Int := Int.bmod n 4294967296

/-- The body of the loop over the lines, after they have been read. -/
def lineWrites (curTime : Int) (cur : PsCursor) (args : List (List Char)) : VmWrites :=
  match Text.stoull cur.pid with
  | .error failure => { failure := some (.conversionFailed failure) }
  | .ok pid => vmWrites ⟨startTime curTime cur.startTimestamp, toPid pid⟩ args

/-- The loop over the lines. A line is a string up to its first null character. -/
def psWrites (curTime : Int) : PsCursor → List (List Char) → VmWrites
  | _, [] => {}
  | cur, line :: ls =>
    let (cur, args) := cur.read (line.takeWhile fun c => c ≠ Char.ofNat 0)
    (lineWrites curTime cur args).andThen (psWrites curTime cur ls)

def bufSize : Nat := 102400

def psCmd (vmCmd : String) : String := "ps -C " ++ vmCmd ++ " -wwo etime=,pid=,args="

end VmBase

/-- What `ps` lists for a command, as assignments. -/
def VmHost.listing (host : VmHost) (vmCmd : String) : VmWrites :=
  VmBase.psWrites host.curTime {}
    (Text.buffered VmBase.bufSize (host.popen (VmBase.psCmd vmCmd)))

namespace VmBase

/-! ## `refresh` -/

/-- A step that throws leaves what it had written. -/
abbrev Result := Except (ReadFailure × VmBase)

def write (s : VmBase) (w : VmWrite) : VmBase := { s with data := s.data.write w }

/-- All but the maps of threads are cleared first. -/
def refreshMost (s : VmBase) (host : VmHost) : Result VmBase :=
  (host.listing s.vmCmd).replay write
    { s with data := ({} : VmData).withThreads s.data.vcpuIds s.data.stableVmthreadIds }

def vcpuDir : String := "/sys/fs/cgroup/cpu/libvirt/qemu/"

/-- The body of the loop over the directories of a VM's vcpus. Where a file has no number, `pid` is
not initialized or `0`; here it is `0`. -/
def readTask (host : VmHost) (dir : String) (ids : ExtTreeSet Int) (vcpu : List Char) :
    Except ReadFailure (ExtTreeSet Int) :=
  let filePath := dir ++ String.ofList vcpu ++ "/tasks"
  match host.readFile filePath with
  | none => .error (.fileOpenFailed ("To open file: " ++ filePath))
  | some text => .ok (ids.insert (Text.readInt text))

/-- The threads of the vcpus of the VM with this name. -/
def readVcpus (host : VmHost) (name : List Char) : Except ReadFailure (ExtTreeSet Int) :=
  let dir := vcpuDir ++ String.ofList name ++ "/"
  StrTools.getDirs dir "vcpu".toList (host.scandir dir) >>= fun dirs =>
    dirs.foldlM (readTask host dir) ∅

/-- The body of the loop over the VMs. -/
def refreshVcpus (host : VmHost) (s : VmBase) (vmId : VmId) : Result VmBase :=
  match readVcpus host ((s.data.name.find vmId).getD []) with
  | .error failure => .error (failure, s)
  | .ok ids => .ok { s with data := s.data.assignVcpus vmId ids }

def refreshVcpuStableVmthread (s : VmBase) (host : VmHost) : Result VmBase :=
  s.data.vmIds.keys.foldlM (refreshVcpus host) { s with data := s.data.withThreads ∅ ∅ }

/-- The arguments of a call of the callback, by `operator[]`. -/
def lookUp (s : VmBase) (vmId : VmId) : VmBase :=
  { s with data := { s.data with
      name := s.data.name.insertIfNew vmId []
      uuid := s.data.uuid.insertIfNew vmId []
      vsocketNum := s.data.vsocketNum.insertIfNew vmId 0
      vcoreNum := s.data.vcoreNum.insertIfNew vmId 0
      vhpthreadNum := s.data.vhpthreadNum.insertIfNew vmId 0
      totalMemSize := s.data.totalMemSize.insertIfNew vmId 0
      vcpuIds := s.data.vcpuIds.insertIfNew vmId ∅
      stableVmthreadIds := s.data.stableVmthreadIds.insertIfNew vmId ∅ } }

/-- A call of the callback. -/
def notify (s : VmBase) (vmId : VmId) : VmBase :=
  let s := s.lookUp vmId
  { s with notices := s.notices ++ [
      { vmId := vmId
        name := (s.data.name.find vmId).getD []
        uuid := (s.data.uuid.find vmId).getD []
        vsocketNum := (s.data.vsocketNum.find vmId).getD 0
        vcoreNum := (s.data.vcoreNum.find vmId).getD 0
        vhpthreadNum := (s.data.vhpthreadNum.find vmId).getD 0
        totalMemSize := (s.data.totalMemSize.find vmId).getD 0
        vcpuIds := (s.data.vcpuIds.find vmId).getD ∅
        stableVmthreadIds := (s.data.stableVmthreadIds.find vmId).getD ∅ }] }

def notifyAll (s : VmBase) : VmBase :=
  if s.callbackFunc then s.data.vmIds.keys.foldl notify s else s

def refresh (s : VmBase) (host : VmHost) : Result VmBase := do
  let s ← s.refreshMost host
  let s ← s.refreshVcpuStableVmthread host
  return { s.notifyAll with hasData := true }

/-! ## Parameters and `clear` -/

def setVmCmd (s : VmBase) (vmCmd : String) : VmBase :=
  { s with hasData := false, data := {}, vmCmd := vmCmd }

def setInterval (s : VmBase) (intervalMs : Int) : VmBase := { s with intervalMs := intervalMs }

def setCallback (s : VmBase) (callbackFunc : Bool) : VmBase :=
  { s with callbackFunc := callbackFunc }

def clearParam (s : VmBase) : VmBase :=
  { s with intervalMs := 5000, vmCmd := defaultVmCmd, callbackFunc := false }

def clear (s : VmBase) : VmBase := { s with data := {}, hasData := false }

/-! ## Getters -/

def getDataByVmId {α : Type} (data : EqvMap VmId α) (vmId : VmId) (failedRet : α) : α :=
  (data.find vmId).getD failedRet

end VmBase

namespace VmData

open VmBase

def getVmIds (d : VmData) : List VmId := d.vmIds.keys

def toVmId (d : VmData) (tid : Int) : VmId := d.stableVmthreadIdToVmId.getD tid {}

def getName (d : VmData) (vmId : VmId) : List Char := getDataByVmId d.name vmId []

def getUuid (d : VmData) (vmId : VmId) : List Char := getDataByVmId d.uuid vmId []

def getVsocketNum (d : VmData) (vmId : VmId) : Int := getDataByVmId d.vsocketNum vmId (-1)

def getVcoreNum (d : VmData) (vmId : VmId) : Int := getDataByVmId d.vcoreNum vmId (-1)

def getVhpthreadNum (d : VmData) (vmId : VmId) : Int := getDataByVmId d.vhpthreadNum vmId (-1)

def getTotalMemSize (d : VmData) (vmId : VmId) : Int := getDataByVmId d.totalMemSize vmId (-1)

def getVcpuIds (d : VmData) (vmId : VmId) : ExtTreeSet Int := getDataByVmId d.vcpuIds vmId ∅

def getVcpuNum (d : VmData) (vmId : VmId) : Nat := (d.getVcpuIds vmId).size

def getStableVmthreadIds (d : VmData) (vmId : VmId) : ExtTreeSet Int :=
  getDataByVmId d.stableVmthreadIds vmId ∅

def getStableVmthreadNum (d : VmData) (vmId : VmId) : Nat := (d.getStableVmthreadIds vmId).size

end VmData

/-! ## The instance and its thread -/

/-- The instance, its thread, and whether an exception that the thread does not catch has ended the
process. -/
structure VmBaseThread where
  base : VmBase := {}
  joinable : Bool := false
  terminated : Bool := false

namespace VmBaseThread

/-- What can happen; a getter waits for data if the thread runs. -/
inductive Op where
  | setVmCmd (vmCmd : String)
  | setInterval (intervalMs : Int)
  | setCallback (callbackFunc : Bool)
  | clearParam
  | start
  | stop
  /-- The thread's turn. -/
  | run (host : VmHost)
  | get (host : VmHost)

/-- A refresh of the thread. -/
def run (t : VmBaseThread) (host : VmHost) : VmBaseThread :=
  if t.joinable then
    match t.base.refresh host with
    | .ok s => { t with base := s }
    | .error (_, s) => { t with base := s, terminated := true }
  else t

/-- A getter refreshes if no thread does; the caller may catch what this throws. -/
def get (t : VmBaseThread) (host : VmHost) : VmBaseThread :=
  if t.joinable then t
  else
    match t.base.refresh host with
    | .ok s => { t with base := s }
    | .error (_, s) => { t with base := s }

/-- The thread clears the data when it has been stopped. -/
def stop (t : VmBaseThread) : VmBaseThread :=
  if t.joinable then { t with base := t.base.clear, joinable := false } else t

def step (t : VmBaseThread) (op : Op) : VmBaseThread :=
  if t.terminated then t
  else
    match op with
    | .setVmCmd vmCmd => { t with base := t.base.setVmCmd vmCmd }
    | .setInterval intervalMs => { t with base := t.base.setInterval intervalMs }
    | .setCallback callbackFunc => { t with base := t.base.setCallback callbackFunc }
    | .clearParam => { t with base := t.base.clearParam }
    | .start => { t with joinable := true }
    | .stop => t.stop
    | .run host => t.run host
    | .get host => t.get host

end VmBaseThread

end LibVsf
