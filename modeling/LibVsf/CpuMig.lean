import LibVsf.Lib.BitWords
import LibVsf.NodeCpu

/-!
# `CpuMig`: the affinities of threads

`exec/cpu_mig.cpp`. Requests are queued by thread; a later one replaces an earlier one. Executing
them writes the CPUs of one thread after the other into one mask and passes it to
`sched_setaffinity`.

The mask is allocated for the CPUs of the machine. `CPU_ZERO_S` is told its size. `CPU_SET` is the
macro for a `cpu_set_t` of 1024 bits: it writes any of these, allocated or not.
-/

namespace LibVsf

open Std

/-! ## Masks -/

/-- The size in bytes that glibc allocates for a number of CPUs. -/
def cpuAllocSize (count : Nat) : Nat := (count + 63) / 64 * 8

/-- The memory at a `cpu_set_t *`. -/
structure CpuMask where
  words : List (BitVec 64)
  /-- The words written beyond those that were allocated. -/
  beyond : List Nat := []

namespace CpuMask

def cpuZeroS (setsize : Nat) (mask : CpuMask) : CpuMask :=
  { mask with words := BitWords.zeros (setsize / 8) ++ mask.words.drop (setsize / 8) }

/-- A negative number is a `size_t` far above the bound of the macro. -/
def cpuSet (mask : CpuMask) (cpu : Int) : CpuMask :=
  if 0 ≤ cpu ∧ cpu.toNat / 8 < 128 then
    if cpu.toNat / 64 < mask.words.length then
      { mask with words := BitWords.setBit cpu.toNat mask.words }
    else { mask with beyond := mask.beyond ++ [cpu.toNat / 64] }
  else mask

end CpuMask

/-! ## `CpuMig` -/

/-- `std::set<int>`. -/
abbrev CpuIds := ExtTreeSet Int

inductive CpuMigFailure where
  | cpuAllocFailed (what : String)
deriving DecidableEq, Repr

structure CpuMig where
  cpuMigs : MapOfSets Int Int := ∅
  cpuNum : Nat

/-- A call of `sched_setaffinity`: the thread, and the bytes of the mask it is passed. -/
structure SetAffinity where
  pid : Int
  mask : List (BitVec 64)

/-- What the loop of `exec_cpu_mig` has done. -/
structure Migration where
  mask : CpuMask
  calls : List SetAffinity := []

namespace CpuMig

def setCpuMig (s : CpuMig) (pid : Int) (cpuIds : CpuIds) : CpuMig :=
  { s with cpuMigs := s.cpuMigs.insert pid cpuIds }

/-- The numbers that `VM::set_vcpu_mig` passes on. -/
def idsOf (hpthreadIds : ExtTreeSet HpthreadId) : CpuIds :=
  hpthreadIds.foldl (fun ids id => ids.insert id.id) ∅

/-- `VM::set_vcpu_mig`. -/
def setVcpuMig (s : CpuMig) (vmthreadId : Int) (hpthreadIds : ExtTreeSet HpthreadId) : CpuMig :=
  s.setCpuMig vmthreadId (idsOf hpthreadIds)

/-- The body of the loop over the queue. A failure of `sched_setaffinity` is logged. -/
def migrate (size : Nat) (m : Migration) (cpuMig : Int × CpuIds) : Migration :=
  let mask := cpuMig.2.foldl CpuMask.cpuSet (m.mask.cpuZeroS size)
  { mask := mask, calls := m.calls ++ [⟨cpuMig.1, mask.words.take (size / 8)⟩] }

/-- `exec_cpu_mig`. The mask is what `CPU_ALLOC` gives, by its words, or `none` if it fails. -/
def execCpuMig (s : CpuMig) (alloc : Option (Nat → BitVec 64)) :
    Except (CpuMigFailure × CpuMig) (CpuMig × Migration) :=
  match alloc with
  | none => .error (.cpuAllocFailed "exec_cpu_mig. ", s)
  | some content =>
    let size := cpuAllocSize s.cpuNum
    let mask : CpuMask := { words := (List.range (size / 8)).map content }
    .ok ({ s with cpuMigs := ∅ }, s.cpuMigs.toList.foldl (migrate size) { mask := mask })

/-! ### Operations -/

inductive Op where
  | setCpuMig (pid : Int) (cpuIds : CpuIds)
  | setVcpuMig (vmthreadId : Int) (hpthreadIds : ExtTreeSet HpthreadId)
  | execCpuMig (alloc : Option (Nat → BitVec 64))

/-- The state after an operation. The caller goes on after an exception. -/
def step (s : CpuMig) : Op → CpuMig
  | .setCpuMig pid cpuIds => s.setCpuMig pid cpuIds
  | .setVcpuMig vmthreadId hpthreadIds => s.setVcpuMig vmthreadId hpthreadIds
  | .execCpuMig alloc =>
    match s.execCpuMig alloc with
    | .ok (s, _) => s
    | .error (_, s) => s

end CpuMig

end LibVsf
