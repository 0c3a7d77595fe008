import LibVsf.Lib.Maps
import LibVsf.VmBaseEtime
import Mathlib.Algebra.Order.Ring.Rat

/-!
# `hsCpuUsage`

The usages of the host's CPUs, from two readings of `/proc/stat`.

A `double` is a rational number, or none if it is a quotient by zero. `long long`s are checked: what
overflows is undefined.
-/

namespace LibVsf

open Std
open VmBase (longLong maxLongLong)

namespace HsCpuUsage

/-! ## Numbers -/

def digitsFrom (ret : Int) : List Char → Option Int
  | [] => some ret
  | c :: buf =>
    if c.isDigit then do
      let ret ← longLong (ret * 10)
      let ret ← longLong (ret + (c.toNat - 48 : Nat))
      digitsFrom ret buf
    else some ret

/-- The `atoll` of the file, which does not skip blanks. -/
def atoll (buf : List Char) : Option Int :=
  if buf.head? = some '-' then (digitsFrom 0 buf.tail).map fun ret => -ret
  else digitsFrom 0 buf

/-- `strtok` with a blank, up to the end. -/
def strtok (buf : List Char) : List (List Char) :=
  Text.pieces (fun c => c = ' ') (Text.cString buf)

/-! ## A reading -/

/-- The variables of a loop over the numbers of a line. -/
structure Sums where
  index : Nat := 0
  time : Int := 0
  idleTime : Int := 0
deriving DecidableEq, Repr

def idleTimeIndex : Nat := 4

def Sums.add (s : Sums) (token : List Char) : Option Sums := do
  let n ← atoll token
  let time ← longLong (s.time + n)
  return {
    index := s.index + 1
    time := time
    idleTime := if s.index + 1 = idleTimeIndex then n else s.idleTime }

def sumFields (tokens : List (List Char)) : Option Sums := tokens.foldlM Sums.add {}

/-- `struct cpu_time_info_struct`. -/
structure CpuTimeInfo where
  cpuId : Int
  cpuTime : Int
  cpuIdleTime : Int
deriving DecidableEq, Repr

/-- `struct phy_cpu_info_ret_struct`. -/
structure PhyCpuInfoRet where
  cpuNum : Nat
  totalCpuTime : Int
  totalCpuIdleTime : Int
  cpuTimeInfos : List CpuTimeInfo
deriving DecidableEq, Repr

def cpuName : List Char := ['c', 'p', 'u']

def bufSize : Nat := 1024

/-- The loop over what is left to read. The number of a CPU is an `int`. -/
def readInfos : List (List Char) → Option (List CpuTimeInfo)
  | [] => some []
  | buf :: bufs =>
    if cpuName <+: Text.cString buf then
      match strtok buf with
      | [] => none
      | token :: tokens => do
        let cpuId ← atoll (token.drop 3)
        let sums ← sumFields tokens
        let infos ← readInfos bufs
        return ⟨cpuId.bmod 4294967296, sums.time, sums.idleTime⟩ :: infos
    else readInfos bufs

/-- Why there is no reading. -/
inductive Failure where
  | returned (retval : Int)
  | undefined
deriving DecidableEq, Repr

/-- `get_phy_cpu`, of what `/proc/stat` holds. -/
def getPhyCpu (stat : List Char) : Except Failure PhyCpuInfoRet :=
  match Text.buffered bufSize stat with
  | [] => .error (.returned (-1))
  | buf :: bufs =>
    match strtok buf with
    | [] => .error .undefined
    | token :: tokens =>
      if token ≠ cpuName then .error (.returned (-1))
      else
        match sumFields tokens, readInfos bufs with
        | some sums, some infos =>
          .ok {
            cpuNum := infos.length
            totalCpuTime := sums.time
            totalCpuIdleTime := sums.idleTime
            cpuTimeInfos := infos }
        | _, _ => .error .undefined

/-! ## The usages -/

/-- `1 - (double)idle / time`. -/
def usage (idle time : Int) : Option ℚ := if time = 0 then none else some (1 - (idle : ℚ) / time)

/-- The loop over the CPUs, with what has been divided by. No usages if it returns. -/
def usagesFrom (cpuUsages : ExtTreeMap Int (Option ℚ)) (divisors : List Int) :
    List (CpuTimeInfo × CpuTimeInfo) → Option (Option (ExtTreeMap Int (Option ℚ)) × List Int)
  | [] => some (some cpuUsages, divisors)
  | (info₁, info₂) :: infos =>
    if info₁.cpuId ≠ info₂.cpuId then some (none, divisors)
    else do
      let idle ← longLong (info₁.cpuIdleTime - info₂.cpuIdleTime)
      let time ← longLong (info₁.cpuTime - info₂.cpuTime)
      usagesFrom (cpuUsages.insertIfNew info₁.cpuId (usage idle time)) (divisors ++ [time]) infos

end HsCpuUsage

/-- `class hsCpuUsage`. -/
structure HsCpuUsage where
  totalCpuUsage : Option ℚ := some (-1)
  cpuUsages : ExtTreeMap Int (Option ℚ) := ∅
  init : Bool := false

namespace HsCpuUsage

/-- What a call returns and leaves, and what it has divided by. -/
structure Collected where
  retval : Int
  state : HsCpuUsage
  divisors : List Int

/-- The part of `collect_cpu_usage` after the readings. -/
def collect (s : HsCpuUsage) (ret₁ ret₂ : PhyCpuInfoRet) : Option Collected :=
  if ret₁.cpuNum ≠ ret₂.cpuNum then some ⟨-1, s, []⟩
  else do
    let idle ← longLong (ret₁.totalCpuIdleTime - ret₂.totalCpuIdleTime)
    let time ← longLong (ret₁.totalCpuTime - ret₂.totalCpuTime)
    match ← usagesFrom ∅ [time] (ret₁.cpuTimeInfos.zip ret₂.cpuTimeInfos) with
    | (none, divisors) => some ⟨-1, s, divisors⟩
    | (some cpuUsages, divisors) => some ⟨0, ⟨usage idle time, cpuUsages, true⟩, divisors⟩

/-- `collect_cpu_usage`, of what the file holds before and after the interval. -/
def collectCpuUsage (s : HsCpuUsage) (stat₁ stat₂ : List Char) : Option Collected :=
  match getPhyCpu stat₁ with
  | .error .undefined => none
  | .error (.returned retval) => some ⟨retval, s, []⟩
  | .ok ret₁ =>
    match getPhyCpu stat₂ with
    | .error .undefined => none
    | .error (.returned retval) => some ⟨retval, s, []⟩
    | .ok ret₂ => collect s ret₁ ret₂

end HsCpuUsage

end LibVsf
