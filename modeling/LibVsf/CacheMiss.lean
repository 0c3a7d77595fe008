import LibVsf.VmSet

/-!
# `CacheMiss`: the cache misses of the watched threads

`vm/dynamic/cache_miss.cpp`. For every watched thread four perf events are open. A round reads
them all twice, in `start_sample` and in `stop_sample`; the counts of a thread are the
differences, and the rates are computed from the counts.

Counts and perf values are `unsigned long long`, rates are rationals in place of doubles. What
the kernel answers during a round is its `SampleEnv`: a file descriptor for every open, negative
if it fails, and for every read of a descriptor a value, or `none` if it fails.
-/

namespace LibVsf

open Std

/-! ## `PerfData` -/

/-- The perf events of a thread, by the names of their members. -/
inductive PerfEvent where
  | cacheMisses | cpuCycles | instructions | cacheReferences
deriving DecidableEq, Repr

/-- The order in which the events are opened and read. -/
def PerfEvent.all : List PerfEvent := [.cacheMisses, .cpuCycles, .instructions, .cacheReferences]

/-- `class PerfData`. The attributes of the event are those of its member. -/
structure PerfData where
  count : UInt64 := 0
  fd : Int := -1
  firstTime : UInt64 := 0
  secondTime : UInt64 := 0
deriving DecidableEq, Inhabited

namespace PerfData

def firstRead (p : PerfData) (value : Option UInt64) : PerfData × Bool :=
  match value with
  | none => (p, false)
  | some firstTime => ({ p with firstTime := firstTime }, true)

/-- What a successful `second_read` leaves. -/
def second (p : PerfData) (secondTime : UInt64) : PerfData :=
  { p with
    secondTime := secondTime
    count := if secondTime > p.firstTime then secondTime - p.firstTime else 0 }

def secondRead (p : PerfData) (value : Option UInt64) : PerfData × Bool :=
  match value with
  | none => (p, false)
  | some secondTime => (p.second secondTime, true)

def clearData (p : PerfData) : PerfData := { p with count := 0, firstTime := 0, secondTime := 0 }

end PerfData

/-! ## `CacheMissData` -/

/-- What happens to a file descriptor. -/
inductive FdEvent where
  | opened (fd : Int)
  | closed (fd : Int)
deriving DecidableEq, Repr

structure CacheMissData where
  tid : Int := -1
  mptc : ℚ := -1
  mpti : ℚ := -1
  mptr : ℚ := -1
  rpti : ℚ := -1
  cpi : ℚ := -1
  cacheMisses : PerfData := {}
  cpuCycles : PerfData := {}
  instructions : PerfData := {}
  cacheReferences : PerfData := {}
deriving DecidableEq, Inhabited

namespace CacheMissData

/-- The member of an event. -/
def event (d : CacheMissData) : PerfEvent → PerfData
  | .cacheMisses => d.cacheMisses
  | .cpuCycles => d.cpuCycles
  | .instructions => d.instructions
  | .cacheReferences => d.cacheReferences

/-- An assignment to every member of an event. -/
def mapEvents (f : PerfEvent → PerfData → PerfData) (d : CacheMissData) : CacheMissData :=
  { d with
    cacheMisses := f .cacheMisses d.cacheMisses
    cpuCycles := f .cpuCycles d.cpuCycles
    instructions := f .instructions d.instructions
    cacheReferences := f .cacheReferences d.cacheReferences }

/-- An assignment to the member of an event. -/
def setEvent (d : CacheMissData) (e : PerfEvent) (p : PerfData) : CacheMissData :=
  d.mapEvents fun e' p' => if e' = e then p else p'

def clearData (d : CacheMissData) : CacheMissData := d.mapEvents fun _ p => p.clearData

/-- `clear_fd` closes the descriptors and keeps their numbers. -/
def clearFd (d : CacheMissData) : List FdEvent := PerfEvent.all.map fun e => .closed (d.event e).fd

def updateMissRate (d : CacheMissData) : CacheMissData :=
  let rate (num den : PerfData) : ℚ := num.count.toNat / den.count.toNat
  let d := if d.cpuCycles.count > 0 then
    { d with mptc := rate d.cacheMisses d.cpuCycles * 1000 } else d
  let d := if d.cacheReferences.count > 0 then
    { d with mptr := rate d.cacheMisses d.cacheReferences * 1000 } else d
  if d.instructions.count > 0 then
    { d with
      mpti := rate d.cacheMisses d.instructions * 1000
      rpti := rate d.cacheReferences d.instructions * 1000
      cpi := rate d.cpuCycles d.instructions }
  else d

/-- The opens that are left, after those of `opened`: the first that fails closes them. -/
def openEvents (fd : PerfEvent → Int) (opened : List PerfEvent) :
    List PerfEvent → CacheMissData → CacheMissData × List FdEvent × Bool
  | [], d => (d, [], true)
  | e :: rest, d =>
    let d := d.setEvent e { d.event e with fd := fd e }
    if fd e < 0 then
      (if opened = [] then d else d.clearData,
        opened.map fun e' => .closed (d.event e').fd, false)
    else
      let (d, events, ok) := openEvents fd (opened ++ [e]) rest d
      (d, .opened (fd e) :: events, ok)

def openFd (d : CacheMissData) (fd : PerfEvent → Int) : CacheMissData × List FdEvent × Bool :=
  openEvents fd [] PerfEvent.all d

/-- Reads of the events, `&&`ed: those after the first that fails are not made. -/
def readEvents (read : PerfData → Option UInt64 → PerfData × Bool)
    (value : PerfEvent → Option UInt64) : List PerfEvent → CacheMissData → CacheMissData × Bool
  | [], d => (d, true)
  | e :: rest, d =>
    let (p, ok) := read (d.event e) (value e)
    let d := d.setEvent e p
    if ok then readEvents read value rest d else (d, false)

def firstRead (d : CacheMissData) (value : PerfEvent → Option UInt64) : CacheMissData × Bool :=
  let (d, ok) := readEvents PerfData.firstRead value PerfEvent.all d
  if ok then (d, true) else (d.clearData, false)

def secondRead (d : CacheMissData) (value : PerfEvent → Option UInt64) : CacheMissData × Bool :=
  let (d, ok) := readEvents PerfData.secondRead value PerfEvent.all d
  if ok then (d.updateMissRate, true) else (d.clearData, false)

end CacheMissData

/-! ## `CacheMiss` -/

structure CacheMiss where
  cacheMissData : ExtTreeMap Int CacheMissData := ∅
  toStartWatching : List Int := []
  toStopWatching : List Int := []
  hasData : Bool := false
  callbackFunc : Callback := .null
  fdEvents : List FdEvent := []

/-- What the kernel answers in a round, by thread. -/
structure SampleEnv where
  /-- The descriptors of the `k`-th element of `to_start_watching_`. -/
  openFd : Int → Nat → PerfEvent → Int
  first : Int → PerfEvent → Option UInt64
  second : Int → PerfEvent → Option UInt64

namespace CacheMiss

def startWatching (s : CacheMiss) (tid : Int) : CacheMiss :=
  { s with toStartWatching := s.toStartWatching ++ [tid] }

def stopWatching (s : CacheMiss) (tid : Int) : CacheMiss :=
  { s with toStopWatching := s.toStopWatching ++ [tid] }

/-! ### `start_sample` -/

/-- An element of `to_start_watching_`, with its position: the new entry stays if all its events
can be opened. -/
def startOne (env : SampleEnv) (s : CacheMiss) (request : Int × Nat) : CacheMiss :=
  if s.cacheMissData.contains request.1 then s
  else
    let (data, events, ok) :=
      ({ tid := request.1 } : CacheMissData).openFd (env.openFd request.1 request.2)
    { s with
      cacheMissData := if ok then s.cacheMissData.insert request.1 data else s.cacheMissData
      fdEvents := s.fdEvents ++ events }

/-- An element of `to_stop_watching_`. -/
def stopOne (s : CacheMiss) (tid : Int) : CacheMiss :=
  match s.cacheMissData[tid]? with
  | none => s
  | some data => { s with
      cacheMissData := s.cacheMissData.erase tid
      fdEvents := s.fdEvents ++ data.clearFd }

/-- The first two loops of `start_sample`. -/
def applyRequests (s : CacheMiss) (env : SampleEnv) : CacheMiss :=
  let s := s.toStartWatching.zipIdx.foldl (startOne env) s
  let s := s.toStopWatching.foldl stopOne s
  { s with toStartWatching := [], toStopWatching := [] }

/-- A loop that reads the events of every thread: a thread whose reads fail is to be stopped. -/
def readAll (s : CacheMiss) (read : Int → CacheMissData → CacheMissData × Bool) : CacheMiss :=
  { s with
    cacheMissData := s.cacheMissData.map fun tid data => (read tid data).1
    toStopWatching := s.toStopWatching ++
      (s.cacheMissData.toList.filter fun (tid, data) => !(read tid data).2).map Prod.fst }

def startSample (s : CacheMiss) (env : SampleEnv) : CacheMiss :=
  (s.applyRequests env).readAll fun tid data => data.firstRead (env.first tid)

/-! ### `stop_sample` -/

/-- `stop_sample`, and what it passes to the callback. -/
def stopSample (s : CacheMiss) (env : SampleEnv) : CacheMiss × List CacheMissData :=
  let s := s.readAll fun tid data => data.secondRead (env.second tid)
  (s, if s.callbackFunc = .null then [] else s.cacheMissData.toList.map Prod.snd)

def clear (s : CacheMiss) : CacheMiss :=
  { s with
    cacheMissData := ∅
    toStartWatching := []
    toStopWatching := []
    hasData := false
    fdEvents := s.fdEvents ++ s.cacheMissData.toList.flatMap fun (_, data) => data.clearFd }

/-- `refresh`, a round, and what it passes to the callback. -/
def refresh (s : CacheMiss) (env : SampleEnv) : CacheMiss × List CacheMissData :=
  let (s, published) := (s.startSample env).stopSample env
  ({ s with hasData := true }, published)

/-! ### Operations -/

inductive Op where
  | setCallback (callbackFunc : Callback)
  | startWatching (tid : Int)
  | stopWatching (tid : Int)
  | clear
  | refresh (env : SampleEnv)

def step (s : CacheMiss) : Op → CacheMiss
  | .setCallback callbackFunc => { s with callbackFunc := callbackFunc }
  | .startWatching tid => s.startWatching tid
  | .stopWatching tid => s.stopWatching tid
  | .clear => s.clear
  | .refresh env => (s.refresh env).1

end CacheMiss

end LibVsf
