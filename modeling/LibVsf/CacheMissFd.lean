import LibVsf.CacheMissProof
import LibVsf.Lib.Handles
import Mathlib.Algebra.Order.Group.Multiset

/-!
# The file descriptors of `CacheMiss`

`CacheMiss` records four descriptors for each entry of `cache_miss_data_`. It opens them when the
entry is made, in `start_sample`, and closes them when it is erased, in `start_sample` or `clear`;
an entry whose events cannot all be opened closes those it has opened.

**Theorem (`fds_accounted`).** After any operations of a sampler, with the kernel giving only
descriptors that are not open, the descriptors that are open are exactly those recorded, pairwise
different, and every other has been closed exactly once since it was opened.

The invariant is `Turns 0 s.fdLog s.recorded`: only open descriptors have been closed, and those
left open are the recorded ones. Each pass of `start_sample` and `clear` extends the log by a piece
that moves `recorded` along with it.
-/

namespace LibVsf

open Std Runs Handles

/-! ## The log -/

def FdEvent.toEvent : FdEvent → Handles.Event Int
  | .opened fd => .acquired fd
  | .closed fd => .released fd

namespace CacheMissData

/-- The descriptors of the events. -/
def fdsOf (d : CacheMissData) (es : List PerfEvent) : List Int := es.map fun e => (d.event e).fd

/-- The four descriptors of an entry. -/
def fds (d : CacheMissData) : List Int := d.fdsOf PerfEvent.all

end CacheMissData

namespace CacheMiss

open CacheMissData

/-- What has happened to the descriptors, in order. -/
def fdLog (s : CacheMiss) : List (Handles.Event Int) := s.fdEvents.map FdEvent.toEvent

def recordedIn (m : ExtTreeMap Int CacheMissData) : Multiset Int :=
  ((m.toList.flatMap fun p => p.2.fds : List Int) : Multiset Int)

/-- The descriptors recorded in the entries. -/
def recorded (s : CacheMiss) : Multiset Int := recordedIn s.cacheMissData

/-- The operations of a sampler, the two halves of a round on their own. -/
inductive SampleOp where
  | startWatching (tid : Int)
  | stopWatching (tid : Int)
  | startSample (env : SampleEnv)
  | stopSample (env : SampleEnv)
  | clear

def sampleStep (s : CacheMiss) : SampleOp → CacheMiss
  | .startWatching tid => s.startWatching tid
  | .stopWatching tid => s.stopWatching tid
  | .startSample env => s.startSample env
  | .stopSample env => (s.stopSample env).1
  | .clear => s.clear

end CacheMiss

/-! ## Opening and closing the events of a thread -/

namespace CacheMissData

/-- Setting the member of another event keeps the descriptors. -/
theorem fdsOf_setEvent (d : CacheMissData) {e : PerfEvent} {es : List PerfEvent} (he : e ∉ es)
    (p : PerfData) : (d.setEvent e p).fdsOf es = d.fdsOf es := by
  refine List.map_congr_left fun e' he' => ?_
  have hne : e' ≠ e := fun heq => he (heq ▸ he')
  simp [setEvent, hne]

/-- **What the opens of an entry do**: those that are left are open if all succeed, and otherwise
nothing of the entry is. -/
theorem turns_openEvents (fd : PerfEvent → Int) {opened rest : List PerfEvent}
    (hnodup : (opened ++ rest).Nodup) (d : CacheMissData) (hs : Multiset Int) :
    Turns ((d.fdsOf opened : Multiset Int) + hs)
      ((openEvents fd opened rest d).2.1.map FdEvent.toEvent)
      (if (openEvents fd opened rest d).2.2 then
        ((openEvents fd opened rest d).1.fdsOf (opened ++ rest) : Multiset Int) + hs
      else hs) := by
  induction rest generalizing opened d with
  | nil => simpa [openEvents] using turns_nil _
  | cons e rest ih =>
    have he : e ∉ opened := by
      intro hmem
      exact (List.disjoint_of_nodup_append hnodup) hmem List.mem_cons_self
    have hkeep := d.fdsOf_setEvent he { d.event e with fd := fd e }
    simp only [openEvents]
    by_cases hfail : fd e < 0
    · -- The open fails, and those before it are undone.
      have hclose : (opened.map fun e' => FdEvent.closed
          ((d.setEvent e { d.event e with fd := fd e }).event e').fd).map FdEvent.toEvent =
          (d.fdsOf opened).map .released := by
        rw [← hkeep]
        simp only [fdsOf, List.map_map]
        rfl
      simp only [hfail, if_true]
      rw [hclose]
      exact turns_released hs _
    · have hsnoc : opened ++ e :: rest = (opened ++ [e]) ++ rest := by simp
      have hfds : ((d.setEvent e { d.event e with fd := fd e }).fdsOf (opened ++ [e]) :
          Multiset Int) + hs = fd e ::ₘ ((d.fdsOf opened : Multiset Int) + hs) := by
        have hlast : (d.setEvent e { d.event e with fd := fd e }).fdsOf [e] = [fd e] := by
          simp [fdsOf, setEvent]
        rw [fdsOf, List.map_append, ← fdsOf, ← fdsOf, hkeep, hlast, ← Multiset.coe_add,
          Multiset.coe_singleton, add_right_comm, add_comm _ {fd e}, Multiset.singleton_add]
      rw [hsnoc] at hnodup ⊢
      have hrest := ih hnodup (d.setEvent e { d.event e with fd := fd e })
      rw [hfds] at hrest
      simp only [hfail, if_false]
      exact (turns_acquired _ (fd e)).append hrest

theorem turns_openFd (d : CacheMissData) (fd : PerfEvent → Int) (hs : Multiset Int) :
    Turns hs ((d.openFd fd).2.1.map FdEvent.toEvent)
      (if (d.openFd fd).2.2 then ((d.openFd fd).1.fds : Multiset Int) + hs else hs) := by
  have hnodup : ([] ++ PerfEvent.all).Nodup := PerfEvent.nodup_all
  have h := turns_openEvents fd hnodup d hs
  rw [show d.fdsOf [] = [] from rfl, Multiset.coe_nil, zero_add] at h
  exact h

theorem turns_clearFd (d : CacheMissData) (hs : Multiset Int) :
    Turns ((d.fds : Multiset Int) + hs) (d.clearFd.map FdEvent.toEvent) hs := by
  have h := turns_released hs d.fds
  simpa [fds, fdsOf, clearFd, Function.comp_def, FdEvent.toEvent] using h

theorem fds_congr {d d' : CacheMissData} (h : ∀ e, (d.event e).fd = (d'.event e).fd) :
    d.fds = d'.fds :=
  List.map_congr_left fun e _ => h e

/-- Reads change no descriptor. -/
theorem fds_firstRead (d : CacheMissData) (value : PerfEvent → Option UInt64) :
    (d.firstRead value).1.fds = d.fds := by
  refine fds_congr fun e => ?_
  rw [firstRead_eq]
  split_ifs
  · rw [event_mapEvents]
  · simp only [clearData]
    rw [event_mapEvents]
    rfl

theorem fds_secondRead (d : CacheMissData) (value : PerfEvent → Option UInt64) :
    (d.secondRead value).1.fds = d.fds := by
  refine fds_congr fun e => ?_
  rw [secondRead_eq]
  split_ifs
  · rw [event_updateMissRate, event_mapEvents]
    rfl
  · simp only [clearData]
    rw [event_mapEvents]
    rfl

end CacheMissData

/-! ## The invariant -/

namespace CacheMiss

open CacheMissData

theorem recordedIn_insert {m : ExtTreeMap Int CacheMissData} {tid : Int} (h : m[tid]? = none)
    (d : CacheMissData) : recordedIn (m.insert tid d) = (d.fds : Multiset Int) + recordedIn m := by
  have hperm := (Maps.toList_insert_perm d h).flatMap_right fun p => p.2.fds
  exact Multiset.coe_eq_coe.2 hperm

theorem recordedIn_erase {m : ExtTreeMap Int CacheMissData} {tid : Int} {d : CacheMissData}
    (h : m[tid]? = some d) :
    recordedIn m = (d.fds : Multiset Int) + recordedIn (m.erase tid) := by
  have hperm := (Maps.toList_perm_erase h).flatMap_right fun p => p.2.fds
  exact Multiset.coe_eq_coe.2 hperm

/-- Only open descriptors have been closed, and those left open are the recorded ones. -/
def Accounted (s : CacheMiss) : Prop := Turns 0 s.fdLog s.recorded

theorem Accounted.extend {s s' : CacheMiss} {events : List FdEvent} (h : s.Accounted)
    (hlog : s'.fdEvents = s.fdEvents ++ events)
    (hturns : Turns s.recorded (events.map FdEvent.toEvent) s'.recorded) : s'.Accounted := by
  have hfd : s'.fdLog = s.fdLog ++ events.map FdEvent.toEvent := by
    simp only [fdLog, hlog, List.map_append]
  simp only [Accounted]
  rw [hfd]
  exact h.append hturns

theorem accounted_startOne {s : CacheMiss} (h : s.Accounted) (env : SampleEnv)
    (request : Int × Nat) : (startOne env s request).Accounted := by
  simp only [startOne]
  split_ifs with hmem hok
  · exact h
  · have hnone : s.cacheMissData[request.1]? = none :=
      ExtTreeMap.getElem?_eq_none_of_contains_eq_false (Bool.eq_false_iff.2 hmem)
    have hturns := turns_openFd { tid := request.1 } (env.openFd request.1 request.2) s.recorded
    rw [if_pos hok] at hturns
    refine h.extend rfl ?_
    show Turns s.recorded _ (recordedIn (s.cacheMissData.insert request.1 _))
    rw [recordedIn_insert hnone]
    exact hturns
  · have hturns := turns_openFd { tid := request.1 } (env.openFd request.1 request.2) s.recorded
    rw [if_neg hok] at hturns
    exact h.extend rfl hturns

theorem accounted_stopOne {s : CacheMiss} (h : s.Accounted) (tid : Int) :
    (stopOne s tid).Accounted := by
  simp only [stopOne]
  cases hd : s.cacheMissData[tid]? with
  | none => exact h
  | some d =>
    have hturns := turns_clearFd d (recordedIn (s.cacheMissData.erase tid))
    rw [← recordedIn_erase hd] at hturns
    exact h.extend rfl hturns

theorem accounted_readAll {s : CacheMiss} (h : s.Accounted)
    {read : Int → CacheMissData → CacheMissData × Bool}
    (hread : ∀ tid d, (read tid d).1.fds = d.fds) : (s.readAll read).Accounted := by
  have hrecorded : (s.readAll read).recorded = s.recorded := by
    simp only [recorded, recordedIn, readAll]
    rw [ExtTreeMap.toList_map, List.flatMap_map]
    simp only [hread]
  have hlog : (s.readAll read).fdEvents = s.fdEvents ++ [] := (List.append_nil _).symm
  refine h.extend hlog ?_
  rw [hrecorded]
  exact turns_nil _

theorem accounted_clear {s : CacheMiss} (h : s.Accounted) : s.clear.Accounted := by
  have hturns := turns_released 0 (s.cacheMissData.toList.flatMap fun p => p.2.fds)
  rw [add_zero] at hturns
  refine h.extend rfl ?_
  show Turns s.recorded _ (recordedIn ∅)
  rw [show recordedIn ∅ = 0 from rfl]
  simpa [List.map_flatMap, Function.comp_def, fds, fdsOf, clearFd, FdEvent.toEvent,
    recorded, recordedIn] using hturns

theorem accounted_step {s : CacheMiss} (h : s.Accounted) (op : SampleOp) :
    (s.sampleStep op).Accounted := by
  cases op with
  | startWatching tid | stopWatching tid => exact h
  | startSample env =>
    have hstart := run_invariant (startOne env) h (fun _ request h =>
      accounted_startOne h env request) s.toStartWatching.zipIdx
    have hstop := run_invariant stopOne hstart (fun _ tid h => accounted_stopOne h tid)
    exact accounted_readAll (s := s.applyRequests env) (hstop _) fun tid d => fds_firstRead d _
  | stopSample env => exact accounted_readAll h fun tid d => fds_secondRead d _
  | clear => exact accounted_clear h

theorem accounted_init (callbackFunc : Callback) :
    Accounted { callbackFunc := callbackFunc } :=
  turns_nil 0

/-- What the descriptors of a sampler are to satisfy: those open are those recorded. -/
structure FdsAccounted (s : CacheMiss) : Prop where
  open_eq : held s.fdLog = s.recorded
  nodup : s.recorded.Nodup
  /-- Every close is of a descriptor that is open then. -/
  close_open : Proper s.fdLog
  /-- A descriptor that is opened is closed once before its number is opened again, or not at all
  if it is recorded still. -/
  close_once : ∀ pre rest fd, s.fdLog = pre ++ .acquired fd :: rest →
    (tenure fd rest).count (.released fd) = if .acquired fd ∉ rest ∧ fd ∈ s.recorded then 0 else 1

/-- **Descriptors are neither lost nor closed twice**, if the kernel opens only descriptors that
are not open. -/
theorem fds_accounted (callbackFunc : Callback) (ops : List SampleOp)
    (hkernel : Fresh (run sampleStep { callbackFunc := callbackFunc } ops).fdLog) :
    FdsAccounted (run sampleStep { callbackFunc := callbackFunc } ops) := by
  have haccounted := run_invariant sampleStep (accounted_init callbackFunc)
    (fun _ op h => accounted_step h op) ops
  generalize run sampleStep { callbackFunc := callbackFunc } ops = s at hkernel haccounted ⊢
  have hheld : held s.fdLog = s.recorded := haccounted.run_eq
  refine ⟨hheld, ?_, haccounted.proper, ?_⟩
  · rw [← hheld]
    exact hkernel.nodup_held
  · intro pre rest fd hlog
    rw [← hheld]
    exact released_once hkernel haccounted.proper hlog

/-- The kernel gives thread `tid` the descriptors from `4 * tid` on; the last open of thread 2
fails. -/
def fdEnv : SampleEnv where
  openFd := fun tid _ e => if tid = 2 ∧ e = .cacheReferences then -1
    else 4 * tid + PerfEvent.all.idxOf e
  first := fun _ _ => some 0
  second := fun _ _ => some 5

/-- Thread 1 is sampled, stopped twice and sampled again with the same descriptors. -/
theorem fds_accounted_reopened :
    FdsAccounted (run sampleStep {} [.startWatching 1, .startWatching 2, .startSample fdEnv,
      .stopWatching 1, .stopWatching 1, .startSample fdEnv, .startWatching 1,
      .startSample fdEnv, .stopSample fdEnv]) :=
  fds_accounted .null _ (by decide +kernel)

end CacheMiss

end LibVsf
