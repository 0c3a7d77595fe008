import LibVsf.CpuUsageUnknown
import Mathlib.Data.List.Nodup

/-!
# `CpuUsage`: the refreshes a percentage is made of

A percentage divides what a thread got between two readings of its CPU time by what the system had
between two readings of its own. `refresh_system` moves the system's readings on before procps is
asked for the threads, and `refresh` does not undo that when `openproc` fails.

A run is followed by the number of the refresh at which each reading was taken: `Genuine` says that
what is kept is what was read there.

* `quotients_returned`: what a refresh that returns divides, for the threads and the processes.
* `matched_iff`: over every run of a caller that goes on after an exception, the two readings of the
  system and the two of a thread that a percentage is made of are from the same two refreshes,
  exactly when no refresh that returns divides the time of a thread that was read before the last
  failure of `openproc`.

The time of a process is the sum of those of its threads, so its percentage is made of the same
readings.

* `untouched_iff`: when a refresh that throws leaves the times, the threads' data and the count as
  they were. That is another condition: a callback that throws has let the refresh read all it
  divides.
-/

namespace LibVsf

open Std Runs

namespace CpuUsage

/-! ## What a refresh reads -/

/-- The refresh reads the system's times and the threads'. -/
structure ReadsAll (s : CpuUsage) (env : Env) (stat : Stat) (l : Listing) (s' : CpuUsage) :
    Prop where
  stat_eq : env.stat = some stat
  listing_eq : s.listing env = some l
  old : s'.totalCpuTimeOld = s.totalCpuTimeNew
  new : s'.totalCpuTimeNew = stat.total
  delta : s'.totalCpuTimeDelta = stat.total - s.totalCpuTimeNew
  cpuNum_eq : s'.cpuNum = s.cpuNum
  record : ∀ tid, s'.threadCpuUsageData[tid]? =
    recordAfter (if s.totalCpuTimeNew = 0 then 0 else stat.total - s.totalCpuTimeNew)
      s.cpuNum l tid s.threadCpuUsageData[tid]?

theorem readsAll_refresh {s s' : CpuUsage} {env : Env} (h : s.refresh env = .ok s') :
    ∃ stat l, ReadsAll s env stat l s' := by
  obtain ⟨stat, l, hstat, hl, hnew, hnum, hrecord⟩ := refresh_ok h
  obtain ⟨stat', s₁, hstat', hrest, rfl⟩ := rest_refresh h
  obtain rfl : stat = stat' := Option.some.inj (hstat.symm.trans hstat')
  refine ⟨stat, l, hstat, hl, ?_, hnew, ?_, hnum, hrecord⟩
  · exact (eq_of_rest totalCpuTimeOld (fun _ => rfl) hrest).trans rfl
  · exact (eq_of_rest totalCpuTimeDelta (fun _ => rfl) hrest).trans rfl

/-- The earlier of the two times of a record. -/
def earlierTime (data : Option ThreadCpuUsageData) : UInt64 := (data.getD {}).proctimeOld

/-- A thread that is read for the first time has the time twice. -/
theorem earlierTime_recordAfter (sysCpu cpuNum : UInt32) {l : Listing} {tid : Int} {time : UInt64}
    (data : Option ThreadCpuUsageData) (h : l.reading tid = some time) :
    earlierTime (recordAfter sysCpu cpuNum l tid data) =
      if lastTime data = 0 then time else lastTime data := by
  obtain ⟨task, htask, rfl⟩ := Option.map_eq_some_iff.1 h
  simp only [recordAfter, htask]
  cases data <;> rfl

theorem reading_of_mem {l : Listing} {tid : Int} (h : tid ∈ l.tids) :
    ∃ time, l.reading tid = some time := by
  obtain ⟨task, htask, rfl⟩ := List.mem_map.1 h
  have hsome : (l.task? task.tid).isSome := List.find?_isSome.2 ⟨task, htask, by simp⟩
  exact Option.isSome_iff_exists.1 (by simpa [Listing.reading] using hsome)

theorem reading_of_not_mem {l : Listing} {tid : Int} (h : tid ∉ l.tids) : l.reading tid = none := by
  rw [Listing.reading, Listing.task?_eq_none h]
  rfl

/-! ## What a refresh divides -/

/-- What a task adds to the time of its process: nothing when it is read for the first time. -/
def taskDelta (data : Option ThreadCpuUsageData) (task : Task) : Int32 :=
  let time := task.utime + task.stime
  (time - if lastTime data = 0 then time else lastTime data).toUInt32.toInt32

/-- The time of a process, as the loop over its tasks adds it up. -/
def processTime (s : CpuUsage) (proc : Proc) : Int32 :=
  (proc.tasks.map fun task => taskDelta s.threadCpuUsageData[task.tid]? task).sum

theorem getD_setProcess (s : CpuUsage) (pid : Int) (usage : Int32) :
    (s.setProcess pid usage).processCpuUsageData.getD pid 0 = usage := by
  rw [ExtTreeMap.getD_eq_getD_getElem?, getElem?_setProcess, if_pos rfl]
  rfl

theorem getElem?_readTask (pid : Int) (s : CpuUsage) (task : Task) {tid : Int}
    (h : tid ≠ task.tid) :
    (readTask pid s task).threadCpuUsageData[tid]? = s.threadCpuUsageData[tid]? := by
  show (s.threadCpuUsageData.insert task.tid _)[tid]? = _
  rw [ExtTreeMap.getElem?_insert, if_neg]
  rw [LawfulEqCmp.compare_eq_iff_eq]
  exact Ne.symm h

theorem getD_readTask (pid : Int) (s : CpuUsage) (task : Task) :
    (readTask pid s task).processCpuUsageData.getD pid 0 =
      s.processCpuUsageData.getD pid 0 + taskDelta s.threadCpuUsageData[task.tid]? task := by
  simp only [readTask]
  rw [getD_setProcess, taskDelta, lastTime, ← ExtTreeMap.getD_eq_getD_getElem?]
  rfl

theorem getD_foldl_readTask (pid : Int) {tasks : List Task} (h : (tasks.map Task.tid).Nodup)
    (s : CpuUsage) : (tasks.foldl (readTask pid) s).processCpuUsageData.getD pid 0 =
      s.processCpuUsageData.getD pid 0 +
        (tasks.map fun task => taskDelta s.threadCpuUsageData[task.tid]? task).sum := by
  induction tasks generalizing s with
  | nil => exact (Int32.add_zero _).symm
  | cons task tasks ih =>
    obtain ⟨hfirst, hnodup⟩ := List.nodup_cons.1 h
    have hothers : (tasks.map fun task' =>
          taskDelta (readTask pid s task).threadCpuUsageData[task'.tid]? task') =
        tasks.map fun task' => taskDelta s.threadCpuUsageData[task'.tid]? task' := by
      refine List.map_congr_left fun task' htask' => ?_
      have hne : task'.tid ≠ task.tid := fun heq => hfirst (List.mem_map.2 ⟨task', htask', heq⟩)
      rw [getElem?_readTask pid s task hne]
    rw [List.foldl_cons, ih hnodup, hothers, getD_readTask, List.map_cons, List.sum_cons,
      Int32.add_assoc]

/-- The percentage of a process. -/
def processShare (time : Int32) (cnt cpuNum delta : UInt32) : Int32 :=
  (time.toUInt32 / cnt * 100 * cpuNum / delta).toInt32

theorem processShare_readProc {s s' : CpuUsage} {proc : Proc} (h : s.readProc proc = .ok s')
    (hnodup : (proc.tasks.map Task.tid).Nodup) (hold : s.totalCpuTimeOld ≠ 0)
    (hdelta : s.totalCpuTimeDelta ≠ 0) : s'.processCpuUsageData[proc.tid]? =
      some (processShare (s.processTime proc) proc.cnt s.cpuNum s.totalCpuTimeDelta) := by
  have hrest := s.rest_readTasks proc
  have htotal := eq_of_rest totalCpuTimeOld (fun _ => rfl) hrest
  have hsys := eq_of_rest totalCpuTimeDelta (fun _ => rfl) hrest
  have hnum := eq_of_rest cpuNum (fun _ => rfl) hrest
  have htime : (s.readTasks proc).processCpuUsageData.getD proc.tid 0 = s.processTime proc := by
    have hsum := getD_foldl_readTask proc.tid hnodup (s.setProcess proc.tid 0)
    rw [getD_setProcess, Int32.zero_add] at hsum
    exact hsum
  unfold readProc shareProcess at h
  rw [htotal, hsys, hnum, htime] at h
  split_ifs at h with hnone
  · exact absurd hnone (not_or.2 ⟨hold, hdelta⟩)
  · rw [← Except.ok.inj h, getElem?_setProcess, if_pos rfl]
    rfl

/-- The records of the threads that a process does not have. -/
theorem processTime_readProc {s s' : CpuUsage} {proc proc' : Proc} (h : s.readProc proc = .ok s')
    (hdisjoint : ∀ task ∈ proc'.tasks, task.tid ∉ proc.tasks.map Task.tid)
    (hnodup : (proc.tasks.map Task.tid).Nodup) : s'.processTime proc' = s.processTime proc' := by
  obtain ⟨hdata, -⟩ := readProc_ok h
  refine congrArg List.sum (List.map_congr_left fun task htask => ?_)
  have hfold := Maps.getElem?_foldl_insert Task.tid (sampled s.getTotalCpuTimeDelta s.cpuNum)
    hnodup s.threadCpuUsageData task.tid
  have hnone : proc.tasks.find? (fun task' => task'.tid = task.tid) = none := by
    refine List.find?_eq_none.2 fun task' htask' heq => hdisjoint task htask ?_
    exact List.mem_map.2 ⟨task', htask', of_decide_eq_true heq⟩
  rw [hnone] at hfold
  rw [hdata]
  exact congrArg (taskDelta · task) hfold

/-- A process that is returned gets the percentage of an entry it has in the listing. -/
theorem processShare_readProcs {s s' : CpuUsage} {procs : List Proc}
    (h : runE readProc s procs = .ok s')
    (hnodup : ((procs.flatMap Proc.tasks).map Task.tid).Nodup) (hold : s.totalCpuTimeOld ≠ 0)
    (hdelta : s.totalCpuTimeDelta ≠ 0) {pid : Int} (hpid : pid ∈ procs.map Proc.tid) :
    ∃ proc ∈ procs, proc.tid = pid ∧ s'.processCpuUsageData[pid]? =
      some (processShare (s.processTime proc) proc.cnt s.cpuNum s.totalCpuTimeDelta) := by
  induction procs generalizing s with
  | nil => cases hpid
  | cons proc procs ih =>
    obtain ⟨s₁, hproc, hrest⟩ := (runE_cons_ok readProc).1 h
    rw [List.flatMap_cons, List.map_append, List.nodup_append] at hnodup
    obtain ⟨hfirst, hothers, hdisjoint⟩ := hnodup
    by_cases hlater : pid ∈ procs.map Proc.tid
    · have hsame := rest_readProc hproc
      rw [← eq_of_rest totalCpuTimeOld (fun _ => rfl) hsame] at hold
      rw [← eq_of_rest totalCpuTimeDelta (fun _ => rfl) hsame] at hdelta ⊢
      rw [← eq_of_rest cpuNum (fun _ => rfl) hsame]
      obtain ⟨proc', hproc', rfl, hshare⟩ := ih hrest hothers hold hdelta hlater
      refine ⟨proc', List.mem_cons_of_mem _ hproc', rfl, ?_⟩
      rw [hshare, processTime_readProc hproc (fun task htask hmem => ?_) hfirst]
      have htask' : task.tid ∈ (procs.flatMap Proc.tasks).map Task.tid :=
        List.mem_map.2 ⟨task, List.mem_flatMap.2 ⟨proc', hproc', htask⟩, rfl⟩
      exact hdisjoint _ hmem _ htask' rfl
    · obtain rfl | hmem := List.mem_cons.1 hpid
      · refine ⟨proc, List.mem_cons_self, rfl, ?_⟩
        rw [(returned_readProcs hrest).kept _ hlater,
          processShare_readProc hproc hfirst hold hdelta]
      · exact absurd hmem hlater

/-- The system had time between the readings, so that the percentages are quotients. -/
def HasDelta (s : CpuUsage) (env : Env) : Prop :=
  s.totalCpuTimeNew ≠ 0 ∧ env.stat.map Stat.total ≠ some s.totalCpuTimeNew

/-- The time between the two readings that are kept of the system. -/
def systemDelta (s : CpuUsage) : UInt32 := s.totalCpuTimeNew - s.totalCpuTimeOld

/-- The time between the two readings that are kept of a thread. -/
def threadDelta (s : CpuUsage) (tid : Int) : UInt32 :=
  (lastTime s.threadCpuUsageData[tid]? - earlierTime s.threadCpuUsageData[tid]?).toUInt32

/-- The percentages that a refresh leaves for what it listed are quotients of the readings kept. -/
structure Quotients (s : CpuUsage) (env : Env) (l : Listing) (s' : CpuUsage) : Prop where
  thread : HasDelta s env → ∀ tid ∈ l.tids,
    s'.threadCpuUsageData[tid]?.map ThreadCpuUsageData.cpuUsage =
      some (s'.threadDelta tid * 100 * s'.cpuNum / s'.systemDelta).toInt32
  process : HasDelta s env → ∀ pid ∈ l.pids, ∃ proc ∈ l.procs, proc.tid = pid ∧
    s'.processCpuUsageData[pid]? = some (processShare
      (proc.tasks.map fun task => (s'.threadDelta task.tid).toInt32).sum
      proc.cnt s'.cpuNum s'.systemDelta)

/-- The task of a thread that is listed. -/
theorem task?_of_mem {l : Listing} {task : Task} (h : task ∈ l.tasks) :
    l.task? task.tid = some task := by
  obtain ⟨task', htask'⟩ : ∃ task', l.task? task.tid = some task' :=
    Option.isSome_iff_exists.1 (List.find?_isSome.2 ⟨task, h, by simp⟩)
  have hfind : l.tasks.find? (fun t => t.tid = task.tid) = some task' := htask'
  have htid : task'.tid = task.tid := by simpa using List.find?_some hfind
  rw [htask', List.inj_on_of_nodup_map l.nodup_tids (List.mem_of_find?_eq_some hfind) h htid]

/-- What a task adds to the time of its process is the time between its two readings. -/
theorem threadDelta_of_listed {s s' : CpuUsage} {env : Env} {stat : Stat} {l : Listing}
    (hread : ReadsAll s env stat l s') {task : Task} (h : task ∈ l.tasks) :
    (s'.threadDelta task.tid).toInt32 = taskDelta s.threadCpuUsageData[task.tid]? task := by
  have hreading : l.reading task.tid = some (task.utime + task.stime) := by
    rw [Listing.reading, task?_of_mem h]
    rfl
  rw [threadDelta, hread.record, lastTime_recordAfter, earlierTime_recordAfter _ _ _ hreading,
    hreading]
  rfl

/-- The percentage of a record, by its two times. -/
theorem cpuUsage_sampled {sysCpu : UInt32} (cpuNum : UInt32) (data : Option ThreadCpuUsageData)
    (task : Task) (h : sysCpu ≠ 0) : (sampled sysCpu cpuNum data task).cpuUsage =
      ((lastTime (some (sampled sysCpu cpuNum data task)) -
        earlierTime (some (sampled sysCpu cpuNum data task))).toUInt32 * 100 * cpuNum
          / sysCpu).toInt32 := by
  simp only [sampled, ThreadCpuUsageData.update, if_neg h]
  rfl

theorem quotients_returned {s s' : CpuUsage} {env : Env} {l : Listing} (h : s.refresh env = .ok s')
    (hl : s.listing env = some l) : Quotients s env l s' := by
  obtain ⟨stat, l', hread⟩ := readsAll_refresh h
  obtain rfl : l = l' := Option.some.inj (hl.symm.trans hread.listing_eq)
  have hsystem : s'.systemDelta = stat.total - s.totalCpuTimeNew := by
    rw [systemDelta, hread.new, hread.old]
  have hne (hdelta : HasDelta s env) : stat.total - s.totalCpuTimeNew ≠ 0 := by
    intro hzero
    refine hdelta.2 ?_
    rw [hread.stat_eq, Option.map_some, ← UInt32.sub_add_cancel stat.total s.totalCpuTimeNew, hzero,
      UInt32.zero_add]
  refine ⟨fun hdelta tid htid => ?_, fun hdelta pid hpid => ?_⟩
  · obtain ⟨task, htask, rfl⟩ := List.mem_map.1 htid
    rw [threadDelta, hsystem, hread.cpuNum_eq, hread.record, if_neg hdelta.1]
    simp only [recordAfter, task?_of_mem htask, Option.map_some]
    exact congrArg some (cpuUsage_sampled _ _ task (hne hdelta))
  · obtain ⟨stat', l', s₁, hstat', hl', hloop, hsame⟩ := loop_refresh h
    obtain rfl : stat = stat' := Option.some.inj (hread.stat_eq.symm.trans hstat')
    obtain rfl : l = l' := Option.some.inj (hl.symm.trans hl')
    obtain ⟨proc, hproc, hpid', hshare⟩ :=
      processShare_readProcs hloop l.nodup_tids hdelta.1 (hne hdelta) hpid
    refine ⟨proc, hproc, hpid', ?_⟩
    have htime : (s.systemRead stat).refreshWatching.invalidate.processTime proc =
        (proc.tasks.map fun task => (s'.threadDelta task.tid).toInt32).sum := by
      refine congrArg List.sum (List.map_congr_left fun task htask => ?_)
      rw [threadDelta_of_listed hread (List.mem_flatMap.2 ⟨proc, hproc, htask⟩), taskDelta,
        taskDelta]
      have hbefore : (s.systemRead stat).refreshWatching.invalidate.threadCpuUsageData[task.tid]? =
          s.threadCpuUsageData[task.tid]?.map fun d => { d with valid := false } :=
        ExtTreeMap.getElem?_map
      rw [hbefore, Tracked.lastTime_invalidated]
    rw [hsame, hshare, htime, hsystem, hread.cpuNum_eq]
    rfl

/-! ## What a refresh that throws leaves -/

/-- The times, the data of the threads and the count are the same. -/
structure Untouched (s s' : CpuUsage) : Prop where
  total : s'.totalCpuTimeOld = s.totalCpuTimeOld ∧ s'.totalCpuTimeNew = s.totalCpuTimeNew ∧
    s'.totalCpuTimeDelta = s.totalCpuTimeDelta
  idle : s'.idleTimeOld = s.idleTimeOld ∧ s'.idleTimeNew = s.idleTimeNew ∧
    s'.idleTimeDelta = s.idleTimeDelta
  threads : ∀ tid : Int, s'.threadCpuUsageData[tid]? = s.threadCpuUsageData[tid]?
  count : s'.hasDataCnt = s.hasDataCnt

/-- The system has had no time since the two readings that are kept. -/
structure Standing (s : CpuUsage) (stat : Stat) : Prop where
  total : s.totalCpuTimeOld = s.totalCpuTimeNew ∧ s.totalCpuTimeNew = stat.total ∧
    s.totalCpuTimeDelta = 0
  idle : s.idleTimeOld = s.idleTimeNew ∧ s.idleTimeNew = stat.idle.toUInt32 ∧
    s.idleTimeDelta = 0

/-- Readings that are moved on stay the same if they repeat. -/
theorem moved_iff {old new delta read : UInt32} :
    (new = old ∧ read = new ∧ read - new = delta) ↔ (old = new ∧ new = read ∧ delta = 0) := by
  constructor
  · rintro ⟨rfl, rfl, rfl⟩
    exact ⟨rfl, rfl, UInt32.sub_self _⟩
  · rintro ⟨rfl, rfl, rfl⟩
    exact ⟨rfl, rfl, UInt32.sub_self _⟩

/-- **A refresh that throws changes nothing** exactly if it does not get as far as reading the
system, or the system's times stand still and the threads, where they are read, are as before. -/
theorem untouched_iff {s s' : CpuUsage} {round : Round} {ended : Ended}
    (h : s.tryRefresh round = .ok (s', ended)) (hthrew : ended ≠ .returned) :
    Untouched s s' ↔ ∀ stat, round.env.stat = some stat → Standing s stat ∧
      ∀ l, s.listing round.env = some l → ∀ tid : Int,
        recordAfter (if s.totalCpuTimeNew = 0 then 0 else stat.total - s.totalCpuTimeNew) s.cpuNum
          l tid s.threadCpuUsageData[tid]? = s.threadCpuUsageData[tid]? := by
  cases tryRefresh_cases h with
  | returned hrefresh => exact absurd rfl hthrew
  | statFailed hstat =>
    refine iff_of_true ⟨⟨rfl, rfl, rfl⟩, ⟨rfl, rfl, rfl⟩, fun _ => rfl, rfl⟩ fun stat hsome => ?_
    rw [hstat] at hsome
    cases hsome
  | @openprocFailed stat hstat hl =>
    constructor
    · rintro ⟨htotal, hidle, -, -⟩ stat' hstat'
      obtain rfl := Option.some.inj (hstat.symm.trans hstat')
      refine ⟨⟨moved_iff.1 htotal, moved_iff.1 hidle⟩, fun l hsome => ?_⟩
      rw [hl] at hsome
      cases hsome
    · intro hstanding
      obtain ⟨htotal, hidle⟩ := (hstanding stat hstat).1
      exact ⟨moved_iff.2 htotal, moved_iff.2 hidle, fun _ => rfl, rfl⟩
  | @callbackThrew s₁ published hrefresh =>
    obtain ⟨stat, l, hread⟩ := readsAll_refresh hrefresh
    obtain ⟨stat', s₂, hstat', hrest, rfl⟩ := rest_refresh hrefresh
    obtain rfl := Option.some.inj (hread.stat_eq.symm.trans hstat')
    have hidle : s₂.idleTimeOld = s.idleTimeNew ∧ s₂.idleTimeNew = stat.idle.toUInt32 ∧
        s₂.idleTimeDelta = stat.idle.toUInt32 - s.idleTimeNew :=
      ⟨eq_of_rest idleTimeOld (fun _ => rfl) hrest, eq_of_rest idleTimeNew (fun _ => rfl) hrest,
        eq_of_rest idleTimeDelta (fun _ => rfl) hrest⟩
    have hold : s₂.totalCpuTimeOld = s.totalCpuTimeNew := hread.old
    have hnew : s₂.totalCpuTimeNew = stat.total := hread.new
    have hdelta : s₂.totalCpuTimeDelta = stat.total - s.totalCpuTimeNew := hread.delta
    constructor
    · rintro ⟨htotal', hidle', hthreads, -⟩ stat' hstat''
      obtain rfl := Option.some.inj (hread.stat_eq.symm.trans hstat'')
      simp only [hold, hnew, hdelta] at htotal'
      simp only [hidle] at hidle'
      refine ⟨⟨moved_iff.1 htotal', moved_iff.1 hidle'⟩, fun l' hl' tid => ?_⟩
      obtain rfl := Option.some.inj (hread.listing_eq.symm.trans hl')
      rw [← hread.record tid]
      exact hthreads tid
    · intro hstanding
      obtain ⟨⟨htotal', hidle'⟩, hsame⟩ := hstanding stat hread.stat_eq
      refine ⟨?_, ?_, fun tid => ?_, rfl⟩
      · simp only [hold, hnew, hdelta]
        exact moved_iff.2 htotal'
      · simp only [hidle]
        exact moved_iff.2 hidle'
      · exact (hread.record tid).trans (hsame l hread.listing_eq tid)

/-! ## Numbered readings -/

/-- What is read at a refresh. -/
structure Reading where
  stat : Option Stat
  listing : Option Listing

/-- The numbers of the refreshes at which two readings were taken. -/
structure Window where
  old : Option Nat := none
  new : Option Nat := none
deriving DecidableEq

/-- The new reading becomes the old one. -/
def Window.next (w : Window) (n : Nat) : Window := ⟨w.new, some n⟩

/-- The sampler, with what the refreshes read and which of it is kept. -/
structure Stamped where
  cpu : CpuUsage
  log : List Reading := []
  system : Window := {}
  threads : Int → Window := fun _ => {}
  /-- Since the last refresh that read the threads, `openproc` has failed. -/
  behind : Bool := false

namespace Stamped

/-- A sampler on a machine with `cpuNum` CPUs. -/
def init (cpuNum : UInt32) : Stamped := { cpu := { cpuNum := cpuNum } }

/-- The windows of the threads after a refresh that reads them, as `update` and `clear_data` treat
the two times. -/
def threadsAfter (t : Stamped) (env : Env) (tid : Int) : Window :=
  if (t.cpu.listing env).any fun l => l.tids.contains tid then
    if lastTime t.cpu.threadCpuUsageData[tid]? = 0 then ⟨some t.log.length, some t.log.length⟩
    else (t.threads tid).next t.log.length
  else {}

/-- After a refresh that leaves `cpu`. -/
def after (t : Stamped) (env : Env) (cpu : CpuUsage) : Ended → Stamped
  | .statFailed => { t with cpu := cpu, log := t.log ++ [⟨none, none⟩] }
  | .openprocFailed => { t with
      cpu := cpu
      log := t.log ++ [⟨env.stat, none⟩]
      system := t.system.next t.log.length
      behind := true }
  | .returned | .callbackThrew => {
      cpu := cpu
      log := t.log ++ [⟨env.stat, t.cpu.listing env⟩]
      system := t.system.next t.log.length
      threads := t.threadsAfter env }

def act (t : Stamped) : Act → Except CpuUsageFailure Stamped
  | .refresh round => (t.cpu.tryRefresh round).map fun r => t.after round.env r.1 r.2
  | .clear => .ok { cpu := t.cpu.clear, log := t.log }
  | .setCallback callbackFunc => .ok { t with cpu := t.cpu.setCallback callbackFunc }
  | .startWatching pid => .ok { t with cpu := t.cpu.startWatching pid }
  | .stopWatching pid => .ok { t with cpu := t.cpu.stopWatching pid }

theorem cpu_after (t : Stamped) (env : Env) (cpu : CpuUsage) (ended : Ended) :
    (t.after env cpu ended).cpu = cpu := by
  cases ended <;> rfl

theorem runE_forget (t : Stamped) (acts : List Act) :
    (runE act t acts).map Stamped.cpu = runE CpuUsage.act t.cpu acts := by
  refine runE_map CpuUsage.act (fun t a => ?_) t acts
  cases a with
  | refresh round =>
    simp only [act, CpuUsage.act]
    cases t.cpu.tryRefresh round with
    | error failure => rfl
    | ok r => exact congrArg Except.ok (t.cpu_after round.env r.1 r.2)
  | setCallback | startWatching | stopWatching | clear => rfl

/-! ## The readings are genuine -/

/-- What refresh `n` read of the system. -/
def statAt (t : Stamped) (n : Nat) : Option Stat := t.log[n]?.bind Reading.stat

/-- The time that refresh `n` read for a thread. -/
def timeAt (t : Stamped) (n : Nat) (tid : Int) : Option UInt64 :=
  t.log[n]?.bind fun r => r.listing.bind fun l => l.reading tid

/-- The readings that are kept were taken at the refreshes of the windows. -/
structure Genuine (t : Stamped) : Prop where
  systemOld : ∀ n, t.system.old = some n → ∃ stat, t.statAt n = some stat ∧
    t.cpu.totalCpuTimeOld = stat.total
  systemNew : ∀ n, t.system.new = some n → ∃ stat, t.statAt n = some stat ∧
    t.cpu.totalCpuTimeNew = stat.total
  threadOld : ∀ tid n, (t.threads tid).old = some n →
    t.timeAt n tid = some (earlierTime t.cpu.threadCpuUsageData[tid]?)
  threadNew : ∀ tid n, (t.threads tid).new = some n →
    t.timeAt n tid = some (lastTime t.cpu.threadCpuUsageData[tid]?)

/-- A longer log has the same entries. -/
theorem bind_append {α : Type} {log : List Reading} {f : Reading → Option α} {n : Nat} {x : α}
    (h : log[n]?.bind f = some x) (r : Reading) : (log ++ [r])[n]?.bind f = some x := by
  obtain ⟨r', hr', hx⟩ := Option.bind_eq_some_iff.1 h
  rw [List.getElem?_append_left (List.getElem?_eq_some_iff.1 hr').1, hr']
  exact hx

theorem bind_last {α : Type} (log : List Reading) (f : Reading → Option α) (r : Reading) :
    (log ++ [r])[log.length]?.bind f = f r := by
  rw [List.getElem?_concat_length]
  rfl

theorem threadsAfter_eq {t : Stamped} {env : Env} {l : Listing} (hl : t.cpu.listing env = some l)
    (tid : Int) : t.threadsAfter env tid =
      if tid ∈ l.tids then
        if lastTime t.cpu.threadCpuUsageData[tid]? = 0 then
          ⟨some t.log.length, some t.log.length⟩
        else (t.threads tid).next t.log.length
      else {} := by
  simp [threadsAfter, hl]

/-- Nothing was read. -/
theorem genuine_statFailed {t : Stamped} (h : t.Genuine) (env : Env) :
    (t.after env t.cpu .statFailed).Genuine := by
  refine ⟨fun n hn => ?_, fun n hn => ?_, fun tid n hn => bind_append (h.threadOld tid n hn) _,
    fun tid n hn => bind_append (h.threadNew tid n hn) _⟩
  · obtain ⟨stat, hstat, htotal⟩ := h.systemOld n hn
    exact ⟨stat, bind_append hstat _, htotal⟩
  · obtain ⟨stat, hstat, htotal⟩ := h.systemNew n hn
    exact ⟨stat, bind_append hstat _, htotal⟩

/-- `openproc` has failed: only the system's times were read. -/
theorem genuine_openprocFailed {t : Stamped} {env : Env} {stat : Stat} (h : t.Genuine)
    (hstat : env.stat = some stat) :
    (t.after env (t.cpu.systemRead stat).refreshWatching .openprocFailed).Genuine := by
  refine ⟨fun n hn => ?_, fun n hn => ?_, fun tid n hn => bind_append (h.threadOld tid n hn) _,
    fun tid n hn => bind_append (h.threadNew tid n hn) _⟩
  · obtain ⟨stat', hstat', htotal⟩ := h.systemNew n hn
    exact ⟨stat', bind_append hstat' _, htotal⟩
  · obtain rfl : t.log.length = n := Option.some.inj hn
    exact ⟨stat, (bind_last _ _ _).trans hstat, rfl⟩

/-- All times were read. -/
theorem genuine_readsAll {t : Stamped} {env : Env} {stat : Stat} {l : Listing} {cpu : CpuUsage}
    (h : t.Genuine) (hread : ReadsAll t.cpu env stat l cpu) :
    (t.after env cpu .returned).Genuine := by
  have hnow (tid : Int) : (t.after env cpu .returned).timeAt t.log.length tid = l.reading tid := by
    refine (bind_last _ _ _).trans ?_
    rw [hread.listing_eq]
    rfl
  refine ⟨fun n hn => ?_, fun n hn => ?_, fun tid n hn => ?_, fun tid n hn => ?_⟩
  · obtain ⟨stat', hstat', htotal⟩ := h.systemNew n hn
    exact ⟨stat', bind_append hstat' _, hread.old.trans htotal⟩
  · obtain rfl : t.log.length = n := Option.some.inj hn
    exact ⟨stat, (bind_last _ _ _).trans hread.stat_eq, hread.new⟩
  · show _ = some (earlierTime cpu.threadCpuUsageData[tid]?)
    have hwindow : (t.threadsAfter env tid).old = some n := hn
    rw [threadsAfter_eq hread.listing_eq] at hwindow
    split_ifs at hwindow with hlisted hzero
    · obtain ⟨time, htime⟩ := reading_of_mem hlisted
      obtain rfl : t.log.length = n := Option.some.inj hwindow
      rw [hnow, hread.record, earlierTime_recordAfter _ _ _ htime, if_pos hzero, htime]
    · obtain ⟨time, htime⟩ := reading_of_mem hlisted
      rw [hread.record, earlierTime_recordAfter _ _ _ htime, if_neg hzero]
      exact bind_append (h.threadNew tid n hwindow) _
  · show _ = some (lastTime cpu.threadCpuUsageData[tid]?)
    have hwindow : (t.threadsAfter env tid).new = some n := hn
    rw [threadsAfter_eq hread.listing_eq] at hwindow
    have hnew (hlisted : tid ∈ l.tids) (hn : t.log.length = n) :
        (t.after env cpu .returned).timeAt n tid =
          some (lastTime cpu.threadCpuUsageData[tid]?) := by
      subst hn
      obtain ⟨time, htime⟩ := reading_of_mem hlisted
      rw [hnow, hread.record, lastTime_recordAfter, htime]
      rfl
    split_ifs at hwindow with hlisted hzero
    · exact hnew hlisted (Option.some.inj hwindow)
    · exact hnew hlisted (Option.some.inj hwindow)

/-! ## Whether the windows match -/

/-- The time of a thread is one that an earlier refresh read, and the windows match unless
`openproc` has failed since. -/
structure Inv (t : Stamped) : Prop where
  genuine : t.Genuine
  numbered : ∀ tid, lastTime t.cpu.threadCpuUsageData[tid]? ≠ 0 →
    ∃ n < t.log.length, (t.threads tid).new = some n
  current : ∀ tid, lastTime t.cpu.threadCpuUsageData[tid]? ≠ 0 →
    ((t.threads tid).new = t.system.new ↔ t.behind = false)

theorem inv_init (cpuNum : UInt32) : (init cpuNum).Inv := by
  have hzero (tid : Int) : lastTime (init cpuNum).cpu.threadCpuUsageData[tid]? = 0 := by
    simp [init, lastTime]
  refine ⟨⟨?_, ?_, ?_, ?_⟩, fun tid h => absurd (hzero tid) h, fun tid h => absurd (hzero tid) h⟩
  all_goals simp [init]

theorem inv_clear (t : Stamped) : Inv { cpu := t.cpu.clear, log := t.log } := by
  have hzero (tid : Int) : lastTime t.cpu.clear.threadCpuUsageData[tid]? = 0 := by
    simp [clear, lastTime]
  refine ⟨⟨?_, ?_, ?_, ?_⟩, fun tid h => absurd (hzero tid) h, fun tid h => absurd (hzero tid) h⟩
  all_goals simp

/-- A thread whose time is kept after a refresh was listed by it. -/
theorem threadsAfter_new {t : Stamped} {env : Env} {stat : Stat} {l : Listing} {cpu : CpuUsage}
    (hread : ReadsAll t.cpu env stat l cpu) {tid : Int}
    (h : lastTime cpu.threadCpuUsageData[tid]? ≠ 0) :
    (t.threadsAfter env tid).new = some t.log.length := by
  rw [hread.record, lastTime_recordAfter] at h
  have hlisted : tid ∈ l.tids := by
    by_contra hnot
    rw [reading_of_not_mem hnot] at h
    exact h rfl
  rw [threadsAfter_eq hread.listing_eq, if_pos hlisted]
  split_ifs <;> rfl

theorem inv_readsAll {t : Stamped} {env : Env} {stat : Stat} {l : Listing} {cpu : CpuUsage}
    (h : t.Inv) (hread : ReadsAll t.cpu env stat l cpu) : (t.after env cpu .returned).Inv := by
  refine ⟨genuine_readsAll h.genuine hread, fun tid hkept => ?_, fun tid hkept => ?_⟩
  · refine ⟨t.log.length, ?_, threadsAfter_new hread hkept⟩
    simp [after]
  · exact iff_of_true (threadsAfter_new hread hkept) rfl

theorem inv_openprocFailed {t : Stamped} {env : Env} {stat : Stat} (h : t.Inv)
    (hstat : env.stat = some stat) :
    (t.after env (t.cpu.systemRead stat).refreshWatching .openprocFailed).Inv := by
  refine ⟨genuine_openprocFailed h.genuine hstat, fun tid hkept => ?_, fun tid hkept => ?_⟩
  · obtain ⟨n, hn, hnew⟩ := h.numbered tid hkept
    exact ⟨n, by simp [after]; omega, hnew⟩
  · obtain ⟨n, hn, hnew⟩ := h.numbered tid hkept
    refine iff_of_false ?_ (by simp [after])
    show (t.threads tid).new ≠ some t.log.length
    rw [hnew]
    intro heq
    exact absurd (Option.some.inj heq) (by omega)

theorem inv_statFailed {t : Stamped} (h : t.Inv) (env : Env) :
    (t.after env t.cpu .statFailed).Inv := by
  refine ⟨genuine_statFailed h.genuine env, fun tid hkept => ?_, h.current⟩
  obtain ⟨n, hn, hnew⟩ := h.numbered tid hkept
  exact ⟨n, by simp [after]; omega, hnew⟩

theorem inv_act {t t' : Stamped} {a : Act} (h : t.Inv) (hact : t.act a = .ok t') : t'.Inv := by
  cases a with
  | setCallback callbackFunc | startWatching pid | stopWatching pid =>
    obtain rfl := Except.ok.inj hact
    obtain ⟨⟨hsystemOld, hsystemNew, hthreadOld, hthreadNew⟩, hnumbered, hcurrent⟩ := h
    exact ⟨⟨hsystemOld, hsystemNew, hthreadOld, hthreadNew⟩, hnumbered, hcurrent⟩
  | clear =>
    obtain rfl := Except.ok.inj hact
    exact inv_clear t
  | refresh round =>
    obtain ⟨⟨cpu, ended⟩, htry, rfl⟩ := map_eq_ok.1 hact
    cases tryRefresh_cases htry with
    | statFailed hstat => exact inv_statFailed h round.env
    | openprocFailed hstat hl => exact inv_openprocFailed h hstat
    | returned hrefresh =>
      obtain ⟨stat, l, hread⟩ := readsAll_refresh hrefresh
      exact inv_readsAll h hread
    | callbackThrew hrefresh =>
      -- What the callback leaves out is neither a time nor a record.
      obtain ⟨stat, l, hstat, hl, hold, hnew, hdelta, hnum, hrecord⟩ := readsAll_refresh hrefresh
      exact inv_readsAll h ⟨hstat, hl, hold, hnew, hdelta, hnum, hrecord⟩

theorem inv_run {cpuNum : UInt32} {acts : List Act} {t : Stamped}
    (hrun : runE act (init cpuNum) acts = .ok t) : t.Inv :=
  runE_invariant act (inv_init cpuNum) (fun _ _ _ => inv_act) hrun

/-! ## What is divided -/

/-- The percentage of the thread is made of two readings of the system's time and two of its own. A
thread without an earlier one gets zero. -/
def Divides (s : CpuUsage) (env : Env) (tid : Int) : Prop :=
  HasDelta s env ∧ lastTime s.threadCpuUsageData[tid]? ≠ 0

/-- `Q` holds of every refresh that returns. -/
def OnReturn (Q : Stamped → Env → Listing → Stamped → Prop) (t : Stamped) : Act → Prop
  | .refresh round => ∀ cpu l, t.cpu.tryRefresh round = .ok (cpu, .returned) →
      t.cpu.listing round.env = some l → Q t round.env l (t.after round.env cpu .returned)
  | _ => True

/-- The readings that a percentage is made of are from the same two refreshes. -/
def Matched (t : Stamped) (env : Env) (l : Listing) (t' : Stamped) : Prop :=
  ∀ proc ∈ l.procs, ∀ task ∈ proc.tasks, Divides t.cpu env task.tid →
    t'.threads task.tid = t'.system

/-- No thread that is divided was read before `openproc` failed. -/
def InTime (t : Stamped) (env : Env) (l : Listing) : Prop :=
  t.behind → ∀ proc ∈ l.procs, ∀ task ∈ proc.tasks, ¬ Divides t.cpu env task.tid

theorem matched_returned {t : Stamped} {env : Env} {l : Listing} (h : t.Inv)
    (hl : t.cpu.listing env = some l) (cpu : CpuUsage) :
    Matched t env l (t.after env cpu .returned) ↔ InTime t env l := by
  have hone {proc : Proc} (hproc : proc ∈ l.procs) {task : Task} (htask : task ∈ proc.tasks)
      (hdivides : Divides t.cpu env task.tid) :
      (t.after env cpu .returned).threads task.tid = (t.after env cpu .returned).system ↔
        t.behind = false := by
    obtain ⟨-, hkept⟩ := hdivides
    have hlisted : task.tid ∈ l.tids :=
      List.mem_map.2 ⟨task, List.mem_flatMap.2 ⟨proc, hproc, htask⟩, rfl⟩
    show t.threadsAfter env task.tid = t.system.next t.log.length ↔ _
    rw [threadsAfter_eq hl, if_pos hlisted, if_neg hkept, ← h.current task.tid hkept]
    simp [Window.next]
  constructor
  · intro hmatched hbehind proc hproc task htask hdivides
    have hnot := (hone hproc htask hdivides).1 (hmatched proc hproc task htask hdivides)
    rw [hbehind] at hnot
    cases hnot
  · intro hintime proc hproc task htask hdivides
    refine (hone hproc htask hdivides).2 (Bool.eq_false_iff.2 fun hbehind => ?_)
    exact hintime hbehind proc hproc task htask hdivides

/-- **The readings a percentage is made of are those of the same two refreshes exactly when no
refresh that returns divides the time of a thread that was read before `openproc` failed.** When a
refresh that throws leaves what there was, `untouched_iff` says. -/
theorem matched_iff (cpuNum : UInt32) (acts : List Act) :
    (∀ t, runE act (init cpuNum) acts = .ok t → t.Genuine) ∧
    AlongE act (OnReturn fun t env l t' => Quotients t.cpu env l t'.cpu) (init cpuNum) acts ∧
    (AlongE act (OnReturn Matched) (init cpuNum) acts ↔
      AlongE act (OnReturn fun t env l _ => InTime t env l) (init cpuNum) acts) := by
  refine ⟨fun t hrun => (inv_run hrun).genuine, ?_, ?_⟩
  · refine alongE_of_forall act (fun t a => ?_) (init cpuNum) acts
    cases a with
    | refresh round => exact fun cpu l htry hl => quotients_returned (refresh_of_returned htry) hl
    | setCallback | startWatching | stopWatching | clear => trivial
  · refine alongE_congr act (fun t a t' ht => inv_act ht) (fun t a ht => ?_) (inv_init cpuNum) acts
    cases a with
    | refresh round =>
      refine forall₂_congr fun cpu l => forall₂_congr fun htry hl => ?_
      exact matched_returned ht hl cpu
    | setCallback | startWatching | stopWatching | clear => rfl

/-! ### A failure between two refreshes -/

/-- Thread 7 is read, and then `openproc` fails when the system has got 100 more. -/
def failedBetween : List Act :=
  [.startWatching 7, .refresh ⟨Tracked.envAt 1000 50, none⟩,
    .refresh ⟨⟨some ⟨1100, 0, 0, 0⟩, fun _ => none⟩, none⟩]

/-- The thread has had 120 since it was read, when the system has had 200. Its share of the 100
since the failure is 120 percent, of one CPU. -/
theorem not_matched_failedBetween :
    ¬ ∀ cpuNum acts, AlongE act (OnReturn Matched) (init cpuNum) acts := by
  intro hall
  obtain ⟨t, hrun, ht⟩ := exists_ok_of_any (x := runE act (init 1) failedBetween)
    (p := fun t => t.cpu.totalCpuTimeNew = 1100 ∧
      lastTime t.cpu.threadCpuUsageData[(7 : Int)]? = 50 ∧
      t.system.new = some 1 ∧ (t.threadsAfter (Tracked.envAt 1200 170) 7).old = some 0 ∧
      (t.cpu.tryRefresh ⟨Tracked.envAt 1200 170, none⟩).toOption.any fun r =>
        r.2 = .returned ∧ r.1.threadCpuUsage 7 = 120) (by decide +kernel)
  obtain ⟨htotal, hlast, hsystem, hthread, hany⟩ := of_decide_eq_true ht
  obtain ⟨⟨cpu, ended⟩, htry, hcpu⟩ := exists_ok_of_any hany
  obtain ⟨rfl, -⟩ : ended = .returned ∧ cpu.threadCpuUsage 7 = 120 := of_decide_eq_true hcpu
  have hmatched := (hall 1 (failedBetween ++ [.refresh ⟨Tracked.envAt 1200 170, none⟩])).at act hrun
    cpu _ htry rfl
  have hdivides : Divides t.cpu (Tracked.envAt 1200 170) 7 := by
    refine ⟨⟨?_, ?_⟩, ?_⟩
    · rw [htotal]
      decide
    · rw [htotal]
      decide
    · rw [hlast]
      decide
  have hwindows : t.threadsAfter (Tracked.envAt 1200 170) 7 = t.system.next t.log.length :=
    hmatched ⟨7, [⟨7, 7, 0, 170, 0⟩]⟩ List.mem_cons_self ⟨7, 7, 0, 170, 0⟩ List.mem_cons_self
      hdivides
  rw [hwindows] at hthread
  exact absurd (hsystem.symm.trans hthread) (by decide)

end Stamped

end CpuUsage

end LibVsf
