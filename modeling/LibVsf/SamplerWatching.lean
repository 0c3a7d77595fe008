import LibVsf.CacheMissProof
import LibVsf.CpuUsageProof
import LibVsf.Lib.Watching

/-!
# What the samplers watch

`CpuUsage` and `CacheMiss` keep the calls of `start_watching` and `stop_watching` in two queues.
The next refresh works off the starts and then the stops, so a stop wins over a start of the same
process or thread, whichever was made last. `CacheMiss` also queues a stop for every thread of
which a read failed.

**Theorem (`watched_after_calls`).** After the calls between two refreshes the second refresh
watches the `deferred` set of the calls, with the threads the first one queued. It is what the
calls give one by one exactly if no id was restarted and, in `CacheMiss`, the calls keep none of
the queued threads.
-/

namespace LibVsf

open Std Runs Watching

/-! ## `CpuUsage` -/

/-- procps, asked for processes by their pids, lists no other. -/
def Env.RequestedOnly (env : Env) : Prop :=
  ∀ pids listing, env.openproc pids = some listing → ∀ proc ∈ listing.procs, proc.tid ∈ pids

namespace CpuUsage

/-- The watched processes. -/
def watched (s : CpuUsage) : Set Int := {pid | pid ∈ s.processCpuUsageData}

def call (s : CpuUsage) : Call Int → CpuUsage
  | .start pid => s.startWatching pid
  | .stop pid => s.stopWatching pid

/-- The watched processes with the queues. -/
def queued (s : CpuUsage) : Queued Int := ⟨s.watched, s.toStartWatching, s.toStopWatching⟩

theorem queued_run_call (s : CpuUsage) (calls : List (Call Int)) :
    (run call s calls).queued = run Queued.call s.queued calls :=
  (List.foldl_hom queued fun _ c => by cases c <;> rfl).symm

theorem queued_setProcess {s : CpuUsage} {pid : Int} (h : pid ∈ s.watched) (usage : Int32) :
    (s.setProcess pid usage).queued = s.queued := by
  refine Queued.ext ?_ rfl rfl
  apply Set.ext
  intro pid'
  simp only [queued, watched, setProcess, Set.mem_ofPred_eq] at h ⊢
  rw [ExtTreeMap.mem_insert, LawfulEqCmp.compare_eq_iff_eq]
  refine ⟨?_, Or.inr⟩
  intro hor
  obtain rfl | hmem := hor
  · exact h
  · exact hmem

theorem mem_watched_congr {s s' : CpuUsage} (h : s'.queued = s.queued) {pid : Int} :
    pid ∈ s'.watched ↔ pid ∈ s.watched := by
  have hwatched : s'.watched = s.watched := congrArg Queued.watched h
  rw [hwatched]

theorem queued_readTasks {s : CpuUsage} {proc : Proc} (h : proc.tid ∈ s.watched) :
    (s.readTasks proc).queued = s.queued := by
  refine run_invariant (readTask proc.tid) (I := fun s' => s'.queued = s.queued)
    (queued_setProcess h 0) (fun s' task hs' => ?_) proc.tasks
  refine (queued_setProcess ?_ _).trans hs'
  exact (mem_watched_congr hs').2 h

theorem queued_readProc {s s' : CpuUsage} {proc : Proc} (h : proc.tid ∈ s.watched)
    (hread : s.readProc proc = .ok s') : s'.queued = s.queued := by
  have htasks := queued_readTasks h
  have hmem : proc.tid ∈ (s.readTasks proc).watched := (mem_watched_congr htasks).2 h
  simp only [readProc, shareProcess] at hread
  split_ifs at hread
  · rw [← Except.ok.inj hread]
    exact (queued_setProcess hmem _).trans htasks
  · rw [← Except.ok.inj hread]
    exact (queued_setProcess hmem _).trans htasks

theorem queued_refreshWatching (s : CpuUsage) :
    s.refreshWatching.queued = ⟨s.queued.drain, [], []⟩ := by
  refine Queued.ext ?_ rfl rfl
  apply Set.ext
  intro pid
  simp only [queued, watched, refreshWatching, Queued.drain, Set.mem_ofPred_eq]
  rw [Maps.mem_foldl_erase, Maps.mem_foldl_insertIfNew]

theorem queued_refreshThread {s s' : CpuUsage} {env : Env} (henv : env.RequestedOnly)
    (h : s.refreshThread env = .ok s') : s'.queued = s.queued := by
  obtain ⟨listing, s₁, hl, hloop, rfl⟩ := refreshThread_steps h
  have hinvalid : s.invalidate.queued = s.queued := rfl
  have hprocs : s₁.queued = s.queued := by
    refine runE_invariant_mem readProc (I := fun s' => s'.queued = s.queued) hinvalid
      (fun s₂ proc s₃ hproc hs₂ hread => ?_) hloop
    have hmem : proc.tid ∈ s.watched := ExtTreeMap.mem_keys.1 (henv _ _ hl proc hproc)
    exact (queued_readProc ((mem_watched_congr hs₂).2 hmem) hread).trans hs₂
  rw [← hprocs]
  simp only [publish]
  split_ifs <;> rfl

/-- **A refresh that returns** has worked off the queues. -/
theorem queued_refresh {s s' : CpuUsage} {env : Env} (henv : env.RequestedOnly)
    (h : s.refresh env = .ok s') : s'.queued = ⟨s.queued.drain, [], []⟩ := by
  obtain ⟨stat, s₁, -, hthread, rfl⟩ := refresh_steps h
  have hsame : (s.systemRead stat).queued = s.queued := rfl
  rw [← hsame, ← queued_refreshWatching, ← queued_refreshThread henv hthread]
  rfl

end CpuUsage

/-! ## `CacheMiss` -/

namespace CacheMiss

open CacheMissData

/-- The watched threads. -/
def watched (s : CacheMiss) : Set Int := {tid | tid ∈ s.cacheMissData}

def call (s : CacheMiss) : Call Int → CacheMiss
  | .start tid => s.startWatching tid
  | .stop tid => s.stopWatching tid

/-- The watched threads with the queues. -/
def queued (s : CacheMiss) : Queued Int := ⟨s.watched, s.toStartWatching, s.toStopWatching⟩

theorem queued_run_call (s : CacheMiss) (calls : List (Call Int)) :
    (run call s calls).queued = run Queued.call s.queued calls :=
  (List.foldl_hom queued fun _ c => by cases c <;> rfl).symm

theorem mem_watched_iff {s : CacheMiss} {tid : Int} :
    tid ∈ s.watched ↔ (s.cacheMissData[tid]?).isSome :=
  ExtTreeMap.mem_iff_isSome_getElem?

theorem toStart_refresh (s : CacheMiss) (env : SampleEnv) :
    (s.refresh env).1.toStartWatching = [] :=
  rfl

/-- **What a round watches**, if every open succeeds. -/
theorem watched_refresh {env : SampleEnv} (hopen : ∀ tid k, CanOpen (env.openFd tid k))
    (s : CacheMiss) : (s.refresh env).1.watched = s.queued.drain := by
  apply Set.ext
  intro tid
  have hopens : Opens env s.toStartWatching.zipIdx tid ↔ tid ∈ s.toStartWatching := by
    simp only [Opens, hopen, and_true]
    refine ⟨?_, ?_⟩
    · intro h
      obtain ⟨request, hmem, rfl⟩ := h
      exact List.fst_mem_of_mem_zipIdx hmem
    · intro h
      rw [← List.zipIdx_map_fst 0 s.toStartWatching] at h
      exact List.mem_map.1 h
  rw [mem_watched_iff, refresh_getElem?, Option.isSome_map, applyRequests_isSome]
  simp only [Watched, Queued.drain, queued, Set.mem_ofPred_eq, mem_watched_iff]
  rw [hopens, and_comm]

/-- The sampled threads of which a read failed. -/
def readFailed (s : CacheMiss) (env : SampleEnv) : Set Int :=
  {tid | s.Watched env tid ∧ ¬ (AllRead (env.first tid) ∧ AllRead (env.second tid))}

theorem stops_refresh (s : CacheMiss) (env : SampleEnv) :
    {tid | tid ∈ (s.refresh env).1.toStopWatching} = s.readFailed env :=
  Set.ext (s.mem_refresh_toStop env)

end CacheMiss

/-! ## The calls between two refreshes -/

/-- **What a sampler watches after the calls between two refreshes.** A stop wins over a start of
the same id, and a thread of which a read failed is stopped. The calls come to the same as when
applied one by one exactly if they restart no id and, for `CacheMiss`, keep no thread of which a
read failed. -/
theorem watched_after_calls (calls : List (Call Int))
    {s s₀ s' : CpuUsage} {env₀ env : Env} (henv₀ : env₀.RequestedOnly) (henv : env.RequestedOnly)
    (hprev : s.refresh env₀ = .ok s₀) (hnext : (run CpuUsage.call s₀ calls).refresh env = .ok s')
    {c c₀ : CacheMiss} {senv₀ senv : SampleEnv} (hround : (c.refresh senv₀).1 = c₀)
    (hopen : ∀ tid k, CacheMissData.CanOpen (senv.openFd tid k)) :
    (s'.watched = deferred s₀.watched ∅ calls ∧
      (s'.watched = applyAll s₀.watched calls ↔ ∀ pid, ¬ Restarted calls pid)) ∧
    ((((run CacheMiss.call c₀ calls).refresh senv).1.watched =
        deferred c₀.watched (c.readFailed senv₀) calls) ∧
      (((run CacheMiss.call c₀ calls).refresh senv).1.watched = applyAll c₀.watched calls ↔
        (∀ tid, ¬ Restarted calls tid) ∧
          ∀ tid ∈ c.readFailed senv₀, ¬ Kept c₀.watched calls tid)) := by
  have hcpu : s'.watched = deferred s₀.watched ∅ calls := by
    have hqueued₀ := CpuUsage.queued_refresh henv₀ hprev
    have hstarts : s₀.queued.starts = [] := congrArg Queued.starts hqueued₀
    have hstops : {pid | pid ∈ s₀.queued.stops} = (∅ : Set Int) := by
      rw [congrArg Queued.stops hqueued₀]
      simp
    have hdrain := congrArg Queued.watched (CpuUsage.queued_refresh henv hnext)
    rw [CpuUsage.queued_run_call, Queued.drain_run hstarts, hstops] at hdrain
    exact hdrain
  have hmiss : ((run CacheMiss.call c₀ calls).refresh senv).1.watched =
      deferred c₀.watched (c.readFailed senv₀) calls := by
    have hstarts : c₀.queued.starts = [] := by
      rw [← hround]
      exact c.toStart_refresh senv₀
    have hstops : {tid | tid ∈ c₀.queued.stops} = c.readFailed senv₀ := by
      rw [← hround]
      exact c.stops_refresh senv₀
    rw [CacheMiss.watched_refresh hopen, CacheMiss.queued_run_call, Queued.drain_run hstarts,
      hstops]
    rfl
  refine ⟨⟨hcpu, ?_⟩, hmiss, ?_⟩
  · rw [hcpu, deferred_eq_iff]
    simp
  · rw [hmiss, deferred_eq_iff]

/-- A machine on which procps finds no process. -/
def idleEnv : Env where
  stat := some ⟨1, 0, 0, 1⟩
  openproc := fun _ => some ⟨[], List.nodup_nil⟩

theorem requestedOnly_idleEnv : idleEnv.RequestedOnly := by
  intro pids listing h proc hproc
  obtain rfl := Option.some.inj h
  cases hproc

theorem canOpen_envOf (first second : Option UInt64) (tid : Int) (k : Nat) :
    CacheMissData.CanOpen ((CacheMiss.envOf first second).openFd tid k) :=
  fun _ _ => Int.natCast_nonneg 3

/-- Process 1 and thread 1 are watched, then stopped, and 2 is started. -/
theorem watched_after_calls_stopped : ∃ s₀ s' : CpuUsage,
    ({ cpuNum := 1, toStartWatching := [1] } : CpuUsage).refresh idleEnv = .ok s₀ ∧
    (run CpuUsage.call s₀ [.start 2, .stop 1]).refresh idleEnv = .ok s' ∧
    s'.watched = deferred s₀.watched ∅ [.start 2, .stop 1] ∧
    ((run CacheMiss.call (({ toStartWatching := [1] } : CacheMiss).refresh
        (CacheMiss.envOf (some 0) none)).1 [.start 2, .stop 1]).refresh
      (CacheMiss.envOf (some 0) none)).1.watched =
        deferred (({ toStartWatching := [1] } : CacheMiss).refresh
          (CacheMiss.envOf (some 0) none)).1.watched
          (CacheMiss.readFailed { toStartWatching := [1] } (CacheMiss.envOf (some 0) none))
          [.start 2, .stop 1] := by
  have h := watched_after_calls [.start 2, .stop 1] requestedOnly_idleEnv requestedOnly_idleEnv
    (s := { cpuNum := 1, toStartWatching := [1] }) rfl rfl
    (rfl : (({ toStartWatching := [1] } : CacheMiss).refresh (CacheMiss.envOf (some 0) none)).1 = _)
    (canOpen_envOf (some 0) none)
  exact ⟨_, _, rfl, rfl, h.1.1, h.2.1⟩

/-- Process 1 and thread 1 are watched, stopped and started again: they are watched no more. -/
theorem not_watched_restarted :
    (∃ s₀ s' : CpuUsage,
      ({ cpuNum := 1, toStartWatching := [1] } : CpuUsage).refresh idleEnv = .ok s₀ ∧
      (run CpuUsage.call s₀ [.stop 1, .start 1]).refresh idleEnv = .ok s' ∧
      s'.watched ≠ applyAll s₀.watched [.stop 1, .start 1]) ∧
    ((run CacheMiss.call (({ toStartWatching := [1] } : CacheMiss).refresh
        (CacheMiss.envOf (some 0) (some 5))).1 [.stop 1, .start 1]).refresh
      (CacheMiss.envOf (some 0) (some 5))).1.watched ≠
        applyAll (({ toStartWatching := [1] } : CacheMiss).refresh
          (CacheMiss.envOf (some 0) (some 5))).1.watched [.stop 1, .start 1] := by
  have hkept (w : Set Int) : 1 ∈ applyAll w [.stop 1, .start 1] := by simp [applyAll, apply]
  refine ⟨?_, ?_⟩
  · have hrun : (({ cpuNum := 1, toStartWatching := [1] } : CpuUsage).refresh
        idleEnv).toOption.any (fun s₀ =>
          ((run CpuUsage.call s₀ [.stop 1, .start 1]).refresh idleEnv).toOption.any
            fun s' => !s'.processCpuUsageData.contains 1) = true := by decide +kernel
    obtain ⟨s₀, hprev, hrest⟩ := exists_ok_of_any hrun
    obtain ⟨s', hnext, hgone⟩ := exists_ok_of_any hrest
    refine ⟨s₀, s', hprev, hnext, ?_⟩
    intro heq
    have hmem : (1 : Int) ∈ s'.watched := by
      rw [heq]
      exact hkept _
    have hcontains : s'.processCpuUsageData.contains 1 = true := hmem
    rw [hcontains] at hgone
    cases hgone
  · intro heq
    have hmem : (1 : Int) ∈ ((run CacheMiss.call (({ toStartWatching := [1] } : CacheMiss).refresh
        (CacheMiss.envOf (some 0) (some 5))).1 [.stop 1, .start 1]).refresh
        (CacheMiss.envOf (some 0) (some 5))).1.watched := by
      rw [heq]
      exact hkept _
    have hgone : ((run CacheMiss.call (({ toStartWatching := [1] } : CacheMiss).refresh
        (CacheMiss.envOf (some 0) (some 5))).1 [.stop 1, .start 1]).refresh
        (CacheMiss.envOf (some 0) (some 5))).1.cacheMissData.contains 1 = false := by
      decide +kernel
    have hcontains := ExtTreeMap.mem_iff_contains.1 hmem
    rw [hgone] at hcontains
    cases hcontains

end LibVsf
