import LibVsf.CpuUsageProof

/-!
# `CpuUsage`: what is reported for an id that was not observed

The record of a thread has a flag, which every refresh takes back and sets again for the threads
it reads. The value of a process has none: it is inserted when the process is first watched and
written by the refreshes that procps returns the process to.

The runs here are those of a caller that goes on after an exception.

* `tryRefresh_cases`: how a refresh ends, and what it leaves.
* `processes_refresh`: what a refresh that returns makes of the values of the processes.
* `unknown_iff`: over every run, after each refresh that returns, the getters give -1 for every
  process and thread that was not returned to it, exactly when procps returns every watched
  process to it.
-/

namespace LibVsf

open Std Runs

namespace Listing

def pids (l : Listing) : List Int := l.procs.map Proc.tid

def tids (l : Listing) : List Int := l.tasks.map Task.tid

theorem task?_eq_none {l : Listing} {tid : Int} (h : tid ∉ l.tids) : l.task? tid = none := by
  refine List.find?_eq_none.2 fun task htask heq => h ?_
  exact List.mem_map.2 ⟨task, htask, of_decide_eq_true heq⟩

end Listing

namespace CpuUsage

/-! ## How a refresh ends -/

/-- The loops end by a division by zero or not at all. -/
theorem readProcs_error {s s' : CpuUsage} {procs : List Proc} {failure : CpuUsageFailure}
    (h : runE readProc s procs = .error (failure, s')) : failure = .divisionByZero := by
  obtain ⟨pre, proc, post, s₁, -, -, hproc⟩ := exists_of_runE_eq_error readProc h
  unfold readProc shareProcess at hproc
  split_ifs at hproc
  cases hproc
  rfl

theorem refreshThread_error {s s' : CpuUsage} {env : Env} {failure : CpuUsageFailure}
    (h : s.refreshThread env = .error (failure, s')) :
    env.openproc s.pids = none ∧ s' = s ∧ (∃ what, failure = .openProcFailed what) ∨
      failure = .divisionByZero := by
  unfold refreshThread at h
  cases hl : env.openproc s.pids with
  | none =>
    rw [hl] at h
    cases h
    exact .inl ⟨rfl, rfl, _, rfl⟩
  | some l =>
    rw [hl] at h
    cases hloop : l.procs.foldlM readProc s.invalidate with
    | ok s₁ => simp [hloop, bind, Except.bind, pure, Except.pure] at h
    | error e =>
      obtain ⟨failure', s₁⟩ := e
      simp only [hloop, bind, Except.bind] at h
      cases h
      rw [foldlM_eq_runE] at hloop
      exact .inr (readProcs_error hloop)

/-- All but the records of the threads, the values of the processes and the callback's calls. -/
def rest (s : CpuUsage) : CpuUsage :=
  { s with threadCpuUsageData := ∅, processCpuUsageData := ∅, published := [] }

/-- What does not depend on these is the same. -/
theorem eq_of_rest {α : Type} (f : CpuUsage → α) (hf : ∀ s : CpuUsage, f s.rest = f s)
    {s s' : CpuUsage} (h : s'.rest = s.rest) : f s' = f s := by
  rw [← hf s', h, hf s]

theorem rest_readTasks (s : CpuUsage) (proc : Proc) : (s.readTasks proc).rest = s.rest := by
  have hstart : (s.setProcess proc.tid 0).rest = s.rest := rfl
  exact run_invariant (readTask proc.tid) (I := fun s' => s'.rest = s.rest) hstart
    (fun _ _ hs' => hs') proc.tasks

theorem rest_readProc {s s' : CpuUsage} {proc : Proc} (h : s.readProc proc = .ok s') :
    s'.rest = s.rest := by
  unfold readProc shareProcess at h
  split_ifs at h
  · rw [← Except.ok.inj h]
    exact s.rest_readTasks proc
  · rw [← Except.ok.inj h]
    exact s.rest_readTasks proc

theorem rest_publish (s : CpuUsage) : s.publish.rest = s.rest := by
  simp only [publish]
  split_ifs <;> rfl

theorem rest_refreshThread {s s' : CpuUsage} {env : Env} (h : s.refreshThread env = .ok s') :
    s'.rest = s.rest := by
  obtain ⟨l, s₁, -, hloop, rfl⟩ := refreshThread_steps h
  have hstart : s.invalidate.rest = s.rest := rfl
  have hprocs : s₁.rest = s.rest :=
    runE_invariant readProc (I := fun s' => s'.rest = s.rest) hstart
      (fun _ _ _ hs hread => (rest_readProc hread).trans hs) hloop
  rw [rest_publish, ← hprocs]
  rfl

/-- What a refresh that returns leaves of the rest. -/
theorem rest_refresh {s s' : CpuUsage} {env : Env} (h : s.refresh env = .ok s') :
    ∃ (stat : Stat) (s₁ : CpuUsage), env.stat = some stat ∧
      s₁.rest = (s.systemRead stat).refreshWatching.rest ∧
      s' = { s₁ with
        hasDataCnt := if s₁.hasDataCnt < 2 then s₁.hasDataCnt + 1 else s₁.hasDataCnt } := by
  obtain ⟨stat, s₁, hstat, hthread, hcount⟩ := refresh_steps h
  exact ⟨stat, s₁, hstat, rest_refreshThread hthread, hcount⟩

/-- The ways in which a refresh ends, and what it leaves. -/
inductive Leaves (s : CpuUsage) (round : Round) : CpuUsage → Ended → Prop where
  | returned {s' : CpuUsage} : s.refresh round.env = .ok s' → Leaves s round s' .returned
  | statFailed : round.env.stat = none → Leaves s round s .statFailed
  | openprocFailed {stat : Stat} : round.env.stat = some stat → s.listing round.env = none →
      Leaves s round (s.systemRead stat).refreshWatching .openprocFailed
  | callbackThrew {s' : CpuUsage} {published : List (Int × Int × Int32)} :
      s.refresh round.env = .ok s' →
      Leaves s round { s' with hasDataCnt := s.hasDataCnt, published := published } .callbackThrew

theorem tryRefresh_cases {s s' : CpuUsage} {round : Round} {ended : Ended}
    (h : s.tryRefresh round = .ok (s', ended)) : Leaves s round s' ended := by
  unfold tryRefresh at h
  cases hrefresh : s.refresh round.env with
  | ok s₁ =>
    simp only [hrefresh] at h
    cases hthrows : round.callbackThrows with
    | none =>
      simp only [hthrows] at h
      cases h
      exact .returned hrefresh
    | some n =>
      simp only [hthrows] at h
      split_ifs at h
      · cases h
        exact .callbackThrew hrefresh
      · cases h
        exact .returned hrefresh
  | error e =>
    obtain ⟨failure, s₁⟩ := e
    cases hstat : round.env.stat with
    | none =>
      have hfirst : s.refresh round.env =
          .error (.fileOpenFailed "To open file: /proc/stat", s) := by
        simp [refresh, refreshSystem, hstat, bind, Except.bind]
      rw [hfirst] at h
      cases h
      exact .statFailed hstat
    | some stat =>
      have hthread : (s.systemRead stat).refreshWatching.refreshThread round.env =
          .error (failure, s₁) := by
        simp only [refresh, refreshSystem_some hstat, bind, Except.bind] at hrefresh
        cases hr : (s.systemRead stat).refreshWatching.refreshThread round.env with
        | ok s₂ => simp [hr, pure, Except.pure] at hrefresh
        | error e =>
          simp only [hr] at hrefresh
          exact hrefresh
      simp only [hrefresh] at h
      obtain ⟨hnone, rfl, what, rfl⟩ | rfl := refreshThread_error hthread
      · cases h
        exact .openprocFailed hstat hnone
      · cases h

theorem refresh_of_returned {s s' : CpuUsage} {round : Round}
    (h : s.tryRefresh round = .ok (s', .returned)) : s.refresh round.env = .ok s' := by
  cases tryRefresh_cases h with
  | returned hrefresh => exact hrefresh

/-- `Q` holds for the listing and the state of a refresh that returns. -/
def OnReturn (Q : CpuUsage → Listing → CpuUsage → Prop) (s : CpuUsage) : Act → Prop
  | .refresh round => ∀ s' l, s.tryRefresh round = .ok (s', .returned) →
      s.listing round.env = some l → Q s l s'
  | _ => True

/-! ## The values of the processes -/

/-- No share is -1: the product is even. -/
theorem share_ne_neg_one (time cpuNum delta : UInt32) :
    (time * 100 * cpuNum / delta).toInt32 ≠ -1 := by
  intro h
  have hshare : time * 100 * cpuNum / delta = 4294967295 := congrArg Int32.toUInt32 h
  have hdiv : (time * 100 * cpuNum).toNat / delta.toNat = 4294967295 := by
    rw [← UInt32.toNat_div, hshare]
    rfl
  have heven : (time * 100 * cpuNum).toNat % 2 = 0 := by
    have hproduct : (time * 100 * cpuNum).toNat =
        2 * (time.toNat * 50 * cpuNum.toNat) % 2 ^ 32 := by
      rw [UInt32.toNat_mul, UInt32.toNat_mul, Nat.mod_mul_mod]
      refine congrArg (· % 2 ^ 32) ?_
      show time.toNat * (2 * 50) * cpuNum.toNat = _
      rw [Nat.mul_left_comm time.toNat, Nat.mul_assoc 2]
    rw [hproduct, Nat.mod_mod_of_dvd _ (by decide), Nat.mul_mod_right]
  have hle : (time * 100 * cpuNum).toNat / delta.toNat ≤ (time * 100 * cpuNum).toNat :=
    Nat.div_le_self _ _
  have hlt : (time * 100 * cpuNum).toNat < 2 ^ 32 := UInt32.toNat_lt _
  omega

theorem getElem?_setProcess (s : CpuUsage) (pid pid' : Int) (usage : Int32) :
    (s.setProcess pid usage).processCpuUsageData[pid']? =
      if pid' = pid then some usage else s.processCpuUsageData[pid']? := by
  simp only [setProcess, ExtTreeMap.getElem?_insert, LawfulEqCmp.compare_eq_iff_eq,
    eq_comm (a := pid)]

/-- The loop over the tasks writes the value of their process only. -/
theorem getElem?_readTasks (s : CpuUsage) {proc : Proc} {pid : Int} (h : pid ≠ proc.tid) :
    (s.readTasks proc).processCpuUsageData[pid]? = s.processCpuUsageData[pid]? := by
  refine run_invariant (readTask proc.tid)
    (I := fun s' => s'.processCpuUsageData[pid]? = s.processCpuUsageData[pid]?) ?_
    (fun s' task hs' => ?_) proc.tasks
  · rw [getElem?_setProcess, if_neg h]
  · rw [readTask, getElem?_setProcess, if_neg h]
    exact hs'

theorem getElem?_readProc {s s' : CpuUsage} {proc : Proc} (h : s.readProc proc = .ok s') :
    ∃ usage ≠ -1, ∀ pid, s'.processCpuUsageData[pid]? =
      if pid = proc.tid then some usage else s.processCpuUsageData[pid]? := by
  have hshare : ∃ usage ≠ -1, s' = (s.readTasks proc).setProcess proc.tid usage := by
    unfold readProc shareProcess at h
    split_ifs at h
    · exact ⟨0, by decide, (Except.ok.inj h).symm⟩
    · exact ⟨_, share_ne_neg_one _ _ _, (Except.ok.inj h).symm⟩
  obtain ⟨usage, husage, rfl⟩ := hshare
  refine ⟨usage, husage, fun pid => ?_⟩
  rw [getElem?_setProcess]
  split_ifs with hpid
  · rfl
  · exact getElem?_readTasks s hpid

/-- The processes that are returned get a value, and the others keep theirs. -/
structure Returned (s : CpuUsage) (pids : List Int) (s' : CpuUsage) : Prop where
  kept : ∀ pid ∉ pids, s'.processCpuUsageData[pid]? = s.processCpuUsageData[pid]?
  written : ∀ pid ∈ pids, ∃ usage ≠ -1, s'.processCpuUsageData[pid]? = some usage

theorem returned_readProcs {s s' : CpuUsage} {procs : List Proc}
    (h : runE readProc s procs = .ok s') : Returned s (procs.map Proc.tid) s' := by
  induction procs generalizing s with
  | nil =>
    cases h
    exact ⟨fun _ _ => rfl, fun _ hpid => by cases hpid⟩
  | cons proc procs ih =>
    obtain ⟨s₁, hproc, hrest⟩ := (runE_cons_ok readProc).1 h
    obtain ⟨usage, husage, hone⟩ := getElem?_readProc hproc
    obtain ⟨hkept, hwritten⟩ := ih hrest
    refine ⟨fun pid hpid => ?_, fun pid hpid => ?_⟩
    · obtain ⟨hne, hnot⟩ := not_or.1 (List.mem_cons.not.1 hpid)
      rw [hkept pid hnot, hone, if_neg hne]
    · by_cases hrest : pid ∈ procs.map Proc.tid
      · exact hwritten pid hrest
      · obtain rfl | hmem := List.mem_cons.1 hpid
        · exact ⟨usage, husage, by rw [hkept _ hrest, hone, if_pos rfl]⟩
        · exact absurd hmem hrest

/-- The loop of a refresh that returns. -/
theorem loop_refresh {s s' : CpuUsage} {env : Env} (h : s.refresh env = .ok s') :
    ∃ (stat : Stat) (l : Listing) (s₁ : CpuUsage), env.stat = some stat ∧
      s.listing env = some l ∧
      runE readProc (s.systemRead stat).refreshWatching.invalidate l.procs = .ok s₁ ∧
      s'.processCpuUsageData = s₁.processCpuUsageData := by
  obtain ⟨stat, s₂, hstat, hthread, rfl⟩ := refresh_steps h
  obtain ⟨l, s₁, hl, hloop, rfl⟩ := refreshThread_steps hthread
  refine ⟨stat, l, s₁, hstat, hl, hloop, ?_⟩
  simp only [publish]
  split_ifs <;> rfl

/-- **What a refresh that returns makes of the values of the processes**, after the requests. -/
theorem processes_refresh {s s' : CpuUsage} {env : Env} (h : s.refresh env = .ok s') :
    ∃ l, s.listing env = some l ∧ Returned s.refreshWatching l.pids s' := by
  obtain ⟨stat, l, s₁, -, hl, hloop, hsame⟩ := loop_refresh h
  obtain ⟨hkept, hwritten⟩ := returned_readProcs hloop
  refine ⟨l, hl, fun pid hpid => ?_, fun pid hpid => ?_⟩
  · rw [hsame, hkept pid hpid]
    rfl
  · rw [hsame]
    exact hwritten pid hpid

/-! ## Over a run -/

/-- No process has the value that stands for an unknown one. -/
def Known (usages : ExtTreeMap Int Int32) : Prop := ∀ pid : Int, usages[pid]? ≠ some (-1)

theorem known_refreshWatching {s : CpuUsage} (h : Known s.processCpuUsageData) :
    Known s.refreshWatching.processCpuUsageData := by
  have hstarted := run_invariant (fun (m : ExtTreeMap Int Int32) pid => m.insertIfNew pid 0)
    (I := Known) h (fun m pid hm pid' => ?_) s.toStartWatching
  · refine run_invariant (fun (m : ExtTreeMap Int Int32) pid => m.erase pid) (I := Known) hstarted
      (fun m pid hm pid' => ?_) s.toStopWatching
    rw [ExtTreeMap.getElem?_erase]
    split_ifs
    · simp
    · exact hm pid'
  · rw [ExtTreeMap.getElem?_insertIfNew]
    split_ifs
    · decide
    · exact hm pid'

theorem known_of_returned {s s' : CpuUsage} {pids : List Int} (h : Returned s pids s')
    (hs : Known s.processCpuUsageData) : Known s'.processCpuUsageData := by
  intro pid hunknown
  by_cases hpid : pid ∈ pids
  · obtain ⟨usage, husage, hsome⟩ := h.written pid hpid
    rw [hsome] at hunknown
    exact husage (Option.some.inj hunknown)
  · rw [h.kept pid hpid] at hunknown
    exact hs pid hunknown

theorem known_act {s s' : CpuUsage} {a : Act} (h : Known s.processCpuUsageData)
    (hact : s.act a = .ok s') : Known s'.processCpuUsageData := by
  cases a with
  | setCallback callbackFunc | startWatching pid | stopWatching pid =>
    obtain rfl := Except.ok.inj hact
    exact h
  | clear =>
    obtain rfl := Except.ok.inj hact
    intro pid
    simp [clear]
  | refresh round =>
    obtain ⟨⟨s₁, ended⟩, htry, rfl⟩ := map_eq_ok.1 hact
    cases tryRefresh_cases htry with
    | statFailed hstat => exact h
    | openprocFailed hstat hl => exact known_refreshWatching h
    | returned hrefresh | callbackThrew hrefresh =>
      obtain ⟨l, -, hreturned⟩ := processes_refresh hrefresh
      have hknown := known_of_returned hreturned (known_refreshWatching h)
      exact hknown

/-- Whatever the getters return for an id that is not listed is -1. A getter that waits for data
returns nothing yet. -/
structure Unknown (l : Listing) (s : CpuUsage) : Prop where
  process : ∀ pid ∉ l.pids, ∀ usage ∈ s.getProcessCpuUsageWithoutRefresh pid, usage = -1
  thread : ∀ tid ∉ l.tids, ∀ usage ∈ s.getThreadCpuUsageWithoutRefresh tid, usage = -1
  running : ∀ tid ∉ l.tids, ∀ cpu ∈ s.getThreadRunningOnCpuWithoutRefresh tid, cpu = -1

/-- A process that a refresh watches: the requests are worked off first, the starts before the
stops. -/
def Watches (s : CpuUsage) (pid : Int) : Prop :=
  (pid ∈ s.processCpuUsageData ∨ pid ∈ s.toStartWatching) ∧ pid ∉ s.toStopWatching

theorem mem_refreshWatching {s : CpuUsage} {pid : Int} :
    pid ∈ s.refreshWatching.processCpuUsageData ↔ s.Watches pid := by
  simp only [refreshWatching, Watches]
  rw [Maps.mem_foldl_erase, Maps.mem_foldl_insertIfNew]

/-- procps returns every watched process. The getters still wait after the first refresh. -/
def AllReturned (s : CpuUsage) (l : Listing) : Prop :=
  0 < s.hasDataCnt → ∀ pid, s.Watches pid → pid ∈ l.pids

/-- The getters have data from the second refresh on. -/
theorem hasData_refresh {s s' : CpuUsage} {env : Env} (h : s.refresh env = .ok s') :
    s'.hasData ↔ 0 < s.hasDataCnt := by
  obtain ⟨stat, s₁, -, hrest, rfl⟩ := rest_refresh h
  have hcount : s₁.hasDataCnt = s.hasDataCnt :=
    (eq_of_rest hasDataCnt (fun _ => rfl) hrest).trans rfl
  rw [hasData, hcount, decide_eq_true_iff]
  dsimp only
  split_ifs <;> omega

/-- A thread that is not listed. -/
theorem thread_unlisted {s s' : CpuUsage} {env : Env} {l : Listing} (h : s.refresh env = .ok s')
    (hl : s.listing env = some l) {tid : Int} (htid : tid ∉ l.tids) :
    s'.threadCpuUsage tid = -1 ∧ s'.threadRunningOnCpu tid = -1 := by
  obtain ⟨stat, l', -, hl', -, -, hdata⟩ := refresh_ok h
  obtain rfl : l = l' := Option.some.inj (hl.symm.trans hl')
  have hrecord := hdata tid
  simp only [recordAfter, Listing.task?_eq_none htid] at hrecord
  rw [threadCpuUsage, threadRunningOnCpu, hrecord]
  cases s.threadCpuUsageData[tid]? <;> exact ⟨rfl, rfl⟩

theorem process_unlisted {s s' : CpuUsage} {pid : Int}
    (hkept : s'.processCpuUsageData[pid]? = s.processCpuUsageData[pid]?)
    (hknown : Known s.processCpuUsageData) :
    s'.processCpuUsage pid = -1 ↔ pid ∉ s.processCpuUsageData := by
  rw [ExtTreeMap.mem_iff_isSome_getElem?, processCpuUsage, hkept]
  cases husage : s.processCpuUsageData[pid]? with
  | none => simp
  | some usage =>
    have hne : usage ≠ -1 := fun heq => hknown pid (by rw [husage, heq])
    simp only [Option.isSome_some, not_true_eq_false, iff_false]
    exact fun heq => hne (Int32.toInt_inj.1 heq)

theorem unknown_returned {s s' : CpuUsage} {env : Env} {l : Listing} (h : s.refresh env = .ok s')
    (hl : s.listing env = some l) (hknown : Known s.processCpuUsageData) :
    Unknown l s' ↔ AllReturned s l := by
  obtain ⟨l', hl', hreturned⟩ := processes_refresh h
  obtain rfl : l = l' := Option.some.inj (hl.symm.trans hl')
  have hprocess {pid : Int} (hpid : pid ∉ l.pids) :
      s'.processCpuUsage pid = -1 ↔ ¬ s.Watches pid := by
    rw [← mem_refreshWatching]
    exact process_unlisted (hreturned.kept pid hpid) (known_refreshWatching hknown)
  rw [AllReturned, ← hasData_refresh h]
  constructor
  · intro hunknown hdata pid hwatched
    by_contra hpid
    refine (hprocess hpid).1 (hunknown.process pid hpid _ ?_) hwatched
    rw [getProcessCpuUsageWithoutRefresh, if_pos hdata]
    rfl
  · intro hall
    refine ⟨fun pid hpid usage hget => ?_, fun tid htid usage hget => ?_,
      fun tid htid cpu hget => ?_⟩
    · simp only [getProcessCpuUsageWithoutRefresh, Option.mem_ite_none_right,
        Option.mem_some_iff] at hget
      obtain ⟨hdata, rfl⟩ := hget
      exact (hprocess hpid).2 fun hwatched => hpid (hall hdata pid hwatched)
    · simp only [getThreadCpuUsageWithoutRefresh, Option.mem_ite_none_right,
        Option.mem_some_iff] at hget
      obtain ⟨-, rfl⟩ := hget
      exact (thread_unlisted h hl htid).1
    · simp only [getThreadRunningOnCpuWithoutRefresh, Option.mem_ite_none_right,
        Option.mem_some_iff] at hget
      obtain ⟨-, rfl⟩ := hget
      exact (thread_unlisted h hl htid).2

/-- **After every refresh of a run that returns, what was not returned to it is reported as unknown
exactly when procps returns every watched process to each.** -/
theorem unknown_iff (cpuNum : UInt32) (acts : List Act) :
    AlongE act (OnReturn fun _ l s' => Unknown l s') { cpuNum := cpuNum } acts ↔
      AlongE act (OnReturn fun s l _ => AllReturned s l) { cpuNum := cpuNum } acts := by
  refine alongE_congr act (I := fun s => Known s.processCpuUsageData)
    (fun s a s' hs => known_act hs) (fun s a hs => ?_) (fun pid => by simp) acts
  cases a with
  | refresh round =>
    refine forall₂_congr fun s' l => forall₂_congr fun htry hl => ?_
    exact unknown_returned (refresh_of_returned htry) hl hs
  | setCallback | startWatching | stopWatching | clear => rfl

/-! ### A process that exits -/

/-- A refresh for which procps returns no process. -/
def exited : Env where
  stat := some ⟨1200, 0, 0, 0⟩
  openproc := fun _ => some ⟨[], by simp⟩

/-- Process 7 uses all of one CPU between two refreshes. -/
def watchedTwice : List Act :=
  [.startWatching 7, .refresh ⟨Tracked.envAt 1000 50, none⟩,
    .refresh ⟨Tracked.envAt 1100 150, none⟩]

/-- After it has exited its usage is still reported as 100. -/
theorem not_unknown_exited : ¬ ∀ cpuNum acts,
    AlongE act (OnReturn fun _ l s' => Unknown l s') { cpuNum := cpuNum } acts := by
  intro hall
  obtain ⟨s, hrun, hs⟩ := exists_ok_of_any (x := runE act { cpuNum := 1 } watchedTwice)
    (p := fun s => (s.tryRefresh ⟨exited, none⟩).toOption.any fun r =>
      r.2 = .returned ∧ r.1.getProcessCpuUsageWithoutRefresh 7 = some 100) (by decide +kernel)
  obtain ⟨⟨s', ended⟩, htry, hs'⟩ := exists_ok_of_any hs
  obtain ⟨rfl, hget⟩ : ended = .returned ∧ s'.getProcessCpuUsageWithoutRefresh 7 = some 100 :=
    of_decide_eq_true hs'
  have hunknown := (hall 1 (watchedTwice ++ [.refresh ⟨exited, none⟩])).at act hrun s' _ htry rfl
  exact absurd (hunknown.process 7 (by decide) 100 hget) (by decide)

end CpuUsage

end LibVsf
