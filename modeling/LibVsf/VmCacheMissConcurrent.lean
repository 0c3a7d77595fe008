import LibVsf.Lib.Interleaving
import LibVsf.VmCacheMissIds
import Mathlib.Data.List.DropRight

/-!
# `VmCacheMiss` with concurrent callers

Without a background thread every `get_cache_miss` refreshes, so refreshes of several callers
can run at once. Their critical sections are ordered by `data_mutex_`: each caller prepares,
starts and stops, and the sections of different callers interleave in any way. The counts of the
VMs are cleared where a caller prepares and added to where a caller stops.

**Theorem (`oneRound_iff`).** An interleaving leaves the counts of one round, whatever has been
refreshed before and whatever is read, exactly if one caller only stops after the last
preparation. The ids that `VmBase` answers are of a set that is ordered lawfully.
-/

namespace LibVsf

open Std Runs Interleaving EqvMap EqvOrd SearchTree

namespace VmCacheMiss

open CacheMiss (envOf)
open CacheMissData

/-! ## The critical sections -/

/-- The critical sections of a refresh. -/
inductive Section where
  | prepare | startSample | stopSample
deriving DecidableEq, Repr

/-- The order in which a caller enters them. -/
def sections : List Section := [.prepare, .startSample, .stopSample]

/-- A caller, with what `VmBase` and the kernel answer it. -/
structure Caller where
  view : VmView
  toVmId : Int → VmId
  env : SampleEnv

/-- A caller's critical section. -/
def exec (s : VmCacheMiss) (caller : Caller) : Section → VmCacheMiss
  | .prepare => s.prepare caller.view
  | .startSample => s.startSample caller.env
  | .stopSample => s.stopSample caller.toVmId caller.env

/-- The callers after the last preparation that stop. -/
def stopsSincePrepare {ι : Type*} (steps : List (ι × Section)) : List ι :=
  performers .stopSample (steps.rtakeWhile fun x => x.2 ≠ .prepare)

/-! ## Rounds -/

/-- What a round contributes to each VM. -/
abbrev Round := VmId → List CacheMissData

/-- The round of a caller that stops: the counts of the threads, by the VM they are found for. -/
def roundOf (s : VmCacheMiss) (caller : Caller) : Round :=
  fun vmId => s.contributions caller.toVmId vmId (s.cacheMiss.stopSample caller.env).2

/-- An interleaved run, with all its rounds and those since the counts were cleared. -/
structure Interleaved where
  vm : VmCacheMiss
  rounds : List Round := []
  since : List Round := []

namespace Interleaved

variable {ι : Type*}

def step (callers : ι → Caller) (t : Interleaved) (x : ι × Section) : Interleaved where
  vm := t.vm.exec (callers x.1) x.2
  rounds := match x.2 with
    | .stopSample => t.rounds ++ [t.vm.roundOf (callers x.1)]
    | _ => t.rounds
  since := match x.2 with
    | .prepare => []
    | .startSample => t.since
    | .stopSample => t.since ++ [t.vm.roundOf (callers x.1)]

/-- The counts held of VMs of the set are the sums of the counts of one of the rounds. -/
def OneRound (S : Set VmId) (t : Interleaved) : Prop :=
  ∃ r ∈ t.rounds, ∀ vmId ∈ S, ∀ e, ((t.vm.vmData vmId).event e).count = sumCounts (r vmId) e

/-- The interleaved refreshes, after those of `rs`. -/
def after (rs : List (VmView × SampleEnv)) (callers : ι → Caller) (steps : List (ι × Section)) :
    Interleaved :=
  run (step callers) { vm := run VmCacheMiss.step {} rs } steps

/-- What `VmBase` answers, before and to the callers, is of a set. -/
structure AnswersIn (S : Set VmId) (rs : List (VmView × SampleEnv)) (callers : ι → Caller) :
    Prop where
  before : ∀ r ∈ rs, ∀ v ∈ r.1.vmIds, v ∈ S
  views : ∀ i, ∀ v ∈ (callers i).view.vmIds, v ∈ S
  threads : ∀ i, ThreadsIn S (callers i).toVmId

/-! ## What is held -/

theorem stopsSincePrepare_concat (steps : List (ι × Section)) (x : ι × Section) :
    stopsSincePrepare (steps ++ [x]) = match x.2 with
      | .prepare => []
      | .startSample => stopsSincePrepare steps
      | .stopSample => stopsSincePrepare steps ++ [x.1] := by
  obtain ⟨i, sec⟩ := x
  simp only [stopsSincePrepare]
  rw [List.rtakeWhile_concat]
  cases sec with
  | prepare => rfl
  | startSample => exact (performers_concat _ _ _).trans (List.append_nil _)
  | stopSample => exact performers_concat _ _ _

/-- After some of the sections of an interleaving: once a caller has prepared, the counts are the
totals of the rounds since. -/
structure Inv (S : Set VmId) (steps : List (ι × Section)) (t : Interleaved) : Prop where
  callback : t.vm.cacheMiss.callbackFunc = .calVmMissRate
  ids : t.vm.IdsIn S
  since_subset : ∀ r ∈ t.since, r ∈ t.rounds
  since_length : t.since.length = (stopsSincePrepare steps).length
  held : (∃ x ∈ steps, x.2 = .prepare) →
    ∀ vmId ∈ S, t.vm.vmData vmId = total (t.since.flatMap fun r => r vmId)

variable {S : Set VmId}

theorem vmData_stopSample (hS : VmId.StrictWeakOn S) {s : VmCacheMiss}
    (h : s.cacheMiss.callbackFunc = .calVmMissRate) (hids : s.IdsIn S) {caller : Caller}
    (hthreads : ThreadsIn S caller.toVmId) {vmId : VmId} (hvmId : vmId ∈ S) :
    (s.stopSample caller.toVmId caller.env).vmData vmId =
      (s.roundOf caller vmId).foldl accumulate (s.vmData vmId) := by
  have hread : IdsIn S { s with cacheMiss := (s.cacheMiss.stopSample caller.env).1 } :=
    ⟨hids.counts, hids.volatile⟩
  rw [stopSample_eq h]
  exact hread.vmData_foldl hS hthreads _ hvmId

theorem callbackFunc_stopSample {s : VmCacheMiss}
    (h : s.cacheMiss.callbackFunc = .calVmMissRate) (caller : Caller) :
    (s.stopSample caller.toVmId caller.env).cacheMiss.callbackFunc = .calVmMissRate := by
  rw [stopSample_eq h, (cacheMiss_foldl_calVmMissRate _ _ _).1]
  exact h

theorem inv_concat (hS : VmId.StrictWeakOn S) {rs : List (VmView × SampleEnv)}
    {callers : ι → Caller} (hanswers : AnswersIn S rs callers) {steps : List (ι × Section)}
    {t : Interleaved} (h : Inv S steps t) (x : ι × Section) :
    Inv S (steps ++ [x]) (step callers t x) := by
  obtain ⟨i, sec⟩ := x
  have hlength := h.since_length
  have hprepared (hne : sec ≠ .prepare) (hx : ∃ x ∈ steps ++ [(i, sec)], x.2 = .prepare) :
      ∃ x ∈ steps, x.2 = .prepare := by
    obtain ⟨x, hx, hsec⟩ := hx
    rcases List.mem_append.1 hx with hx | hx
    · exact ⟨x, hx, hsec⟩
    · rw [List.mem_singleton.1 hx] at hsec
      exact absurd hsec hne
  cases sec with
  | prepare =>
    refine ⟨(callbackFunc_prepare _ _).trans h.callback, h.ids.prepare (hanswers.views i),
      fun r hr => ?_, ?_, fun _ vmId _ => ?_⟩
    · cases hr
    · rw [stopsSincePrepare_concat]
      rfl
    · rfl
  | startSample =>
    refine ⟨(CacheMiss.callbackFunc_startSample _ _).trans h.callback,
      ⟨h.ids.counts, h.ids.volatile⟩, h.since_subset, ?_, ?_⟩
    · rw [stopsSincePrepare_concat]
      exact hlength
    · intro hx vmId hvmId
      exact h.held (hprepared (by decide) hx) vmId hvmId
  | stopSample =>
    refine ⟨callbackFunc_stopSample h.callback _, h.ids.stopSample hS (hanswers.threads i) _,
      fun r hr => ?_, ?_, fun hx vmId hvmId => ?_⟩
    · rcases List.mem_append.1 hr with hr | hr
      · exact List.mem_append_left _ (h.since_subset r hr)
      · exact List.mem_append_right _ hr
    · rw [stopsSincePrepare_concat]
      show (t.since ++ [_]).length = (stopsSincePrepare steps ++ [i]).length
      rw [List.length_append, List.length_append, hlength]
      rfl
    · show (t.vm.stopSample _ _).vmData vmId =
        total ((t.since ++ [_]).flatMap fun r : Round => r vmId)
      rw [vmData_stopSample hS h.callback h.ids (hanswers.threads i) hvmId,
        h.held (hprepared (by decide) hx) vmId hvmId, List.flatMap_append]
      simp only [total]
      rw [List.foldl_append, List.flatMap_singleton]

theorem inv_after (hS : VmId.StrictWeakOn S) {rs : List (VmView × SampleEnv)}
    {callers : ι → Caller} (hanswers : AnswersIn S rs callers) (steps : List (ι × Section)) :
    Inv S steps (after rs callers steps) := by
  induction steps using List.reverseRecOn with
  | nil =>
    refine ⟨(inv_run rs).callback, idsIn_run hS hanswers.before, fun r hr => ?_, rfl, fun hx => ?_⟩
    · cases hr
    · obtain ⟨x, hx, -⟩ := hx
      cases hx
  | append_singleton steps x ih =>
    simp only [after] at ih ⊢
    rw [run_concat]
    exact inv_concat hS hanswers ih x

/-- If one caller only stops after the last preparation, its round is what is held. -/
theorem oneRound_of_length (hS : VmId.StrictWeakOn S) {rs : List (VmView × SampleEnv)}
    {callers : ι → Caller} (hanswers : AnswersIn S rs callers) {steps : List (ι × Section)}
    (hprepared : ∃ x ∈ steps, x.2 = .prepare) (h : (stopsSincePrepare steps).length = 1) :
    (after rs callers steps).OneRound S := by
  have hinv := inv_after hS hanswers steps
  obtain ⟨r, hr⟩ := List.length_eq_one_iff.1 (hinv.since_length.trans h)
  refine ⟨r, hinv.since_subset r (by rw [hr]; exact List.mem_cons_self), fun vmId hvmId e => ?_⟩
  rw [hinv.held hprepared vmId hvmId, hr, List.flatMap_singleton, count_total]

/-! ## Callers that share a thread

The counts of a run tell how many rounds they hold if every caller finds the one VM with its one
thread, and each reads a count of its own. -/

/-- The VM of the callers below. -/
def theVm : VmId := ⟨1, 7⟩

/-- A caller whose round counts `w`. -/
def weighing (w : UInt64) : Caller where
  view := viewOf theVm [1]
  toVmId := fun _ => theVm
  env := envOf (some 0) (some w)

/-- Thread 1 is being sampled, and nothing is to be started or stopped. -/
structure Warm (s : VmCacheMiss) : Prop where
  callback : s.cacheMiss.callbackFunc = .calVmMissRate
  lastTids : s.lastTids = (viewOf theVm [1]).tids
  started : s.cacheMiss.toStartWatching = []
  stopping : s.cacheMiss.toStopWatching = []
  entries : ∃ d : CacheMissData, s.cacheMiss.cacheMissData.toList = [(1, d)] ∧ d.tid = 1 ∧
    ∀ e, (d.event e).firstTime = 0

theorem readAll_single {c : CacheMiss} {d : CacheMissData}
    (h : c.cacheMissData.toList = [(1, d)]) (read : Int → CacheMissData → CacheMissData × Bool)
    (hok : (read 1 d).2 = true) :
    (c.readAll read).cacheMissData.toList = [(1, (read 1 d).1)] ∧
      (c.readAll read).toStopWatching = c.toStopWatching := by
  simp only [CacheMiss.readAll]
  refine ⟨?_, ?_⟩
  · simp [ExtTreeMap.toList_map, h]
  · simp [h, hok]

theorem firstRead_weighing (w : UInt64) (d : CacheMissData) :
    d.firstRead ((weighing w).env.first 1) =
      (d.mapEvents fun _ p => { p with firstTime := 0 }, true) := by
  rw [firstRead_eq]
  exact if_pos fun _ _ => rfl

theorem secondRead_weighing (w : UInt64) (d : CacheMissData) :
    d.secondRead ((weighing w).env.second 1) =
      ((d.mapEvents fun _ p => p.second w).updateMissRate, true) := by
  rw [secondRead_eq]
  exact if_pos fun _ _ => rfl

theorem warm_prepare {s : VmCacheMiss} (h : Warm s) : Warm (s.prepare (viewOf theVm [1])) := by
  have hnone (tids : Tids) : tids.toList.filter (fun tid => !tids.contains tid) = [] := by
    rw [List.filter_eq_nil_iff]
    intro tid htid
    simp [ExtTreeSet.mem_toList.1 htid]
  have hcache : (s.prepare (viewOf theVm [1])).cacheMiss = s.cacheMiss := by
    rw [prepare_cacheMiss, h.lastTids, hnone, List.append_nil, List.append_nil]
  refine ⟨?_, rfl, ?_, ?_, ?_⟩
  · rw [hcache]
    exact h.callback
  · rw [hcache]
    exact h.started
  · rw [hcache]
    exact h.stopping
  · rw [hcache]
    exact h.entries

theorem warm_startSample {s : VmCacheMiss} (h : Warm s) (w : UInt64) :
    Warm (s.startSample (weighing w).env) := by
  obtain ⟨d, hlist, htid, -⟩ := h.entries
  have hrequests : s.cacheMiss.applyRequests (weighing w).env =
      { s.cacheMiss with toStartWatching := [], toStopWatching := [] } := by
    simp only [CacheMiss.applyRequests]
    rw [h.started]
    show ({ List.foldl CacheMiss.stopOne s.cacheMiss s.cacheMiss.toStopWatching with
      toStartWatching := [], toStopWatching := [] } : CacheMiss) = _
    rw [h.stopping]
    rfl
  obtain ⟨hentries, hstop⟩ := readAll_single
    (c := s.cacheMiss.applyRequests (weighing w).env) (by rw [hrequests]; exact hlist)
    (fun tid data => data.firstRead ((weighing w).env.first tid))
    (congrArg Prod.snd (firstRead_weighing w d))
  refine ⟨(CacheMiss.callbackFunc_startSample _ _).trans h.callback, h.lastTids, rfl, hstop,
    _, hentries, ?_, fun e => ?_⟩
  · rw [firstRead_weighing]
    exact htid
  · rw [firstRead_weighing, event_mapEvents]

/-- The threads' counts when a caller that counts `w` stops. -/
theorem stopSample_warm {s : VmCacheMiss} (h : Warm s) (w : UInt64) :
    ∃ d : CacheMissData, (s.cacheMiss.stopSample (weighing w).env).2 = [d] ∧
      (s.cacheMiss.stopSample (weighing w).env).1.cacheMissData.toList = [(1, d)] ∧
      (s.cacheMiss.stopSample (weighing w).env).1.toStopWatching = [] ∧ d.tid = 1 ∧
      ∀ e, (d.event e).firstTime = 0 ∧ (d.event e).count = w := by
  obtain ⟨d, hlist, htid, hfirst⟩ := h.entries
  obtain ⟨hentries, hstop⟩ := readAll_single hlist
    (fun tid data => data.secondRead ((weighing w).env.second tid))
    (congrArg Prod.snd (secondRead_weighing w d))
  rw [secondRead_weighing] at hentries
  refine ⟨_, ?_, hentries, hstop.trans h.stopping, ?_, fun e => ?_⟩
  · have hcallback : (s.cacheMiss.stopSample (weighing w).env).1.callbackFunc ≠ .null := by
      show s.cacheMiss.callbackFunc ≠ .null
      rw [h.callback]
      decide
    refine (if_neg hcallback).trans ?_
    exact congrArg (List.map Prod.snd) hentries
  · rw [updateMissRate_eq]
    exact htid
  · rw [event_updateMissRate, event_mapEvents]
    refine ⟨hfirst e, ?_⟩
    simp only [PerfData.second]
    simp only [hfirst e, UInt64.sub_zero]
    split_ifs with hw
    · rfl
    · exact (UInt64.le_antisymm (UInt64.not_lt.1 hw) UInt64.zero_le).symm

theorem warm_stopSample {s : VmCacheMiss} (h : Warm s) (w : UInt64) :
    Warm (s.stopSample (weighing w).toVmId (weighing w).env) := by
  obtain ⟨d, -, hlist, hstop, htid, hfirst⟩ := stopSample_warm h w
  have hframe := cacheMiss_foldl_calVmMissRate (weighing w).toVmId
    (s.cacheMiss.stopSample (weighing w).env).2
    { s with cacheMiss := (s.cacheMiss.stopSample (weighing w).env).1 }
  rw [stopSample_eq h.callback]
  refine ⟨?_, hframe.2.trans h.lastTids, ?_, ?_, d, ?_, htid, fun e => (hfirst e).1⟩
  · rw [hframe.1]
    exact h.callback
  · rw [hframe.1]
    exact h.started
  · rw [hframe.1]
    exact hstop
  · rw [hframe.1]
    exact hlist

theorem warm_exec {s : VmCacheMiss} (h : Warm s) (w : UInt64) (sec : Section) :
    Warm (s.exec (weighing w) sec) := by
  cases sec with
  | prepare => exact warm_prepare h
  | startSample => exact warm_startSample h w
  | stopSample => exact warm_stopSample h w

/-- The round of a caller that counts `w` counts `w`. -/
theorem sumCounts_roundOf {s : VmCacheMiss} (h : Warm s) (w : UInt64) :
    sumCounts (s.roundOf (weighing w) theVm) .cpuCycles = w := by
  obtain ⟨d, hpublished, -, -, -, hcount⟩ := stopSample_warm h w
  simp only [roundOf, contributions]
  rw [hpublished]
  have hstart : theVm.startTimestamp ≠ 0 := by decide
  have hvm : s.vmOf (weighing w).toVmId d.tid = theVm := if_pos hstart
  have hmine : (s.vmOf (weighing w).toVmId d.tid).startTimestamp ≠ 0 ∧
      (s.vmOf (weighing w).toVmId d.tid).eqv theVm := by
    rw [hvm]
    exact ⟨hstart, eqv_refl theVm⟩
  rw [List.filter_cons, if_pos (decide_eq_true hmine)]
  show (d.event .cpuCycles).count + 0 = w
  rw [UInt64.add_zero]
  exact (hcount .cpuCycles).2

theorem sumCounts_flatMap (rounds : List Round) (vmId : VmId) (e : PerfEvent) :
    sumCounts (rounds.flatMap fun r => r vmId) e =
      (rounds.map fun r => sumCounts (r vmId) e).sum := by
  induction rounds with
  | nil => rfl
  | cons r rounds ih =>
    rw [List.flatMap_cons, List.map_cons, List.sum_cons, ← ih]
    simp only [sumCounts]
    rw [List.map_append, List.sum_append]

/-- One refresh, after which the thread is being sampled. -/
def warming : List (VmView × SampleEnv) := [(viewOf theVm [1], envOf (some 0) (some 0))]

theorem warm_warming : Warm (run VmCacheMiss.step {} warming) := by
  have hinv := inv_run warming
  have hlist : (run VmCacheMiss.step {} warming).cacheMiss.cacheMissData.toList.map
      (fun p => (p.1, p.2.tid, PerfEvent.all.map fun e => (p.2.event e).firstTime)) =
      [(1, 1, [0, 0, 0, 0])] := by decide +kernel
  obtain ⟨⟨tid, d⟩, hlist, hd⟩ := List.map_eq_singleton_iff.1 hlist
  simp only [PerfEvent.all, List.map_cons, List.map_nil, Prod.mk.injEq, List.cons.injEq,
    and_true] at hd
  obtain ⟨rfl, htid, hmiss, hcycles, hinstr, href⟩ := hd
  refine ⟨hinv.callback, lastTids_refresh inv_init _ _, hinv.started, by decide +kernel, d, hlist,
    htid, fun e => ?_⟩
  cases e with
  | cacheMisses => exact hmiss
  | cpuCycles => exact hcycles
  | instructions => exact hinstr
  | cacheReferences => exact href

/-- The rounds of callers that weigh, by their weights. -/
structure Weighed (weight : ι → UInt64) (steps : List (ι × Section)) (t : Interleaved) : Prop where
  warm : Warm t.vm
  rounds : ∀ r ∈ t.rounds, ∃ i, sumCounts (r theVm) .cpuCycles = weight i
  since : (t.since.map fun r => sumCounts (r theVm) .cpuCycles) =
    (stopsSincePrepare steps).map weight

theorem weighed_after (weight : ι → UInt64) (steps : List (ι × Section)) :
    Weighed weight steps (after warming (fun i => weighing (weight i)) steps) := by
  induction steps using List.reverseRecOn with
  | nil =>
    refine ⟨warm_warming, fun r hr => ?_, rfl⟩
    cases hr
  | append_singleton steps x ih =>
    obtain ⟨i, sec⟩ := x
    simp only [after] at ih ⊢
    rw [run_concat]
    generalize run _ _ steps = t at ih ⊢
    have hround := sumCounts_roundOf ih.warm (weight i)
    refine ⟨warm_exec ih.warm (weight i) sec, ?_, ?_⟩
    · cases sec with
      | prepare => exact ih.rounds
      | startSample => exact ih.rounds
      | stopSample =>
        intro r hr
        rcases List.mem_append.1 hr with hr | hr
        · exact ih.rounds r hr
        · rw [List.mem_singleton.1 hr]
          exact ⟨i, hround⟩
    · rw [stopsSincePrepare_concat]
      cases sec with
      | prepare => rfl
      | startSample => exact ih.since
      | stopSample =>
        show (t.since ++ [_]).map _ = (stopsSincePrepare steps ++ [i]).map weight
        rw [List.map_append, List.map_append, ih.since, List.map_singleton, hround]
        rfl

/-- All of them are answered the one VM. -/
theorem answersIn_weighing (weight : ι → UInt64) :
    AnswersIn {theVm} warming fun i => weighing (weight i) where
  before r hr v hv := by
    obtain rfl := List.mem_singleton.1 hr
    exact List.mem_singleton.1 hv
  views _ _ hv := List.mem_singleton.1 hv
  threads _ _ _ := rfl

/-! ## Interleavings -/

variable [DecidableEq ι]

theorem exists_prepare (x : Interleaving fun _ : ι => sections) (h : x.steps ≠ []) :
    ∃ y ∈ x.steps, y.2 = .prepare := by
  obtain ⟨⟨i, sec⟩, -⟩ := List.exists_mem_of_ne_nil x.steps h
  exact ⟨(i, .prepare), (x.mem_steps i .prepare).2 (by decide), rfl⟩

theorem nodup_stopsSincePrepare (x : Interleaving fun _ : ι => sections) :
    (stopsSincePrepare x.steps).Nodup := by
  have hstops : (performers .stopSample x.steps).Nodup := x.nodup_performers fun _ => by decide
  apply List.Nodup.sublist _ hstops
  apply performers_sublist
  exact (List.rtakeWhile_suffix _ _).sublist

/-- An interleaving that always leaves one round leaves that of some caller, whatever the callers
count. -/
theorem exists_sum_eq {x : Interleaving fun _ : ι => sections}
    (h : ∀ S, VmId.StrictWeakOn S → ∀ rs callers, AnswersIn S rs callers →
      (after rs callers x.steps).OneRound S) (weight : ι → UInt64) :
    ∃ i, ((stopsSincePrepare x.steps).map weight).sum = weight i := by
  have hweighed := weighed_after weight x.steps
  have hanswers := answersIn_weighing weight
  have hinv := inv_after (.singleton theVm) hanswers x.steps
  obtain ⟨r, hr, hheld⟩ := h {theVm} (.singleton theVm) warming _ hanswers
  obtain ⟨i, hi⟩ := hweighed.rounds r hr
  have hne : x.steps ≠ [] := by
    intro hnil
    rw [hnil] at hr
    cases hr
  have hsum := hheld theVm rfl .cpuCycles
  rw [hinv.held (exists_prepare x hne) theVm rfl, count_total, sumCounts_flatMap,
    hweighed.since] at hsum
  exact ⟨i, hsum.trans hi⟩

theorem oneRound_lawful_iff (x : Interleaving fun _ : ι => sections) :
    (∀ S, VmId.StrictWeakOn S → ∀ rs callers, AnswersIn S rs callers →
      (after rs callers x.steps).OneRound S) ↔ (stopsSincePrepare x.steps).length = 1 := by
  refine ⟨?_, ?_⟩
  · intro h
    have hnodup := nodup_stopsSincePrepare x
    have hsum := exists_sum_eq h
    generalize stopsSincePrepare x.steps = stops at hnodup hsum ⊢
    cases stops with
    | nil =>
      -- Nothing would be held, though every round counts.
      obtain ⟨_, hone⟩ := hsum fun _ => 1
      exact absurd (show (0 : UInt64) = 1 from hone) (by decide)
    | cons i stops =>
      cases stops with
      | nil => rfl
      | cons j rest =>
        -- Let these two callers count 1 each and the others nothing: then 2 is held.
        obtain ⟨hi, hnodup⟩ := List.nodup_cons.1 hnodup
        obtain ⟨hj, -⟩ := List.nodup_cons.1 hnodup
        have hrest : (rest.map fun k => if k = i ∨ k = j then (1 : UInt64) else 0).sum = 0 := by
          apply sum_map_eq_zero
          intro k hk
          apply if_neg
          intro heq
          rcases heq with rfl | rfl
          · exact hi (List.mem_cons_of_mem j hk)
          · exact hj hk
        obtain ⟨k, hk⟩ := hsum fun k => if k = i ∨ k = j then 1 else 0
        rw [List.map_cons, List.map_cons, List.sum_cons, List.sum_cons, hrest,
          if_pos (Or.inl rfl), if_pos (Or.inr rfl)] at hk
        split_ifs at hk
        · exact absurd hk (by decide)
        · exact absurd hk (by decide)
  · intro h S hS rs callers hanswers
    apply oneRound_of_length hS hanswers _ h
    apply exists_prepare x
    intro hnil
    rw [hnil] at h
    exact absurd (show 0 = 1 from h) (by decide)

/-- **An interleaving leaves the counts of one round exactly if one caller only stops after the
last preparation**, for ids that are ordered lawfully, and trees hold the counts. -/
theorem oneRound_iff (x : Interleaving fun _ : ι => sections) :
    ((∀ S, VmId.StrictWeakOn S → ∀ rs callers, AnswersIn S rs callers →
        (after rs callers x.steps).OneRound S) ↔ (stopsSincePrepare x.steps).length = 1) ∧
      ∀ S, VmId.StrictWeakOn S → ∀ rs callers, AnswersIn S rs callers →
        HeldOn S (after rs callers x.steps).vm.vmCacheMissData :=
  ⟨oneRound_lawful_iff x, fun _ hS _ _ hanswers => (inv_after hS hanswers x.steps).ids.held hS⟩

/-- Two callers enter each section one right after the other. -/
def overlapping : Interleaving fun _ : Fin 2 => sections where
  steps := [(0, .prepare), (1, .prepare), (0, .startSample), (1, .startSample),
    (0, .stopSample), (1, .stopSample)]
  order := by decide

/-- The first round counts 5 and the second 8, but 13 is held. -/
theorem not_oneRound_overlapping : ¬ (after warming
    (fun i : Fin 2 => weighing (if i = 0 then 5 else 8)) overlapping.steps).OneRound {theVm} := by
  intro h
  obtain ⟨r, hr, hheld⟩ := h
  obtain ⟨i, hi⟩ := (weighed_after (fun i : Fin 2 => if i = 0 then 5 else 8) _).rounds r hr
  have hthirteen : (((after warming (fun i : Fin 2 => weighing (if i = 0 then 5 else 8))
      overlapping.steps).vm.vmData theVm).event .cpuCycles).count = 13 := by decide +kernel
  rw [hheld theVm rfl .cpuCycles, hi] at hthirteen
  split_ifs at hthirteen
  · exact absurd hthirteen (by decide)
  · exact absurd hthirteen (by decide)

end Interleaved

end VmCacheMiss

end LibVsf
