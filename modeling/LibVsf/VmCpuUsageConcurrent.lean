import LibVsf.CpuUsageUnknown
import LibVsf.VmCpuUsageProof

/-!
# `VmCpuUsage` with concurrent callers

Without a background thread every getter refreshes twice, so refreshes of several callers can run at
once. A caller first holds `data_mutex_` to compare the VMs with `last_pids_` and queue what has
changed, and then calls `CpuUsage::refresh`, which works off the queues: the starts, and then the
stops. Between these two sections of one caller those of others can come, in any order.

**Theorem (`watches_iff_steady`).** Whatever the order, and also after refreshes that could not open
`/proc/stat` or the processes: in every state that is reached, a refresh of `CpuUsage` that comes
next watches exactly `last_pids_`, if and only if no caller has found a process back that had been
watched, and found gone, since the queues were worked off.
-/

namespace LibVsf

open Std Runs Watching

namespace VmCpuUsage

/-! ## The sections -/

/-- The sections of the callers. -/
inductive Section where
  /-- The first one of a caller, with the VMs that it is told. -/
  | prepare (vmIds : List VmId)
  /-- The second, where procps lists only processes that it is asked for. -/
  | refresh (env : Env) (henv : env.RequestedOnly)
  /-- A thread that has been stopped. -/
  | clear

/-- The instance, with what `last_pids_` has been since the queues were worked off, and whether the
program has been ended. -/
structure Shared where
  vm : VmCpuUsage
  since : List Tids := [∅]
  terminated : Bool := false

namespace Shared

/-- A section, unless the program has ended. -/
def step (t : Shared) (sec : Section) : Shared :=
  if t.terminated then t
  else
    match sec with
    | .prepare vmIds => { t with vm := t.vm.prepare vmIds, since := t.since ++ [pidsOf vmIds] }
    | .refresh env _ =>
      match t.vm.refreshCpuUsage env with
      | .ok vm => { t with vm := vm, since := [vm.lastPids] }
      | .error (.fileOpenFailed _, vm) => { t with vm := vm }
      | .error (.openProcFailed _, vm) => { t with vm := vm, since := [vm.lastPids] }
      | .error (.divisionByZero, _) => { t with terminated := true }
    | .clear => { t with vm := t.vm.clear, since := [∅] }

def init (cpuNum : UInt32) : Shared where
  vm := VmCpuUsage.init cpuNum

/-- A refresh that comes next watches what `CpuUsage` has been told to. -/
def Watches (t : Shared) : Prop :=
  t.terminated = false → ∀ env, env.RequestedOnly → ∀ vm, t.vm.refreshCpuUsage env = .ok vm →
    vm.cpuUsage.watched = {pid | pid ∈ vm.lastPids}

/-- No process is found back. -/
def Steady (t : Shared) (sec : Section) : Prop :=
  ∀ vmIds, sec = .prepare vmIds → t.terminated = false → ∀ pid ∈ pidsOf vmIds,
    pid ∈ t.vm.lastPids ∨ ∀ pids ∈ t.since, pid ∉ pids

end Shared

/-! ## What comes next -/

/-- What a refresh that returns leaves. -/
theorem refreshCpuUsage_ok {s s' : VmCpuUsage} {env : Env} (h : s.refreshCpuUsage env = .ok s') :
    s.cpuUsage.refresh env = .ok s'.cpuUsage ∧ s'.lastPids = s.lastPids := by
  simp only [refreshCpuUsage] at h
  cases hcpu : s.cpuUsage.refresh env with
  | error failure =>
    rw [hcpu] at h
    cases h
  | ok cpuUsage =>
    rw [hcpu] at h
    rw [← Except.ok.inj h]
    simp only [cpuUsageCallback]
    split_ifs <;> exact ⟨rfl, rfl⟩

/-- It watches what the queues came to. -/
theorem watched_refreshCpuUsage {s s' : VmCpuUsage} {env : Env} (henv : env.RequestedOnly)
    (h : s.refreshCpuUsage env = .ok s') :
    s'.cpuUsage.watched = s.cpuUsage.queued.drain ∧ s'.lastPids = s.lastPids := by
  obtain ⟨hcpu, hlast⟩ := refreshCpuUsage_ok h
  have hqueued := CpuUsage.queued_refresh henv hcpu
  exact ⟨congrArg Queued.watched hqueued, hlast⟩

/-- A refresh that throws has worked off the queues, or has done nothing. -/
theorem refreshCpuUsage_error {s s' : VmCpuUsage} {env : Env} {failure : CpuUsageFailure}
    (h : s.refreshCpuUsage env = .error (failure, s')) :
    failure = .divisionByZero ∨ s'.lastPids = s.lastPids ∧
      ((∃ what, failure = .fileOpenFailed what) ∧ s'.cpuUsage.queued = s.cpuUsage.queued ∨
        (∃ what, failure = .openProcFailed what) ∧
          s'.cpuUsage.queued = ⟨s.cpuUsage.queued.drain, [], []⟩) := by
  simp only [refreshCpuUsage] at h
  cases hcpu : s.cpuUsage.refresh env with
  | ok cpuUsage =>
    rw [hcpu] at h
    cases h
  | error e =>
    obtain ⟨failure, cpuUsage⟩ := e
    rw [hcpu] at h
    cases h
    cases failure with
    | divisionByZero => exact Or.inl rfl
    | fileOpenFailed what =>
      have htry : s.cpuUsage.tryRefresh ⟨env, none⟩ = .ok (cpuUsage, .statFailed) := by
        simp only [CpuUsage.tryRefresh, hcpu]
      cases CpuUsage.tryRefresh_cases htry
      exact Or.inr ⟨rfl, Or.inl ⟨⟨what, rfl⟩, rfl⟩⟩
    | openProcFailed what =>
      have htry : s.cpuUsage.tryRefresh ⟨env, none⟩ = .ok (cpuUsage, .openprocFailed) := by
        simp only [CpuUsage.tryRefresh, hcpu]
      cases CpuUsage.tryRefresh_cases htry with
      | openprocFailed hstat hlisting =>
        exact Or.inr ⟨rfl, Or.inr ⟨⟨what, rfl⟩, CpuUsage.queued_refreshWatching _⟩⟩

theorem told_clear (s : VmCpuUsage) : s.clear.Told := rfl

theorem Told.drain {s : VmCpuUsage} (h : s.Told) : s.cpuUsage.queued.drain = s.told := by
  rw [h, Queued.drain_of_empty]

namespace Shared

/-- What a refresh that comes next watches is what `CpuUsage` has been told to. -/
theorem watches_iff {t : Shared} :
    t.Watches ↔ (t.terminated = false → t.vm.cpuUsage.queued.drain = t.vm.told) := by
  refine forall_congr' fun _ => ⟨fun h => ?_, fun h env henv vm hrefresh => ?_⟩
  · obtain ⟨vm, hrefresh⟩ : ∃ vm, t.vm.refreshCpuUsage idleEnv = .ok vm := ⟨_, rfl⟩
    obtain ⟨hwatched, hlast⟩ := watched_refreshCpuUsage requestedOnly_idleEnv hrefresh
    rw [← hwatched, h idleEnv requestedOnly_idleEnv vm hrefresh, hlast]
    rfl
  · obtain ⟨hwatched, hlast⟩ := watched_refreshCpuUsage henv hrefresh
    rw [hwatched, h, hlast]
    rfl

/-! ## What has been seen -/

/-- What waits to be stopped has been there, and what has been there is there or waits. -/
structure Inv (t : Shared) : Prop where
  stops : ∀ pid ∈ t.vm.cpuUsage.toStopWatching, ∃ pids ∈ t.since, pid ∈ pids
  gone : ∀ pids ∈ t.since, ∀ pid ∈ pids,
    pid ∈ t.vm.lastPids ∨ pid ∈ t.vm.cpuUsage.toStopWatching
  last : t.vm.lastPids ∈ t.since

theorem inv_init (cpuNum : UInt32) : (init cpuNum).Inv where
  stops _ hpid := absurd hpid List.not_mem_nil
  gone pids hpids pid hpid := by
    obtain rfl := List.mem_singleton.1 hpids
    exact Or.inl hpid
  last := List.mem_cons_self

/-- The queues after a preparation. -/
theorem queued_prepare (s : VmCpuUsage) (vmIds : List VmId) :
    (s.prepare vmIds).cpuUsage.queued.watched = s.cpuUsage.queued.watched ∧
      (∀ pid, pid ∈ (s.prepare vmIds).cpuUsage.queued.starts ↔
        pid ∈ s.cpuUsage.queued.starts ∨ pid ∈ pidsOf vmIds ∧ pid ∉ s.lastPids) ∧
      ∀ pid, pid ∈ (s.prepare vmIds).cpuUsage.queued.stops ↔
        pid ∈ s.cpuUsage.queued.stops ∨ pid ∈ s.lastPids ∧ pid ∉ pidsOf vmIds := by
  obtain ⟨hwatched, hstarts, hstops⟩ := s.cpuUsage.queued.run_call (s.requests vmIds)
  rw [prepare_cpuUsage, CpuUsage.queued_run_call]
  refine ⟨hwatched, fun pid => ?_, fun pid => ?_⟩
  · rw [hstarts]
    simp [requests, ← Bool.not_eq_true]
  · rw [hstops]
    simp [requests, ← Bool.not_eq_true]

theorem inv_prepare {t : Shared} (h : t.Inv) (vmIds : List VmId) :
    Inv { t with vm := t.vm.prepare vmIds, since := t.since ++ [pidsOf vmIds] } := by
  obtain ⟨-, -, hstops⟩ := queued_prepare t.vm vmIds
  constructor
  · intro pid hpid
    rcases (hstops pid).1 hpid with hpid | ⟨hold, -⟩
    · obtain ⟨pids, hpids, hmem⟩ := h.stops pid hpid
      exact ⟨pids, List.mem_append_left _ hpids, hmem⟩
    · exact ⟨t.vm.lastPids, List.mem_append_left _ h.last, hold⟩
  · intro pids hpids pid hpid
    by_cases hnew : pid ∈ pidsOf vmIds
    · exact Or.inl hnew
    · refine Or.inr ((hstops pid).2 ?_)
      rcases List.mem_append.1 hpids with hpids | hpids
      · rcases h.gone pids hpids pid hpid with hold | hstop
        · exact Or.inr ⟨hold, hnew⟩
        · exact Or.inl hstop
      · rw [List.mem_singleton.1 hpids] at hpid
        exact absurd hpid hnew
  · exact List.mem_append_right _ List.mem_cons_self

/-- After the queues are worked off. -/
theorem inv_of_stops {t : Shared} (hstops : t.vm.cpuUsage.queued.stops = [])
    (hsince : t.since = [t.vm.lastPids]) : t.Inv where
  stops pid hpid := by
    have hpid : pid ∈ t.vm.cpuUsage.queued.stops := hpid
    rw [hstops] at hpid
    exact absurd hpid List.not_mem_nil
  gone pids hpids pid hpid := by
    rw [hsince] at hpids
    rw [List.mem_singleton.1 hpids] at hpid
    exact Or.inl hpid
  last := by
    rw [hsince]
    exact List.mem_cons_self

/-- A caller's refresh leaves the queues worked off, or everything as it was. -/
theorem step_refresh_cases {t : Shared} (ht : t.terminated = false) (env : Env)
    (henv : env.RequestedOnly) :
    (t.step (.refresh env henv)).terminated = true ∧
        (t.step (.refresh env henv)).vm = t.vm ∧ (t.step (.refresh env henv)).since = t.since ∨
      (t.step (.refresh env henv)).vm.lastPids = t.vm.lastPids ∧
        ((t.step (.refresh env henv)).vm.cpuUsage.queued = t.vm.cpuUsage.queued ∧
            (t.step (.refresh env henv)).since = t.since ∨
          (t.step (.refresh env henv)).vm.cpuUsage.queued =
              ⟨t.vm.cpuUsage.queued.drain, [], []⟩ ∧
            (t.step (.refresh env henv)).since = [t.vm.lastPids]) := by
  simp only [step, ht, Bool.false_eq_true, if_false]
  cases hrefresh : t.vm.refreshCpuUsage env with
  | ok vm =>
    obtain ⟨hcpu, hlast⟩ := refreshCpuUsage_ok hrefresh
    have hqueued := CpuUsage.queued_refresh henv hcpu
    exact Or.inr ⟨hlast, Or.inr ⟨hqueued, congrArg (fun pids => [pids]) hlast⟩⟩
  | error e =>
    obtain ⟨failure, vm⟩ := e
    rcases refreshCpuUsage_error hrefresh with rfl | ⟨hlast, ⟨⟨what, rfl⟩, h⟩ | ⟨⟨what, rfl⟩, h⟩⟩
    · exact Or.inl ⟨rfl, rfl, rfl⟩
    · exact Or.inr ⟨hlast, Or.inl ⟨h, rfl⟩⟩
    · exact Or.inr ⟨hlast, Or.inr ⟨h, congrArg (fun pids => [pids]) hlast⟩⟩

theorem inv_congr {t t' : Shared} (h : t.Inv)
    (hqueued : t'.vm.cpuUsage.queued = t.vm.cpuUsage.queued)
    (hlast : t'.vm.lastPids = t.vm.lastPids) (hsince : t'.since = t.since) : t'.Inv := by
  have hstops : t'.vm.cpuUsage.toStopWatching = t.vm.cpuUsage.toStopWatching :=
    congrArg Queued.stops hqueued
  constructor
  · rw [hstops, hsince]
    exact h.stops
  · rw [hstops, hlast, hsince]
    exact h.gone
  · rw [hlast, hsince]
    exact h.last

theorem inv_step {t : Shared} (h : t.Inv) (sec : Section) : (t.step sec).Inv := by
  cases ht : t.terminated with
  | true =>
    simp only [step, ht, if_true]
    exact h
  | false =>
    cases sec with
    | prepare vmIds =>
      simp only [step, ht, Bool.false_eq_true, if_false]
      exact inv_congr (inv_prepare h vmIds) rfl rfl rfl
    | refresh env henv =>
      rcases step_refresh_cases ht env henv with ⟨-, hvm, hsince⟩ | ⟨hlast, h' | h'⟩
      · exact inv_congr h (by rw [hvm]) (by rw [hvm]) hsince
      · exact inv_congr h h'.1 hlast h'.2
      · exact inv_of_stops (congrArg Queued.stops h'.1) (by rw [h'.2, hlast])
    | clear =>
      simp only [step, ht, Bool.false_eq_true, if_false]
      exact inv_of_stops rfl rfl

/-- **A preparation** keeps the processes in order exactly if it finds none back. -/
theorem drain_prepare_iff {t : Shared} (h : t.Inv)
    (htold : t.vm.cpuUsage.queued.drain = t.vm.told) (vmIds : List VmId) :
    (t.vm.prepare vmIds).cpuUsage.queued.drain = (t.vm.prepare vmIds).told ↔
      ∀ pid ∈ pidsOf vmIds, pid ∈ t.vm.lastPids ∨ ∀ pids ∈ t.since, pid ∉ pids := by
  obtain ⟨hwatched, hstarts, hstops⟩ := queued_prepare t.vm vmIds
  have hold : ∀ pid, (pid ∈ t.vm.cpuUsage.queued.watched ∨ pid ∈ t.vm.cpuUsage.queued.starts) ∧
      pid ∉ t.vm.cpuUsage.queued.stops ↔ pid ∈ t.vm.lastPids := fun pid => Set.ext_iff.1 htold pid
  have hnew : ∀ pid, pid ∈ (t.vm.prepare vmIds).told ↔ pid ∈ pidsOf vmIds := fun pid => Iff.rfl
  simp only [Set.ext_iff, Queued.drain, Set.mem_ofPred_eq, hwatched, hstarts, hstops, hnew]
  constructor
  · intro hdrain pid hpid
    by_cases hlast : pid ∈ t.vm.lastPids
    · exact Or.inl hlast
    · refine Or.inr fun pids hpids hmem => ?_
      have hstop : pid ∉ t.vm.cpuUsage.queued.stops := fun hstop =>
        ((hdrain pid).2 hpid).2 (Or.inl hstop)
      rcases h.gone pids hpids pid hmem with hgone | hgone
      · exact hlast hgone
      · exact hstop hgone
  · intro hsteady pid
    constructor
    · rintro ⟨hmem, hstop⟩
      rw [not_or] at hstop
      have hkept : pid ∈ t.vm.lastPids → pid ∈ pidsOf vmIds := fun hlast =>
        not_not.1 fun hgone => hstop.2 ⟨hlast, hgone⟩
      rcases hmem with hmem | hmem | ⟨hmem, -⟩
      · exact hkept ((hold pid).1 ⟨Or.inl hmem, hstop.1⟩)
      · exact hkept ((hold pid).1 ⟨Or.inr hmem, hstop.1⟩)
      · exact hmem
    · intro hmem
      rcases hsteady pid hmem with hlast | hunseen
      · obtain ⟨hthere, hstop⟩ := (hold pid).2 hlast
        refine ⟨or_assoc.1 (Or.inl hthere), ?_⟩
        rintro (hstop' | ⟨-, hgone⟩)
        · exact hstop hstop'
        · exact hgone hmem
      · have hlast : pid ∉ t.vm.lastPids := hunseen _ h.last
        refine ⟨Or.inr (Or.inr ⟨hmem, hlast⟩), ?_⟩
        rintro (hstop | ⟨hlast', -⟩)
        · obtain ⟨pids, hpids, hpid⟩ := h.stops pid hstop
          exact hunseen pids hpids hpid
        · exact hlast hlast'

theorem steady_of_ne_prepare {t : Shared} {sec : Section} (h : ∀ vmIds, sec ≠ .prepare vmIds) :
    t.Steady sec := fun vmIds hsec => absurd hsec (h vmIds)

theorem watches_step {t : Shared} (h : t.Inv) (hwatches : t.Watches) (sec : Section) :
    (t.step sec).Watches ↔ t.Steady sec := by
  rw [watches_iff] at hwatches ⊢
  cases ht : t.terminated with
  | true =>
    simp only [step, Steady, ht, if_true, Bool.true_eq_false, false_implies, implies_true]
  | false =>
    have htold := hwatches ht
    cases sec with
    | prepare vmIds =>
      simp only [step, Steady, ht, Bool.false_eq_true, if_false, forall_const]
      rw [drain_prepare_iff h htold]
      refine ⟨fun hsteady _ hsec => ?_, fun hsteady => hsteady vmIds rfl⟩
      cases hsec
      exact hsteady
    | refresh env henv =>
      refine iff_of_true (fun hlive => ?_) (steady_of_ne_prepare fun _ => Section.noConfusion)
      rcases step_refresh_cases ht env henv with ⟨hdead, -⟩ | ⟨hlast, h' | h'⟩
      · rw [hdead] at hlive
        cases hlive
      · rw [h'.1, htold, told, told, hlast]
      · rw [h'.1, Queued.drain_of_empty, htold, told, told, hlast]
    | clear =>
      refine iff_of_true (fun _ => ?_) (steady_of_ne_prepare fun _ => Section.noConfusion)
      simp only [step, ht, Bool.false_eq_true, if_false]
      exact (told_clear t.vm).drain

end Shared

/-- **A refresh that comes next watches `last_pids_`**, in all states, exactly if no process is
found back. -/
theorem watches_iff_steady (cpuNum : UInt32) (secs : List Section) :
    Holds Shared.step Shared.Watches (Shared.init cpuNum) secs ↔
      Along Shared.step Shared.Steady (Shared.init cpuNum) secs := by
  refine holds_iff_along Shared.step (I := Shared.Inv) (fun t sec h => Shared.inv_step h sec)
    (fun t sec h hwatches => Shared.watches_step h hwatches sec) (Shared.inv_init cpuNum) ?_ secs
  exact Shared.watches_iff.2 fun _ => (told_init cpuNum).drain

end VmCpuUsage

end LibVsf
