import LibVsf.Lib.Since
import LibVsf.VmBaseRuns

/-!
# `VmBase`: getters beside `set_vm_cmd`

While the thread runs, a getter waits until `has_data_` is true and then reads under the mutex.
These are two steps, and between them `set_vm_cmd` (also that of `init_vms`, which calls a getter
next) can empty the maps.

**Theorem (`reads_refreshed_iff`).** In an order of steps every getter reads what a refresh has
left, exactly if every `set_vm_cmd` between the check and the read of a getter is followed by a
refresh before the read.

The steps are those of getters, of callers of `set_vm_cmd` and of the thread, in any order; the
sections of the mutex are single steps.
-/

namespace LibVsf

open Events Runs

/-- A step of one of the parties. -/
inductive VmBaseEvent where
  /-- A getter looks at `has_data_`; if it is true it goes on. -/
  | check (getter : Nat)
  /-- A getter that has gone on reads the maps. -/
  | read (getter : Nat)
  | setVmCmd (vmCmd : String)
  | refresh (host : VmHost)

def VmBaseEvent.IsSetVmCmd (e : VmBaseEvent) : Prop := ∃ vmCmd, e = .setVmCmd vmCmd

def VmBaseEvent.IsRefresh (e : VmBaseEvent) : Prop := ∃ host, e = .refresh host

/-- The instance, the getters that have seen data, and whether the thread has ended the process by
an exception. -/
structure VmBaseShared where
  base : VmBase := {}
  passed : Nat → Bool := fun _ => false
  terminated : Bool := false

namespace VmBaseShared

open VmBaseEvent

def check (s : VmBaseShared) (i : Nat) : VmBaseShared :=
  if s.base.hasData then { s with passed := fun j => j = i || s.passed j } else s

def read (s : VmBaseShared) (i : Nat) : VmBaseShared :=
  { s with passed := fun j => j ≠ i && s.passed j }

/-- A refresh of the thread. -/
def refresh (s : VmBaseShared) (host : VmHost) : VmBaseShared :=
  match s.base.refresh host with
  | .ok t => { s with base := t }
  | .error (_, t) => { s with base := t, terminated := true }

def act (s : VmBaseShared) : VmBaseEvent → VmBaseShared
  | .check i => s.check i
  | .read i => s.read i
  | .setVmCmd vmCmd => { s with base := s.base.setVmCmd vmCmd }
  | .refresh host => s.refresh host

def step (s : VmBaseShared) (e : VmBaseEvent) : VmBaseShared :=
  if s.terminated then s else s.act e

/-- The state after events. -/
def after (es : List VmBaseEvent) : VmBaseShared := run step {} es

/-! ## Reads -/

/-- The getter reads the maps after these events. -/
structure Reads (es pre : List VmBaseEvent) (i : Nat) : Prop where
  isPrefix : pre ++ [.read i] <+: es
  passed : (after pre).passed i = true
  running : (after pre).terminated = false

/-- Since the last `set_vm_cmd` no refresh has come. -/
def Emptied (es : List VmBaseEvent) : Prop := Since (fun _ => IsSetVmCmd) IsRefresh es

/-- The maps are those that a completed refresh has left, and not those that `set_vm_cmd` has
emptied. -/
structure Refreshed (es : List VmBaseEvent) : Prop where
  completed : ∃ pre host t, pre ++ [.refresh host] <+: es ∧ (after pre).terminated = false ∧
    (after pre).base.refresh host = .ok t ∧ (after es).base.data = t.data
  not_emptied : ¬ Emptied es

/-- A getter goes on at a check, and reads the next time after the events `mid`. -/
structure Passage (es pre : List VmBaseEvent) (i : Nat) (mid : List VmBaseEvent) : Prop where
  isPrefix : pre ++ .check i :: mid ++ [.read i] <+: es
  hasData : (after pre).base.hasData = true
  not_read : .read i ∉ mid
  running : (after (pre ++ .check i :: mid)).terminated = false

/-! ## Steps -/

theorem after_concat (es : List VmBaseEvent) (e : VmBaseEvent) :
    after (es ++ [e]) = (after es).step e :=
  run_concat step {} es e

theorem step_eq {s : VmBaseShared} (h : s.terminated = false) (e : VmBaseEvent) :
    s.step e = s.act e := by
  simp only [step, h, Bool.false_eq_true, if_false]

/-- A process that runs has run before. -/
theorem running_of_step {s : VmBaseShared} {e : VmBaseEvent}
    (h : (s.step e).terminated = false) : s.terminated = false := by
  cases hs : s.terminated with
  | false => rfl
  | true =>
    simp only [step, hs, if_true] at h
    cases h

theorem running_of_append {es fs : List VmBaseEvent}
    (h : (after (es ++ fs)).terminated = false) : (after es).terminated = false := by
  induction fs using List.reverseRecOn with
  | nil => simpa using h
  | append_singleton fs e ih =>
    rw [← List.append_assoc, after_concat] at h
    exact ih (running_of_step h)

/-- A refresh after which the process runs has completed. -/
theorem refresh_of_running {s : VmBaseShared} {host : VmHost}
    (h : (s.step (.refresh host)).terminated = false) :
    ∃ t, s.base.refresh host = .ok t ∧ (s.step (.refresh host)).base = t := by
  have hs := running_of_step h
  rw [step_eq hs] at h ⊢
  simp only [act, refresh] at h ⊢
  cases hrefresh : s.base.refresh host with
  | ok t => exact ⟨t, rfl, rfl⟩
  | error et =>
    rw [hrefresh] at h
    cases h

/-- Getters change nothing but what has been passed. -/
theorem base_of_getter {s : VmBaseShared} {e : VmBaseEvent} (hset : ¬ e.IsSetVmCmd)
    (hrefresh : ¬ e.IsRefresh) : (s.step e).base = s.base := by
  simp only [step]
  split_ifs
  · rfl
  · cases e with
    | check i =>
      simp only [act, check]
      split_ifs <;> rfl
    | read => rfl
    | setVmCmd vmCmd => exact absurd ⟨vmCmd, rfl⟩ hset
    | refresh host => exact absurd ⟨host, rfl⟩ hrefresh

/-- **Who may read**: getters that have gone on at a check and have not read since. -/
theorem passed_iff {es : List VmBaseEvent} (h : (after es).terminated = false) (i : Nat) :
    (after es).passed i = true ↔
      Since (fun pre e => e = .check i ∧ (after pre).base.hasData = true) (fun e => e = .read i)
        es := by
  induction es using List.reverseRecOn with
  | nil => exact iff_of_false Bool.false_ne_true not_since_nil
  | append_singleton es e ih =>
    rw [after_concat] at h ⊢
    have hrun := running_of_step h
    rw [since_concat, ← ih hrun, step_eq hrun]
    cases e with
    | check j =>
      simp only [act, check, VmBaseEvent.check.injEq, reduceCtorEq, not_false_eq_true, and_true]
      split_ifs with hdata
      · simp only [Bool.or_eq_true, decide_eq_true_eq, hdata, and_true]
        rw [eq_comm]
      · simp [hdata]
    | read j =>
      simp only [act, read, VmBaseEvent.read.injEq, reduceCtorEq, false_and, false_or,
        Bool.and_eq_true, decide_eq_true_eq]
      rw [and_comm, ne_comm]
    | setVmCmd => simp [act]
    | refresh host =>
      simp only [act, refresh]
      cases (after es).base.refresh host <;> simp

/-- **There are data** since a refresh, until `set_vm_cmd`. -/
theorem hasData_iff {es : List VmBaseEvent} (h : (after es).terminated = false) :
    (after es).base.hasData = true ↔ Since (fun _ => IsRefresh) IsSetVmCmd es := by
  induction es using List.reverseRecOn with
  | nil => exact iff_of_false Bool.false_ne_true not_since_nil
  | append_singleton es e ih =>
    rw [after_concat] at h ⊢
    have hrun := running_of_step h
    rw [since_concat, ← ih hrun]
    by_cases hrefresh : e.IsRefresh
    · obtain ⟨host, rfl⟩ := hrefresh
      obtain ⟨t, ht, hbase⟩ := refresh_of_running h
      refine iff_of_true ?_ (Or.inl ⟨host, rfl⟩)
      rw [hbase]
      obtain ⟨_, _, rfl⟩ := VmBase.refresh_ok_eq ht
      rfl
    · by_cases hset : e.IsSetVmCmd
      · obtain ⟨vmCmd, rfl⟩ := hset
        rw [step_eq hrun]
        refine iff_of_false ?_ ?_
        · intro hdata
          cases hdata
        · intro hor
          rcases hor with hor | hor
          · exact hrefresh hor
          · exact hor.2 ⟨vmCmd, rfl⟩
      · rw [base_of_getter hset hrefresh]
        simp [hset, hrefresh]

/-- **The maps are those of a refresh**, if there was one and they have not been emptied since. -/
theorem exists_refresh {es : List VmBaseEvent} (h : (after es).terminated = false)
    (hrefresh : ∃ e ∈ es, IsRefresh e) (hemptied : ¬ Emptied es) :
    ∃ pre host t, pre ++ [.refresh host] <+: es ∧ (after pre).terminated = false ∧
      (after pre).base.refresh host = .ok t ∧ (after es).base.data = t.data := by
  induction es using List.reverseRecOn with
  | nil =>
    obtain ⟨e, he, -⟩ := hrefresh
    cases he
  | append_singleton es e ih =>
    rw [after_concat] at h ⊢
    have hrun := running_of_step h
    by_cases he : e.IsRefresh
    · obtain ⟨host, rfl⟩ := he
      obtain ⟨t, ht, hbase⟩ := refresh_of_running h
      exact ⟨es, host, t, List.prefix_refl _, hrun, ht, by rw [hbase]⟩
    · rw [Emptied, since_concat, not_or, not_and_not_right] at hemptied
      obtain ⟨hset, hemptied⟩ := hemptied
      have hes : ∃ e ∈ es, IsRefresh e := by
        obtain ⟨e', he', hisRefresh⟩ := hrefresh
        rcases List.mem_append.1 he' with hmem | hmem
        · exact ⟨e', hmem, hisRefresh⟩
        · obtain rfl := List.mem_singleton.1 hmem
          exact absurd hisRefresh he
      obtain ⟨pre, host, t, hpre, hprerun, ht, hdata⟩ :=
        ih hrun hes fun hsince => he (hemptied hsince)
      refine ⟨pre, host, t, hpre.trans (List.prefix_append _ _), hprerun, ht, ?_⟩
      rw [base_of_getter hset he]
      exact hdata

/-! ## Orders of steps -/

/-- **A getter reads** after a check at which it has gone on. -/
theorem reads_iff_passage {es q : List VmBaseEvent} {i : Nat} :
    Reads es q i ↔ ∃ pre mid, q = pre ++ .check i :: mid ∧ Passage es pre i mid := by
  refine ⟨?_, ?_⟩
  · intro h
    obtain ⟨pre, e, mid, rfl, ⟨rfl, hdata⟩, hmid⟩ := (passed_iff h.running i).1 h.passed
    refine ⟨pre, mid, rfl, h.isPrefix, hdata, fun hread => hmid _ hread rfl, h.running⟩
  · intro h
    obtain ⟨pre, mid, rfl, hpassage⟩ := h
    refine ⟨hpassage.isPrefix, (passed_iff hpassage.running i).2 ?_, hpassage.running⟩
    refine ⟨pre, _, mid, rfl, ⟨rfl, hpassage.hasData⟩, fun e he heq => ?_⟩
    exact hpassage.not_read (heq ▸ he)

/-- **A read is refreshed** exactly if the maps have not been emptied since the check. -/
theorem refreshed_iff {es pre mid : List VmBaseEvent} {i : Nat} (h : Passage es pre i mid) :
    Refreshed (pre ++ .check i :: mid) ↔ ¬ Emptied mid := by
  have hcons : (VmBaseEvent.check i :: mid) = [.check i] ++ mid := rfl
  have hcheck : ¬ Since (fun _ => IsSetVmCmd) IsRefresh [VmBaseEvent.check i] := by
    intro hsince
    obtain ⟨_, e, he, vmCmd, rfl⟩ := hsince.exists_mem
    simp at he
  have hfilled := (hasData_iff (running_of_append h.running)).1 h.hasData
  refine ⟨?_, ?_⟩
  · intro hrefreshed hmid
    refine hrefreshed.not_emptied ?_
    rw [Emptied, since_append, hcons, since_append]
    exact Or.inl (Or.inl hmid)
  · intro hmid
    have hnot : ¬ Emptied (pre ++ .check i :: mid) := by
      rw [Emptied, since_append, hcons, since_append]
      intro hor
      rcases hor with (hor | ⟨hor, -⟩) | ⟨hor, -⟩
      · exact hmid hor
      · exact hcheck hor
      · refine Since.not_since (fun e he he' => ?_) hor hfilled
        obtain ⟨vmCmd, rfl⟩ := he
        obtain ⟨host, hhost⟩ := he'
        cases hhost
    refine ⟨exists_refresh h.running ?_ hnot, hnot⟩
    obtain ⟨_, e, he, hisRefresh⟩ := hfilled.exists_mem
    exact ⟨e, List.mem_append_left _ he, hisRefresh⟩

/-- **Every getter reads what a completed refresh has left**, in an order of steps, exactly if no
`set_vm_cmd` between its check and its read is the last to have changed the maps. -/
theorem reads_refreshed_iff (es : List VmBaseEvent) :
    (∀ pre i, Reads es pre i → Refreshed pre) ↔
      ∀ pre i mid, Passage es pre i mid → ¬ Emptied mid := by
  refine ⟨?_, ?_⟩
  · intro h pre i mid hpassage
    exact (refreshed_iff hpassage).1 (h _ i (reads_iff_passage.2 ⟨pre, mid, rfl, hpassage⟩))
  · intro h q i hreads
    obtain ⟨pre, mid, rfl, hpassage⟩ := reads_iff_passage.1 hreads
    exact (refreshed_iff hpassage).2 (h pre i mid hpassage)

/-- `init_vms` sets the command again between the check and the read of another getter, which then
finds no VM. -/
theorem not_reads_refreshed :
    ¬ ∀ pre i, Reads [.refresh (VmBaseThread.oneVm (some [])), .check 0, .setVmCmd defaultVmCmd,
      .read 0] pre i → Refreshed pre := by
  intro h
  have hrefreshed := h [.refresh (VmBaseThread.oneVm (some [])), .check 0, .setVmCmd defaultVmCmd] 0
    ⟨List.prefix_refl _, by decide +kernel, by decide +kernel⟩
  refine hrefreshed.not_emptied ?_
  refine ⟨[_, _], .setVmCmd defaultVmCmd, [], rfl, ⟨_, rfl⟩, fun e he => ?_⟩
  cases he

end VmBaseShared

end LibVsf
