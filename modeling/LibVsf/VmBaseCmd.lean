import LibVsf.VmBaseProof

/-!
# `VmBase`: the command of the data

`set_vm_cmd` empties the maps and clears `has_data_` when it changes the command. `clear_param`
changes the command back to the default one and does neither.

**Theorem (`current_iff`).** In all states with data that a run reaches these have been collected
with the command that is set, exactly if `clear_param` is only called without data, or with the
default command.

The commands that the data were collected with are recorded beside the state: a refresh that returns
leaves its own, one that throws leaves it beside those of the data that were there.
-/

namespace LibVsf

open Runs

/-- A thread, and the commands that its data have been collected with. -/
structure VmBaseCmd where
  thread : VmBaseThread := {}
  collected : List String := []

namespace VmBaseCmd

open VmBaseThread (Op)

/-- What a refresh records. -/
def collect (s : VmBaseCmd) (host : VmHost) : List String :=
  match s.thread.base.refresh host with
  | .ok _ => [s.thread.base.vmCmd]
  | .error _ => s.thread.base.vmCmd :: s.collected

/-- What is recorded after a step. -/
def record (s : VmBaseCmd) (op : Op) : List String :=
  if s.thread.terminated then s.collected
  else
    match op with
    | .setVmCmd _ => []
    | .stop => if s.thread.joinable then [] else s.collected
    | .run host => if s.thread.joinable then s.collect host else s.collected
    | .get host => if s.thread.joinable then s.collected else s.collect host
    | _ => s.collected

def step (s : VmBaseCmd) (op : Op) : VmBaseCmd := ⟨s.thread.step op, s.record op⟩

/-- The record does not change the run. -/
theorem thread_run (s : VmBaseCmd) (ops : List Op) :
    (run step s ops).thread = run VmBaseThread.step s.thread ops := by
  induction ops generalizing s with
  | nil => rfl
  | cons op ops ih => exact ih (s.step op)

/-! ## Steps -/

/-- Data are of the command that is set. -/
def Current (s : VmBaseCmd) : Prop :=
  s.thread.terminated = false → s.thread.base.hasData = true →
    ∀ vmCmd ∈ s.collected, vmCmd = s.thread.base.vmCmd

/-- Data have been collected with some command. -/
def Recorded (s : VmBaseCmd) : Prop :=
  s.thread.terminated = false → s.thread.base.hasData = true → s.collected ≠ []

/-- `clear_param` does not change the command of data. -/
def Keeps (s : VmBaseCmd) (op : Op) : Prop :=
  op = .clearParam → s.thread.terminated = false → s.thread.base.hasData = true →
    s.thread.base.vmCmd = defaultVmCmd

theorem collect_ne_nil (s : VmBaseCmd) (host : VmHost) : s.collect host ≠ [] := by
  simp only [collect]
  split <;> exact List.cons_ne_nil _ _

/-- What a refresh leaves. -/
theorem recorded_refresh {s : VmBaseCmd} {thread : VmBaseThread} (host : VmHost) :
    Recorded ⟨thread, s.collect host⟩ :=
  fun _ _ => s.collect_ne_nil host

theorem recorded_step {s : VmBaseCmd} (hs : Recorded s) (op : Op) : Recorded (s.step op) := by
  cases hrun : s.thread.terminated with
  | true =>
    simp only [step, VmBaseThread.step, record, hrun, if_true]
    exact hs
  | false =>
    simp only [step, VmBaseThread.step, record, hrun, Bool.false_eq_true, if_false]
    cases op with
    | setVmCmd =>
      intro _ hdata
      cases hdata
    | stop =>
      simp only [VmBaseThread.stop]
      split_ifs
      · intro _ hdata
        cases hdata
      · exact hs
    | setInterval | setCallback | clearParam | start => exact fun _ => hs hrun
    | run host =>
      simp only [VmBaseThread.run]
      split_ifs
      · exact recorded_refresh host
      · exact hs
    | get host =>
      simp only [VmBaseThread.get]
      split_ifs
      · exact hs
      · exact recorded_refresh host

/-- Data that a refresh has collected are of its command. -/
theorem current_get {s : VmBaseCmd} (hs : Current s) (hrun : s.thread.terminated = false)
    (host : VmHost) : Current (s.step (.get host)) := by
  simp only [step, VmBaseThread.step, record, VmBaseThread.get, hrun, Bool.false_eq_true, if_false]
  split_ifs
  · exact hs
  · simp only [collect]
    cases hrefresh : s.thread.base.refresh host with
    | ok t =>
      obtain ⟨_, _, rfl⟩ := VmBase.refresh_ok_eq hrefresh
      intro _ _ vmCmd hmem
      exact List.mem_singleton.1 hmem
    | error et =>
      obtain ⟨e, t⟩ := et
      obtain ⟨_, rfl⟩ := VmBase.refresh_error_eq hrefresh
      intro _ hdata vmCmd hmem
      rcases List.mem_cons.1 hmem with rfl | hmem
      · rfl
      · exact hs hrun hdata vmCmd hmem

theorem current_run {s : VmBaseCmd} (hs : Current s) (hrun : s.thread.terminated = false)
    (host : VmHost) : Current (s.step (.run host)) := by
  simp only [step, VmBaseThread.step, record, VmBaseThread.run, hrun, Bool.false_eq_true, if_false]
  split_ifs
  · simp only [collect]
    cases hrefresh : s.thread.base.refresh host with
    | ok t =>
      obtain ⟨_, _, rfl⟩ := VmBase.refresh_ok_eq hrefresh
      intro _ _ vmCmd hmem
      exact List.mem_singleton.1 hmem
    | error et =>
      intro hfalse
      cases hfalse
  · exact hs

/-- `clear_param` keeps data of the default command only. -/
theorem current_clearParam_iff {s : VmBaseCmd} (hrecorded : Recorded s) (hs : Current s)
    (hrun : s.thread.terminated = false) :
    Current (s.step .clearParam) ↔
      (s.thread.base.hasData = true → s.thread.base.vmCmd = defaultVmCmd) := by
  have hstep : s.step .clearParam =
      ⟨{ s.thread with base := s.thread.base.clearParam }, s.collected⟩ := by
    simp only [step, VmBaseThread.step, record, hrun, Bool.false_eq_true, if_false]
  rw [hstep]
  refine ⟨?_, ?_⟩
  · intro h hdata
    obtain ⟨vmCmd, hmem⟩ := List.exists_mem_of_ne_nil _ (hrecorded hrun hdata)
    rw [← hs hrun hdata vmCmd hmem]
    exact h hrun hdata vmCmd hmem
  · intro h _ hdata vmCmd hmem
    rw [hs hrun hdata vmCmd hmem]
    exact h hdata

theorem keeps_of_ne {s : VmBaseCmd} {op : Op} (h : op ≠ .clearParam) : Keeps s op :=
  fun heq => absurd heq h

/-- **A step keeps the data current** exactly if it is not `clear_param`, with data of another
command. -/
theorem current_step_iff {s : VmBaseCmd} {op : Op} (hrecorded : Recorded s) (hs : Current s) :
    Current (s.step op) ↔ Keeps s op := by
  cases hrun : s.thread.terminated with
  | true =>
    refine iff_of_true ?_ ?_
    · simp only [step, VmBaseThread.step, record, hrun, if_true]
      exact hs
    · intro _ hfalse
      rw [hrun] at hfalse
      cases hfalse
  | false =>
    cases op with
    | clearParam =>
      rw [current_clearParam_iff hrecorded hs hrun]
      exact ⟨fun h _ _ => h, fun h => h rfl hrun⟩
    | get host => exact iff_of_true (current_get hs hrun host) (keeps_of_ne fun h => by cases h)
    | run host => exact iff_of_true (current_run hs hrun host) (keeps_of_ne fun h => by cases h)
    | setInterval | setCallback | start =>
      refine iff_of_true ?_ (keeps_of_ne fun h => by cases h)
      simp only [step, VmBaseThread.step, record, hrun, Bool.false_eq_true, if_false]
      exact fun _ => hs hrun
    | setVmCmd =>
      refine iff_of_true ?_ (keeps_of_ne fun h => by cases h)
      simp only [step, VmBaseThread.step, record, hrun, Bool.false_eq_true, if_false]
      intro _ hdata
      cases hdata
    | stop =>
      refine iff_of_true ?_ (keeps_of_ne fun h => by cases h)
      simp only [step, VmBaseThread.step, VmBaseThread.stop, record, hrun, Bool.false_eq_true,
        if_false]
      split_ifs
      · intro _ hdata
        cases hdata
      · exact hs

/-- **The data are of the command that is set**, in all states with data that a run reaches, exactly
if `clear_param` is called without data or with the default command. -/
theorem current_iff (ops : List Op) : Holds step Current {} ops ↔ Along step Keeps {} ops := by
  refine holds_iff_along step (I := Recorded) (fun s op hs => recorded_step hs op)
    (fun s op hrecorded hs => current_step_iff hrecorded hs) ?_ ?_ ops
  · intro _ hdata
    cases hdata
  · intro _ hdata
    cases hdata

/-- A host with a VM of the command `kvm`. -/
def kvmHost : VmHost where
  curTime := 1000
  popen cmd := if cmd = VmBase.psCmd "kvm" then "00:10 42 kvm -name a -m 512\n".toList else []
  scandir _ := some []
  readFile _ := none

/-- The thread lists the VM, and `clear_param` takes its command back. -/
theorem not_current_clearParam :
    ¬ Holds step Current {} [.start, .setVmCmd "kvm", .run kvmHost, .clearParam] ∧
      (run step {} [.start, .setVmCmd "kvm", .run kvmHost, .clearParam]).thread.base.data.getVmIds =
        [⟨990, 42⟩] := by
  refine ⟨?_, by decide +kernel⟩
  intro h
  have hcurrent := h _ (List.prefix_refl _) (by decide +kernel) (by decide +kernel)
  exact absurd hcurrent (by decide +kernel)

end VmBaseCmd

end LibVsf
