import LibVsf.HsCpuUsage
import LibVsf.Lib.Handles
import LibVsf.VmBaseNumbers

/-!
# The streams of the samplers

`hsCpuUsage::collect_cpu_usage` opens `/proc/stat` twice, `VmBase::refresh_most` opens a pipe from
`ps`. Only the latter closes what it has opened, after its loop over the lines: an exception in the
loop passes it by.

* `closes_iff`: in a run every call closes what it opens, and the number of open streams does not
  grow, exactly when there is no round of `collect_cpu_usage`, and no round of `refresh_most`
  throws.
* `card_streams_run`: by how much it grows otherwise.
-/

namespace LibVsf

open Runs Handles

variable {η : Type*}

/-! ## The calls, with their streams -/

namespace HsCpuUsage

/-- No path of `get_phy_cpu` closes the stream. -/
def getPhyCpuLogged (stream : η) (stat : List Char) :
    List (Event η) × Except Failure PhyCpuInfoRet :=
  ([.acquired stream], getPhyCpu stat)

def collectLogged (s : HsCpuUsage) (stat₁ stat₂ : List Char) (stream₁ stream₂ : η) :
    List (Event η) × Option Collected :=
  let (log₁, ret₁) := getPhyCpuLogged stream₁ stat₁
  match ret₁ with
  | .error .undefined => (log₁, none)
  | .error (.returned retval) => (log₁, some ⟨retval, s, []⟩)
  | .ok ret₁ =>
    let (log₂, ret₂) := getPhyCpuLogged stream₂ stat₂
    match ret₂ with
    | .error .undefined => (log₁ ++ log₂, none)
    | .error (.returned retval) => (log₁ ++ log₂, some ⟨retval, s, []⟩)
    | .ok ret₂ => (log₁ ++ log₂, s.collect ret₁ ret₂)

theorem collectLogged_snd (s : HsCpuUsage) (stat₁ stat₂ : List Char) (stream₁ stream₂ : η) :
    (s.collectLogged stat₁ stat₂ stream₁ stream₂).2 = s.collectCpuUsage stat₁ stat₂ := by
  simp only [collectLogged, getPhyCpuLogged, collectCpuUsage]
  cases getPhyCpu stat₁ with
  | error failure => cases failure <;> rfl
  | ok ret₁ =>
    cases getPhyCpu stat₂ with
    | error failure => cases failure <;> rfl
    | ok ret₂ => rfl

/-- A call opens one stream, and another if the first reading succeeds. -/
def opened (stat₁ : List Char) (stream₁ stream₂ : η) : List η :=
  match getPhyCpu stat₁ with
  | .error _ => [stream₁]
  | .ok _ => [stream₁, stream₂]

theorem collectLogged_fst (s : HsCpuUsage) (stat₁ stat₂ : List Char) (stream₁ stream₂ : η) :
    (s.collectLogged stat₁ stat₂ stream₁ stream₂).1 =
      (opened stat₁ stream₁ stream₂).map Event.acquired := by
  simp only [collectLogged, getPhyCpuLogged, opened]
  cases getPhyCpu stat₁ with
  | error failure => cases failure <;> rfl
  | ok ret₁ =>
    cases getPhyCpu stat₂ with
    | error failure => cases failure <;> rfl
    | ok ret₂ => rfl

end HsCpuUsage

namespace VmBase

/-- `pclose` comes after the loop, which may throw. -/
def refreshMostLogged (s : VmBase) (host : VmHost) (stream : η) :
    List (Event η) × Result VmBase :=
  match s.refreshMost host with
  | .error failure => ([.acquired stream], .error failure)
  | .ok s => ([.acquired stream, .released stream], .ok s)

theorem refreshMostLogged_snd (s : VmBase) (host : VmHost) (stream : η) :
    (s.refreshMostLogged host stream).2 = s.refreshMost host := by
  rw [refreshMostLogged]
  cases s.refreshMost host <;> rfl

/-- All that is read of what `ps` prints is converted. -/
def ReadsAll (s : VmBase) (host : VmHost) : Prop := ∀ row ∈ host.rows s.vmCmd, RowConverts row

theorem isOk_refreshMost_iff (s : VmBase) (host : VmHost) :
    (s.refreshMost host).isOk = true ↔ s.ReadsAll host := by
  rw [ReadsAll, ← exists_refreshMost_iff_rows]
  cases s.refreshMost host with
  | error failure => simp [Except.isOk, Except.toBool]
  | ok s' => simp [Except.isOk, Except.toBool]

instance (s : VmBase) : DecidablePred s.ReadsAll :=
  fun host => decidable_of_iff _ (isOk_refreshMost_iff s host)

theorem refreshMostLogged_of_readsAll {s : VmBase} {host : VmHost} (h : s.ReadsAll host)
    (stream : η) :
    (s.refreshMostLogged host stream).1 = [.acquired stream, .released stream] := by
  obtain ⟨s', hs'⟩ := (exists_refreshMost_iff_rows host s).2 h
  rw [refreshMostLogged, hs']

theorem refreshMostLogged_of_not_readsAll {s : VmBase} {host : VmHost} (h : ¬ s.ReadsAll host)
    (stream : η) : (s.refreshMostLogged host stream).1 = [.acquired stream] := by
  rw [refreshMostLogged]
  cases hs : s.refreshMost host with
  | error failure => rfl
  | ok s' => exact absurd ((exists_refreshMost_iff_rows host s).1 ⟨s', hs⟩) h

end VmBase

/-! ## Runs -/

/-- The samplers, and the streams that are open. -/
structure Samplers (η : Type*) where
  host : HsCpuUsage := {}
  vms : VmBase := {}
  streams : Multiset η := 0

namespace Samplers

/-- A round of a sampler, with the streams that the system gives, or a change of the command that
`ps` is asked for. -/
inductive Round (η : Type*) where
  | collectCpuUsage (stat₁ stat₂ : List Char) (stream₁ stream₂ : η)
  | refreshMost (host : VmHost) (stream : η)
  | setVmCmd (vmCmd : String)

/-- What happens to streams in a round. -/
def log (s : Samplers η) : Round η → List (Event η)
  | .collectCpuUsage stat₁ stat₂ stream₁ stream₂ =>
    (s.host.collectLogged stat₁ stat₂ stream₁ stream₂).1
  | .refreshMost host stream => (s.vms.refreshMostLogged host stream).1
  | .setVmCmd _ => []

/-- The round is one of `refresh_most`, and reads all. -/
def Reads (s : Samplers η) : Round η → Prop
  | .collectCpuUsage _ _ _ _ => False
  | .refreshMost host _ => s.vms.ReadsAll host
  | .setVmCmd _ => True

/-- How many streams a round leaves open. -/
def leak (s : Samplers η) : Round η → Nat
  | .collectCpuUsage stat₁ _ stream₁ stream₂ =>
    (HsCpuUsage.opened stat₁ stream₁ stream₂).length
  | .refreshMost host _ => if s.vms.ReadsAll host then 0 else 1
  | .setVmCmd _ => 0

theorem leak_eq_zero_iff (s : Samplers η) (r : Round η) : s.leak r = 0 ↔ s.Reads r := by
  cases r with
  | collectCpuUsage stat₁ stat₂ stream₁ stream₂ =>
    refine iff_of_false ?_ not_false
    simp only [leak, HsCpuUsage.opened]
    cases HsCpuUsage.getPhyCpu stat₁ with
    | error failure => exact Nat.one_ne_zero
    | ok ret => exact Nat.succ_ne_zero 1
  | refreshMost host stream =>
    simp only [leak, Reads]
    by_cases h : s.vms.ReadsAll host
    · rw [if_pos h]
      exact iff_of_true rfl h
    · rw [if_neg h]
      exact iff_of_false Nat.one_ne_zero h
  | setVmCmd vmCmd => exact iff_of_true rfl trivial

variable [DecidableEq η]

def step (s : Samplers η) (r : Round η) : Samplers η :=
  let streams := run hold s.streams (s.log r)
  match r with
  | .collectCpuUsage stat₁ stat₂ stream₁ stream₂ =>
    { s with
      host := (s.host.collectLogged stat₁ stat₂ stream₁ stream₂).2.elim s.host
        HsCpuUsage.Collected.state
      streams := streams }
  | .refreshMost host stream =>
    match (s.vms.refreshMostLogged host stream).2 with
    | .ok vms => { s with vms := vms, streams := streams }
    | .error (_, vms) => { s with vms := vms, streams := streams }
  | .setVmCmd vmCmd => { s with vms := s.vms.setVmCmd vmCmd, streams := streams }

/-- Every call closes each stream that it opens exactly once, and no more are open than before. -/
structure Closes (s : Samplers η) (rounds : List (Round η)) : Prop where
  once : Along step (fun s r => ReleasedOnce (s.log r)) s rounds
  steady : Holds step (fun s' => s'.streams.card ≤ s.streams.card) s rounds

theorem streams_step (s : Samplers η) (r : Round η) :
    (s.step r).streams = run hold s.streams (s.log r) := by
  cases r with
  | collectCpuUsage stat₁ stat₂ stream₁ stream₂ => rfl
  | refreshMost host stream =>
    simp only [step]
    cases (s.vms.refreshMostLogged host stream).2 <;> rfl
  | setVmCmd vmCmd => rfl

/-- **A call closes what it opens** exactly if it is one of `refresh_most` that reads all. -/
theorem releasedOnce_log_iff (s : Samplers η) (r : Round η) :
    ReleasedOnce (s.log r) ↔ s.Reads r := by
  cases r with
  | collectCpuUsage stat₁ stat₂ stream₁ stream₂ =>
    have hlog : s.log (.collectCpuUsage stat₁ stat₂ stream₁ stream₂) =
        (HsCpuUsage.opened stat₁ stream₁ stream₂).map Event.acquired :=
      s.host.collectLogged_fst stat₁ stat₂ stream₁ stream₂
    rw [hlog, HsCpuUsage.opened]
    refine iff_of_false ?_ not_false
    cases HsCpuUsage.getPhyCpu stat₁ with
    | error failure => exact not_releasedOnce_of_not_mem (by simp)
    | ok ret => exact not_releasedOnce_of_not_mem (by simp)
  | refreshMost host stream =>
    simp only [log, Reads]
    by_cases h : s.vms.ReadsAll host
    · rw [VmBase.refreshMostLogged_of_readsAll h]
      exact iff_of_true (releasedOnce_pair stream) h
    · rw [VmBase.refreshMostLogged_of_not_readsAll h]
      exact iff_of_false (not_releasedOnce_of_not_mem (by simp)) h
  | setVmCmd vmCmd => exact iff_of_true releasedOnce_nil trivial

/-! ## The number of open streams -/

theorem run_hold_acquired (hs : Multiset η) (streams : List η) :
    (run hold hs (streams.map Event.acquired)).card = hs.card + streams.length := by
  induction streams generalizing hs with
  | nil => rfl
  | cons stream streams ih =>
    have hcons : run hold hs ((stream :: streams).map Event.acquired) =
        run hold (stream ::ₘ hs) (streams.map Event.acquired) := rfl
    rw [hcons, ih, Multiset.card_cons, List.length_cons]
    omega

/-- **What a round adds.** -/
theorem card_streams_step (s : Samplers η) (r : Round η) :
    (s.step r).streams.card = s.streams.card + s.leak r := by
  rw [streams_step]
  cases r with
  | collectCpuUsage stat₁ stat₂ stream₁ stream₂ =>
    have hlog : s.log (.collectCpuUsage stat₁ stat₂ stream₁ stream₂) =
        (HsCpuUsage.opened stat₁ stream₁ stream₂).map Event.acquired :=
      s.host.collectLogged_fst stat₁ stat₂ stream₁ stream₂
    rw [hlog]
    exact run_hold_acquired s.streams _
  | refreshMost host stream =>
    simp only [log, leak]
    by_cases h : s.vms.ReadsAll host
    · have hhold : run hold s.streams [.acquired stream, .released stream] = s.streams :=
        Multiset.erase_cons_head stream s.streams
      rw [VmBase.refreshMostLogged_of_readsAll h, hhold, if_pos h, Nat.add_zero]
    · rw [VmBase.refreshMostLogged_of_not_readsAll h, if_neg h]
      exact Multiset.card_cons stream s.streams
  | setVmCmd vmCmd => rfl

/-- How many streams the rounds of a run leave open. -/
def leaks (s : Samplers η) : List (Round η) → Nat
  | [] => 0
  | r :: rounds => s.leak r + leaks (s.step r) rounds

/-- **What a run adds.** -/
theorem card_streams_run (s : Samplers η) (rounds : List (Round η)) :
    (run step s rounds).streams.card = s.streams.card + s.leaks rounds := by
  induction rounds generalizing s with
  | nil => rfl
  | cons r rounds ih =>
    have hcons : run step s (r :: rounds) = run step (s.step r) rounds := rfl
    rw [hcons, ih, card_streams_step, leaks, Nat.add_assoc]

/-- **Every call of a run closes what it opens** exactly if each is one of `refresh_most` that reads
all. -/
theorem closes_iff (s : Samplers η) (rounds : List (Round η)) :
    s.Closes rounds ↔ Along step Reads s rounds := by
  have honce : Along step (fun s r => ReleasedOnce (s.log r)) s rounds ↔
      Along step Reads s rounds :=
    along_congr step (I := fun _ => True) (fun _ _ _ => trivial)
      (fun s r _ => s.releasedOnce_log_iff r) trivial rounds
  constructor
  · intro h
    exact honce.1 h.once
  · intro h
    refine ⟨honce.2 h, ?_⟩
    refine holds_of_along step (C := Reads) (fun s' r hle hr => ?_) (Nat.le_refl _) h
    rw [card_streams_step, (s'.leak_eq_zero_iff r).2 hr]
    exact hle

/-- One round of `collect_cpu_usage`. -/
theorem not_closes_collect : ¬ ({} : Samplers Nat).Closes
    [.collectCpuUsage "cpu  7 0 5 20\n".toList "cpu  12 0 6 32\n".toList 3 4] := by
  intro h
  exact (releasedOnce_log_iff _ _).1 h.once.1

end Samplers

end LibVsf
