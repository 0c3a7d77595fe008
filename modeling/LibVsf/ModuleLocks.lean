import LibVsf.Lib.LockOrder
import Mathlib.Data.Fintype.Sum

/-!
# The mutexes of the modules of the VMs

What `VmSet`, `VM` and the threads of `VmBase`, `VmCpuUsage` and `VmCacheMiss` lock, in what order,
and what they wait for. A refresh of `VmCpuUsage` or `VmCacheMiss` asks `VmBase` while it holds the
mutex of its sampler, and `init_vms` while it holds its own. The getters wait for data: `has_data_`,
and the `has_data_cnt_` of `CpuUsage`.

The calls here throw nothing, and the callbacks of the user lock nothing. The threads that run have
been started before, and are not stopped.

**Theorem (`calls_finish`).** From every state that is reachable all calls under way can be
finished, if the thread of `VmBase` runs or no call has set the command of the VMs. To set it resets
`has_data_`. Without the thread, a getter that has refreshed `VmBase` and not yet read then waits
until another call refreshes it: there is a run of two users after which it waits for ever, whatever
other threads run.
-/

namespace LibVsf

namespace ModuleLocks

open Runs LockOrder LockOrder.System

inductive Mutex where
  | initVms
  | cpuUsage
  | cacheMiss
  | vmBase
  | options
deriving DecidableEq, Repr

/-- The modules, and what says that they have data. -/
inductive Module where
  | vmBase
  | vmCpuUsage
  | vmCacheMiss
deriving DecidableEq, Repr

instance : Fintype Module :=
  .ofList [.vmBase, .vmCpuUsage, .vmCacheMiss] fun m => by cases m <;> simp

abbrev Program := List (Instr Mutex Module)

/-! ## Refreshes and getters -/

/-- `VmBase::refresh`. -/
def vmBaseRefresh : Program := locked .vmBase [.raise .vmBase]

/-- The end of a getter: it waits for data and reads them. -/
def waitAndRead (m : Module) (k : Mutex) : Program := .await m :: lockedShared k []

/-- A getter of `VmBase`, which has found it joinable or not. The getters of the volatile threads
ask for the stable ones. -/
def vmBaseGet (joinable : Bool) : Program :=
  (if joinable then [] else vmBaseRefresh) ++ waitAndRead .vmBase .vmBase

/-- `CpuUsage::refresh`. -/
def cpuUsageRefresh : Program := locked .cpuUsage [.raise .vmCpuUsage]

/-- `VmCpuUsage::refresh`. -/
def vmCpuUsageRefresh (joinable : Bool) : Program :=
  locked .cpuUsage (vmBaseGet joinable) ++ cpuUsageRefresh

/-- A getter of `VmCpuUsage`: `refresh_twice`, and that of `CpuUsage`. -/
def vmCpuUsageGet (joinable first second : Bool) : Program :=
  (if joinable then [] else vmCpuUsageRefresh first ++ vmCpuUsageRefresh second) ++
    waitAndRead .vmCpuUsage .cpuUsage

/-- `VmCacheMiss::refresh`, which asks for the VMs and the threads of each, and then for the VM of
every thread it passes on. -/
def vmCacheMissRefresh (asked passed : List Bool) : Program :=
  locked .cacheMiss (asked.flatMap vmBaseGet) ++ locked .cacheMiss [] ++
    locked .cacheMiss (passed.flatMap vmBaseGet) ++ [.raise .vmCacheMiss]

/-- A getter of `VmCacheMiss`. -/
def vmCacheMissGet (joinable : Bool) (asked passed : List Bool) : Program :=
  (if joinable then [] else vmCacheMissRefresh asked passed) ++
    waitAndRead .vmCacheMiss .cacheMiss

/-! ## Parameters -/

/-- The setters of the modules. -/
inductive Setter where
  | setVmCmd
  | vmBaseCallback
  | cacheMissCallback
  /-- An interval, or the callback of `VmCpuUsage`, which is set without a lock. -/
  | unlocked
deriving DecidableEq

def setVmCmd : Program := locked .vmBase [.reset .vmBase]

def Setter.program : Setter → Program
  | .setVmCmd => ModuleLocks.setVmCmd
  | .vmBaseCallback => locked .vmBase []
  | .cacheMissCallback => locked .cacheMiss []
  | .unlocked => []

/-- `check_option` and `get_param`. -/
def readOptions : Program := lockedShared .options []

def enableOption : Program := locked .options []

/-- `delete_callback`. -/
def deleteCallback (enabled : Bool) : Program :=
  readOptions ++ if enabled then readOptions else []

/-- `VmSet::set_param`, for options that are enabled or not. -/
def setParam (ops : List (Bool × List Setter)) : Program :=
  ops.flatMap (fun op => readOptions ++ (if op.1 then deleteCallback op.1 else []) ++
    op.2.flatMap Setter.program) ++ enableOption

/-- What `VmSet::clear_param` does with an option that is enabled. -/
def clearOption (enabled : Bool) : Program :=
  readOptions ++ if enabled then deleteCallback enabled ++ enableOption else []

/-- `clear_param` of a module: of `VmBase`, or of a sampler and the module that drives it. -/
def clearModule : Module → Program
  | .vmBase => locked .vmBase []
  | .vmCpuUsage => locked .cpuUsage [] ++ locked .cpuUsage [] ++ locked .cpuUsage []
  | .vmCacheMiss => locked .cacheMiss [] ++ locked .cacheMiss [] ++ locked .cacheMiss []

/-- The cases of `VmSet::clear_param` fall through. -/
def clearFrom : Module → List Module
  | .vmBase => [.vmBase, .vmCpuUsage, .vmCacheMiss]
  | .vmCpuUsage => [.vmCpuUsage, .vmCacheMiss]
  | .vmCacheMiss => [.vmCacheMiss]

def clearParam (ops : List (Module × Bool)) : Program :=
  ops.flatMap fun op => (clearFrom op.1).flatMap fun m => clearOption op.2 ++ clearModule m

/-- `VmSet::init_vms`, for the parameters of the options that are enabled. -/
def initVms (params : List (Option (List Setter))) (joinable : Bool) : Program :=
  locked .initVms (params.flatMap (fun
      | some setters => readOptions ++ readOptions ++ setters.flatMap Setter.program
      | none => readOptions) ++ vmBaseGet joinable)

/-! ## The system -/

inductive Call where
  /-- A refresh in the loop of a thread. -/
  | refresh (asked passed : List Bool)
  | vmBaseGet (joinable : Bool)
  | vmCpuUsageGet (joinable first second : Bool)
  | vmCacheMissGet (joinable : Bool) (asked passed : List Bool)
  | initVms (params : List (Option (List Setter))) (joinable : Bool)
  | setParam (ops : List (Bool × List Setter))
  | clearParam (ops : List (Module × Bool))

/-- The call sets the command of the VMs. -/
def Call.SetsVmCmd : Call → Prop
  | .setParam ops => ∃ op ∈ ops, .setVmCmd ∈ op.2
  | .initVms params _ => ∃ setters, some setters ∈ params ∧ .setVmCmd ∈ setters
  | _ => False

/-- The threads of the modules, and those of the program that uses the library. -/
abbrev Party (n : ℕ) := Module ⊕ Fin n

variable (threads : Module → Bool)

/-- A module whose thread does not run is not joinable. -/
def answer (m : Module) (joinable : Bool) : Bool := joinable && threads m

def threadProgram (asked passed : List Bool) : Module → Program
  | .vmBase => vmBaseRefresh
  | .vmCpuUsage => vmCpuUsageRefresh (answer threads .vmBase (asked.headD true))
  | .vmCacheMiss =>
    vmCacheMissRefresh (asked.map (answer threads .vmBase)) (passed.map (answer threads .vmBase))

def callProgram : Call → Program
  | .refresh _ _ => []
  | .vmBaseGet joinable => ModuleLocks.vmBaseGet (answer threads .vmBase joinable)
  | .vmCpuUsageGet joinable first second =>
    ModuleLocks.vmCpuUsageGet (answer threads .vmCpuUsage joinable)
      (answer threads .vmBase first) (answer threads .vmBase second)
  | .vmCacheMissGet joinable asked passed =>
    ModuleLocks.vmCacheMissGet (answer threads .vmCacheMiss joinable)
      (asked.map (answer threads .vmBase)) (passed.map (answer threads .vmBase))
  | .initVms params joinable => ModuleLocks.initVms params (answer threads .vmBase joinable)
  | .setParam ops => ModuleLocks.setParam ops
  | .clearParam ops => ModuleLocks.clearParam ops

/-- `has_data_` is a flag, and `has_data_cnt_` has to be `2`. -/
def need : Module → ℕ
  | .vmCpuUsage => 2
  | .vmBase | .vmCacheMiss => 1

def system (n : ℕ) : System (Party n) (Call) Mutex Module where
  program
    | .inl m, .refresh asked passed =>
      if threads m then threadProgram threads asked passed m else []
    | .inl _, _ => []
    | .inr _, c => callProgram threads c
  raiser m := if threads m then some (.inl m, .refresh [] []) else none
  need := need
  lockRank
    | .initVms => 1
    | .cpuUsage | .cacheMiss => 2
    | .vmBase => 4
    | .options => 5
  flagRank
    | .vmBase => 3
    | _ => 0

/-! ## The order of the mutexes -/

section Neutral

variable {threads} {n : ℕ} {held : List (Mutex × Bool)}

theorem neutral_waitAndRead {m : Module} {k : Mutex}
    (hflag : ∀ x ∈ held, (system threads n).lockRank x.1 < (system threads n).flagRank m)
    (hlock : ∀ x ∈ held, (system threads n).lockRank x.1 < (system threads n).lockRank k) :
    (system threads n).Neutral held (waitAndRead m k) :=
  (neutral_await hflag).append (neutral_lockedShared hlock neutral_nil)

theorem neutral_vmBaseGet
    (hheld : ∀ x ∈ held, (system threads n).lockRank x.1 < 3) (joinable : Bool) :
    (system threads n).Neutral held (vmBaseGet joinable) := by
  have hlt : ∀ x ∈ held, (system threads n).lockRank x.1 < (system threads n).lockRank .vmBase :=
    fun x hx => Nat.lt_succ_of_lt (hheld x hx)
  refine Neutral.append ?_ (neutral_waitAndRead hheld hlt)
  split_ifs
  · exact neutral_nil
  · exact neutral_locked hlt (neutral_raise _)

/-- A section of a sampler, in which `VmBase` is asked. -/
theorem neutral_asks {k : Mutex} (hk : (system threads n).lockRank k < 3) (answers : List Bool) :
    (system threads n).Neutral [] (locked k (answers.flatMap vmBaseGet)) := by
  refine neutral_locked (by simp) (Neutral.flatMap (neutral_vmBaseGet ?_) answers)
  simpa using hk

theorem neutral_locked_nil (k : Mutex) : (system threads n).Neutral [] (locked k []) :=
  neutral_locked (by simp) neutral_nil

theorem neutral_vmCpuUsageRefresh (joinable : Bool) :
    (system threads n).Neutral [] (vmCpuUsageRefresh joinable) := by
  refine Neutral.append (neutral_locked (by simp) (neutral_vmBaseGet ?_ joinable))
    (neutral_locked (by simp) (neutral_raise _))
  simp [system]

theorem neutral_vmCpuUsageGet (joinable first second : Bool) :
    (system threads n).Neutral [] (vmCpuUsageGet joinable first second) := by
  refine Neutral.append ?_ (neutral_waitAndRead (by simp) (by simp))
  split_ifs
  · exact neutral_nil
  · exact (neutral_vmCpuUsageRefresh first).append (neutral_vmCpuUsageRefresh second)

theorem neutral_vmCacheMissRefresh (asked passed : List Bool) :
    (system threads n).Neutral [] (vmCacheMissRefresh asked passed) := by
  have hk : (system threads n).lockRank .cacheMiss < 3 := by simp [system]
  exact (((neutral_asks hk asked).append (neutral_locked_nil _)).append
    (neutral_asks hk passed)).append (neutral_raise _)

theorem neutral_vmCacheMissGet (joinable : Bool) (asked passed : List Bool) :
    (system threads n).Neutral [] (vmCacheMissGet joinable asked passed) := by
  refine Neutral.append ?_ (neutral_waitAndRead (by simp) (by simp))
  split_ifs
  · exact neutral_nil
  · exact neutral_vmCacheMissRefresh asked passed

theorem neutral_readOptions
    (hheld : ∀ x ∈ held, (system threads n).lockRank x.1 < 5) :
    (system threads n).Neutral held readOptions := neutral_lockedShared hheld neutral_nil

theorem neutral_setter (hheld : ∀ x ∈ held, (system threads n).lockRank x.1 < 2)
    (setter : Setter) : (system threads n).Neutral held setter.program := by
  have hlt {m : ℕ} (hm : 2 ≤ m) : ∀ x ∈ held, (system threads n).lockRank x.1 < m :=
    fun x hx => (hheld x hx).trans_le hm
  cases setter with
  | setVmCmd => exact neutral_locked (hlt (m := 4) (by decide)) (neutral_reset _)
  | vmBaseCallback => exact neutral_locked (hlt (m := 4) (by decide)) neutral_nil
  | cacheMissCallback => exact neutral_locked hheld neutral_nil
  | unlocked => exact neutral_nil

theorem neutral_deleteCallback (enabled : Bool) :
    (system threads n).Neutral [] (deleteCallback enabled) := by
  refine (neutral_readOptions (by simp)).append ?_
  split_ifs
  · exact neutral_readOptions (by simp)
  · exact neutral_nil

theorem neutral_setParam (ops : List (Bool × List Setter)) :
    (system threads n).Neutral [] (setParam ops) := by
  refine (Neutral.flatMap (fun op => Neutral.append (Neutral.append ?_ ?_) ?_) ops).append
    (neutral_locked_nil _)
  · exact neutral_readOptions (by simp)
  · split_ifs
    · exact neutral_deleteCallback _
    · exact neutral_nil
  · exact Neutral.flatMap (neutral_setter (by simp)) _

theorem neutral_clearParam (ops : List (Module × Bool)) :
    (system threads n).Neutral [] (clearParam ops) := by
  refine Neutral.flatMap (fun op => Neutral.flatMap (fun m => Neutral.append ?_ ?_) _) ops
  · refine (neutral_readOptions (by simp)).append ?_
    split_ifs
    · exact (neutral_deleteCallback _).append (neutral_locked_nil _)
    · exact neutral_nil
  · cases m with
    | vmBase => exact neutral_locked_nil _
    | vmCpuUsage | vmCacheMiss =>
      exact ((neutral_locked_nil _).append (neutral_locked_nil _)).append (neutral_locked_nil _)

theorem neutral_initVms (params : List (Option (List Setter))) (joinable : Bool) :
    (system threads n).Neutral [] (initVms params joinable) := by
  have hheld {m : ℕ} (hm : 1 < m) :
      ∀ x ∈ [(Mutex.initVms, true)], (system threads n).lockRank x.1 < m := by
    simpa [system] using hm
  refine neutral_locked (by simp) (Neutral.append (Neutral.flatMap (fun param => ?_) params)
    (neutral_vmBaseGet (hheld (by decide)) joinable))
  cases param with
  | none => exact neutral_readOptions (hheld (by decide))
  | some setters =>
    exact ((neutral_readOptions (hheld (by decide))).append
      (neutral_readOptions (hheld (by decide)))).append
      (Neutral.flatMap (neutral_setter (hheld (by decide))) setters)

theorem neutral_program (i : Party n) (c : Call) :
    (system threads n).Neutral [] ((system threads n).program i c) := by
  cases i with
  | inl m =>
    cases c with
    | refresh asked passed =>
      simp only [system]
      split_ifs
      · cases m with
        | vmBase => exact neutral_locked (by simp) (neutral_raise _)
        | vmCpuUsage => exact neutral_vmCpuUsageRefresh _
        | vmCacheMiss => exact neutral_vmCacheMissRefresh _ _
      · exact neutral_nil
    | _ => exact neutral_nil
  | inr i =>
    cases c with
    | refresh asked passed => exact neutral_nil
    | vmBaseGet joinable => exact neutral_vmBaseGet (by simp) _
    | vmCpuUsageGet joinable first second => exact neutral_vmCpuUsageGet _ _ _
    | vmCacheMissGet joinable asked passed => exact neutral_vmCacheMissGet _ _ _
    | initVms params joinable => exact neutral_initVms _ _
    | setParam ops => exact neutral_setParam ops
    | clearParam ops => exact neutral_clearParam ops

end Neutral

/-! ## The counters -/

section Fed

variable {threads} {c : ℕ} {m : Module}

theorem fed_locked_nil (k : Mutex) : Fed (need m) m c (locked k []) := by
  simp [locked, Fed]

theorem fed_vmBaseGet {joinable : Bool} (h : m = .vmBase → joinable = false) :
    Fed (need m) m c (vmBaseGet joinable) := by
  have hzero : Fed (need m) m 0 (vmBaseGet joinable) := by
    cases m with
    | vmBase =>
      rw [h rfl]
      decide
    | vmCpuUsage | vmCacheMiss => cases joinable <;> decide
  exact hzero.mono (Nat.zero_le c)

theorem fed_vmCpuUsageRefresh {joinable : Bool} (h : m = .vmBase → joinable = false) :
    Fed (need m) m c (vmCpuUsageRefresh joinable) :=
  ((fed_vmBaseGet h).locked _).append ((fed_raise _).locked _)

theorem fed_vmCpuUsageGet {joinable first second : Bool}
    (hjoinable : m = .vmCpuUsage → joinable = false) (hfirst : m = .vmBase → first = false)
    (hsecond : m = .vmBase → second = false) :
    Fed (need m) m 0 (vmCpuUsageGet joinable first second) := by
  cases m with
  | vmBase =>
    rw [hfirst rfl, hsecond rfl]
    cases joinable <;> decide
  | vmCpuUsage =>
    rw [hjoinable rfl]
    cases first <;> cases second <;> decide
  | vmCacheMiss => cases joinable <;> cases first <;> cases second <;> decide

/-- The answers of `VmBase` in a refresh of `VmCacheMiss`. -/
theorem fed_asks (h : m = .vmBase → threads .vmBase = false) (answers : List Bool) :
    Fed (need m) m c ((answers.map (answer threads .vmBase)).flatMap vmBaseGet) := by
  rw [List.flatMap_map]
  refine Fed.flatMap fun joinable _ => fed_vmBaseGet fun hm => ?_
  rw [answer, h hm, Bool.and_false]

theorem fed_vmCacheMissRefresh (h : m = .vmBase → threads .vmBase = false)
    (asked passed : List Bool) :
    Fed (need m) m c (vmCacheMissRefresh (asked.map (answer threads .vmBase))
      (passed.map (answer threads .vmBase))) :=
  ((((fed_asks h asked).locked _).append (fed_locked_nil _)).append
    ((fed_asks h passed).locked _)).append (fed_raise _)

theorem fed_vmCacheMissGet {joinable : Bool} (h : m = .vmBase → threads .vmBase = false)
    (hjoinable : m = .vmCacheMiss → joinable = false) (asked passed : List Bool) :
    Fed (need m) m 0 (vmCacheMissGet joinable (asked.map (answer threads .vmBase))
      (passed.map (answer threads .vmBase))) := by
  refine fed_append.2 ⟨?_, ?_⟩
  · split_ifs
    · trivial
    · exact fed_vmCacheMissRefresh h asked passed
  · by_cases hm : m = .vmCacheMiss
    · subst hm
      rw [hjoinable rfl, if_neg Bool.false_ne_true, vmCacheMissRefresh, List.count_append]
      exact fed_of_le (Nat.le_add_left 1 _) (by decide)
    · refine fed_of_notMem ?_ ?_
      · simp [waitAndRead, lockedShared, hm]
      · simp [waitAndRead, lockedShared]

theorem fed_readOptions : Fed (need m) m c readOptions := by
  have hzero : Fed (need m) m 0 readOptions := by cases m <;> decide
  exact hzero.mono (Nat.zero_le c)

theorem fed_setter {setter : Setter} (h : m = .vmBase → setter ≠ .setVmCmd) :
    Fed (need m) m c setter.program := by
  cases setter with
  | setVmCmd =>
    have hm : m ≠ .vmBase := fun hm => h hm rfl
    refine fed_of_notMem ?_ ?_
    · simp [Setter.program, setVmCmd, locked]
    · simp [Setter.program, setVmCmd, locked, hm]
  | vmBaseCallback | cacheMissCallback => exact fed_locked_nil _
  | unlocked => trivial

theorem fed_deleteCallback (enabled : Bool) : Fed (need m) m c (deleteCallback enabled) := by
  refine fed_readOptions.append ?_
  split_ifs
  · exact fed_readOptions
  · trivial

theorem fed_setParam {ops : List (Bool × List Setter)}
    (h : m = .vmBase → ∀ op ∈ ops, .setVmCmd ∉ op.2) : Fed (need m) m c (setParam ops) := by
  refine (Fed.flatMap fun op hop => (fed_readOptions.append ?_).append
    (Fed.flatMap fun setter hsetter => fed_setter fun hm heq => ?_)).append (fed_locked_nil _)
  · split_ifs
    · exact fed_deleteCallback _
    · trivial
  · exact h hm op hop (heq ▸ hsetter)

theorem fed_clearParam (ops : List (Module × Bool)) : Fed (need m) m c (clearParam ops) := by
  refine Fed.flatMap fun op _ => Fed.flatMap fun m' _ => ?_
  refine Fed.append (fed_readOptions.append ?_) ?_
  · split_ifs
    · exact (fed_deleteCallback _).append (fed_locked_nil _)
    · trivial
  · cases m' with
    | vmBase => exact fed_locked_nil _
    | vmCpuUsage | vmCacheMiss =>
      exact ((fed_locked_nil _).append (fed_locked_nil _)).append (fed_locked_nil _)

theorem fed_initVms {joinable : Bool} (hjoinable : m = .vmBase → joinable = false)
    {params : List (Option (List Setter))}
    (h : m = .vmBase → ∀ setters, some setters ∈ params → .setVmCmd ∉ setters) :
    Fed (need m) m c (initVms params joinable) := by
  refine Fed.locked (Fed.append (Fed.flatMap fun param hparam => ?_) (fed_vmBaseGet hjoinable)) _
  cases param with
  | none => exact fed_readOptions
  | some setters =>
    refine (fed_readOptions.append fed_readOptions).append (Fed.flatMap fun setter hsetter => ?_)
    exact fed_setter fun hm heq => h hm setters hparam (heq ▸ hsetter)

/-- The call does not set the command, or the thread of `VmBase` runs. -/
def Call.Allowed (threads : Module → Bool) (call : Call) : Prop :=
  threads .vmBase = true ∨ ¬ call.SetsVmCmd

/-- **A counter of a module whose thread does not run** is raised before it is waited for. -/
theorem fed_program {n : ℕ} (h : threads m = false) (i : Party n) {call : Call}
    (hcall : call.Allowed threads) : Fed (need m) m 0 ((system threads n).program i call) := by
  have hsets (hm : m = .vmBase) : ¬ call.SetsVmCmd := by
    refine hcall.resolve_left fun hruns => ?_
    rw [← hm, h] at hruns
    cases hruns
  have hbase : m = .vmBase → threads .vmBase = false := fun hm => hm ▸ h
  have hanswer (m' : Module) (joinable : Bool) (hm : m = m') :
      answer threads m' joinable = false := by
    rw [answer, ← hm, h, Bool.and_false]
  cases i with
  | inl m' =>
    cases call with
    | refresh asked passed =>
      simp only [system]
      split_ifs
      · cases m' with
        | vmBase => exact (fed_raise _).locked _
        | vmCpuUsage => exact fed_vmCpuUsageRefresh (hanswer _ _)
        | vmCacheMiss => exact fed_vmCacheMissRefresh hbase asked passed
      · trivial
    | _ => trivial
  | inr i =>
    cases call with
    | refresh asked passed => trivial
    | vmBaseGet joinable => exact fed_vmBaseGet (hanswer _ _)
    | vmCpuUsageGet joinable first second =>
      exact fed_vmCpuUsageGet (hanswer _ _) (hanswer _ _) (hanswer _ _)
    | vmCacheMissGet joinable asked passed =>
      exact fed_vmCacheMissGet hbase (hanswer _ _) asked passed
    | initVms params joinable =>
      exact fed_initVms (hanswer _ _) fun hm setters hmem hset => hsets hm ⟨setters, hmem, hset⟩
    | setParam ops => exact fed_setParam fun hm op hop hset => hsets hm ⟨op, hop, hset⟩
    | clearParam ops => exact fed_clearParam ops

end Fed

/-! ## The threads -/

section Above

variable {threads} {n : ℕ}

theorem above_vmBaseRefresh : (system threads n).Above 3 vmBaseRefresh :=
  (above_raise _ _).locked (Nat.lt_succ_self 3)

theorem above_vmBaseGet (joinable : Bool) : (system threads n).Above 0 (vmBaseGet joinable) := by
  refine Above.append ?_ ((above_await (Nat.succ_pos 2)).append
    ((above_nil _).lockedShared (Nat.succ_pos 3)))
  split_ifs
  · exact above_nil _
  · exact (above_raise _ _).locked (Nat.succ_pos 3)

theorem above_threadProgram (asked passed : List Bool) (m : Module) :
    (system threads n).Above ((system threads n).flagRank m)
      (threadProgram threads asked passed m) := by
  have hcpu : 0 < (system threads n).lockRank .cpuUsage := Nat.succ_pos 1
  have hcache : 0 < (system threads n).lockRank .cacheMiss := Nat.succ_pos 1
  cases m with
  | vmBase => exact above_vmBaseRefresh
  | vmCpuUsage => exact ((above_vmBaseGet _).locked hcpu).append ((above_raise _ _).locked hcpu)
  | vmCacheMiss =>
    exact ((((Above.flatMap above_vmBaseGet _).locked hcache).append
      ((above_nil _).locked hcache)).append
      ((Above.flatMap above_vmBaseGet _).locked hcache)).append (above_raise _ _)

end Above

theorem mem_threadProgram (threads : Module → Bool) (m : Module) :
    .raise m ∈ threadProgram threads [] [] m ∧ ∀ g, .reset g ∉ threadProgram threads [] [] m := by
  cases m with
  | vmBase =>
    simp only [threadProgram]
    decide
  | vmCpuUsage =>
    simp only [threadProgram, List.headD_nil]
    cases answer threads .vmBase true <;> decide
  | vmCacheMiss =>
    simp only [threadProgram, List.map_nil]
    decide

theorem disciplined (threads : Module → Bool) (n : ℕ) :
    (system threads n).Disciplined fun _ call => call.Allowed threads := by
  have hraiser (m : Module) (r : Party n) (c : Call)
      (h : (system threads n).raiser m = some (r, c)) :
      threads m = true ∧ r = .inl m ∧ c = .refresh [] [] := by
    simp only [system] at h
    split_ifs at h with hm
    simp only [Option.some.injEq, Prod.mk.injEq] at h
    exact ⟨hm, h.1.symm, h.2.symm⟩
  have hprogram (m : Module) (hm : threads m = true) :
      (system threads n).program (.inl m) (.refresh [] []) = threadProgram threads [] [] m := by
    simp only [system, hm, if_true]
  refine ⟨fun i c _ => (neutral_program i c).ordered, fun m hm i c hc => ?_,
    fun m r c h c' _ => ?_, fun m r c h => ?_, fun m r c h => ?_, fun m r c h g => ?_⟩
  · refine fed_program ?_ i hc
    by_contra hne
    simp [system, hne] at hm
  · obtain ⟨hm, rfl, rfl⟩ := hraiser m r c h
    cases c' with
    | refresh asked passed =>
      simp only [system, hm, if_true]
      exact above_threadProgram asked passed m
    | _ => exact above_nil _
  · obtain ⟨-, -, rfl⟩ := hraiser m r c h
    exact Or.inr id
  · obtain ⟨hm, rfl, rfl⟩ := hraiser m r c h
    rw [hprogram m hm]
    exact (mem_threadProgram threads m).1
  · obtain ⟨hm, rfl, rfl⟩ := hraiser m r c h
    rw [hprogram m hm]
    exact (mem_threadProgram threads m).2 g

/-! ## A getter that waits for ever -/

section Parked

variable {threads} {n : ℕ}

/-- The mutexes that a thread holds while it asks `VmBase`. -/
def held : Party n → List Mutex
  | .inl .vmCpuUsage => [.cpuUsage]
  | .inl .vmCacheMiss => [.cacheMiss]
  | _ => []

theorem eq_of_mem_held {i j : Party n} {k : Mutex} (hi : k ∈ held i) (hj : k ∈ held j) : i = j := by
  rcases i with i | i <;> rcases j with j | j
  · cases i <;> cases j <;> simp_all [held]
  · cases hj
  · cases hi
  · cases hi

/-- Some parties wait for the data of `VmBase`, and the others are not in a call. -/
structure Parked (W : Party n → Prop) (s : State (Party n) Mutex Module) : Prop where
  waits : ∀ i, W i → ∃ is, s.rest i = .await .vmBase :: is
  idle : ∀ i, ¬ W i → s.rest i = [] ∧ s.held i = []
  held : ∀ i, ∀ x ∈ s.held i, x.1 ∈ held i

theorem parked_idle (count : Module → ℕ) : Parked (n := n) (fun _ => False) (State.idle count) :=
  ⟨nofun, fun _ _ => ⟨rfl, rfl⟩, nofun⟩

/-- Nobody who waits holds what a further party takes. -/
theorem Parked.free {W : Party n → Prop} {s : State (Party n) Mutex Module} (h : Parked W s)
    {i : Party n} {k : Mutex} (hk : k ∈ ModuleLocks.held i ∨ k = .vmBase ∨ k = .options)
    {j : Party n} (hji : j ≠ i) (b : Bool) : (k, b) ∉ s.held j := by
  intro hmem
  have hj := h.held j _ hmem
  rcases hk with hk | rfl | rfl
  · exact hji (eq_of_mem_held hj hk)
  · rcases j with j | j
    · cases j <;> simp [ModuleLocks.held] at hj
    · cases hj
  · rcases j with j | j
    · cases j <;> simp [ModuleLocks.held] at hj
    · cases hj

/-- What is locked and raised before a party waits for the data of `VmBase`. -/
def asks (i : Party n) : Program := (held i).map .acquire ++ vmBaseRefresh

theorem takes_asks (i : Party n) : (system threads n).Takes [] (asks i) := by
  rcases i with m | u
  · cases m <;> simp [asks, held, vmBaseRefresh, locked, Takes, Fits, hold, system]
  · simp [asks, held, vmBaseRefresh, locked, Takes, Fits, hold]

theorem foldl_hold_asks (i : Party n) : (asks i).foldl hold [] = (held i).map (·, true) := by
  rcases i with m | u
  · cases m <;> rfl
  · rfl

theorem mem_asks {i : Party n} {k : Mutex} (h : .acquire k ∈ asks i ∨ .acquireShared k ∈ asks i) :
    k ∈ held i ∨ k = .vmBase := by
  simpa [asks, vmBaseRefresh, locked] using h

/-- From the start the parties `W`, and no others, can be brought to wait. -/
def CanPark (threads : Module → Bool) (count : Module → ℕ) (W : Party n → Prop) : Prop :=
  ∃ es, Parked W (run (system threads n).step (State.idle count) es)

/-- **A further party** begins a call, and comes to wait. -/
theorem CanPark.ask {count : Module → ℕ} {W : Party n → Prop} (h : CanPark threads count W)
    {i : Party n} (hi : ¬ W i) {call : Call} {is : Program}
    (hprogram : (system threads n).program i call = asks i ++ .await .vmBase :: is) :
    CanPark threads count fun j => W j ∨ j = i := by
  obtain ⟨es, hparked⟩ := h
  obtain ⟨hrest, hnone⟩ := hparked.idle i hi
  have hawait (m : Module) : .await m ∉ asks i := by
    simp [asks, vmBaseRefresh, locked]
  have hbegun := run_begun hrest hnone hprogram (takes_asks i)
    (fun k hk j hji b => hparked.free ((mem_asks hk).imp_right Or.inl) hji b)
    (supplied_of_notMem hawait)
  refine ⟨es ++ (.call i call :: List.replicate (asks i).length (.exec i)), ?_⟩
  rw [run_append, hbegun, foldl_hold_asks]
  refine ⟨fun j hj => ?_, fun j hj => ?_, fun j x hx => ?_⟩
  · by_cases hji : j = i
    · rw [hji]
      exact ⟨is, Function.update_self ..⟩
    · obtain ⟨js, hjs⟩ := hparked.waits j (hj.resolve_right hji)
      exact ⟨js, (Function.update_of_ne hji ..).trans hjs⟩
  · rw [not_or] at hj
    simp only [Function.update_of_ne hj.2]
    exact hparked.idle j hj.1
  · by_cases hji : j = i
    · subst hji
      simp only [Function.update_self, List.mem_map] at hx
      obtain ⟨k, hk, rfl⟩ := hx
      exact hk
    · simp only [Function.update_of_ne hji] at hx
      exact hparked.held j x hx

/-- The thread of a sampler, if it runs. -/
theorem CanPark.thread {count : Module → ℕ} {W : Party n → Prop} (h : CanPark threads count W)
    {m : Module} (hm : m ≠ .vmBase) (hW : ¬ W (.inl m)) :
    CanPark threads count fun j => W j ∨ (j = .inl m ∧ threads m = true) := by
  by_cases hruns : threads m = true
  · simp only [hruns, and_true]
    cases m with
    | vmBase => exact absurd rfl hm
    | vmCpuUsage =>
      have hprogram : (system threads n).program (.inl .vmCpuUsage) (.refresh [false] []) =
          asks (n := n) (.inl .vmCpuUsage) ++ .await .vmBase ::
            (lockedShared .vmBase [] ++ .release .cpuUsage :: cpuUsageRefresh) := by
        simp only [system, hruns, if_true]
        rfl
      exact h.ask hW hprogram
    | vmCacheMiss =>
      have hprogram : (system threads n).program (.inl .vmCacheMiss) (.refresh [false] []) =
          asks (n := n) (.inl .vmCacheMiss) ++ .await .vmBase ::
            (lockedShared .vmBase [] ++ .release .cacheMiss :: (locked .cacheMiss [] ++
              locked .cacheMiss [] ++ [.raise .vmCacheMiss])) := by
        simp only [system, hruns, if_true]
        rfl
      exact h.ask hW hprogram
  · simp only [hruns, Bool.false_eq_true, and_false, or_false]
    exact h

/-- The threads that run, and a getter that a user has called. -/
def Waits (threads : Module → Bool) (user : Fin n) : Party n → Prop
  | .inl m => threads m = true
  | .inr u => u = user

/-- **All threads that run and a getter can be brought to wait**, when each has refreshed `VmBase`
and goes on at once if it is the next. -/
theorem canPark_waits (h : threads .vmBase = false) (count : Module → ℕ) (user : Fin n) :
    CanPark threads count (Waits threads user) := by
  have hnobody : CanPark (n := n) threads count fun _ => False := ⟨[], parked_idle count⟩
  have hprogram : (system threads n).program (.inr user) (.vmBaseGet false) =
      asks (.inr user) ++ waitAndRead .vmBase .vmBase := rfl
  have huser : CanPark threads count fun j => False ∨ j = .inr user := hnobody.ask id hprogram
  have hall := (huser.thread (m := .vmCpuUsage) (by decide) (by simp)).thread
    (m := .vmCacheMiss) (by decide) (by simp)
  refine (congrArg (CanPark threads count) (funext fun j => propext ?_)).mp hall
  rcases j with m | u
  · cases m <;> simp [Waits, h]
  · simp [Waits]

/-- Who waits for the data of `VmBase` waits for ever once they are reset, and nobody else is about
to raise them. -/
theorem not_canReach_finished (user : Fin n) {s : State (Party n) Mutex Module}
    (hwaits : ∀ i, Waits threads user i → ∃ is, s.rest i = .await .vmBase :: is)
    (hcount : s.count .vmBase = 0)
    (hothers : ∀ i, ¬ Waits threads user i → .raise .vmBase ∉ s.rest i) :
    ¬ (system threads n).CanReach s fun s => ∀ i, s.rest i = [] ∧ s.held i = [] := by
  rintro ⟨es, hes, hfinished⟩
  have hraiser (m : Module) (i : Party n) (call : Call)
      (h : (system threads n).raiser m = some (i, call)) : Waits threads user i := by
    simp only [system] at h
    split_ifs at h with hm
    obtain ⟨rfl, -⟩ := Prod.mk.inj (Option.some.inj h)
    exact hm
  have hlow : s.count .vmBase < (system threads n).need .vmBase := by
    rw [hcount]
    exact Nat.one_pos
  have huser : Waits threads user (.inr user) := rfl
  have hkept := keeps_waiting hwaits hlow hothers (fun m i call h _ => hraiser m i call h) hes huser
  obtain ⟨is, his⟩ := hwaits _ huser
  have hempty := (hfinished (.inr user)).1
  rw [hkept, his] at hempty
  exact List.cons_ne_nil _ _ hempty

/-- **A getter that waits for ever**: another user sets the command, and `has_data_` is reset. -/
theorem waits_for_ever (h : threads .vmBase = false) (hn : 2 ≤ n) (count : Module → ℕ) :
    ∃ es : List (Event (Party n) Call),
      ¬ (system threads n).CanReach (run (system threads n).step (State.idle count) es)
        fun s => ∀ i, s.rest i = [] ∧ s.held i = [] := by
  let user : Fin n := ⟨0, by omega⟩
  let other : Fin n := ⟨1, by omega⟩
  have hother : ¬ Waits threads user (.inr other) := fun heq => absurd (Fin.val_eq_of_eq heq) (by
    simp [user, other])
  obtain ⟨es, hparked⟩ := canPark_waits h count user
  obtain ⟨hrest, hnone⟩ := hparked.idle _ hother
  let setting : Program := readOptions ++ [.acquire .vmBase, .reset .vmBase]
  have hprogram : (system threads n).program (.inr other) (.setParam [(false, [.setVmCmd])]) =
      setting ++ .release .vmBase :: enableOption := rfl
  have htakes : (system threads n).Takes [] setting := by
    simp [setting, readOptions, lockedShared, Takes, Fits, hold]
  have hlocks (k : Mutex) (hk : .acquire k ∈ setting ∨ .acquireShared k ∈ setting) :
      k = .vmBase ∨ k = .options := by
    simpa [setting, readOptions, lockedShared] using hk
  have hawait (m : Module) : .await m ∉ setting := by
    simp [setting, readOptions, lockedShared]
  have hbegun := run_begun hrest hnone hprogram htakes
    (fun k hk j hji b => hparked.free (Or.inr (hlocks k hk)) hji b) (supplied_of_notMem hawait)
  refine ⟨es ++ (.call (.inr other) (.setParam [(false, [.setVmCmd])]) ::
    List.replicate setting.length (.exec (.inr other))), ?_⟩
  rw [run_append, hbegun]
  refine not_canReach_finished user (fun i hi => ?_) rfl fun i hi => ?_
  · have hne : i ≠ .inr other := fun heq => hother (heq ▸ hi)
    obtain ⟨is, his⟩ := hparked.waits i hi
    exact ⟨is, (Function.update_of_ne hne ..).trans his⟩
  · by_cases hio : i = .inr other
    · simp [hio, enableOption, locked]
    · simp only [Function.update_of_ne hio, (hparked.idle i hi).1]
      exact List.not_mem_nil

end Parked

/-! ## Every call can be finished -/

/-- **No deadlock**: whichever other threads run, if that of `VmBase` does or no call sets the
command, all calls under way can be finished from every state that is reachable, and leave every
mutex free. Without that thread two users reach a state where a getter waits for ever. -/
theorem calls_finish (threads : Module → Bool) (n : ℕ) (count : Module → ℕ) :
    (∀ es : List (Event (Party n) Call), (∀ i call, .call i call ∈ es → call.Allowed threads) →
      (system threads n).CanReach (run (system threads n).step (State.idle count) es)
        fun s => ∀ i, s.rest i = [] ∧ s.held i = []) ∧
    (threads .vmBase = false → 2 ≤ n → ∃ es : List (Event (Party n) Call),
      ¬ (system threads n).CanReach (run (system threads n).step (State.idle count) es)
        fun s => ∀ i, s.rest i = [] ∧ s.held i = []) :=
  ⟨fun _ hes => finishes (disciplined threads n) count hes, fun h hn => waits_for_ever h hn count⟩

end ModuleLocks

end LibVsf
