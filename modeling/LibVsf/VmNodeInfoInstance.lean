import LibVsf.Lib.Runs
import LibVsf.VmNodeInfo

/-!
# One instance for all pids

`get_instance` takes a pid, but makes one object, with the pid of its first call. Every query is
answered by this object.

* `known_step`: the object stays one of the first pid.
* `pid_answers_iff`: a run answers each query from the command line of the pid it is made through,
  whatever the command lines are, exactly when each is made through the first pid of the run.
-/

namespace LibVsf.VmNodeInfo

open Runs

/-! ## Queries -/

inductive Query where
  | vnodeNum
  | vnodeIds
  | vcpuIds (vnodeId vcpuNum : Int)
deriving DecidableEq

inductive Answer where
  | num (n : Int)
  | ids (ids : List Int)
deriving DecidableEq

def answer (s : VmNodeInfo) : Query → Option Answer
  | .vnodeNum => some (.num s.getVnodeNum)
  | .vnodeIds => some (.ids s.getVnodeIds)
  | .vcpuIds vnodeId vcpuNum => (s.getVcpuIds vnodeId vcpuNum).map Answer.ids

/-- What the queries find: the files of the processes, and the memory. -/
structure Machine where
  memory : Memory
  cmdline : Nat → Option (List Char)

/-- A query to an object, which reads the command line if it has not been read. -/
def ask (m : Machine) (s : VmNodeInfo) (q : Query) : Option (VmNodeInfo × Answer) := do
  let s ← s.ensure m.memory m.cmdline
  let a ← s.answer q
  return (s, a)

/-! ## Runs -/

/-- A call of `get_instance`, and a query to what it has given for the pid. -/
inductive Op where
  | getInstance (pid : Nat)
  | query (pid : Nat) (q : Query)

def Op.pid : Op → Nat
  | .getInstance pid | .query pid _ => pid

/-- A step of the program, or `error` where it is stopped. -/
def step (m : Machine) (inst : Option VmNodeInfo) : Op → Except Unit (Option VmNodeInfo)
  | .getInstance pid => .ok (some (getInstance inst pid))
  | .query pid q =>
    match (getInstance inst pid).ask m q with
    | none => .error ()
    | some (s, _) => .ok (some s)

/-- What a query is answered. -/
def given (m : Machine) (inst : Option VmNodeInfo) (pid : Nat) (q : Query) : Option Answer :=
  ((getInstance inst pid).ask m q).map Prod.snd

/-- Each query of the run is answered from the command line of its pid, as an object of this pid
alone would answer it. -/
def Answers (m : Machine) (ops : List Op) : Prop :=
  ∀ pre pid q post inst, ops = pre ++ .query pid q :: post → runE (step m) none pre = .ok inst →
    given m inst pid q = given m none pid q

/-! ## The first pid -/

/-- An object of the pid, before or after its command line is read. -/
def Known (m : Machine) (pid : Nat) (s : VmNodeInfo) : Prop :=
  s = { pid := pid } ∨ update m.memory { pid := pid } m.cmdline = some s

theorem init_of_update {memory : Memory} {s t : VmNodeInfo} {cmdline : Nat → Option (List Char)}
    (h : s.update memory cmdline = some t) : t.init = true := by
  simp only [update, Option.bind_eq_bind, Option.bind_eq_some_iff] at h
  obtain ⟨text, -, ht⟩ := h
  cases ht
  rfl

theorem ensure_known {m : Machine} {pid : Nat} {s : VmNodeInfo} (h : Known m pid s) :
    s.ensure m.memory m.cmdline = update m.memory { pid := pid } m.cmdline := by
  rcases h with rfl | h
  · rfl
  · rw [ensure, if_pos (init_of_update h), h]

/-- **The object answers for its pid**, whether it has read the command line or not. -/
theorem ask_known {m : Machine} {pid : Nat} {s : VmNodeInfo} (h : Known m pid s) (q : Query) :
    s.ask m q = ask m { pid := pid } q := by
  rw [ask, ensure_known h]
  rfl

theorem known_of_ask {m : Machine} {pid : Nat} {s t : VmNodeInfo} (h : Known m pid s) {q : Query}
    {a : Answer} (hask : s.ask m q = some (t, a)) : Known m pid t := by
  simp only [ask, ensure_known h, Option.bind_eq_bind, Option.bind_eq_some_iff] at hask
  obtain ⟨s', hs', a', -, heq⟩ := hask
  cases heq
  exact .inr hs'

/-- The object is one of the first pid. -/
def OfFirst (m : Machine) (pid : Nat) (inst : Option VmNodeInfo) : Prop :=
  ∃ s, inst = some s ∧ Known m pid s

theorem known_step {m : Machine} {pid : Nat} {inst inst' : Option VmNodeInfo} {op : Op}
    (h : Known m pid (getInstance inst op.pid)) (hstep : step m inst op = .ok inst') :
    OfFirst m pid inst' := by
  cases op with
  | getInstance p =>
    cases hstep
    exact ⟨_, rfl, h⟩
  | query p q =>
    simp only [step] at hstep
    cases hask : (getInstance inst p).ask m q with
    | none => simp [hask] at hstep
    | some result =>
      obtain ⟨s, a⟩ := result
      rw [hask] at hstep
      cases hstep
      exact ⟨s, rfl, known_of_ask h hask⟩

/-- After the first step there is an object of its pid. -/
theorem ofFirst_run {m : Machine} {op : Op} {pre : List Op} {inst : Option VmNodeInfo}
    (hrun : runE (step m) none (op :: pre) = .ok inst) : OfFirst m op.pid inst := by
  obtain ⟨inst₁, hstep, hrest⟩ := (runE_cons_ok _).1 hrun
  refine runE_invariant (step m) (known_step (.inl rfl) hstep) ?_ hrest
  rintro _ op' inst' ⟨s, rfl, hs⟩ hstep'
  have hkept : Known m op.pid (getInstance (some s) op'.pid) := hs
  exact known_step hkept hstep'

/-- Each query is made through the first pid of the run. -/
def ThroughFirst (ops : List Op) : Prop :=
  ∀ pid q, Op.query pid q ∈ ops → ∀ op ∈ ops.head?, pid = op.pid

theorem answers_of_throughFirst {ops : List Op} (h : ThroughFirst ops) (m : Machine) :
    Answers m ops := by
  rintro pre pid q post inst rfl hrun
  cases pre with
  | nil =>
    cases hrun
    rfl
  | cons op pre =>
    obtain ⟨s, rfl, hs⟩ := ofFirst_run hrun
    obtain rfl : pid = op.pid := h pid q (by simp) op rfl
    simp only [given]
    exact congrArg (Option.map Prod.snd) (ask_known hs q)

/-! ## Another pid -/

/-- What a process with one virtual node gives, whose cpus are `0` and whose id is not given. -/
def vnodeFile : List Char := "-numa\x00cpus=0\x00".toList

def noVnodeFile : List Char := "vm\x00".toList

/-- The process of the pid has the virtual node; the others have none. -/
def oneVnode (pid : Nat) (vnodeId : Int) : Machine where
  memory := {
    afterCmdline := []
    afterCpus := fun _ => ['\x00']
    vnodeId := fun _ => vnodeId
    memSizeMb := fun _ => 0
    staticBind := fun _ => 0 }
  cmdline := fun p => some (if p = pid then vnodeFile else noVnodeFile)

theorem read_vnodeFile (memory : Memory) :
    (readCmdLine memory (some vnodeFile)).map Text.words = some [numaOption, "cpus=0".toList] := by
  rfl

theorem read_noVnodeFile (memory : Memory) :
    (readCmdLine memory (some noVnodeFile)).map Text.words = some ["vm".toList] := by
  rfl

theorem vnodeOf_vnodeFile (pid : Nat) (vnodeId : Int) :
    vnodeOf (oneVnode pid vnodeId).memory 0 "cpus=0".toList =
      { vnodeId := vnodeId, cpus := [0], memSizeMb := 0, staticBind := 0 } := by
  have hcpus : extractAttr "cpus=0".toList "cpus".toList = ['0'] := by decide
  have hnodeid : extractAttr "cpus=0".toList "nodeid".toList = [] := by decide
  have hmem : extractAttr "cpus=0".toList "mem".toList = [] := by decide
  have hmembind : extractAttr "cpus=0".toList "membind".toList = [] := by decide
  simp only [vnodeOf, attrOr, hcpus, hnodeid, hmem, hmembind]
  rfl

theorem update_eq (m : Machine) (s : VmNodeInfo) {tokens : List (List Char)}
    (htokens : (readCmdLine m.memory (m.cmdline s.pid)).map Text.words = some tokens) :
    update m.memory s m.cmdline = some { s with
      vnodeNum := (readVnodes m.memory tokens {}).vnodeSize
      vnodeInfo := (readVnodes m.memory tokens {}).vnodeInfo
      init := true } := by
  obtain ⟨cmdline, hread, rfl⟩ := Option.map_eq_some_iff.1 htokens
  simp only [update, hread]
  rfl

theorem update_oneVnode (pid : Nat) (vnodeId : Int) :
    update (oneVnode pid vnodeId).memory { pid := pid } (oneVnode pid vnodeId).cmdline =
      some {
        vnodeNum := 1
        vnodeInfo := [{ vnodeId := vnodeId, cpus := [0], memSizeMb := 0, staticBind := 0 }]
        init := true
        pid := pid } := by
  have hfile : (oneVnode pid vnodeId).cmdline pid = some vnodeFile :=
    congrArg some (if_pos rfl)
  rw [update_eq _ _ (hfile ▸ read_vnodeFile _), ← vnodeOf_vnodeFile]
  rfl

theorem update_noVnode {pid p : Nat} (h : p ≠ pid) (vnodeId : Int) :
    update (oneVnode pid vnodeId).memory { pid := p } (oneVnode pid vnodeId).cmdline =
      some { vnodeNum := 0, vnodeInfo := [], init := true, pid := p } := by
  have hfile : (oneVnode pid vnodeId).cmdline p = some noVnodeFile :=
    congrArg some (if_neg h)
  rw [update_eq _ _ (hfile ▸ read_noVnodeFile _)]
  rfl

/-- The virtual node that a query asks for. -/
def Query.vnodeId : Query → Int
  | .vcpuIds vnodeId _ => vnodeId
  | _ => 0

/-- With a virtual node no query stops the program. -/
theorem ask_oneVnode (pid : Nat) (vnodeId : Int) (q : Query) :
    (ask (oneVnode pid vnodeId) { pid := pid } q).isSome := by
  have hensure : ensure (oneVnode pid vnodeId).memory { pid := pid }
      (oneVnode pid vnodeId).cmdline = _ := update_oneVnode pid vnodeId
  rw [ask, hensure]
  cases q with
  | vnodeNum | vnodeIds => rfl
  | vcpuIds id vcpuNum =>
    by_cases hid : vnodeId = id
    · simp [answer, getVcpuIds, hid]
    · by_cases hnum : 0 < vcpuNum <;> simp [answer, getVcpuIds, hid, hnum]

/-- **A query is answered otherwise for a process that has the virtual node.** -/
theorem given_ne {pid p : Nat} (h : p ≠ pid) (q : Query) :
    given (oneVnode pid q.vnodeId) none p q ≠ given (oneVnode pid q.vnodeId) none pid q := by
  have hpid : ensure (oneVnode pid q.vnodeId).memory { pid := pid }
      (oneVnode pid q.vnodeId).cmdline = _ := update_oneVnode pid q.vnodeId
  have hp : ensure (oneVnode pid q.vnodeId).memory { pid := p }
      (oneVnode pid q.vnodeId).cmdline = _ := update_noVnode h q.vnodeId
  simp only [given, ask, getInstance, Option.getD_none, hpid, hp]
  cases q with
  | vnodeNum => simp [answer, getVnodeNum]
  | vnodeIds => simp [answer, getVnodeIds]
  | vcpuIds id vcpuNum =>
    by_cases hnum : 0 < vcpuNum <;> simp [answer, getVcpuIds, Query.vnodeId, hnum]

theorem step_ok {m : Machine} {pid : Nat} {inst : Option VmNodeInfo} {op : Op}
    (hask : ∀ q, (ask m { pid := pid } q).isSome) (h : Known m pid (getInstance inst op.pid)) :
    ∃ inst', step m inst op = .ok inst' := by
  cases op with
  | getInstance p => exact ⟨_, rfl⟩
  | query p q =>
    obtain ⟨result, hresult⟩ := Option.isSome_iff_exists.1 (hask q)
    have hknown : (getInstance inst p).ask m q = some result := (ask_known h q).trans hresult
    simp [step, hknown]

/-- If no query to an object of the first pid stops the program, nothing does. -/
theorem run_ok {m : Machine} {op : Op} (hask : ∀ q, (ask m { pid := op.pid } q).isSome)
    (pre : List Op) : ∃ inst, runE (step m) none (op :: pre) = .ok inst := by
  have hfirst : Known m op.pid (getInstance none op.pid) := .inl rfl
  obtain ⟨inst, hstep⟩ := step_ok hask hfirst
  have hkept {s : VmNodeInfo} (hs : Known m op.pid s) (op' : Op) :
      Known m op.pid (getInstance (some s) op'.pid) := hs
  have hrest : ∃ inst', runE (step m) inst pre = .ok inst' := by
    refine (runE_ok_iff_forall (step m) (I := OfFirst m op.pid) (C := fun _ => True) ?_ ?_
      (known_step hfirst hstep) pre).2 fun _ _ => trivial
    · rintro _ op' inst' ⟨s, rfl, hs⟩ hstep'
      exact known_step (hkept hs op') hstep'
    · rintro _ op' ⟨s, rfl, hs⟩
      exact iff_of_true (step_ok hask (hkept hs op')) trivial
  obtain ⟨inst', hrun⟩ := hrest
  exact ⟨inst', (runE_cons_ok _).2 ⟨inst, hstep, hrun⟩⟩

/-- **A query through another pid can be answered wrongly.** -/
theorem not_answers {op : Op} {pid : Nat} {q : Query} (h : pid ≠ op.pid) (pre post : List Op) :
    ¬ Answers (oneVnode op.pid q.vnodeId) (op :: pre ++ .query pid q :: post) := by
  intro hanswers
  obtain ⟨inst, hrun⟩ := run_ok (ask_oneVnode op.pid q.vnodeId) pre
  have hgiven := hanswers (op :: pre) pid q post inst rfl hrun
  obtain ⟨s, rfl, hs⟩ := ofFirst_run hrun
  have hfirst : given (oneVnode op.pid q.vnodeId) (some s) pid q =
      given (oneVnode op.pid q.vnodeId) none op.pid q :=
    congrArg (Option.map Prod.snd) (ask_known hs q)
  exact given_ne h q (hgiven.symm.trans hfirst)

/-- **The answers are those of the first pid.** Whatever the command lines and the memory are, every
query of a run is answered from the command line of its pid, exactly when every query is made
through the first pid of the run. -/
theorem pid_answers_iff (ops : List Op) : (∀ m, Answers m ops) ↔ ThroughFirst ops := by
  refine ⟨fun hanswers pid q hmem op hop => ?_, answers_of_throughFirst⟩
  by_contra hne
  obtain ⟨pre, post, rfl⟩ := List.append_of_mem hmem
  cases pre with
  | nil =>
    cases hop
    exact hne rfl
  | cons op' pre =>
    cases hop
    exact not_answers hne pre post (hanswers _)

/-- After a query through the pid `1`, one through the pid `2` is answered from the command line of
the process `1`. -/
theorem not_answers_second :
    ¬ Answers (oneVnode 1 0) [.query 1 .vnodeNum, .query 2 .vnodeNum] := by
  have hne : 2 ≠ (Op.query 1 .vnodeNum).pid := by decide
  exact not_answers hne [] []

end LibVsf.VmNodeInfo
