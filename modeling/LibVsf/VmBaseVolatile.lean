import LibVsf.VmBaseRuns

/-!
# `VmBase`: the volatile threads

The threads of a VM are its stable ones, which are the threads of its vcpus and the main thread, and
those that come and go. The latter are not kept: a getter lists the tasks of the process and takes
the stable ones out (`refresh_volatile_vmthread`).

**Theorem (`volatile_threads`).** In every state with data that a run reaches, the volatile threads
of a VM that is listed are its tasks but the main thread and the threads of vcpus. A VM that is not
listed is taken to be down, and has none. The ids that refreshes list are ordered lawfully, with the
one that is asked for.

The tasks are read before the stable threads are, which may be refreshed in between.
-/

namespace LibVsf

open Std EqvMap EqvOrd

namespace VmBase

def taskDir (vmId : VmId) : String := "/proc/" ++ toString vmId.pid ++ "/task/"

/-- The body of the loop over the directories of the tasks. -/
def readThreadId (ids : ExtTreeSet Int) (dir : List Char) : Except ReadFailure (ExtTreeSet Int) :=
  match Text.stoi dir with
  | .error failure => .error (.conversionFailed failure)
  | .ok tid => .ok (ids.insert tid)

/-- The part after the stable threads have been asked for. -/
def volatileOf (ids stable : ExtTreeSet Int) : ExtTreeSet Int :=
  if stable.size = 0 then ∅ else ids \ stable

def readTasks (vmId : VmId) (tasks : Option (List (List Char))) :
    Except ReadFailure (ExtTreeSet Int) :=
  StrTools.getDirs (taskDir vmId) [] tasks >>= fun dirs => dirs.foldlM readThreadId ∅

end VmBase

namespace VmBaseThread

open VmBase

/-- The getter, of the entries of the directory of tasks; `host` is what a refresh meets. -/
def getVolatileVmthreadIds (t : VmBaseThread) (vmId : VmId) (tasks : Option (List (List Char)))
    (host : VmHost) : VmBaseThread × Except ReadFailure (ExtTreeSet Int) :=
  match readTasks vmId tasks with
  | .error failure => (t, .error failure)
  | .ok ids =>
    if t.joinable then (t, .ok (volatileOf ids (t.base.data.getStableVmthreadIds vmId)))
    else
      match t.base.refresh host with
      | .error (failure, s) => ({ t with base := s }, .error failure)
      | .ok s => ({ t with base := s }, .ok (volatileOf ids (s.data.getStableVmthreadIds vmId)))

end VmBaseThread

/-! ## The tasks -/

/-- The entries of a directory of tasks: their numbers, and others that are not numbers. -/
structure TaskDir where
  names : List (List Char)
  ids : List Nat
  numbers : names.filter (StrTools.prefixAndDigits []) = ids.map (Nat.toDigits 10)
  le_max : ∀ id ∈ ids, id ≤ 2147483647

namespace VmBase

theorem readThreadId_toDigits {id : Nat} (h : id ≤ 2147483647) (ids : ExtTreeSet Int) :
    readThreadId ids (Nat.toDigits 10 id) = .ok (ids.insert id) := by
  have hstoi : Text.stoi (Nat.toDigits 10 id) = .ok (Text.Numeral.ofNat id h).value :=
    (Text.Numeral.ofNat id h).stoi_text
  rw [readThreadId, hstoi, Text.Numeral.value_ofNat]

theorem foldlM_readThreadId {numbers : List Nat} (h : ∀ id ∈ numbers, id ≤ 2147483647)
    (ids : ExtTreeSet Int) : ∃ ids', (numbers.map (Nat.toDigits 10)).foldlM readThreadId ids =
      .ok ids' ∧ ∀ tid, tid ∈ ids' ↔ tid ∈ ids ∨ ∃ id ∈ numbers, (id : Int) = tid := by
  induction numbers generalizing ids with
  | nil => exact ⟨ids, rfl, fun tid => by simp⟩
  | cons id numbers ih =>
    rw [List.forall_mem_cons] at h
    obtain ⟨hid, h⟩ := h
    obtain ⟨ids', hids', hmem⟩ := ih h (ids.insert id)
    refine ⟨ids', ?_, fun tid => ?_⟩
    · rw [List.map_cons, List.foldlM_cons, readThreadId_toDigits hid]
      exact hids'
    · rw [hmem, ExtTreeSet.mem_insert, Std.compare_eq_iff_eq, List.exists_mem_cons_iff]
      tauto

/-- **The tasks are read.** -/
theorem readTasks_names (vmId : VmId) (dir : TaskDir) :
    ∃ ids, readTasks vmId (some dir.names) = .ok ids ∧
      ∀ tid, tid ∈ ids ↔ ∃ id ∈ dir.ids, (id : Int) = tid := by
  obtain ⟨ids, hids, hmem⟩ := foldlM_readThreadId dir.le_max ∅
  refine ⟨ids, ?_, fun tid => ?_⟩
  · rw [readTasks, StrTools.getDirs, if_pos (Or.inl rfl)]
    simp only [dir.numbers]
    exact hids
  · rw [hmem]
    simp

/-- What is left of the tasks of a VM that is listed, or not. -/
structure Volatile (dir : TaskDir) (d : VmData) (vmId : VmId) (tids : ExtTreeSet Int) : Prop where
  listed : vmId ∈ d.vmIds.keys → ∀ tid, tid ∈ tids ↔
    (∃ id ∈ dir.ids, (id : Int) = tid) ∧ tid ≠ vmId.pid ∧ tid ∉ d.getVcpuIds vmId
  unlisted : (∀ v ∈ d.vmIds.keys, ¬ eqv v vmId) → tids = ∅

/-- A VM that is listed has a stable thread, the main one. -/
theorem volatile_volatileOf {d : VmData} (h : Threaded d.vmIds.keys d) {dir : TaskDir}
    {vmId : VmId} {ids : ExtTreeSet Int}
    (hids : ∀ tid, tid ∈ ids ↔ ∃ id ∈ dir.ids, (id : Int) = tid) :
    Volatile dir d vmId (volatileOf ids (d.getStableVmthreadIds vmId)) := by
  refine ⟨fun hlisted tid => ?_, fun hunlisted => ?_⟩
  · have hmem (tid : Int) : tid ∈ d.getStableVmthreadIds vmId ↔
        tid = vmId.pid ∨ tid ∈ d.getVcpuIds vmId := by
      rw [h.stable_eq vmId hlisted, ExtTreeSet.mem_insert, Std.compare_eq_iff_eq, eq_comm]
    have hsize : ¬ (d.getStableVmthreadIds vmId).size = 0 := by
      intro hzero
      rw [← ExtTreeSet.eq_empty_iff_size_eq_zero] at hzero
      have hpid := (hmem vmId.pid).2 (Or.inl rfl)
      rw [hzero] at hpid
      exact ExtTreeSet.not_mem_empty hpid
    rw [volatileOf, if_neg hsize, ExtTreeSet.mem_diff_iff, hids, hmem, not_or]
  · have hnone : d.stableVmthreadIds.find vmId = none := by
      rw [find_eq_none_iff, contains_eq_false]
      exact fun v hv => hunlisted v ((h.stable_keys v).1 hv)
    rw [VmData.getStableVmthreadIds, getDataByVmId, hnone]
    exact if_pos rfl

end VmBase

/-! ## Runs -/

namespace VmBaseThread

open VmBase

/-- The getter returns: its refresh can read what it has to, or the thread has. -/
def Answers (t : VmBaseThread) (host : VmHost) : Prop :=
  if t.joinable then t.base.hasData = true else host.Readable t.base.vmCmd

/-- **The volatile threads** in every state with data that a run reaches, and trees hold the
maps. -/
theorem volatile_threads {ops : List Op} (hsafe : Runs.Along step Safe {} ops)
    (hrun : (Runs.run step {} ops).terminated = false) {host : VmHost}
    (hanswers : (Runs.run step {} ops).Answers host) (vmId : VmId) (dir : TaskDir)
    (hlawful : Runs.Along step (Lawful {vmId}) {} (ops ++ [.get host])) :
    ∃ t tids,
      (Runs.run step {} ops).getVolatileVmthreadIds vmId (some dir.names) host = (t, .ok tids) ∧
        Volatile dir t.base.data vmId tids ∧ t.base.data.Held {vmId} := by
  have hsound : Sound (Runs.run step {} ops) := sound_run hsafe ops (List.prefix_refl ops)
  obtain ⟨hbefore, hlast, -⟩ := (Runs.along_append step).1 hlawful
  have hheld := held_run hbefore ops (List.prefix_refl ops)
  generalize Runs.run step {} ops = t at *
  obtain ⟨ids, hids, hmem⟩ := readTasks_names vmId dir
  rw [Answers] at hanswers
  rw [getVolatileVmthreadIds, hids]
  by_cases hjoinable : t.joinable = true
  · rw [if_pos hjoinable] at hanswers
    have hconsistent := hsound hrun hanswers
    simp only [if_pos hjoinable]
    exact ⟨_, _, rfl, volatile_volatileOf hconsistent.toThreaded hmem, hheld⟩
  · rw [if_neg hjoinable] at hanswers
    obtain ⟨s, hs⟩ := (refresh_ok_iff t.base host).2 hanswers
    have hids := hlast host ⟨hrun, .inr ⟨rfl, Bool.eq_false_iff.2 hjoinable⟩⟩
    have hheld := (held_refresh hids Set.subset_union_right hs).mono Set.subset_union_left
    simp only [if_neg hjoinable, hs]
    exact ⟨_, _, rfl, volatile_volatileOf (consistent_of_refresh hs).toThreaded hmem, hheld⟩

/-- The process `42` has two tasks. -/
def twoTasks : TaskDir where
  names := ["..".toList, "42".toList, "57".toList]
  ids := [42, 57]
  numbers := by decide
  le_max := by decide

theorem volatile_threads_twoTasks :
    ∃ t tids, (Runs.run step {} [.start, .run (oneVm (some []))]).getVolatileVmthreadIds ⟨990, 42⟩
        (some twoTasks.names) (oneVm none) = (t, .ok tids) ∧
      Volatile twoTasks t.base.data ⟨990, 42⟩ tids ∧ t.base.data.Held {⟨990, 42⟩} := by
  have hsafe : Runs.Along step Safe {} [.start, .run (oneVm (some []))] := by
    refine ⟨fun host hget => ?_, fun host hget => ?_, trivial⟩
    · cases hget
    · cases hget
  have hanswers :
      (Runs.run step {} [.start, .run (oneVm (some []))]).Answers (oneVm none) := by
    rw [Answers, if_pos (by decide +kernel)]
    decide +kernel
  have hops : ∀ op ∈ [Op.start, .run (oneVm (some [])), .get (oneVm none)],
      op.ListsIn {⟨990, 42⟩} := by
    simp only [List.forall_mem_cons]
    exact ⟨nofun, listsIn_run (oneVm_ids (some [])), listsIn_get (oneVm_ids none), nofun⟩
  exact volatile_threads hsafe (by decide +kernel) hanswers ⟨990, 42⟩ twoTasks
    (along_lawful (.singleton _) subset_rfl hops {})

end VmBaseThread

end LibVsf
