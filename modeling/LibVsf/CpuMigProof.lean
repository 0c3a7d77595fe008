import LibVsf.CpuMig
import LibVsf.Lib.Runs
import LibVsf.Lib.Since

/-!
# `CpuMig`: which requests are applied exactly

`CPU_SET` writes the CPUs below 1024 and drops the others, whatever the size of the mask. On a
machine with fewer CPUs a requested number that the machine does not have is set in the mask or
beyond it; on a larger one a CPU from 1024 on is left out.

`Migrated` says what the loop over the queue leaves: one call for each thread, with a mask of its
own, since the mask is zeroed before each.

**Theorem (`executed_exactly_iff`).** An execution after any history applies exactly the last
requests, within the memory it has allocated, if and only if every requested number is of a CPU of
the machine and below 1024, or neither.
-/

namespace LibVsf

open Std Runs

/-! ## Setting CPUs -/

namespace CpuMask

/-- The CPUs the macro can name. -/
def setSize : Nat := 1024

/-- The macro writes beyond a mask of this many words. -/
def Beyond (length : Nat) (c : Nat) : Prop := c < setSize ∧ length ≤ c / 64

theorem cpuSet_natCast (mask : CpuMask) (c : Nat) : mask.cpuSet c =
    if c < setSize then
      if c / 64 < mask.words.length then { mask with words := BitWords.setBit c mask.words }
      else { mask with beyond := mask.beyond ++ [c / 64] }
    else mask := by
  have hguard : (0 ≤ (c : Int) ∧ c / 8 < 128) ↔ c < setSize := by
    rw [setSize]
    omega
  simp only [cpuSet, Int.toNat_natCast, hguard]

theorem cpuSet_negative (mask : CpuMask) {cpu : Int} (h : cpu < 0) : mask.cpuSet cpu = mask :=
  if_neg fun hguard => by omega

/-- A number is a CPU, or negative. -/
theorem cpu_cases (cpu : Int) : cpu < 0 ∨ ∃ c : Nat, cpu = c := by
  rcases Int.lt_or_le cpu 0 with h | h
  · exact Or.inl h
  · exact Or.inr (Int.eq_ofNat_of_zero_le h)

theorem length_cpuSet (mask : CpuMask) (cpu : Int) :
    (mask.cpuSet cpu).words.length = mask.words.length := by
  unfold cpuSet
  split_ifs
  · exact BitWords.length_setBit _ _
  · rfl
  · rfl

theorem mem_cpuSet (mask : CpuMask) (cpu : Int) (b : Nat) :
    BitWords.Mem b (mask.cpuSet cpu).words ↔
      (cpu = b ∧ b < setSize ∧ b / 64 < mask.words.length) ∨ BitWords.Mem b mask.words := by
  rcases cpu_cases cpu with hneg | ⟨c, rfl⟩
  · rw [cpuSet_negative mask hneg, or_iff_right]
    omega
  · rw [cpuSet_natCast]
    split_ifs with hsize hword
    · rw [BitWords.mem_setBit hword]
      refine or_congr_left ?_
      omega
    · rw [or_iff_right]
      omega
    · rw [or_iff_right]
      omega

theorem beyond_cpuSet (mask : CpuMask) (cpu : Int) : (mask.cpuSet cpu).beyond = [] ↔
    mask.beyond = [] ∧ ∀ c : Nat, cpu = c → ¬ Beyond mask.words.length c := by
  rcases cpu_cases cpu with hneg | ⟨c, rfl⟩
  · rw [cpuSet_negative mask hneg]
    refine (and_iff_left fun c hc => ?_).symm
    omega
  · rw [cpuSet_natCast]
    simp only [Beyond, Int.natCast_inj, forall_eq']
    split_ifs with hsize hword
    · simp only [hsize, true_and, Nat.not_le]
      exact (and_iff_left hword).symm
    · simp [hsize, hword]
    · simp [hsize]

/-- **The loop over the CPUs of a thread.** -/
theorem cpuSets (cpus : List Int) (mask : CpuMask) :
    (cpus.foldl cpuSet mask).words.length = mask.words.length ∧
      (∀ b, BitWords.Mem b (cpus.foldl cpuSet mask).words ↔
        ((b : Int) ∈ cpus ∧ b < setSize ∧ b / 64 < mask.words.length) ∨
          BitWords.Mem b mask.words) ∧
      ((cpus.foldl cpuSet mask).beyond = [] ↔ mask.beyond = [] ∧
        ∀ c : Nat, (c : Int) ∈ cpus → ¬ Beyond mask.words.length c) := by
  induction cpus generalizing mask with
  | nil => simp
  | cons cpu cpus ih =>
    obtain ⟨hlength, hmem, hbeyond⟩ := ih (mask.cpuSet cpu)
    rw [length_cpuSet] at hlength hbeyond
    refine ⟨hlength, fun b => ?_, ?_⟩
    · rw [List.foldl_cons, hmem b, mem_cpuSet, length_cpuSet, List.mem_cons]
      tauto
    · rw [List.foldl_cons, hbeyond, beyond_cpuSet, and_assoc]
      refine and_congr_right fun _ => ?_
      simp only [List.mem_cons, or_imp, forall_and, eq_comm (a := cpu)]

end CpuMask

namespace CpuMig

open CpuMask

/-! ## The queue -/

/-- The thread and the CPUs that an operation requests. -/
def Op.request? : Op → Option (Int × CpuIds)
  | .setCpuMig pid cpuIds => some (pid, cpuIds)
  | .setVcpuMig vmthreadId hpthreadIds => some (vmthreadId, idsOf hpthreadIds)
  | .execCpuMig _ => none

/-- An execution that gets its mask. -/
def Op.Executes : Op → Prop
  | .execCpuMig (some _) => True
  | _ => False

/-- Since the last execution the CPUs are the last that were requested for the thread. -/
def Requested (ops : List Op) (pid : Int) (cpuIds : CpuIds) : Prop :=
  Events.Since (fun _ op => op.request? = some (pid, cpuIds))
    (fun op => op.request?.map Prod.fst = some pid ∨ op.Executes) ops

theorem cpuNum_run (cpuNum : Nat) (ops : List Op) :
    (run step { cpuNum := cpuNum } ops).cpuNum = cpuNum := by
  refine run_invariant step (I := fun s => s.cpuNum = cpuNum) rfl (fun s op hs => ?_) ops
  cases op with
  | execCpuMig alloc => cases alloc <;> exact hs
  | _ => exact hs

theorem step_getElem? (s : CpuMig) (op : Op) (pid : Int) (cpuIds : CpuIds) :
    (s.step op).cpuMigs[pid]? = some cpuIds ↔ op.request? = some (pid, cpuIds) ∨
      (s.cpuMigs[pid]? = some cpuIds ∧
        ¬ (op.request?.map Prod.fst = some pid ∨ op.Executes)) := by
  have hinsert (pid' : Int) (cpuIds' : CpuIds) :
      (s.cpuMigs.insert pid' cpuIds')[pid]? = some cpuIds ↔
        some (pid', cpuIds') = some (pid, cpuIds) ∨
          (s.cpuMigs[pid]? = some cpuIds ∧ ¬ (some pid' = some pid ∨ False)) := by
    rw [ExtTreeMap.getElem?_insert]
    by_cases hpid : pid' = pid
    · simp [hpid]
    · simp [hpid]
  cases op with
  | setCpuMig pid' cpuIds' => exact hinsert pid' cpuIds'
  | setVcpuMig vmthreadId hpthreadIds => exact hinsert vmthreadId (idsOf hpthreadIds)
  | execCpuMig alloc =>
    cases alloc with
    | none =>
      show s.cpuMigs[pid]? = some cpuIds ↔ _
      simp [Op.request?, Op.Executes]
    | some content =>
      show (∅ : MapOfSets Int Int)[pid]? = some cpuIds ↔ _
      simp [Op.request?, Op.Executes]

/-- **The queue holds the last requests since the last execution.** -/
theorem queue_run (cpuNum : Nat) (ops : List Op) (pid : Int) (cpuIds : CpuIds) :
    (run step { cpuNum := cpuNum } ops).cpuMigs[pid]? = some cpuIds ↔
      Requested ops pid cpuIds := by
  induction ops using List.reverseRecOn with
  | nil =>
    refine iff_of_false ?_ Events.not_since_nil
    simp
  | append_singleton ops op ih =>
    rw [run_concat, step_getElem?, ih]
    simp only [Requested]
    rw [Events.since_concat]

/-! ## The loop over the queue -/

/-- What the loop over the queue leaves, with a mask of `length` words. -/
structure Migrated (length : Nat) (queue : List (Int × CpuIds)) (m : Migration) :
    Prop where
  length_words : m.mask.words.length = length
  pids : m.calls.map SetAffinity.pid = queue.map Prod.fst
  masks : ∀ call ∈ m.calls, ∃ cpuIds, (call.pid, cpuIds) ∈ queue ∧
    call.mask.length = length ∧ ∀ c : Nat, BitWords.Mem c call.mask ↔
      (c : Int) ∈ cpuIds ∧ c < setSize ∧ c / 64 < length
  beyond : m.mask.beyond = [] ↔ ∀ cpuMig ∈ queue, ∀ c : Nat, (c : Int) ∈ cpuMig.2 →
    ¬ Beyond length c

theorem migrated_migrate {size : Nat} {queue : List (Int × CpuIds)} {m : Migration}
    (h : Migrated (size / 8) queue m) (cpuMig : Int × CpuIds) :
    Migrated (size / 8) (queue ++ [cpuMig]) (migrate size m cpuMig) := by
  obtain ⟨pid, cpuIds⟩ := cpuMig
  have hzero : m.mask.cpuZeroS size = ⟨BitWords.zeros (size / 8), m.mask.beyond⟩ := by
    simp only [cpuZeroS]
    rw [List.drop_eq_nil_of_le h.length_words.le, List.append_nil]
  obtain ⟨hlength, hmem, hbeyond⟩ :=
    cpuSets cpuIds.toList ⟨BitWords.zeros (size / 8), m.mask.beyond⟩
  simp only [BitWords.length_zeros, BitWords.mem_zeros, or_false] at hlength hmem hbeyond
  simp only [ExtTreeSet.mem_toList] at hmem hbeyond
  have hstep : migrate size m (pid, cpuIds) = ⟨cpuIds.toList.foldl cpuSet
      ⟨BitWords.zeros (size / 8), m.mask.beyond⟩, m.calls ++ [⟨pid, (cpuIds.toList.foldl cpuSet
        ⟨BitWords.zeros (size / 8), m.mask.beyond⟩).words⟩]⟩ := by
    simp only [migrate]
    rw [ExtTreeSet.foldl_eq_foldl_toList, hzero, List.take_of_length_le hlength.le]
  rw [hstep]
  refine ⟨hlength, ?_, fun call hcall => ?_, ?_⟩
  · rw [List.map_append, List.map_append, h.pids]
    rfl
  · rcases List.mem_append.1 hcall with hcall | hcall
    · obtain ⟨cpuIds', hqueue, hrest⟩ := h.masks call hcall
      exact ⟨cpuIds', List.mem_append_left _ hqueue, hrest⟩
    · obtain rfl := List.mem_singleton.1 hcall
      exact ⟨cpuIds, List.mem_append_right _ (List.mem_singleton_self _), hlength, hmem⟩
  · rw [hbeyond, h.beyond]
    simp only [List.mem_append, List.mem_singleton, or_imp, forall_and, forall_eq]

theorem migrated (size : Nat) (queue : List (Int × CpuIds)) (content : Nat → BitVec 64) :
    Migrated (size / 8) queue (queue.foldl (migrate size)
      { mask := { words := (List.range (size / 8)).map content } }) := by
  induction queue using List.reverseRecOn with
  | nil => exact ⟨by simp, rfl, by simp, by simp⟩
  | append_singleton queue cpuMig ih =>
    rw [List.foldl_concat]
    exact migrated_migrate ih cpuMig

/-! ## An execution -/

/-- The calls of an execution after the operations `ops` apply their requests, and the mask stays
within its memory. -/
structure Applies (cpuNum : Nat) (ops : List Op) (m : Migration) : Prop where
  once : (m.calls.map SetAffinity.pid).Nodup
  pids : ∀ pid, pid ∈ m.calls.map SetAffinity.pid ↔ ∃ cpuIds, Requested ops pid cpuIds
  masks : ∀ call ∈ m.calls, ∀ cpuIds, Requested ops call.pid cpuIds →
    call.mask.length * 8 = cpuAllocSize cpuNum ∧
      ∀ c : Nat, BitWords.Mem c call.mask ↔ (c : Int) ∈ cpuIds ∧ c < cpuNum
  inBounds : m.mask.beyond = []

/-- An execution after the operations `ops` applies their requests and empties the queue; without a
mask it leaves the queue. -/
def ExecutedExactly (cpuNum : Nat) (ops : List Op) : Option (Nat → BitVec 64) → Prop
  | none => ∃ failure, (run step { cpuNum := cpuNum } ops).execCpuMig none =
      .error (failure, run step { cpuNum := cpuNum } ops)
  | some content => ∃ s m, (run step { cpuNum := cpuNum } ops).execCpuMig (some content) =
      .ok (s, m) ∧ Applies cpuNum ops m ∧ s.cpuMigs = ∅

/-- The requested CPUs are CPUs of the machine that the macro can name, or neither. -/
def Nameable (cpuNum : Nat) (ops : List Op) : Prop :=
  ∀ pid cpuIds, Requested ops pid cpuIds → ∀ c : Nat, (c : Int) ∈ cpuIds →
    (c < cpuNum ↔ c < setSize)

theorem applies_iff {cpuNum : Nat} {ops : List Op} {m : Migration}
    (h : Migrated (cpuAllocSize cpuNum / 8)
      (run step { cpuNum := cpuNum } ops).cpuMigs.toList m) :
    Applies cpuNum ops m ↔ Nameable cpuNum ops := by
  have hsize : cpuAllocSize cpuNum / 8 = (cpuNum + 63) / 64 := Nat.mul_div_cancel _ (by decide)
  have hqueue (pid : Int) (cpuIds : CpuIds) :
      (pid, cpuIds) ∈ (run step { cpuNum := cpuNum } ops).cpuMigs.toList ↔
        Requested ops pid cpuIds := by
    rw [ExtTreeMap.mem_toList_iff_getElem?_eq_some, queue_run]
  have hpids (pid : Int) : pid ∈ m.calls.map SetAffinity.pid ↔
      ∃ cpuIds, Requested ops pid cpuIds := by
    rw [h.pids, List.mem_map]
    simp only [Prod.exists, exists_and_right, exists_eq_right, hqueue]
  -- One call for each thread: its mask is that of the thread's request.
  have hmask {call : SetAffinity} (hcall : call ∈ m.calls) {cpuIds : CpuIds}
      (hreq : Requested ops call.pid cpuIds) (c : Nat) : BitWords.Mem c call.mask ↔
        (c : Int) ∈ cpuIds ∧ c < setSize ∧ c / 64 < (cpuNum + 63) / 64 := by
    obtain ⟨cpuIds', hmem, -, hbits⟩ := h.masks call hcall
    have hsame : cpuIds' = cpuIds := by
      rw [hqueue, ← queue_run cpuNum] at hmem
      rw [← queue_run cpuNum] at hreq
      exact Option.some.inj (hmem.symm.trans hreq)
    rw [hbits c, hsame, hsize]
  refine ⟨?_, ?_⟩
  · intro happ pid cpuIds hreq c hc
    obtain ⟨call, hcall, rfl⟩ := List.mem_map.1 ((hpids pid).2 ⟨cpuIds, hreq⟩)
    obtain ⟨-, hbits⟩ := happ.masks call hcall cpuIds hreq
    have hiff := (hbits c).symm.trans (hmask hcall hreq c)
    have hin := h.beyond.1 happ.inBounds (call.pid, cpuIds) ((hqueue _ _).2 hreq) c hc
    simp only [Beyond, hsize] at hin
    refine ⟨?_, ?_⟩
    · intro hlt
      exact (hiff.1 ⟨hc, hlt⟩).2.1
    · intro hlt
      exact (hiff.2 ⟨hc, hlt, by omega⟩).2
  · intro hname
    refine ⟨?_, hpids, fun call hcall cpuIds hreq => ⟨?_, fun c => ?_⟩, ?_⟩
    · rw [h.pids]
      exact (ExtTreeMap.map_fst_toList_eq_keys (t := (run step _ ops).cpuMigs)).symm ▸
        ExtTreeMap.nodup_keys
    · obtain ⟨-, -, hlength, -⟩ := h.masks call hcall
      rw [hlength, hsize]
      rfl
    · rw [hmask hcall hreq c]
      refine and_congr_right fun hc => ?_
      rw [hname _ _ hreq c hc, and_iff_left_iff_imp]
      intro hlt
      have hcpu := (hname _ _ hreq c hc).2 hlt
      omega
    · refine h.beyond.2 fun cpuMig hcpuMig c hc hbeyond => ?_
      obtain ⟨hlt, hle⟩ := hbeyond
      have hcpu := (hname cpuMig.1 cpuMig.2 ((hqueue _ _).1 hcpuMig) c hc).2 hlt
      omega

/-- **Exactly the requests of CPUs that the machine has and the macro can name, or neither, are
applied exactly.** -/
theorem executed_exactly_iff (cpuNum : Nat) (ops : List Op)
    (alloc : Option (Nat → BitVec 64)) :
    ExecutedExactly cpuNum ops alloc ↔ (alloc.isSome → Nameable cpuNum ops) := by
  cases alloc with
  | none =>
    refine iff_of_true ⟨_, rfl⟩ fun h => ?_
    cases h
  | some content =>
    have hmigrated := migrated (cpuAllocSize cpuNum)
      (run step { cpuNum := cpuNum } ops).cpuMigs.toList content
    have hexec : (run step { cpuNum := cpuNum } ops).execCpuMig (some content) =
        .ok (⟨∅, cpuNum⟩, (run step { cpuNum := cpuNum } ops).cpuMigs.toList.foldl
          (migrate (cpuAllocSize cpuNum)) { mask :=
            { words := (List.range (cpuAllocSize cpuNum / 8)).map content } }) := by
      simp only [execCpuMig, cpuNum_run]
    simp only [Option.isSome_some, forall_const]
    rw [← applies_iff hmigrated]
    simp only [ExecutedExactly]
    rw [hexec]
    refine ⟨?_, ?_⟩
    · intro h
      obtain ⟨s, m, heq, happ, -⟩ := h
      obtain ⟨-, rfl⟩ := Prod.mk.inj (Except.ok.inj heq)
      exact happ
    · intro happ
      exact ⟨_, _, rfl, happ, rfl⟩

/-- A thread is to run on CPU 100 of a machine with four: its bit is written beyond the one word
that was allocated. -/
theorem not_executed_exactly_beyond :
    ¬ ExecutedExactly 4 [.setCpuMig 7 (.ofList [(0 : Int), 100])] (some fun _ => 0) := by
  intro h
  obtain ⟨s, m, hexec, happ, -⟩ := h
  have hbeyond : ((run step { cpuNum := 4 } [.setCpuMig 7 (.ofList [(0 : Int), 100])]).execCpuMig
      (some fun _ => 0)).toOption.map (fun r => r.2.mask.beyond) = some [1] := by
    decide +kernel
  rw [hexec] at hbeyond
  exact absurd (happ.inBounds.symm.trans (Option.some.inj hbeyond)) (by decide)

end CpuMig

end LibVsf
