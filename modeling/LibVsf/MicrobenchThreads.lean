import LibVsf.Lib.Decimals
import LibVsf.Microbench

/-!
# `microbench`: its threads

`main` binds each thread to a cpu before it starts it, and prints the time of each after they have
all been joined. A cpu is taken as often as `--binding` says, and the first one that is left is
taken next.

**Theorem (`bindingCpuIds_eq`).** The threads take the cpus in order, each as often as it was
asked for, and the threads that are left over are not bound.
-/

namespace LibVsf

namespace Microbench

/-! ## Bindings -/

/-- The variables of the loop over the threads. -/
structure Bindings where
  cpuBindings : Nat → Nat
  findCpuBindings : Bool := true
  /-- `binding_cpu_id` of the threads so far; none for -1. -/
  bindingCpuIds : List (Option Nat) := []

/-- The loop over `cpu_bindings`. -/
def findCpu (cpuBindings : Nat → Nat) : Option Nat :=
  (List.range maxCpus).find? fun j => 0 < cpuBindings j

/-- One more thread. -/
def Bindings.next (b : Bindings) : Bindings :=
  if b.findCpuBindings then
    match findCpu b.cpuBindings with
    | some j =>
      { b with
        cpuBindings := Function.update b.cpuBindings j (b.cpuBindings j - 1)
        bindingCpuIds := b.bindingCpuIds ++ [some j] }
    | none => { b with findCpuBindings := false, bindingCpuIds := b.bindingCpuIds ++ [none] }
  else { b with bindingCpuIds := b.bindingCpuIds ++ [none] }

def bindingsAfter (cpuBindings : Nat → Nat) (threads : Nat) : Bindings :=
  Bindings.next^[threads] { cpuBindings := cpuBindings }

/-- `binding_cpu_id` of the threads. -/
def bindingCpuIds (s : Settings) : List (Option Nat) :=
  (bindingsAfter s.cpuBindings s.threadNum).bindingCpuIds

/-- The cpus that `--binding` asks for, in order, each as often as it says. -/
def slots (cpuBindings : Nat → Nat) : List Nat :=
  (List.range maxCpus).flatMap fun j => List.replicate (cpuBindings j) j

/-- A cpu without bindings has no slots. -/
theorem flatMap_replicate_eq_nil {cpuBindings : Nat → Nat} {cpus : List Nat}
    (h : ∀ j ∈ cpus, cpuBindings j = 0) :
    (cpus.flatMap fun j => List.replicate (cpuBindings j) j) = [] := by
  rw [List.flatMap_eq_nil_iff]
  intro j hj
  rw [h j hj]
  rfl

theorem slots_eq_nil {cpuBindings : Nat → Nat} (h : findCpu cpuBindings = none) :
    slots cpuBindings = [] := by
  refine flatMap_replicate_eq_nil fun j hj => ?_
  have hnot := List.find?_eq_none.1 h j hj
  simpa using hnot

/-- **The cpu that is found has the first slot**, and it is used up. -/
theorem slots_eq_cons {cpuBindings : Nat → Nat} {j : Nat} (h : findCpu cpuBindings = some j) :
    slots cpuBindings =
      j :: slots (Function.update cpuBindings j (cpuBindings j - 1)) := by
  obtain ⟨hpos, before, behind, hcpus, hbefore⟩ := List.find?_eq_some_iff_append.1 h
  have hpos : 0 < cpuBindings j := of_decide_eq_true hpos
  have hnodup : (before ++ j :: behind).Nodup := hcpus ▸ List.nodup_range
  obtain ⟨-, hbehind, hapart⟩ := List.nodup_append'.1 hnodup
  have hbehind : j ∉ behind := (List.nodup_cons.1 hbehind).1
  have hnone : ∀ i ∈ before, cpuBindings i = 0 := by
    intro i hi
    simpa using hbefore i hi
  have hnone' : ∀ i ∈ before, Function.update cpuBindings j (cpuBindings j - 1) i = 0 := by
    intro i hi
    have hne : i ≠ j := fun heq => hapart hi (heq ▸ List.mem_cons_self)
    rw [Function.update_of_ne hne]
    exact hnone i hi
  have hrest : (behind.flatMap fun i =>
        List.replicate (Function.update cpuBindings j (cpuBindings j - 1) i) i) =
      behind.flatMap fun i => List.replicate (cpuBindings i) i := by
    refine List.flatMap_congr fun i hi => ?_
    have hne : i ≠ j := fun heq => hbehind (heq ▸ hi)
    rw [Function.update_of_ne hne]
  obtain ⟨n, hn⟩ := Nat.exists_eq_add_one_of_ne_zero (Nat.pos_iff_ne_zero.1 hpos)
  rw [slots, slots, hcpus, List.flatMap_append, List.flatMap_append,
    flatMap_replicate_eq_nil hnone, flatMap_replicate_eq_nil hnone', List.flatMap_cons,
    List.flatMap_cons, hrest, Function.update_self, hn, Nat.add_sub_cancel]
  rfl

/-- The threads that have been bound hold the first slots, and the rest of them are left. -/
structure Bindings.Ok (cpus : List Nat) (threads : Nat) (b : Bindings) : Prop where
  left : slots b.cpuBindings = cpus.drop threads
  found : b.findCpuBindings = false → slots b.cpuBindings = []
  bound : b.bindingCpuIds =
    (cpus.take threads).map some ++ List.replicate (threads - cpus.length) none

theorem Bindings.Ok.next {cpus : List Nat} {threads : Nat} {b : Bindings}
    (h : b.Ok cpus threads) : b.next.Ok cpus (threads + 1) := by
  obtain ⟨hleft, hfound, hbound⟩ := h
  -- without a slot, this thread and those after it are not bound
  have hnone (hnil : slots b.cpuBindings = []) (found : Bool) :
      Bindings.Ok cpus (threads + 1) { b with
        findCpuBindings := found
        bindingCpuIds := b.bindingCpuIds ++ [none] } := by
    have hle : cpus.length ≤ threads := List.drop_eq_nil_iff.1 (hleft.symm.trans hnil)
    refine ⟨?_, fun _ => hnil, ?_⟩
    · rw [hnil, List.drop_eq_nil_of_le (Nat.le_succ_of_le hle)]
    · show b.bindingCpuIds ++ [none] = _
      rw [hbound, List.take_of_length_le hle, List.take_of_length_le (Nat.le_succ_of_le hle),
        Nat.succ_sub hle, List.replicate_succ', List.append_assoc]
  by_cases hsearch : b.findCpuBindings = true
  · rw [Bindings.next, if_pos hsearch]
    rcases Option.eq_none_or_eq_some (findCpu b.cpuBindings) with hcpu | ⟨j, hcpu⟩
    · rw [hcpu]
      exact hnone (slots_eq_nil hcpu) false
    · rw [hcpu]
      have hslots := slots_eq_cons hcpu
      rw [hleft] at hslots
      have hlt : threads < cpus.length := by
        by_contra hle
        rw [List.drop_eq_nil_of_le (Nat.not_lt.1 hle)] at hslots
        cases hslots
      rw [List.drop_eq_getElem_cons hlt] at hslots
      obtain ⟨hj, hrest⟩ := List.cons.inj hslots
      refine ⟨hrest.symm, fun hfalse => ?_, ?_⟩
      · rw [hsearch] at hfalse
        cases hfalse
      · show b.bindingCpuIds ++ [some j] = _
        rw [hbound, Nat.sub_eq_zero_of_le hlt.le, Nat.sub_eq_zero_of_le hlt,
          List.take_succ_eq_append_getElem hlt, hj]
        simp
  · rw [Bindings.next, if_neg hsearch]
    exact hnone (hfound (Bool.eq_false_of_not_eq_true hsearch)) b.findCpuBindings

theorem bindingsAfter_ok (cpuBindings : Nat → Nat) (threads : Nat) :
    (bindingsAfter cpuBindings threads).Ok (slots cpuBindings) threads := by
  induction threads with
  | zero =>
    refine ⟨rfl, fun hfalse => ?_, ?_⟩
    · cases hfalse
    · rw [List.take_zero, Nat.zero_sub]
      rfl
  | succ threads ih =>
    rw [bindingsAfter, Function.iterate_succ_apply']
    exact ih.next

/-- **Threads are bound in the order of the cpus**, to each as often as it was asked for. Those that
are left over are not bound. -/
theorem bindingCpuIds_eq (s : Settings) : bindingCpuIds s =
    ((slots s.cpuBindings).take s.threadNum).map some ++
      List.replicate (s.threadNum - (slots s.cpuBindings).length) none :=
  (bindingsAfter_ok s.cpuBindings s.threadNum).bound

structure Timeval where
  tvSec : Int
  tvUsec : Int
deriving DecidableEq, Repr

def getTimevalInUsec (startTime endTime : Timeval) : Nat :=
  uint64 (1000000 * (endTime.tvSec - startTime.tvSec) + (endTime.tvUsec - startTime.tvUsec))

/-- `%lf` of `usec*1.0 / SEC_PER_USEC`. -/
def parseTime (usec : Nat) : List Char :=
  Decimals.fixed 6 (Doubles.round (Doubles.round usec / 1000000))

/-- The line of a thread. -/
def threadLine (totalTime : Nat) (bindingCpuId : Option Nat) : List Char :=
  parseTime totalTime ++ ' ' ::
    bindingCpuId.elim [] fun cpu => "running at cpu ".toList ++ Nat.toDigits 10 cpu

/-- `total_time` of the threads, from when they start and end. -/
def totalTimes (s : Settings) (clock : Nat → Timeval × Timeval) : List Nat :=
  (List.range s.threadNum).map fun i => getTimevalInUsec (clock i).1 (clock i).2

/-- What `main` prints, if all threads do their work. -/
def output (s : Settings) (clock : Nat → Timeval × Timeval) : List Char :=
  if s.workingSetSize = 0 then []
  else Text.unlines (List.zipWith threadLine (totalTimes s clock) (bindingCpuIds s))

end Microbench

end LibVsf
