import LibVsf.Lib.Runs
import Mathlib.Order.BooleanAlgebra.Set

/-!
# Requests that wait in two queues

A set is changed by calls that start and stop members. The calls may be applied one by one, as they
are made (`applyAll`), or be kept in two queues of which first the starts and then the stops are
worked off (`deferred`); the queue of stops may hold further members by then.

**Theorem (`mem_applyAll_iff`).** Applied one by one, the last call about a member decides.

**Theorem (`deferred_eq_iff`).** The queues give the same set exactly if no member was stopped
before its last call started it, and the further stops only take members that the calls stop or
that are not in the set.
-/

namespace Watching

open Runs

variable {α : Type*}

inductive Call (α : Type*) where
  | start (a : α)
  | stop (a : α)
deriving DecidableEq, Repr

/-- The member a call is about. -/
def Call.of : Call α → α
  | .start a => a
  | .stop a => a

def apply (s : Set α) : Call α → Set α
  | .start a => insert a s
  | .stop a => s \ {a}

/-- The calls applied one by one. -/
def applyAll (s : Set α) (calls : List (Call α)) : Set α := run apply s calls

/-- The calls applied from the queues: the starts, then the stops and those of `pending`. -/
def deferred (s pending : Set α) (calls : List (Call α)) : Set α :=
  {a | (a ∈ s ∨ .start a ∈ calls) ∧ .stop a ∉ calls ∧ a ∉ pending}

/-! ## The queues -/

/-- A set with the queues of its calls. -/
@[ext] structure Queued (α : Type*) where
  watched : Set α
  starts : List α
  stops : List α

namespace Queued

def call (q : Queued α) : Call α → Queued α
  | .start a => { q with starts := q.starts ++ [a] }
  | .stop a => { q with stops := q.stops ++ [a] }

/-- The set after the queues are worked off. -/
def drain (q : Queued α) : Set α := {a | (a ∈ q.watched ∨ a ∈ q.starts) ∧ a ∉ q.stops}

@[simp] theorem drain_of_empty (s : Set α) : (⟨s, [], []⟩ : Queued α).drain = s := by
  simp [drain]

theorem run_call (q : Queued α) (calls : List (Call α)) :
    (run call q calls).watched = q.watched ∧
      (∀ a, a ∈ (run call q calls).starts ↔ a ∈ q.starts ∨ .start a ∈ calls) ∧
      ∀ a, a ∈ (run call q calls).stops ↔ a ∈ q.stops ∨ .stop a ∈ calls := by
  induction calls generalizing q with
  | nil => simp
  | cons c calls ih =>
    obtain ⟨hwatched, hstarts, hstops⟩ := ih (q.call c)
    rw [run_cons]
    cases c with
    | start b =>
      refine ⟨hwatched, fun a => ?_, fun a => ?_⟩
      · rw [hstarts]
        simp [call, or_assoc]
      · rw [hstops]
        simp [call]
    | stop b =>
      refine ⟨hwatched, fun a => ?_, fun a => ?_⟩
      · rw [hstarts]
        simp [call]
      · rw [hstops]
        simp [call, or_assoc]

/-- **What the queues give after calls**, if no start was waiting before. -/
theorem drain_run {q : Queued α} (h : q.starts = []) (calls : List (Call α)) :
    (run call q calls).drain = deferred q.watched {a | a ∈ q.stops} calls := by
  obtain ⟨hwatched, hstarts, hstops⟩ := q.run_call calls
  apply Set.ext
  intro a
  simp only [drain, deferred, Set.mem_ofPred_eq, hwatched, hstarts, hstops, h]
  simp only [List.not_mem_nil, false_or, not_or]
  tauto

end Queued

/-! ## The last call -/

section LastCall

variable [DecidableEq α]

/-- The last call about a member. -/
def lastCall (calls : List (Call α)) (a : α) : Option (Call α) :=
  (calls.filter fun call => call.of = a).getLast?

theorem lastCall_concat (calls : List (Call α)) (call : Call α) (a : α) :
    lastCall (calls ++ [call]) a = if call.of = a then some call else lastCall calls a := by
  simp only [lastCall, List.filter_append, List.filter_singleton]
  split_ifs with h <;> simp [h]

theorem lastCall_eq_none_iff {calls : List (Call α)} {a : α} :
    lastCall calls a = none ↔ .start a ∉ calls ∧ .stop a ∉ calls := by
  simp only [lastCall, List.getLast?_eq_none_iff, List.filter_eq_nil_iff, decide_eq_true_eq]
  refine ⟨?_, ?_⟩
  · intro h
    exact ⟨fun hstart => h _ hstart rfl, fun hstop => h _ hstop rfl⟩
  · intro h call hcall hof
    obtain ⟨hstart, hstop⟩ := h
    cases call with
    | start b => exact hstart (hof ▸ hcall)
    | stop b => exact hstop (hof ▸ hcall)

theorem lastCall_eq_some {calls : List (Call α)} {a : α} {call : Call α}
    (h : lastCall calls a = some call) : call ∈ calls ∧ (call = .start a ∨ call = .stop a) := by
  obtain ⟨hmem, hof⟩ := List.mem_filter.1 (List.mem_of_getLast? h)
  refine ⟨hmem, ?_⟩
  have hof : call.of = a := of_decide_eq_true hof
  cases call with
  | start b => exact Or.inl (congrArg Call.start hof)
  | stop b => exact Or.inr (congrArg Call.stop hof)

/-- The calls leave a member in the set, by the last call about it or by none. -/
def Kept (s : Set α) (calls : List (Call α)) (a : α) : Prop :=
  lastCall calls a = some (.start a) ∨ (lastCall calls a = none ∧ a ∈ s)

/-- **Applied one by one, the last call about a member decides.** -/
theorem mem_applyAll_iff (s : Set α) (calls : List (Call α)) (a : α) :
    a ∈ applyAll s calls ↔ Kept s calls a := by
  simp only [Kept]
  induction calls using List.reverseRecOn with
  | nil => simp [applyAll, lastCall]
  | append_singleton calls call ih =>
    simp only [applyAll, run_concat, lastCall_concat] at ih ⊢
    cases call with
    | start b =>
      by_cases hb : b = a
      · simp [apply, Call.of, hb]
      · have ha : a ≠ b := Ne.symm hb
        simp [apply, Call.of, hb, ha, ih]
    | stop b =>
      by_cases hb : b = a
      · simp [apply, Call.of, hb]
      · have ha : a ≠ b := Ne.symm hb
        simp [apply, Call.of, hb, ha, ih]

/-- The last call about a member starts it, after an earlier call has stopped it. -/
def Restarted (calls : List (Call α)) (a : α) : Prop :=
  lastCall calls a = some (.start a) ∧ .stop a ∈ calls

theorem deferred_subset_applyAll (s pending : Set α) (calls : List (Call α)) :
    deferred s pending calls ⊆ applyAll s calls := by
  intro a ha
  obtain ⟨hin, hstop, -⟩ := ha
  rw [mem_applyAll_iff]
  cases hlast : lastCall calls a with
  | none =>
    have hstart := (lastCall_eq_none_iff.1 hlast).1
    exact Or.inr ⟨hlast, hin.resolve_right hstart⟩
  | some call =>
    obtain ⟨hmem, rfl | rfl⟩ := lastCall_eq_some hlast
    · exact Or.inl hlast
    · exact absurd hmem hstop

/-- **The queues give what the calls give one by one exactly if no member is restarted and no
further stop takes one that the calls keep.** -/
theorem deferred_eq_iff (s pending : Set α) (calls : List (Call α)) :
    deferred s pending calls = applyAll s calls ↔
      (∀ a, ¬ Restarted calls a) ∧ ∀ a ∈ pending, ¬ Kept s calls a := by
  refine ⟨?_, ?_⟩
  · intro h
    refine ⟨fun a hre => ?_, fun a hpending hkept => ?_⟩
    · have ha : a ∈ applyAll s calls := (mem_applyAll_iff s calls a).2 (Or.inl hre.1)
      rw [← h] at ha
      exact ha.2.1 hre.2
    · have ha : a ∈ applyAll s calls := (mem_applyAll_iff s calls a).2 hkept
      rw [← h] at ha
      exact ha.2.2 hpending
  · intro h
    obtain ⟨hre, hpending⟩ := h
    apply Set.Subset.antisymm (deferred_subset_applyAll s pending calls)
    intro a ha
    have hkept := (mem_applyAll_iff s calls a).1 ha
    refine ⟨?_, ?_, fun hmem => hpending a hmem hkept⟩
    · obtain hstart | ⟨-, hs⟩ := hkept
      · exact Or.inr (lastCall_eq_some hstart).1
      · exact Or.inl hs
    · intro hstop
      obtain hstart | ⟨hnone, -⟩ := hkept
      · exact hre a ⟨hstart, hstop⟩
      · exact (lastCall_eq_none_iff.1 hnone).2 hstop

end LastCall

end Watching
