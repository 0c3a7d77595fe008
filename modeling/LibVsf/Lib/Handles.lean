import LibVsf.Lib.Runs
import Mathlib.Data.List.TakeWhile
import Mathlib.Data.Multiset.AddSub
import Mathlib.Data.Multiset.UnionInter

/-!
# Handles that are acquired and released

A log of acquisitions and releases of handles of any type. The operating system may give a handle
again after it was released, so a log is read from its start: `held` is what is held after it.

* `Fresh`: no handle is acquired while it is held. It is what the system that gives the handles
  promises.
* `Proper`: no handle is released unless it is held. It is what the program has to keep to.
* `Turns hs log hs'`: from the handles `hs` the log releases only what is held and leaves `hs'`.
* `Uses hs log hs'`: so it does, in a log where handles are also used while they are held.

**Theorem (`released_once`).** In a fresh and proper log every acquisition whose handle is not held
at the end is followed by exactly one release of the handle before it is acquired again, and one
whose handle is still held by none.
-/

namespace Handles

open Runs

variable {η : Type*} [DecidableEq η]

inductive Event (η : Type*) where
  | acquired (h : η)
  | released (h : η)
deriving DecidableEq, Repr

/-- What an event makes of the handles held. -/
def hold (hs : Multiset η) : Event η → Multiset η
  | .acquired h => h ::ₘ hs
  | .released h => hs.erase h

/-- The handles held after a log. -/
def held (log : List (Event η)) : Multiset η := run hold 0 log

/-- A handle that is acquired is not held. -/
def GivesNew (hs : Multiset η) : Event η → Prop
  | .acquired h => h ∉ hs
  | .released _ => True

/-- A handle that is released is held. -/
def TakesHeld (hs : Multiset η) : Event η → Prop
  | .acquired _ => True
  | .released h => h ∈ hs

instance (hs : Multiset η) : DecidablePred (GivesNew hs)
  | .acquired h => inferInstanceAs (Decidable (h ∉ hs))
  | .released _ => inferInstanceAs (Decidable True)

instance (hs : Multiset η) : DecidablePred (TakesHeld hs)
  | .acquired _ => inferInstanceAs (Decidable True)
  | .released h => inferInstanceAs (Decidable (h ∈ hs))

def Fresh (log : List (Event η)) : Prop := Along hold GivesNew 0 log

instance (log : List (Event η)) : Decidable (Fresh log) :=
  inferInstanceAs (Decidable (Along hold GivesNew 0 log))

def Proper (log : List (Event η)) : Prop := Along hold TakesHeld 0 log

/-! ## What a piece of a log does -/

/-- From `hs` the log is proper and leaves `hs'`. -/
structure Turns (hs : Multiset η) (log : List (Event η)) (hs' : Multiset η) : Prop where
  proper : Along hold TakesHeld hs log
  run_eq : run hold hs log = hs'

theorem turns_nil (hs : Multiset η) : Turns hs [] hs := ⟨trivial, rfl⟩

theorem Turns.append {hs hs' hs'' : Multiset η} {log log' : List (Event η)}
    (h : Turns hs log hs') (h' : Turns hs' log' hs'') : Turns hs (log ++ log') hs'' := by
  obtain ⟨hproper, rfl⟩ := h
  obtain ⟨hproper', rfl⟩ := h'
  exact ⟨(along_append hold).2 ⟨hproper, hproper'⟩, run_append hold hs log log'⟩

theorem turns_acquired (hs : Multiset η) (h : η) : Turns hs [.acquired h] (h ::ₘ hs) :=
  ⟨⟨trivial, trivial⟩, rfl⟩

/-- The handles a proper log leaves, counted: each release takes one away. -/
theorem Turns.count_add {hs hs' : Multiset η} {log : List (Event η)} (h : Turns hs log hs')
    (x : η) : hs'.count x + log.count (.released x) = hs.count x + log.count (.acquired x) := by
  induction log generalizing hs with
  | nil =>
    obtain ⟨-, rfl⟩ := h
    rfl
  | cons e log ih =>
    obtain ⟨⟨he, hproper⟩, hrun⟩ := h
    have hrest := ih ⟨hproper, hrun⟩
    cases e with
    | acquired y =>
      by_cases hy : y = x
      · subst hy
        simp [hold] at hrest ⊢
        omega
      · have hx : x ≠ y := Ne.symm hy
        simpa [hold, hy, hx] using hrest
    | released y =>
      by_cases hy : y = x
      · subst hy
        have hpos : 0 < hs.count y := Multiset.count_pos.2 he
        simp [hold] at hrest ⊢
        omega
      · have hx : x ≠ y := Ne.symm hy
        simpa [hold, hy, hx] using hrest

/-! ## Fresh logs -/

/-- No handle is held twice. -/
theorem nodup_run {hs : Multiset η} {log : List (Event η)} (h : Along hold GivesNew hs log)
    (hnodup : hs.Nodup) : (run hold hs log).Nodup := by
  induction log generalizing hs with
  | nil => exact hnodup
  | cons e log ih =>
    refine ih h.2 ?_
    cases e with
    | acquired y => exact Multiset.nodup_cons.2 ⟨h.1, hnodup⟩
    | released y => exact hnodup.erase y

theorem Fresh.nodup_held {log : List (Event η)} (h : Fresh log) : (held log).Nodup :=
  nodup_run h Multiset.nodup_zero

/-- What follows an acquisition of `h` up to the next one. -/
def tenure (h : η) (rest : List (Event η)) : List (Event η) :=
  rest.takeWhile fun e => e ≠ .acquired h

theorem count_acquired_tenure (h : η) (rest : List (Event η)) :
    (tenure h rest).count (.acquired h) = 0 := by
  refine List.count_eq_zero.2 fun hmem => ?_
  have := List.mem_takeWhile_imp hmem
  simp at this

/-- **Every handle is released exactly once for each time it was acquired, but for those that are
still held.** -/
theorem released_once {log pre rest : List (Event η)} {h : η} (hfresh : Fresh log)
    (hproper : Proper log) (hlog : log = pre ++ .acquired h :: rest) :
    (tenure h rest).count (.released h) =
      if .acquired h ∉ rest ∧ h ∈ held log then 0 else 1 := by
  subst hlog
  obtain ⟨-, hnew, hrest⟩ := (along_append hold).1 hfresh
  obtain ⟨-, -, hpost⟩ := (along_append hold).1 hproper
  have hone : (hold (held pre) (.acquired h)).count h = 1 := by
    simpa [hold, held] using Multiset.count_eq_zero.2 hnew
  have hsplit : tenure h rest ++ rest.dropWhile (fun e => e ≠ .acquired h) = rest :=
    List.takeWhile_append_dropWhile
  have hturns : Turns (hold (held pre) (.acquired h)) (tenure h rest)
      (run hold (hold (held pre) (.acquired h)) (tenure h rest)) := by
    rw [← hsplit] at hpost
    exact ⟨((along_append hold).1 hpost).1, rfl⟩
  have hcount := hturns.count_add h
  rw [hone, count_acquired_tenure] at hcount
  split_ifs with hcase
  · obtain ⟨hnone, hheld⟩ := hcase
    have hall : tenure h rest = rest := by
      refine List.takeWhile_eq_self_iff.2 fun e he => ?_
      simp only [decide_eq_true_eq]
      intro heq
      exact hnone (heq ▸ he)
    have hpos : 0 < (run hold (hold (held pre) (.acquired h)) (tenure h rest)).count h := by
      rw [hall]
      refine Multiset.count_pos.2 ?_
      simpa [held, run_append] using hheld
    omega
  · -- At the next acquisition, or at the end, the handle is not held.
    have hzero : (run hold (hold (held pre) (.acquired h)) (tenure h rest)).count h = 0 := by
      refine Multiset.count_eq_zero.2 ?_
      cases hdrop : rest.dropWhile (fun e => e ≠ .acquired h) with
      | nil =>
        rw [hdrop, List.append_nil] at hsplit
        rw [hsplit]
        intro hheld
        refine hcase ⟨?_, ?_⟩
        · rw [← hsplit]
          exact List.count_eq_zero.1 (count_acquired_tenure h rest)
        · simpa [held, run_append] using hheld
      | cons e rest' =>
        have he : e = .acquired h := by
          have hhead := List.head?_dropWhile_not (fun e => decide (e ≠ .acquired h)) rest
          rw [hdrop] at hhead
          simpa using hhead
        rw [hdrop, he] at hsplit
        rw [← hsplit] at hrest
        exact ((along_append hold).1 hrest).2.1
    omega

/-! ## Logs that release all they acquire -/

/-- Every handle that is acquired is released exactly once before it is acquired again. -/
def ReleasedOnce (log : List (Event η)) : Prop :=
  ∀ pre h rest, log = pre ++ .acquired h :: rest → (tenure h rest).count (.released h) = 1

theorem releasedOnce_nil : ReleasedOnce ([] : List (Event η)) := by
  intro pre h rest hlog
  exact absurd (congrArg List.length hlog) (by simp)

theorem releasedOnce_pair (h : η) : ReleasedOnce [.acquired h, .released h] := by
  intro pre h' rest hlog
  cases pre with
  | nil =>
    cases hlog
    simp [tenure]
  | cons e pre =>
    have hrest : [.released h] = pre ++ .acquired h' :: rest := (List.cons.inj hlog).2
    have hmem : (.acquired h' : Event η) ∈ [.released h] := by
      rw [hrest]
      simp
    simp at hmem

/-- A handle that the rest does not release. -/
theorem not_releasedOnce_of_not_mem {h : η} {rest : List (Event η)}
    (hrest : .released h ∉ rest) : ¬ ReleasedOnce (.acquired h :: rest) := by
  intro honce
  have hzero : (tenure h rest).count (.released h) = 0 := by
    refine List.count_eq_zero.2 fun hmem => hrest ?_
    exact (List.takeWhile_prefix _).subset hmem
  have hone := honce [] h rest rfl
  omega

/-! ## Uses -/

/-- A handle may also be used. -/
inductive Access (η : Type*) where
  | acquired (h : η)
  | used (h : η)
  | released (h : η)
deriving DecidableEq, Repr

namespace Access

def hold (hs : Multiset η) : Access η → Multiset η
  | .acquired h => h ::ₘ hs
  | .used _ => hs
  | .released h => hs.erase h

/-- A handle that is used or released is held. -/
def Takes (hs : Multiset η) : Access η → Prop
  | .acquired _ => True
  | .used h | .released h => h ∈ hs

def event? : Access η → Option (Event η)
  | .acquired h => some (.acquired h)
  | .used _ => none
  | .released h => some (.released h)

end Access

/-- The log without the uses. -/
def events (log : List (Access η)) : List (Event η) := log.filterMap Access.event?

/-- From `hs` the log uses and releases what is held, and leaves `hs'`. -/
structure Uses (hs : Multiset η) (log : List (Access η)) (hs' : Multiset η) : Prop where
  takes : Along Access.hold Access.Takes hs log
  run_eq : run Access.hold hs log = hs'

theorem uses_nil (hs : Multiset η) : Uses hs [] hs := ⟨trivial, rfl⟩

theorem Uses.append {hs hs' hs'' : Multiset η} {log log' : List (Access η)}
    (h : Uses hs log hs') (h' : Uses hs' log' hs'') : Uses hs (log ++ log') hs'' := by
  obtain ⟨htakes, rfl⟩ := h
  obtain ⟨htakes', rfl⟩ := h'
  exact ⟨(along_append Access.hold).2 ⟨htakes, htakes'⟩, run_append Access.hold hs log log'⟩

theorem uses_acquired (hs : Multiset η) (l : List η) :
    Uses hs (l.map .acquired) ((l : Multiset η) + hs) := by
  induction l generalizing hs with
  | nil => simpa using uses_nil hs
  | cons h l ih =>
    have hone : Uses hs [.acquired h] (h ::ₘ hs) := ⟨⟨trivial, trivial⟩, rfl⟩
    have hrest := hone.append (ih (h ::ₘ hs))
    rwa [Multiset.add_cons, ← Multiset.cons_add, Multiset.cons_coe] at hrest

theorem uses_used {hs : Multiset η} {l : List η} (h : ∀ x ∈ l, x ∈ hs) :
    Uses hs (l.map .used) hs := by
  induction l with
  | nil => exact uses_nil hs
  | cons x l ih =>
    obtain ⟨hx, hl⟩ := List.forall_mem_cons.1 h
    have hone : Uses hs [.used x] hs := ⟨⟨hx, trivial⟩, rfl⟩
    exact hone.append (ih hl)

/-- Releasing what was held on top of `hs`. -/
theorem uses_released (hs : Multiset η) (l : List η) :
    Uses ((l : Multiset η) + hs) (l.map .released) hs := by
  induction l with
  | nil => simpa using uses_nil hs
  | cons h l ih =>
    have hone : Uses (((h :: l : List η) : Multiset η) + hs) [.released h]
        ((l : Multiset η) + hs) := by
      refine ⟨⟨?_, trivial⟩, ?_⟩
      · simp [Access.Takes]
      · simp [Access.hold, ← Multiset.cons_coe, Multiset.cons_add]
    exact hone.append ih

theorem Uses.turns {hs hs' : Multiset η} {log : List (Access η)} (h : Uses hs log hs') :
    Turns hs (events log) hs' := by
  induction log generalizing hs with
  | nil =>
    obtain ⟨-, rfl⟩ := h
    exact turns_nil hs
  | cons e log ih =>
    obtain ⟨⟨he, htakes⟩, hrun⟩ := h
    have hrest := ih ⟨htakes, hrun⟩
    cases e with
    | acquired x => exact (turns_acquired hs x).append hrest
    | used x => exact hrest
    | released x =>
      have hone : Turns hs [.released x] (hs.erase x) := ⟨⟨he, trivial⟩, rfl⟩
      exact hone.append hrest

/-- Releasing what was held on top of `hs`, in any order. -/
theorem turns_released (hs : Multiset η) (l : List η) :
    Turns ((l : Multiset η) + hs) (l.map .released) hs := by
  have hevents : events (l.map Access.released) = l.map Event.released := by
    rw [events, List.filterMap_map, ← List.filterMap_eq_map]
    rfl
  rw [← hevents]
  exact (uses_released hs l).turns

/-- Every handle is released exactly once for each time it was acquired, and what is used or
released is held. -/
structure Balanced (log : List (Access η)) : Prop where
  once : ∀ pre h rest, events log = pre ++ .acquired h :: rest →
    (tenure h rest).count (.released h) = 1
  takes : Along Access.hold Access.Takes 0 log

omit [DecidableEq η] in
/-- The last event with a handle that is acquired. -/
theorem exists_last {log : List (Event η)} {h : η} (hmem : .acquired h ∈ log) :
    ∃ pre rest, log = pre ++ .acquired h :: rest ∧ .acquired h ∉ rest := by
  obtain ⟨rest, pre, hlog, hnone⟩ := List.eq_append_cons_of_mem (List.mem_reverse.2 hmem)
  refine ⟨pre.reverse, rest.reverse, ?_, fun hrest => hnone (List.mem_reverse.1 hrest)⟩
  rw [← List.reverse_reverse log, hlog]
  simp

/-- **A log is balanced exactly when it leaves nothing held.** -/
theorem balanced_iff {log : List (Access η)} {hs : Multiset η} (hfresh : Fresh (events log))
    (h : Uses 0 log hs) : Balanced log ↔ hs = 0 := by
  have hheld : held (events log) = hs := h.turns.run_eq
  constructor
  · intro hbalanced
    refine Multiset.eq_zero_of_forall_notMem fun x hx => ?_
    have hmem : .acquired x ∈ events log := by
      have hcount := h.turns.count_add x
      have hpos := Multiset.count_pos.2 hx
      rw [Multiset.count_zero] at hcount
      exact List.count_pos_iff.1 (by omega)
    obtain ⟨pre, rest, hlog, hlast⟩ := exists_last hmem
    have hreleased := released_once hfresh h.turns.proper hlog
    rw [hbalanced.once pre x rest hlog, if_pos ⟨hlast, hheld.symm ▸ hx⟩] at hreleased
    cases hreleased
  · rintro rfl
    refine ⟨fun pre x rest hlog => ?_, h.takes⟩
    rw [released_once hfresh h.turns.proper hlog, hheld]
    simp

end Handles
