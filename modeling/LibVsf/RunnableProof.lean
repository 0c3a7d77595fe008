import LibVsf.Runnable
import Mathlib.Data.List.Basic
import Mathlib.Tactic.Common

/-!
# `Runnable`: at most one thread

All threads but the one that `thread_` points to have ended, and the owner is only ever without a
call while that thread runs or has been joined (`Inv`).

**Theorem (`lifecycle`).** Whatever the order of calls and steps: no `std::thread` is destroyed
while it is joinable, at most one thread is in `run`, and none is once `stop` has returned.

**Theorem (`stop_ends`).** A `stop` returns once the thread has finished its refresh, tested `stop_`
and cleared the data.
-/

namespace LibVsf

namespace Runnable

open Runs

variable {σ η π : Type} {m : RunLoop σ η π} {t : Runnable σ η}

/-! ## The invariant -/

structure Inv (t : Runnable σ η) : Prop where
  /-- A thread that has not ended is the one `thread_` points to, and has not been joined. -/
  alive : ∀ i place, t.places[i]? = some place → place ≠ .ended → t.thread = some { thread := i }
  /-- `thread_` points to the last thread. -/
  last : ∀ p, t.thread = some p → p.thread + 1 = t.places.length
  /-- Until `stop_` is set the thread is in the loop. -/
  loops : t.stop = false → ∃ i, t.thread = some { thread := i } ∧
    (t.places[i]? = some .test ∨ ∃ k, t.places[i]? = some (.body k))
  /-- The owner waits for a thread that it has not joined. -/
  waits : t.waits = true → t.joinable = true
  /-- After `stop` there is none. -/
  stopped : t.stop = true → t.waits = false → t.joinable = false
  not_destroyed : t.terminated ≠ some .joinableDestroyed

theorem joinable_eq (t : Runnable σ η) :
    t.joinable = true ↔ ∃ i, t.thread = some { thread := i } := by
  rw [joinable, Option.any_eq_true]
  refine ⟨?_, ?_⟩
  · intro h
    obtain ⟨⟨i, joined⟩, hthread, hjoined⟩ := h
    cases joined with
    | false => exact ⟨i, hthread⟩
    | true => cases hjoined
  · intro h
    obtain ⟨i, hthread⟩ := h
    exact ⟨_, hthread, rfl⟩

theorem inv_new (data : σ) : Inv ({ data := data } : Runnable σ η) where
  alive := by simp
  last := by simp
  loops := by simp
  waits := by simp
  stopped _ _ := rfl
  not_destroyed := by simp

/-- Steps that change neither the threads nor the owner's part. -/
theorem Inv.congr {t' : Runnable σ η} (h : Inv t) (hstop : t'.stop = t.stop)
    (hthread : t'.thread = t.thread) (hplaces : t'.places = t.places)
    (hwaits : t'.waits = t.waits) (hterm : t'.terminated ≠ some .joinableDestroyed) : Inv t' := by
  have hjoinable : t'.joinable = t.joinable := by rw [joinable, hthread, joinable]
  refine ⟨?_, ?_, ?_, ?_, ?_, hterm⟩
  · rw [hplaces, hthread]
    exact h.alive
  · rw [hplaces, hthread]
    exact h.last
  · rw [hstop, hplaces, hthread]
    exact h.loops
  · rw [hwaits, hjoinable]
    exact h.waits
  · rw [hstop, hwaits, hjoinable]
    exact h.stopped

/-! ## The calls keep it -/

theorem inv_startCall (h : Inv t) (hwaits : t.waits = false) : Inv t.startCall := by
  rw [startCall]
  split_ifs with hstop hjoinable
  · rw [h.stopped hstop hwaits] at hjoinable
    cases hjoinable
  · have hended (i : Nat) (place : Place) (hplace : t.places[i]? = some place) :
        place = .ended := by
      by_contra hne
      exact hjoinable ((joinable_eq t).2 ⟨i, h.alive i place hplace hne⟩)
    refine ⟨?_, ?_, ?_, ?_, ?_, h.not_destroyed⟩
    · intro i place hplace hne
      rcases Nat.lt_or_ge i t.places.length with hi | hi
      · rw [List.getElem?_append_left hi] at hplace
        exact absurd (hended i place hplace) hne
      · rw [List.getElem?_append_right hi, List.getElem?_singleton] at hplace
        split_ifs at hplace with hzero
        show some _ = some _
        congr
        omega
    · intro p hp
      obtain rfl := Option.some.inj hp
      simp
    · intro _
      exact ⟨t.places.length, rfl, Or.inl (by simp)⟩
    · intro hw
      rw [hwaits] at hw
      cases hw
    · intro hs
      cases hs
  · exact h

theorem inv_stopCall (h : Inv t) : Inv t.stopCall := by
  rw [stopCall]
  split_ifs with hstop
  · exact h
  · exact ⟨h.alive, h.last, fun hs => (Bool.noConfusion hs), id, fun _ hw => hw, h.not_destroyed⟩

theorem joinCall_none (h : t.thread = none) :
    t.joinCall = { t with terminated := some .nullThread } := by
  simp only [joinCall, h]

theorem joinCall_some {p : ThreadPtr} (h : t.thread = some p) :
    t.joinCall = { t with waits := !p.joined } := by
  simp only [joinCall, h]

theorem inv_joinCall (h : Inv t) : Inv t.joinCall := by
  rcases Option.eq_none_or_eq_some t.thread with hthread | ⟨p, hthread⟩
  · rw [joinCall_none hthread]
    exact h.congr rfl rfl rfl rfl (by simp)
  · have hjoinable : t.joinable = !p.joined := by
      rw [joinable, hthread]
      rfl
    rw [joinCall_some hthread]
    refine ⟨h.alive, h.last, h.loops, ?_, ?_, h.not_destroyed⟩
    · intro hw
      exact hjoinable.trans hw
    · intro _ hw
      exact hjoinable.trans hw

theorem returns_eq {p : ThreadPtr} (h : t.thread = some p) (hwaits : t.waits = true)
    (hplace : t.places[p.thread]? = some .ended) :
    t.returns = { t with waits := false, thread := some { p with joined := true } } := by
  simp only [returns, h, hwaits, hplace, and_self, if_true]

theorem returns_cases (t : Runnable σ η) : t.returns = t ∨ ∃ p, t.thread = some p ∧
    t.waits = true ∧ t.places[p.thread]? = some .ended := by
  rcases Option.eq_none_or_eq_some t.thread with hthread | ⟨p, hthread⟩
  · left
    simp only [returns, hthread]
  · by_cases hjoin : t.waits = true ∧ t.places[p.thread]? = some .ended
    · exact Or.inr ⟨p, hthread, hjoin.1, hjoin.2⟩
    · left
      simp only [returns, hthread, if_neg hjoin]

theorem inv_returns (h : Inv t) : Inv t.returns := by
  rcases returns_cases t with heq | ⟨p, hthread, hwaits, hplace⟩
  · rw [heq]
    exact h
  · rw [returns_eq hthread hwaits hplace]
    refine ⟨?_, ?_, ?_, ?_, ?_, h.not_destroyed⟩
    · intro i place hi hne
      have heq := h.alive i place hi hne
      rw [hthread] at heq
      obtain rfl := Option.some.inj heq
      rw [hplace] at hi
      exact absurd (Option.some.inj hi).symm hne
    · intro p' hp'
      obtain rfl := Option.some.inj hp'
      exact h.last p hthread
    · intro hstop
      obtain ⟨i, hi, hloop⟩ := h.loops hstop
      rw [hthread] at hi
      obtain rfl := Option.some.inj hi
      rw [hplace] at hloop
      simp at hloop
    · intro hw
      cases hw
    · intro _ _
      rfl

/-! ## The turns keep it -/

/-- The thread that `thread_` points to goes on in `run`. -/
theorem inv_goTo (h : Inv t) {i : Nat} {place place' : Place} (hplace : t.places[i]? = some place)
    (hne : place ≠ .ended)
    (hloop : t.stop = false → place' = .test ∨ ∃ k, place' = .body k) : Inv (t.goTo i place') := by
  have hthread := h.alive i place hplace hne
  have hi : i < t.places.length := by
    rw [List.getElem?_eq_some_iff] at hplace
    exact hplace.1
  refine ⟨?_, ?_, ?_, h.waits, h.stopped, h.not_destroyed⟩
  · intro j place'' hj hne'
    by_cases hij : i = j
    · subst hij
      exact hthread
    · simp only [goTo, List.getElem?_set_ne hij] at hj
      exact h.alive j place'' hj hne'
  · intro p hp
    simp only [goTo, List.length_set]
    exact h.last p hp
  · intro hstop
    refine ⟨i, hthread, ?_⟩
    simp only [goTo, List.getElem?_set_self hi, Option.some.injEq]
    exact hloop hstop

theorem inv_turn (h : Inv t) (i : Nat) (env : η) : Inv (t.turn m i env) := by
  rw [turn]
  cases hplace : t.places[i]? with
  | none => exact h
  | some place =>
    have hwork (what : Work η) (data : σ) : Inv (t.work (.thread i) what data) :=
      h.congr rfl rfl rfl rfl h.not_destroyed
    cases place with
    | test =>
      refine inv_goTo h hplace (by simp) fun hstop => ?_
      rw [hstop]
      exact Or.inr ⟨0, rfl⟩
    | body k =>
      dsimp only
      cases m.parts[k]? with
      | none => exact inv_goTo h hplace (by simp) fun _ => Or.inl rfl
      | some part =>
        have hgo (data : σ) :
            Inv ((t.work (.thread i) (.part k env) data).goTo i (.body (k + 1))) :=
          inv_goTo (hwork _ data) hplace (by simp) fun _ => Or.inr ⟨k + 1, rfl⟩
        dsimp only
        split_ifs
        · exact (hgo _).congr rfl rfl rfl rfl (by simp)
        · exact hgo _
    | leave =>
      refine inv_goTo (hwork _ _) hplace (by simp) fun hstop => ?_
      obtain ⟨j, hj, hloop⟩ := h.loops hstop
      have hi := h.alive i .leave hplace (by simp)
      rw [hj] at hi
      obtain rfl : j = i := by simpa using hi
      rw [hplace] at hloop
      simp at hloop
    | ended => exact h

theorem inv_check (h : Inv t) (g : Nat) : Inv (t.check g) := by
  rw [check]
  split_ifs
  · exact h
  · exact h.congr rfl rfl rfl rfl h.not_destroyed

theorem inv_getterTurn (h : Inv t) (g : Nat) (env : η) : Inv (t.getterTurn m g env) := by
  rw [getterTurn]
  cases t.passed g with
  | none => exact h
  | some k =>
    dsimp only
    cases m.parts[k]? with
    | none => exact h.congr rfl rfl rfl rfl h.not_destroyed
    | some part => exact h.congr rfl rfl rfl rfl h.not_destroyed

/-- **Every event keeps the invariant.** -/
theorem inv_step (h : Inv t) (e : Event η π) : Inv (t.step m e) := by
  rw [step]
  split_ifs with hterm
  · exact h
  · cases e with
    | start =>
      simp only [act]
      split_ifs with hwaits
      · exact h
      · exact inv_startCall h (by simpa using hwaits)
    | stop =>
      simp only [act]
      split_ifs
      · exact h
      · exact inv_stopCall h
    | join =>
      simp only [act]
      split_ifs
      · exact h
      · exact inv_joinCall h
    | returns => exact inv_returns h
    | turn i env => exact inv_turn h i env
    | check g => exact inv_check h g
    | getterTurn g env => exact inv_getterTurn h g env
    | assign param => exact h.congr rfl rfl rfl rfl h.not_destroyed

theorem inv_after (m : RunLoop σ η π) (data : σ) (es : List (Event η π)) : Inv (after m data es) :=
  run_invariant _ (inv_new data) (fun _ e h => inv_step h e) es

/-! ## The calls of the owner -/

/-- After a `stop` all threads have ended. -/
theorem Inv.ended (h : Inv t) (hwaits : t.waits = false) (hstop : t.stop = true) :
    ∀ p ∈ t.places, p = .ended := by
  intro p hp
  obtain ⟨i, hi⟩ := List.mem_iff_getElem?.1 hp
  by_contra hne
  have hjoinable := (joinable_eq t).2 ⟨i, h.alive i p hi hne⟩
  rw [h.stopped hstop hwaits] at hjoinable
  cases hjoinable

/-- **At most one thread.** No thread is destroyed while it is joinable; of the threads at most one
has not ended, and none after a `stop`. Between the calls of the owner `thread_` may be destroyed
exactly if `stop_` is set. -/
theorem lifecycle (m : RunLoop σ η π) (data : σ) (es : List (Event η π)) :
    (after m data es).terminated ≠ some .joinableDestroyed ∧
    (∀ (i j : Nat) (p q : Place), (after m data es).places[i]? = some p →
      (after m data es).places[j]? = some q → p ≠ .ended → q ≠ .ended → i = j) ∧
    ((after m data es).waits = false →
      ((after m data es).joinable = true ↔ (after m data es).stop = false)) ∧
    ((after m data es).waits = false → (after m data es).stop = true →
      ∀ p ∈ (after m data es).places, p = .ended) := by
  have h := inv_after m data es
  generalize after m data es = t at h ⊢
  refine ⟨h.not_destroyed, ?_, ?_, ?_⟩
  · intro i j p q hp hq hpne hqne
    have hi := h.alive i p hp hpne
    rw [h.alive j q hq hqne] at hi
    simpa using hi.symm
  · intro hwaits
    refine ⟨?_, ?_⟩
    · intro hjoinable
      by_contra hstop
      rw [h.stopped (by simpa using hstop) hwaits] at hjoinable
      cases hjoinable
    · intro hstop
      obtain ⟨i, hi, -⟩ := h.loops hstop
      exact (joinable_eq t).2 ⟨i, hi⟩
  · intro hwaits hstop
    exact h.ended hwaits hstop

/-! ## `stop` returns -/

/-- The turns that a thread takes to end once `stop_` is set, if a refresh has `n` parts. -/
def turnsLeft (n : Nat) : Place → Nat
  | .body k => n - k + 3
  | .test => 2
  | .leave => 1
  | .ended => 0

theorem turnsLeft_eq_zero {n : Nat} {place : Place} (h : turnsLeft n place ≤ 0) :
    place = .ended := by
  cases place with
  | ended => rfl
  | test | body | leave => simp [turnsLeft] at h

/-- The events that are the owner's. -/
def Event.isCall : Event η π → Bool
  | .turn _ _ | .check _ | .getterTurn _ _ | .assign _ => false
  | _ => true

def Event.isTurn (i : Nat) : Event η π → Bool
  | .turn j _ => i = j
  | _ => false

/-- The owner waits in `stop` for a thread that ends after at most `c` turns. -/
structure Stopping (n i c : Nat) (t : Runnable σ η) : Prop where
  stop : t.stop = true
  waits : t.waits = true
  thread : t.thread = some { thread := i }
  place : ∃ place, t.places[i]? = some place ∧ turnsLeft n place ≤ c

section Stopping

variable {n i c : Nat}

theorem Stopping.congr {t' : Runnable σ η} (h : Stopping n i c t) (hstop : t'.stop = t.stop)
    (hwaits : t'.waits = t.waits) (hthread : t'.thread = t.thread)
    (hplace : t'.places[i]? = t.places[i]?) : Stopping n i c t' := by
  refine ⟨?_, ?_, ?_, ?_⟩
  · rw [hstop]
    exact h.stop
  · rw [hwaits]
    exact h.waits
  · rw [hthread]
    exact h.thread
  · rw [hplace]
    exact h.place

theorem Stopping.goTo {c' : Nat} {place' : Place} (h : Stopping n i c t)
    (hle : turnsLeft n place' ≤ c') : Stopping n i c' (t.goTo i place') := by
  obtain ⟨place, hplace, -⟩ := h.place
  have hlt := (List.getElem?_eq_some_iff.1 hplace).1
  exact ⟨h.stop, h.waits, h.thread, place', List.getElem?_set_self hlt, hle⟩

/-- A turn of another thread. -/
theorem Stopping.turn_ne {j : Nat} (h : Stopping n i c t) (hne : j ≠ i) (env : η) :
    Stopping n i c (t.turn m j env) := by
  have hplace (place : Place) : (t.places.set j place)[i]? = t.places[i]? :=
    List.getElem?_set_ne hne
  rw [turn]
  cases t.places[j]? with
  | none => exact h
  | some place =>
    cases place with
    | test | leave => exact h.congr rfl rfl rfl (hplace _)
    | ended => exact h
    | body k =>
      dsimp only
      cases m.parts[k]? with
      | none => exact h.congr rfl rfl rfl (hplace _)
      | some part =>
        dsimp only
        split_ifs <;> exact h.congr rfl rfl rfl (hplace _)

/-- A turn of the thread itself. -/
theorem Stopping.turn_self (h : Stopping m.parts.length i (c + 1) t) (env : η) :
    Stopping m.parts.length i c (t.turn m i env) := by
  obtain ⟨place, hplace, hle⟩ := h.place
  rw [turn, hplace]
  have hwork (what : Work η) (data : σ) :
      Stopping m.parts.length i (c + 1) (t.work (.thread i) what data) :=
    h.congr rfl rfl rfl rfl
  cases place with
  | test =>
    refine h.goTo ?_
    rw [h.stop]
    exact Nat.le_of_succ_le_succ hle
  | body k =>
    simp only [turnsLeft] at hle
    dsimp only
    rcases Nat.lt_or_ge k m.parts.length with hk | hk
    · rw [List.getElem?_eq_getElem hk]
      have hgo (data : σ) : Stopping m.parts.length i c
          ((t.work (.thread i) (.part k env) data).goTo i (.body (k + 1))) := by
        refine (hwork _ data).goTo ?_
        simp only [turnsLeft]
        omega
      dsimp only
      split_ifs
      · exact (hgo _).congr rfl rfl rfl rfl
      · exact hgo _
    · rw [List.getElem?_eq_none hk]
      refine h.goTo ?_
      simp only [turnsLeft]
      omega
  | leave => exact (hwork _ _).goTo (Nat.zero_le c)
  | ended => exact ⟨h.stop, h.waits, h.thread, .ended, hplace, Nat.zero_le c⟩

theorem running_of_step {e : Event η π} (h : (t.step m e).terminated = none) :
    t.terminated = none := by
  by_contra hne
  obtain ⟨what, hwhat⟩ := Option.ne_none_iff_exists'.1 hne
  rw [step, hwhat, Option.isSome_some, if_pos rfl, hwhat] at h
  cases h

theorem Stopping.step (h : Stopping m.parts.length i c t) {e : Event η π}
    (hcall : e.isCall = false) (hrun : (t.step m e).terminated = none) :
    Stopping m.parts.length i (c - if e.isTurn i then 1 else 0) (t.step m e) := by
  have hterm : t.terminated.isSome = false := by
    rw [running_of_step hrun]
    rfl
  have hact : t.step m e = t.act m e := by
    rw [Runnable.step, hterm, if_neg Bool.false_ne_true]
  rw [hact]
  cases e with
  | start | stop | join | returns => cases hcall
  | turn j env =>
    by_cases hij : i = j
    · subst hij
      simp only [Event.isTurn, decide_true, if_true]
      cases c with
      | zero =>
        obtain ⟨place, hplace, hle⟩ := h.place
        obtain rfl := turnsLeft_eq_zero hle
        simp only [act, turn, hplace]
        exact h
      | succ c => exact h.turn_self env
    · simp only [Event.isTurn, hij, decide_false, Bool.false_eq_true, if_false]
      exact h.turn_ne (Ne.symm hij) env
  | check g =>
    simp only [act, check, Event.isTurn, Bool.false_eq_true, if_false, Nat.sub_zero]
    split_ifs <;> exact h.congr rfl rfl rfl rfl
  | getterTurn g env =>
    simp only [act, getterTurn, Event.isTurn, Bool.false_eq_true, if_false, Nat.sub_zero]
    cases t.passed g with
    | none => exact h
    | some k =>
      dsimp only
      cases m.parts[k]? <;> exact h.congr rfl rfl rfl rfl
  | assign param =>
    simp only [act, Event.isTurn, Bool.false_eq_true, if_false, Nat.sub_zero]
    exact h.congr rfl rfl rfl rfl

theorem Stopping.run (h : Stopping m.parts.length i c t) {fs : List (Event η π)}
    (hcalls : ∀ e ∈ fs, e.isCall = false)
    (hrun : (Runs.run (Runnable.step m) t fs).terminated = none) :
    Stopping m.parts.length i (c - fs.countP (Event.isTurn i))
      (Runs.run (Runnable.step m) t fs) := by
  induction fs using List.reverseRecOn with
  | nil => exact h
  | append_singleton fs e ih =>
    rw [run_concat] at hrun ⊢
    have hrest := ih (fun e' he' => hcalls e' (List.mem_append_left _ he')) (running_of_step hrun)
    have hlast := hrest.step (hcalls e (List.mem_append_right _ List.mem_cons_self)) hrun
    rw [List.countP_append, List.countP_singleton, Nat.sub_add_eq]
    exact hlast

end Stopping

/-- **`stop` returns**: once the thread has taken as many turns as a refresh has parts, and three
more, among any steps of the other threads and the getters, it has ended and been waited for, unless
an exception has ended the process. -/
theorem stop_ends (m : RunLoop σ η π) (data : σ) (es fs : List (Event η π)) {p : ThreadPtr}
    (hstop : (after m data es).stop = true) (hwaits : (after m data es).waits = true)
    (hthread : (after m data es).thread = some p) (hcalls : ∀ e ∈ fs, e.isCall = false)
    (hturns : m.parts.length + 3 ≤ fs.countP (Event.isTurn p.thread))
    (hrun : (after m data (es ++ fs)).terminated = none) :
    (after m data (es ++ fs ++ [.returns])).waits = false ∧
      ∀ place ∈ (after m data (es ++ fs ++ [.returns])).places, place = .ended := by
  have hinv := inv_after m data es
  obtain ⟨i, hi⟩ := (joinable_eq _).1 (hinv.waits hwaits)
  rw [hthread] at hi
  obtain rfl := Option.some.inj hi
  have hlast := hinv.last _ hthread
  have hlt : i < (after m data es).places.length := by
    show i < _
    simp only at hlast
    omega
  have hstopping : Stopping m.parts.length i (m.parts.length + 3) (after m data es) := by
    refine ⟨hstop, hwaits, hthread, _, List.getElem?_eq_getElem hlt, ?_⟩
    cases (after m data es).places[i] with
    | body k =>
      simp only [turnsLeft]
      omega
    | test | leave | ended => simp [turnsLeft]
  have hafter : after m data (es ++ fs) = Runs.run (step m) (after m data es) fs :=
    run_append _ _ es fs
  rw [hafter] at hrun
  have hdone := hstopping.run hcalls hrun
  rw [Nat.sub_eq_zero_of_le hturns, ← hafter] at hdone
  obtain ⟨place, hplace, hzero⟩ := hdone.place
  obtain rfl := turnsLeft_eq_zero hzero
  rw [← hafter] at hrun
  have hreturns : after m data (es ++ fs ++ [.returns]) = (after m data (es ++ fs)).returns := by
    rw [after, run_concat]
    show (after m data (es ++ fs)).step m .returns = _
    rw [step, hrun, Option.isSome_none, if_neg Bool.false_ne_true]
    rfl
  have hwaits' : (after m data (es ++ fs ++ [.returns])).waits = false := by
    rw [hreturns, returns_eq hdone.thread hdone.waits hplace]
  refine ⟨hwaits', (inv_after m data _).ended hwaits' ?_⟩
  rw [hreturns, returns_eq hdone.thread hdone.waits hplace]
  exact hdone.stop

/-- A module that counts its refreshes. -/
def counting : RunLoop Nat Unit Unit where
  parts := [fun n _ => .ok (n + 1)]
  clear _ := 0
  assign n _ := n

/-- It is stopped in its first refresh, while a getter waits. -/
theorem stop_ends_counting :
    (after counting 0 ([.start, .check 0, .turn 0 (), .stop] ++
        [.turn 0 (), .check 1, .turn 0 (), .turn 0 (), .turn 0 ()] ++ [.returns])).waits = false ∧
      ∀ place ∈ (after counting 0 ([.start, .check 0, .turn 0 (), .stop] ++
        [.turn 0 (), .check 1, .turn 0 (), .turn 0 (), .turn 0 ()] ++ [.returns])).places,
        place = .ended :=
  stop_ends counting 0 _ _ (p := { thread := 0 }) rfl rfl rfl (by simp [Event.isCall]) (by decide)
    rfl

end Runnable

end LibVsf
