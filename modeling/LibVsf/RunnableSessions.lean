import LibVsf.RunnableProof

/-!
# `Runnable`: sessions

A session is what one thread does to the data of the module: whole refreshes, and a `clear`.

**Theorem (`sessions`).** The work of the threads is a sequence of whole sessions, and then what the
thread that is in `run` has done, if there is one. A thread never works between the parts of what
another one does.

**Theorem (`cleared_after_stop`).** So after a `stop` the data are cleared, unless a getter that
found the module not joinable has refreshed since.
-/

namespace LibVsf

namespace Runnable

open Runs

variable {σ η π : Type} {m : RunLoop σ η π} {t : Runnable σ η}

/-! ## Sessions -/

/-- The parts of refreshes that a thread does. -/
def session (i : Nat) (parts : List (Nat × η)) : List (Nat × Work η) :=
  parts.map fun p => (i, .part p.1 p.2)

/-- The work of threads that have ended, the first of them thread `0`. -/
def wholeSessions (whole : List (List (Nat × η))) : List (Nat × Work η) :=
  whole.zipIdx.flatMap fun x => session x.2 x.1 ++ [(x.2, .clear)]

/-- These are whole refreshes of `n` parts each, and the first `k` parts of one. -/
def Refreshes (n k : Nat) (parts : List (Nat × η)) : Prop :=
  ∃ r, parts.map Prod.fst = (List.replicate r (List.range n)).flatten ++ List.range k

def nextPart : Place → Nat
  | .body k => k
  | _ => 0

/-- The threads have done whole sessions, and a session that goes on. -/
structure Sessions (n : Nat) (t : Runnable σ η) (whole : List (List (Nat × η)))
    (now : List (Nat × η)) : Prop where
  log : t.threadLog = wholeSessions whole ++ session whole.length now
  ended : ∀ i place, t.places[i]? = some place → (place = .ended ↔ i < whole.length)
  le : whole.length ≤ t.places.length
  length_le : t.places.length ≤ whole.length + 1
  refreshes : ∀ parts ∈ whole, Refreshes n 0 parts
  /-- The refresh that goes on is as far as its thread. -/
  going : ∀ place, t.places[whole.length]? = some place →
    nextPart place ≤ n ∧ Refreshes n (nextPart place) now
  rest : t.places.length = whole.length → now = []

theorem wholeSessions_concat (whole : List (List (Nat × η))) (now : List (Nat × η)) :
    wholeSessions (whole ++ [now]) =
      wholeSessions whole ++ session whole.length now ++ [(whole.length, .clear)] := by
  simp [wholeSessions, List.zipIdx_append]

theorem session_concat (i k : Nat) (parts : List (Nat × η)) (env : η) :
    session i (parts ++ [(k, env)]) = session i parts ++ [(i, .part k env)] := by
  simp [session]

theorem Refreshes.concat {n k : Nat} {parts : List (Nat × η)} (h : Refreshes n k parts) (env : η) :
    Refreshes n (k + 1) (parts ++ [(k, env)]) := by
  obtain ⟨r, hr⟩ := h
  refine ⟨r, ?_⟩
  rw [List.map_append, hr, List.range_succ, List.append_assoc]
  rfl

/-- A refresh whose parts have been done. -/
theorem Refreshes.done {n : Nat} {parts : List (Nat × η)} (h : Refreshes n n parts) :
    Refreshes n 0 parts := by
  obtain ⟨r, hr⟩ := h
  refine ⟨r + 1, ?_⟩
  rw [hr, List.replicate_succ', List.flatten_append]
  simp

theorem threadLog_thread (t : Runnable σ η) (i : Nat) (what : Work η) (data : σ) :
    (t.work (.thread i) what data).threadLog = t.threadLog ++ [(i, what)] := by
  simp [threadLog, work]

theorem threadLog_getter (t : Runnable σ η) (g : Nat) (what : Work η) (data : σ) :
    (t.work (.getter g) what data).threadLog = t.threadLog := by
  simp [threadLog, work]

theorem sessions_new (n : Nat) (data : σ) : Sessions n ({ data := data } : Runnable σ η) [] [] where
  log := rfl
  ended := by simp
  le := Nat.le_refl 0
  length_le := Nat.zero_le 1
  refreshes := by simp
  going := by simp
  rest _ := rfl

section Sessions

variable {n : Nat} {whole : List (List (Nat × η))} {now : List (Nat × η)}

theorem Sessions.congr {t' : Runnable σ η} (h : Sessions n t whole now)
    (hlog : t'.threadLog = t.threadLog) (hplaces : t'.places = t.places) :
    Sessions n t' whole now := by
  refine ⟨hlog.trans h.log, ?_, ?_, ?_, h.refreshes, ?_, ?_⟩
  all_goals rw [hplaces]
  · exact h.ended
  · exact h.le
  · exact h.length_le
  · exact h.going
  · exact h.rest

/-- The thread that has not ended is the one after those of whole sessions. -/
theorem Sessions.current (h : Sessions n t whole now) {i : Nat} {place : Place}
    (hplace : t.places[i]? = some place) (hne : place ≠ .ended) :
    i = whole.length ∧ t.places.length = whole.length + 1 := by
  have hnot : ¬ i < whole.length := fun hi => hne ((h.ended i place hplace).2 hi)
  rw [List.getElem?_eq_some_iff] at hplace
  have hlt := hplace.1
  have hle := h.length_le
  omega

theorem Sessions.startCall (h : Sessions n t whole now) (hinv : Inv t) :
    ∃ now, Sessions n t.startCall whole now := by
  rw [Runnable.startCall]
  split_ifs with hstop hjoinable
  · exact ⟨now, h.congr rfl rfl⟩
  · have hlength : t.places.length = whole.length := by
      by_contra hne
      have hle := h.le
      have hlt := h.length_le
      have hlast : whole.length < t.places.length := by omega
      have hplace := List.getElem?_eq_getElem hlast
      refine hjoinable ((joinable_eq t).2 ⟨_, hinv.alive _ _ hplace fun hended => ?_⟩)
      exact Nat.lt_irrefl _ ((h.ended _ _ hplace).1 hended)
    refine ⟨[], ?_, ?_, ?_, ?_, h.refreshes, ?_, fun _ => rfl⟩
    · have hlog := h.log
      rw [h.rest hlength] at hlog
      exact hlog
    · intro i place hplace
      rcases Nat.lt_or_ge i t.places.length with hi | hi
      · rw [List.getElem?_append_left hi] at hplace
        exact h.ended i place hplace
      · rw [List.getElem?_append_right hi, List.getElem?_singleton] at hplace
        split_ifs at hplace
        obtain rfl := Option.some.inj hplace
        refine iff_of_false (by simp) ?_
        omega
    · simp only [List.length_append, List.length_singleton]
      omega
    · simp only [List.length_append, List.length_singleton]
      omega
    · intro place hplace
      rw [← hlength, List.getElem?_concat_length] at hplace
      obtain rfl := Option.some.inj hplace
      exact ⟨Nat.zero_le n, 0, rfl⟩
  · exact ⟨now, h⟩

/-- The thread goes on in its session: it is as far as its log. -/
theorem Sessions.goTo (h : Sessions n t whole now) {now' : List (Nat × η)} {i : Nat}
    {place : Place} (hplace : t.places[i]? = some place) (hne : place ≠ .ended) (place' : Place)
    (hne' : place' ≠ .ended) (hnext : nextPart place' ≤ n)
    (hrefreshes : Refreshes n (nextPart place') now') {t' : Runnable σ η}
    (hlog : t'.threadLog = wholeSessions whole ++ session whole.length now')
    (hplaces : t'.places = t.places.set i place') : Sessions n t' whole now' := by
  have hcurrent := h.current hplace hne
  obtain ⟨rfl, hlength⟩ := hcurrent
  have hlt : whole.length < t.places.length := by omega
  refine ⟨hlog, ?_, ?_, ?_, h.refreshes, ?_, ?_⟩
  · intro j place'' hj
    rw [hplaces] at hj
    by_cases hij : whole.length = j
    · subst hij
      rw [List.getElem?_set_self hlt, Option.some.injEq] at hj
      subst hj
      exact iff_of_false hne' (Nat.lt_irrefl _)
    · rw [List.getElem?_set_ne hij] at hj
      exact h.ended j place'' hj
  · rw [hplaces, List.length_set]
    exact h.le
  · rw [hplaces, List.length_set]
    exact h.length_le
  · intro place'' hj
    rw [hplaces, List.getElem?_set_self hlt, Option.some.injEq] at hj
    subst hj
    exact ⟨hnext, hrefreshes⟩
  · intro hrest
    rw [hplaces, List.length_set] at hrest
    omega

/-- It clears the data and ends. -/
theorem Sessions.leave (h : Sessions n t whole now) {i : Nat} (hplace : t.places[i]? = some .leave)
    (data : σ) :
    Sessions n ((t.work (.thread i) .clear data).goTo i .ended) (whole ++ [now]) [] := by
  have hcurrent := h.current hplace (by simp)
  obtain ⟨rfl, hlength⟩ := hcurrent
  have hlt : whole.length < t.places.length := by omega
  refine ⟨?_, ?_, ?_, ?_, ?_, ?_, fun _ => rfl⟩
  · show (t.work (.thread whole.length) .clear data).threadLog = _
    rw [threadLog_thread, h.log, wholeSessions_concat]
    simp [session]
  · intro j place hj
    rw [List.length_append, List.length_singleton]
    by_cases hij : whole.length = j
    · subst hij
      simp only [Runnable.goTo, work, List.getElem?_set_self hlt, Option.some.injEq] at hj
      exact iff_of_true hj.symm (Nat.lt_succ_self _)
    · simp only [Runnable.goTo, work, List.getElem?_set_ne hij] at hj
      rw [h.ended j place hj]
      omega
  · simp only [Runnable.goTo, work, List.length_set, List.length_append, List.length_singleton]
    omega
  · simp only [Runnable.goTo, work, List.length_set, List.length_append, List.length_singleton]
    omega
  · intro parts hparts
    rcases List.mem_append.1 hparts with hold | hnew
    · exact h.refreshes parts hold
    · rw [List.mem_singleton.1 hnew]
      exact (h.going _ hplace).2
  · intro place hj
    rw [List.length_append, List.length_singleton, Runnable.goTo,
      List.getElem?_eq_none (by simp [work, hlength])] at hj
    cases hj

theorem Sessions.turn (h : Sessions m.parts.length t whole now) (i : Nat) (env : η) :
    ∃ whole now, Sessions m.parts.length (t.turn m i env) whole now := by
  rw [Runnable.turn]
  cases hplace : t.places[i]? with
  | none => exact ⟨whole, now, h⟩
  | some place =>
    cases place with
    | ended => exact ⟨whole, now, h⟩
    | leave => exact ⟨whole ++ [now], [], h.leave hplace _⟩
    | test =>
      have hcurrent := h.current hplace (by simp)
      have hnow := h.going _ (hcurrent.1 ▸ hplace)
      refine ⟨whole, now, h.goTo hplace (by simp) _ ?_ ?_ ?_ h.log rfl⟩
      · split_ifs <;> simp
      · split_ifs <;> exact hnow.1
      · split_ifs <;> exact hnow.2
    | body k =>
      have hcurrent := h.current hplace (by simp)
      have hnow := h.going _ (hcurrent.1 ▸ hplace)
      dsimp only
      rcases Nat.lt_or_ge k m.parts.length with hk | hk
      · rw [List.getElem?_eq_getElem hk]
        have hgo : Sessions m.parts.length ((t.work (.thread i) (.part k env)
            (RunLoop.left m.parts[k] t.data env)).goTo i (.body (k + 1))) whole
            (now ++ [(k, env)]) := by
          refine h.goTo hplace (by simp) (.body (k + 1)) (by simp) hk (hnow.2.concat env) ?_ rfl
          show (t.work (.thread i) _ (RunLoop.left m.parts[k] t.data env)).threadLog = _
          rw [threadLog_thread, h.log, session_concat, hcurrent.1, List.append_assoc]
          rfl
        refine ⟨whole, now ++ [(k, env)], ?_⟩
        dsimp only
        split_ifs
        · exact hgo.congr rfl rfl
        · exact hgo
      · rw [List.getElem?_eq_none hk]
        obtain rfl : k = m.parts.length := Nat.le_antisymm hnow.1 hk
        exact ⟨whole, now,
          h.goTo hplace (by simp) .test (by simp) (Nat.zero_le _) hnow.2.done h.log rfl⟩

end Sessions

/-- **Each event** continues the sessions. -/
theorem sessions_step (hinv : Inv t) (h : ∃ whole now, Sessions m.parts.length t whole now)
    (e : Event η π) : ∃ whole now, Sessions m.parts.length (t.step m e) whole now := by
  obtain ⟨whole, now, h⟩ := h
  rw [step]
  split_ifs
  · exact ⟨whole, now, h⟩
  · cases e with
    | start =>
      simp only [act]
      split_ifs
      · exact ⟨whole, now, h⟩
      · exact ⟨whole, h.startCall hinv⟩
    | stop =>
      simp only [act, stopCall]
      split_ifs
      · exact ⟨whole, now, h⟩
      · exact ⟨whole, now, h⟩
      · exact ⟨whole, now, h.congr rfl rfl⟩
    | join =>
      simp only [act]
      split_ifs
      · exact ⟨whole, now, h⟩
      · rcases Option.eq_none_or_eq_some t.thread with hthread | ⟨p, hthread⟩
        · rw [joinCall_none hthread]
          exact ⟨whole, now, h.congr rfl rfl⟩
        · rw [joinCall_some hthread]
          exact ⟨whole, now, h.congr rfl rfl⟩
    | returns =>
      simp only [act]
      rcases returns_cases t with heq | ⟨p, hthread, hwaits, hplace⟩
      · rw [heq]
        exact ⟨whole, now, h⟩
      · rw [returns_eq hthread hwaits hplace]
        exact ⟨whole, now, h.congr rfl rfl⟩
    | turn i env => exact h.turn i env
    | check g =>
      simp only [act, check]
      split_ifs
      · exact ⟨whole, now, h⟩
      · exact ⟨whole, now, h.congr rfl rfl⟩
    | getterTurn g env =>
      simp only [act, getterTurn]
      cases t.passed g with
      | none => exact ⟨whole, now, h⟩
      | some k =>
        dsimp only
        cases m.parts[k]? with
        | none => exact ⟨whole, now, h.congr rfl rfl⟩
        | some part =>
          have hlog := threadLog_getter t g (.part k env) (RunLoop.left part t.data env)
          exact ⟨whole, now, h.congr hlog rfl⟩
    | assign param => exact ⟨whole, now, h.congr rfl rfl⟩

theorem sessions_after (m : RunLoop σ η π) (data : σ) (es : List (Event η π)) :
    Inv (after m data es) ∧ ∃ whole now, Sessions m.parts.length (after m data es) whole now :=
  run_invariant (step m)
    (I := fun t => Inv t ∧ ∃ whole now, Sessions m.parts.length t whole now)
    ⟨inv_new data, [], [], sessions_new _ data⟩
    (fun _ e h => ⟨inv_step h.1 e, sessions_step h.1 h.2 e⟩) es

/-- **The work of the threads is a sequence of sessions**: of each thread before the next, whole
refreshes and one `clear`, and last those of a thread that has not ended, if there is one, and as
much of a refresh as it has done. -/
theorem sessions (m : RunLoop σ η π) (data : σ) (es : List (Event η π)) :
    ∃ whole now, Sessions m.parts.length (after m data es) whole now :=
  (sessions_after m data es).2

/-! ## After the last session -/

/-- What a step does to the data. -/
inductive DataStep (m : RunLoop σ η π) (t t' : Runnable σ η) : Prop where
  | none (log : t'.log = t.log) (data : t'.data = t.data)
  | assign (param : π) (log : t'.log = t.log) (data : t'.data = m.assign t.data param)
  | part (who : Worker) (k : Nat) (env : η) (part : σ → η → Except σ σ) (mem : part ∈ m.parts)
      (log : t'.log = t.log ++ [(who, .part k env)]) (data : t'.data = RunLoop.left part t.data env)
  | clear (i : Nat) (log : t'.log = t.log ++ [(.thread i, .clear)])
      (data : t'.data = m.clear t.data)

theorem dataStep_turn (m : RunLoop σ η π) (t : Runnable σ η) (i : Nat) (env : η) :
    DataStep m t (t.turn m i env) := by
  rw [turn]
  cases t.places[i]? with
  | none => exact .none rfl rfl
  | some place =>
    cases place with
    | test | ended => exact .none rfl rfl
    | body k =>
      dsimp only
      cases hpart : m.parts[k]? with
      | none => exact .none rfl rfl
      | some part =>
        have hmem := List.mem_of_getElem? hpart
        dsimp only
        split_ifs <;> exact .part (.thread i) k env part hmem rfl rfl
    | leave => exact .clear i rfl rfl

theorem dataStep (m : RunLoop σ η π) (t : Runnable σ η) (e : Event η π) :
    DataStep m t (t.step m e) := by
  rw [step]
  split_ifs
  · exact .none rfl rfl
  · cases e with
    | start =>
      simp only [act, startCall]
      split_ifs <;> exact .none rfl rfl
    | stop =>
      simp only [act, stopCall]
      split_ifs <;> exact .none rfl rfl
    | join =>
      simp only [act]
      split_ifs
      · exact .none rfl rfl
      · rcases Option.eq_none_or_eq_some t.thread with hthread | ⟨p, hthread⟩
        · rw [joinCall_none hthread]
          exact .none rfl rfl
        · rw [joinCall_some hthread]
          exact .none rfl rfl
    | returns =>
      simp only [act]
      rcases returns_cases t with heq | ⟨p, hthread, hwaits, hplace⟩
      · rw [heq]
        exact .none rfl rfl
      · rw [returns_eq hthread hwaits hplace]
        exact .none rfl rfl
    | turn i env => exact dataStep_turn m t i env
    | check g =>
      simp only [act, check]
      split_ifs <;> exact .none rfl rfl
    | getterTurn g env =>
      simp only [act, getterTurn]
      cases t.passed g with
      | none => exact .none rfl rfl
      | some k =>
        dsimp only
        cases hpart : m.parts[k]? with
        | none => exact .none rfl rfl
        | some part => exact .part (.getter g) k env part (List.mem_of_getElem? hpart) rfl rfl
    | assign param => exact .assign param rfl rfl

/-- The data are cleared before the first work, and after a `clear`. -/
structure Left (Cleared : σ → Prop) (t : Runnable σ η) : Prop where
  nil : t.log = [] → Cleared t.data
  clear : ∀ who, t.log.getLast? = some (who, .clear) → Cleared t.data

theorem left_step {Cleared : σ → Prop} (hclear : ∀ old, Cleared (m.clear old))
    (hassign : ∀ data param, Cleared data → Cleared (m.assign data param)) (h : Left Cleared t)
    (e : Event η π) : Left Cleared (t.step m e) := by
  cases dataStep m t e with
  | none hlog hdata =>
    refine ⟨?_, ?_⟩
    all_goals rw [hlog, hdata]
    · exact h.nil
    · exact h.clear
  | assign param hlog hdata =>
    refine ⟨?_, ?_⟩
    all_goals rw [hlog, hdata]
    · exact fun hnil => hassign _ param (h.nil hnil)
    · exact fun who hlast => hassign _ param (h.clear who hlast)
  | part who k env part _ hlog hdata =>
    refine ⟨?_, ?_⟩
    all_goals rw [hlog]
    · simp
    · simp
  | clear i hlog hdata =>
    refine ⟨?_, ?_⟩
    all_goals rw [hdata]
    · exact fun _ => hclear _
    · exact fun _ _ => hclear _

theorem getLast?_wholeSessions {whole : List (List (Nat × η))} {x : Nat × Work η}
    (h : (wholeSessions whole).getLast? = some x) : x.2 = .clear := by
  rcases List.eq_nil_or_concat whole with rfl | ⟨whole, now, rfl⟩
  · cases h
  · rw [List.concat_eq_append, wholeSessions_concat, List.getLast?_concat] at h
    rw [← Option.some.inj h]

/-- If all threads have ended, the last work on the data is a getter's or a `clear`. -/
theorem Sessions.getLast? {n : Nat} {whole : List (List (Nat × η))} {now : List (Nat × η)}
    (h : Sessions n t whole now) (hended : ∀ p ∈ t.places, p = .ended) {i : Nat} {what : Work η}
    (hlast : t.log.getLast? = some (.thread i, what)) : what = .clear := by
  have hlength : t.places.length = whole.length := by
    by_contra hne
    have hle := h.le
    have hlt : whole.length < t.places.length := by omega
    have hplace := hended _ (List.getElem_mem hlt)
    exact Nat.lt_irrefl _ ((h.ended _ _ (List.getElem?_eq_getElem hlt)).1 hplace)
  have hlog := h.log
  rw [h.rest hlength, session, List.map_nil, List.append_nil] at hlog
  obtain ⟨l, hl⟩ := List.getLast?_eq_some_iff.1 hlast
  have hwhole : (wholeSessions whole).getLast? = some (i, what) := by
    rw [← hlog, threadLog, hl, List.filterMap_append]
    simp
  exact getLast?_wholeSessions hwhole

/-- **After a `stop` the data are cleared**, or a getter was the last to work on them. -/
theorem cleared_after_stop (m : RunLoop σ η π) {Cleared : σ → Prop} {data : σ}
    (hdata : Cleared data) (hclear : ∀ old, Cleared (m.clear old))
    (hassign : ∀ data param, Cleared data → Cleared (m.assign data param))
    (es : List (Event η π)) (hwaits : (after m data es).waits = false)
    (hstop : (after m data es).stop = true) :
    Cleared (after m data es).data ∨
      ∃ g k env, (after m data es).log.getLast? = some (.getter g, .part k env) := by
  obtain ⟨hinv, whole, now, hsessions⟩ := sessions_after m data es
  have hended := hinv.ended hwaits hstop
  have hleft : Left Cleared (after m data es) :=
    run_invariant (step m) (I := Left Cleared) ⟨fun _ => hdata, fun _ _ => hdata⟩
      (fun _ e h => left_step hclear hassign h e) es
  generalize after m data es = t at hended hsessions hleft ⊢
  cases hlast : t.log.getLast? with
  | none => exact Or.inl (hleft.nil (List.getLast?_eq_none_iff.1 hlast))
  | some x =>
    obtain ⟨who, what⟩ := x
    cases what with
    | clear => exact Or.inl (hleft.clear who hlast)
    | part k env =>
      cases who with
      | getter g => exact Or.inr ⟨g, k, env, rfl⟩
      | thread i => cases hsessions.getLast? hended hlast

/-- What the parts of a refresh, `clear` and the setters keep holds of the data at any time. -/
theorem data_invariant (m : RunLoop σ η π) {I : σ → Prop} {data : σ} (hdata : I data)
    (hparts : ∀ part ∈ m.parts, ∀ data env, I data → I (RunLoop.left part data env))
    (hclear : ∀ data, I data → I (m.clear data))
    (hassign : ∀ data param, I data → I (m.assign data param)) (es : List (Event η π)) :
    I (after m data es).data := by
  refine run_invariant (step m) (I := fun t => I t.data) hdata (fun t e h => ?_) es
  cases dataStep m t e with
  | none _ heq => rwa [heq]
  | assign param _ heq =>
    rw [heq]
    exact hassign _ param h
  | part who k env part hmem _ heq =>
    rw [heq]
    exact hparts part hmem _ env h
  | clear i _ heq =>
    rw [heq]
    exact hclear _ h

end Runnable

end LibVsf
