import Mathlib.Tactic.Common

/-!
# Computations that write as they go

A computation that throws leaves what it has written until then. Its `Log` are the entries that it
writes, in order, and the failure that ends it, if one does. `Writes apply f log` says that `f`
writes these entries to every state, so that one log describes `f` in all of them.

* `Writes.bind`, `Writes.foldlM`: the log of a sequence and of a loop.
* `Writes.unchanged_iff`: `f` leaves a state as it was when it fails, exactly if it fails before its
  first entry, where entries change the state.
-/

namespace Writing

universe u

variable {σ ι ε : Type u}

structure Log (ι ε : Type u) where
  entries : List ι := []
  failure : Option ε := none

namespace Log

/-- The one log, and the other if nothing fails in it. -/
def andThen (t u : Log ι ε) : Log ι ε :=
  if t.failure.isSome then t else ⟨t.entries ++ u.entries, u.failure⟩

/-- The logs of a loop's steps. -/
def all {κ : Type*} (log : κ → Log ι ε) : List κ → Log ι ε
  | [] => {}
  | k :: ks => (log k).andThen (all log ks)

/-- What the log does to a state. -/
def replay (apply : σ → ι → σ) (t : Log ι ε) (s : σ) : Except (ε × σ) σ :=
  t.failure.elim (.ok (t.entries.foldl apply s)) fun e => .error (e, t.entries.foldl apply s)

/-! ## Sequences -/

theorem failure_andThen {t u : Log ι ε} :
    (t.andThen u).failure = none ↔ t.failure = none ∧ u.failure = none := by
  obtain ⟨entries, failure⟩ := t
  cases failure <;> simp [andThen]

theorem entries_andThen {t : Log ι ε} (h : t.failure = none) (u : Log ι ε) :
    (t.andThen u).entries = t.entries ++ u.entries := by
  simp [andThen, h]

theorem mem_andThen {t u : Log ι ε} {i : ι} (h : i ∈ (t.andThen u).entries) :
    i ∈ t.entries ∨ i ∈ u.entries := by
  simp only [andThen] at h
  split_ifs at h
  · exact Or.inl h
  · exact List.mem_append.1 h

theorem mem_all {κ : Type*} {log : κ → Log ι ε} {ks : List κ} {i : ι}
    (h : i ∈ (all log ks).entries) : ∃ k ∈ ks, i ∈ (log k).entries := by
  induction ks with
  | nil => cases h
  | cons k ks ih =>
    rcases mem_andThen h with h | h
    · exact ⟨k, List.mem_cons_self, h⟩
    · obtain ⟨j, hj, hi⟩ := ih h
      exact ⟨j, List.mem_cons_of_mem k hj, hi⟩

theorem failure_all {κ : Type*} {log : κ → Log ι ε} {ks : List κ} :
    (all log ks).failure = none ↔ ∀ k ∈ ks, (log k).failure = none := by
  induction ks with
  | nil => simp [all]
  | cons k ks ih => rw [all, failure_andThen, ih, List.forall_mem_cons]

/-- A loop in which nothing fails writes all that its steps write. -/
theorem entries_all {κ : Type*} {log : κ → Log ι ε} {ks : List κ}
    (h : (all log ks).failure = none) :
    (all log ks).entries = ks.flatMap fun k => (log k).entries := by
  induction ks with
  | nil => rfl
  | cons k ks ih =>
    obtain ⟨hk, hks⟩ := failure_andThen.1 h
    rw [all, entries_andThen hk, ih hks, List.flatMap_cons]

/-! ## Replays -/

variable (apply : σ → ι → σ)

@[simp] theorem replay_nil (s : σ) : ({} : Log ι ε).replay apply s = .ok s := rfl

@[simp] theorem replay_fail (e : ε) (s : σ) :
    ({ failure := some e } : Log ι ε).replay apply s = .error (e, s) := rfl

theorem replay_andThen (t u : Log ι ε) (s : σ) :
    (t.andThen u).replay apply s = t.replay apply s >>= u.replay apply := by
  obtain ⟨entries, failure⟩ := t
  cases failure with
  | some e => rfl
  | none =>
    simp only [andThen, replay, Option.isSome_none, Bool.false_eq_true, if_false,
      List.foldl_append]
    rfl

theorem replay_eq_ok {t : Log ι ε} {s s' : σ} :
    t.replay apply s = .ok s' ↔ t.failure = none ∧ t.entries.foldl apply s = s' := by
  obtain ⟨entries, failure⟩ := t
  cases failure <;> simp [replay]

theorem replay_eq_error {t : Log ι ε} {s s' : σ} {e : ε} :
    t.replay apply s = .error (e, s') ↔
      t.failure = some e ∧ t.entries.foldl apply s = s' := by
  obtain ⟨entries, failure⟩ := t
  cases failure <;> simp [replay]

end Log

/-- `f` writes the log, to every state. -/
def Writes (apply : σ → ι → σ) (f : σ → Except (ε × σ) σ) (t : Log ι ε) : Prop :=
  ∀ s, f s = t.replay apply s

variable {apply : σ → ι → σ}

theorem Writes.bind {f g : σ → Except (ε × σ) σ} {t u : Log ι ε} (hf : Writes apply f t)
    (hg : Writes apply g u) : Writes apply (fun s => f s >>= g) (t.andThen u) := by
  intro s
  show f s >>= g = _
  rw [Log.replay_andThen, hf s, funext hg]

/-- **A loop writes what its steps write.** -/
theorem Writes.foldlM {κ : Type*} {step : σ → κ → Except (ε × σ) σ} {log : κ → Log ι ε}
    {ks : List κ} (h : ∀ k ∈ ks, Writes apply (fun s => step s k) (log k)) :
    Writes apply (fun s => ks.foldlM step s) (Log.all log ks) := by
  induction ks with
  | nil =>
    intro s
    rfl
  | cons k ks ih =>
    obtain ⟨hk, hks⟩ := List.forall_mem_cons.1 h
    intro s
    show (k :: ks).foldlM step s = _
    rw [List.foldlM_cons]
    exact hk.bind (ih hks) s

/-- **A failure leaves the state as it was exactly if nothing has been written**, where writing
changes the state. -/
theorem Writes.unchanged_iff {f : σ → Except (ε × σ) σ} {t : Log ι ε} (h : Writes apply f t) {s : σ}
    (hs : ∀ s' i, apply s' i ≠ s) :
    (∀ e s', f s = .error (e, s') → s' = s) ↔ t.failure = none ∨ t.entries = [] := by
  have herror (e : ε) (s' : σ) : f s = .error (e, s') ↔
      t.failure = some e ∧ t.entries.foldl apply s = s' := by
    rw [h s, Log.replay_eq_error]
  simp only [herror]
  refine ⟨?_, ?_⟩
  · intro hf
    rcases hfailure : t.failure with - | e
    · exact Or.inl rfl
    · refine Or.inr ?_
      have hfold := hf e _ ⟨hfailure, rfl⟩
      rcases t.entries.eq_nil_or_concat with hnil | ⟨entries, i, hconcat⟩
      · exact hnil
      · rw [hconcat, List.concat_eq_append, List.foldl_append] at hfold
        exact absurd hfold (hs _ i)
  · intro hor e s' hf
    obtain ⟨hfailure, rfl⟩ := hf
    rcases hor with hnone | hnil
    · rw [hnone] at hfailure
      cases hfailure
    · rw [hnil]
      rfl

end Writing
