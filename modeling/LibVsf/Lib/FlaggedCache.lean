import LibVsf.Lib.Runs
import Mathlib.Logic.Function.Basic

/-!
# Caches with a flag

A cache holds what the last refresh has fetched; one that fails leaves it as it is. A reader looks
at a flag, refreshes if it is not set, and then reads. The three are apart from one another, and
others refresh in between. The flag is set by a refresh, or later by one who has refreshed.

**What is read** (`inv_after`). The data are those of the last refresh that has not failed, or those
of a new cache. If no refresh fails, a reader finds fetched data (`readable`), which have what all
have that are fetched (`reads_fetched`).

**What stays** (`stays`). When the flag is set and no reader refreshes, the readers do not change
the data any more.
-/

namespace FlaggedCache

open Runs

structure Cache (η δ : Type*) where
  /-- None where a refresh fails. -/
  fetch : η → Option δ
  /-- A refresh sets the flag. -/
  raises : Bool

/-- Where a reader is. -/
inductive Phase where
  | idle
  | refreshing
  | reading
deriving DecidableEq, Repr

inductive Event (ι η : Type*) where
  | check (i : ι)
  | refresh (i : ι) (env : η)
  | read (i : ι)
  /-- A refresh that is not of a reader. -/
  | pass (env : η)
  /-- The flag is set by who has refreshed. -/
  | raise

structure State (ι η δ : Type*) where
  data : δ
  flag : Bool := false
  phase : ι → Phase := fun _ => .idle
  /-- The refreshes that have not failed, by what they have met. -/
  fetched : List η := []

variable {ι η δ : Type*}

def Event.IsPass (e : Event ι η) : Prop := ∃ env, e = .pass env

theorem not_isPass_check {i : ι} : ¬ (.check i : Event ι η).IsPass := by
  rintro ⟨env, h⟩
  cases h

theorem not_isPass_refresh {i : ι} {env : η} : ¬ (.refresh i env : Event ι η).IsPass := by
  rintro ⟨env, h⟩
  cases h

theorem not_isPass_read {i : ι} : ¬ (.read i : Event ι η).IsPass := by
  rintro ⟨env, h⟩
  cases h

def State.write (c : Cache η δ) (s : State ι η δ) (env : η) : State ι η δ :=
  match c.fetch env with
  | none => s
  | some data => { s with data := data, flag := s.flag || c.raises, fetched := s.fetched ++ [env] }

variable {c : Cache η δ} {s : State ι η δ}

/-- The data have been fetched, or are those of a new cache. -/
structure Inv (c : Cache η δ) (new : δ) (s : State ι η δ) : Prop where
  new : s.fetched = [] → s.data = new
  data : ∀ env ∈ s.fetched.getLast?, c.fetch env = some s.data
  flag : s.flag = true → s.fetched ≠ []
  reading : (∀ env, c.fetch env ≠ none) → ∀ i, s.phase i = .reading → s.fetched ≠ []

theorem Inv.write {new : δ} (h : Inv c new s) (env : η) : Inv c new (s.write c env) := by
  rw [State.write]
  cases hfetch : c.fetch env with
  | none => exact h
  | some data =>
    have hne : s.fetched ++ [env] ≠ [] :=
      List.append_ne_nil_of_right_ne_nil _ (List.cons_ne_nil env [])
    refine ⟨fun hnil => absurd hnil hne, fun env' henv => ?_, fun _ => hne, fun _ _ _ => hne⟩
    rw [List.getLast?_concat, Option.mem_some_iff] at henv
    rw [← henv]
    exact hfetch

theorem fetched_write (c : Cache η δ) (s : State ι η δ) {env : η} (h : c.fetch env ≠ none) :
    (s.write c env).fetched ≠ [] := by
  obtain ⟨data, hdata⟩ := Option.ne_none_iff_exists'.1 h
  rw [State.write, hdata]
  exact List.append_ne_nil_of_right_ne_nil _ (List.cons_ne_nil env [])

variable [DecidableEq ι]

def State.goTo (s : State ι η δ) (i : ι) (phase : Phase) : State ι η δ :=
  { s with phase := Function.update s.phase i phase }

def step (c : Cache η δ) (s : State ι η δ) : Event ι η → State ι η δ
  | .check i =>
    if s.phase i = .idle then s.goTo i (if s.flag then .reading else .refreshing) else s
  | .refresh i env => if s.phase i = .refreshing then (s.write c env).goTo i .reading else s
  | .read i => if s.phase i = .reading then s.goTo i .idle else s
  | .pass env => s.write c env
  | .raise => if s.fetched = [] then s else { s with flag := true }

/-- The state after events, from a new cache. -/
def after (c : Cache η δ) (data : δ) (es : List (Event ι η)) : State ι η δ :=
  run (step c) { data := data } es

@[simp] theorem phase_goTo_self (s : State ι η δ) (i : ι) (phase : Phase) :
    (s.goTo i phase).phase i = phase := by
  show Function.update s.phase i phase i = phase
  exact Function.update_self i phase s.phase

@[simp] theorem phase_goTo_of_ne (s : State ι η δ) {i j : ι} (h : j ≠ i) (phase : Phase) :
    (s.goTo i phase).phase j = s.phase j := by
  show Function.update s.phase i phase j = s.phase j
  exact Function.update_of_ne h phase s.phase

/-! ## What is read -/

section Read

variable {new : δ}

theorem Inv.goTo (h : Inv c new s) (i : ι) {phase : Phase}
    (hphase : (∀ env, c.fetch env ≠ none) → phase = .reading → s.fetched ≠ []) :
    Inv c new (s.goTo i phase) := by
  refine ⟨h.new, h.data, h.flag, fun htotal j hj => ?_⟩
  by_cases hji : j = i
  · subst hji
    rw [phase_goTo_self] at hj
    exact hphase htotal hj
  · rw [phase_goTo_of_ne s hji] at hj
    exact h.reading htotal j hj

theorem Inv.step (h : Inv c new s) (e : Event ι η) : Inv c new (step c s e) := by
  cases e with
  | check i =>
    rw [FlaggedCache.step]
    split_ifs with hidle hflag
    · exact h.goTo i fun _ _ => h.flag hflag
    · exact h.goTo i fun _ hphase => absurd hphase (by simp)
    · exact h
  | refresh i env =>
    rw [FlaggedCache.step]
    split_ifs with hrefreshing
    · exact (h.write env).goTo i fun htotal _ => fetched_write c s (htotal env)
    · exact h
  | read i =>
    rw [FlaggedCache.step]
    split_ifs with hreading
    · exact h.goTo i fun _ hphase => absurd hphase (by simp)
    · exact h
  | pass env => exact h.write env
  | raise =>
    rw [FlaggedCache.step]
    split_ifs with hnil
    · exact h
    · exact ⟨h.new, h.data, fun _ => hnil, h.reading⟩

/-- **The data are those of the last refresh** that has not failed. -/
theorem inv_after (c : Cache η δ) (new : δ) (es : List (Event ι η)) :
    Inv c new (after c new es) := by
  have hnew : Inv c new ({ data := new } : State ι η δ) := by
    refine ⟨fun _ => rfl, fun env henv => ?_, fun hflag => ?_, fun _ i hi => ?_⟩
    · cases henv
    · cases hflag
    · cases hi
  exact run_invariant _ hnew (fun s e h => h.step e) es

/-- **A reader finds what the last refresh has fetched**, if none fails. -/
theorem readable (htotal : ∀ env, c.fetch env ≠ none) {es : List (Event ι η)} {i : ι}
    (h : (after c new es).phase i = .reading) :
    ∃ env, (after c new es).fetched.getLast? = some env ∧
      c.fetch env = some (after c new es).data := by
  have hinv := inv_after c new es
  have hlast := List.getLast?_eq_some_getLast (hinv.reading htotal i h)
  exact ⟨_, hlast, hinv.data _ hlast⟩

end Read

/-! ## What stays -/

/-- The flag is set, and no reader has found it unset. -/
structure Settled (data : δ) (s : State ι η δ) : Prop where
  flag : s.flag = true
  phase : ∀ i, s.phase i ≠ .refreshing
  data_eq : s.data = data

theorem Settled.goTo {data : δ} (h : Settled data s) (i : ι) {phase : Phase}
    (hphase : phase ≠ .refreshing) : Settled data (s.goTo i phase) := by
  refine ⟨h.flag, fun j => ?_, h.data_eq⟩
  by_cases hji : j = i
  · subst hji
    rwa [phase_goTo_self]
  · rw [phase_goTo_of_ne s hji]
    exact h.phase j

theorem Settled.step {data : δ} (h : Settled data s) {e : Event ι η} (he : ¬ e.IsPass) :
    Settled data (step c s e) := by
  cases e with
  | check i =>
    rw [FlaggedCache.step, if_pos h.flag]
    split_ifs with hidle
    · exact h.goTo i (by simp)
    · exact h
  | refresh i env =>
    rw [FlaggedCache.step, if_neg (h.phase i)]
    exact h
  | read i =>
    rw [FlaggedCache.step]
    split_ifs with hreading
    · exact h.goTo i (by simp)
    · exact h
  | pass env => exact absurd ⟨env, rfl⟩ he
  | raise =>
    rw [FlaggedCache.step]
    split_ifs
    · exact h
    · exact ⟨rfl, h.phase, h.data_eq⟩

/-- **Readers do not change the data any more** when the flag is set. -/
theorem stays {data : δ} {es fs : List (Event ι η)} (hflag : (after c data es).flag = true)
    (hphase : ∀ i, (after c data es).phase i ≠ .refreshing) (hfs : ∀ e ∈ fs, ¬ e.IsPass) :
    (after c data (es ++ fs)).data = (after c data es).data := by
  have hrun (s : State ι η δ) (hs : Settled (after c data es).data s) :
      Settled (after c data es).data (run (step c) s fs) := by
    induction fs generalizing s with
    | nil => exact hs
    | cons e fs ih =>
      rw [List.forall_mem_cons] at hfs
      obtain ⟨he, hfs⟩ := hfs
      exact ih hfs _ (hs.step he)
  rw [after, run_append]
  exact (hrun (after c data es) ⟨hflag, hphase, rfl⟩).data_eq

/-- **What readers find** has a property that all that is fetched has, if no refresh fails; and it
stays. -/
theorem reads_fetched {new : δ} {W : η → δ → Prop}
    (hfetch : ∀ env, ∃ data, c.fetch env = some data ∧ W env data) (es : List (Event ι η)) :
    (∀ i, (after c new es).phase i = .reading →
      ∃ env, (after c new es).fetched.getLast? = some env ∧ W env (after c new es).data) ∧
    ((after c new es).flag = true → (∀ i, (after c new es).phase i ≠ .refreshing) →
      ∀ fs, (∀ e ∈ fs, ¬ e.IsPass) →
        (after c new (es ++ fs)).data = (after c new es).data) := by
  refine ⟨fun i hi => ?_, fun hflag hphase fs hfs => stays hflag hphase hfs⟩
  have htotal : ∀ env, c.fetch env ≠ none := by
    intro env
    obtain ⟨data, hdata, -⟩ := hfetch env
    rw [hdata]
    exact Option.some_ne_none data
  obtain ⟨env, hlast, hdata⟩ := readable htotal hi
  obtain ⟨data, hdata', hW⟩ := hfetch env
  obtain rfl := Option.some.inj (hdata'.symm.trans hdata)
  exact ⟨env, hlast, hW⟩

end FlaggedCache
