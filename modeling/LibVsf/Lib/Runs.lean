import Mathlib.Data.List.Infix
import Mathlib.Tactic.Common

/-!
# Runs of a state machine

A machine is a step function; a run is the list of its inputs. Two kinds are treated: total
machines, whose step always gives a next state, and partial ones, whose step may fail.

* `run_invariant`: what every step preserves holds at the end of every run.
* `Along C`: every step of the run meets the condition `C`, read in the state before it.
* `holds_iff_along`: if, in states where `P` holds, a step preserves `P` exactly when it meets
  `C`, then `P` holds in every state a run reaches exactly when the run stays along `C`.
* `runE_ok_iff`: the same for failure. If a step succeeds exactly when it meets `C`, then a
  run succeeds exactly when it stays along `C`.
-/

namespace Runs

/-! ## Total machines -/

section Total

variable {σ ι : Type*} (step : σ → ι → σ)

/-- The state after the inputs `is`. -/
def run (s : σ) (is : List ι) : σ := is.foldl step s

@[simp] theorem run_nil (s : σ) : run step s [] = s := rfl

@[simp] theorem run_cons (s : σ) (i : ι) (is : List ι) :
    run step s (i :: is) = run step (step s i) is := rfl

theorem run_append (s : σ) (is js : List ι) :
    run step s (is ++ js) = run step (run step s is) js :=
  List.foldl_append

@[simp] theorem run_concat (s : σ) (is : List ι) (i : ι) :
    run step s (is ++ [i]) = step (run step s is) i := by
  simp [run_append]

/-- **The invariant rule.** What holds at the start and is preserved by every step holds after
every run. -/
theorem run_invariant {I : σ → Prop} {s : σ} (h : I s) (hstep : ∀ s i, I s → I (step s i))
    (is : List ι) : I (run step s is) := by
  induction is generalizing s with
  | nil => exact h
  | cons i is ih => exact ih (hstep s i h)

/-- `P` holds in every state the run reaches, the first and the last included. -/
def Holds (P : σ → Prop) (s : σ) (is : List ι) : Prop :=
  ∀ pre, pre <+: is → P (run step s pre)

/-- Every step of the run meets `C`, in the state before it. -/
def Along (C : σ → ι → Prop) : σ → List ι → Prop
  | _, [] => True
  | s, i :: is => C s i ∧ Along C (step s i) is

def decidableAlong {C : σ → ι → Prop} [∀ s i, Decidable (C s i)] :
    ∀ s is, Decidable (Along step C s is)
  | _, [] => inferInstanceAs (Decidable True)
  | s, i :: is =>
    have _ : Decidable (Along step C (step s i) is) := decidableAlong (step s i) is
    inferInstanceAs (Decidable (C s i ∧ Along step C (step s i) is))

instance {C : σ → ι → Prop} [∀ s i, Decidable (C s i)] (s : σ) (is : List ι) :
    Decidable (Along step C s is) :=
  decidableAlong step s is

theorem holds_cons {P : σ → Prop} {s : σ} {i : ι} {is : List ι} :
    Holds step P s (i :: is) ↔ P s ∧ Holds step P (step s i) is := by
  refine ⟨?_, ?_⟩
  · intro h
    exact ⟨h [] List.nil_prefix,
      fun pre hpre => h (i :: pre) (List.cons_prefix_cons.2 ⟨rfl, hpre⟩)⟩
  · rintro ⟨h0, h⟩ pre hpre
    cases pre with
    | nil => exact h0
    | cons j pre =>
      obtain ⟨rfl, hrest⟩ := List.cons_prefix_cons.1 hpre
      exact h pre hrest

theorem holds_nil {P : σ → Prop} {s : σ} : Holds step P s [] ↔ P s := by
  refine ⟨?_, ?_⟩
  · intro h
    exact h [] List.nil_prefix
  · intro h pre hpre
    rw [List.prefix_nil.1 hpre]
    exact h

/-- **Exactly the runs that stay along `C` keep `P`**, when `C` is what a step from a state with
`P` needs to keep it. `I` is an invariant the equivalence of one step may use. -/
theorem holds_iff_along {P I : σ → Prop} {C : σ → ι → Prop}
    (hI : ∀ s i, I s → I (step s i))
    (hPC : ∀ s i, I s → P s → (P (step s i) ↔ C s i))
    {s : σ} (hs : I s) (hP : P s) (is : List ι) :
    Holds step P s is ↔ Along step C s is := by
  induction is generalizing s with
  | nil => simp [holds_nil, Along, hP]
  | cons i is ih =>
    rw [holds_cons, Along]
    refine ⟨?_, ?_⟩
    · intro h
      obtain ⟨-, h⟩ := h
      have hP' : P (step s i) := h [] List.nil_prefix
      exact ⟨(hPC s i hs hP).1 hP', (ih (hI s i hs) hP').1 h⟩
    · intro h
      obtain ⟨hC, h⟩ := h
      exact ⟨hP, (ih (hI s i hs) ((hPC s i hs hP).2 hC)).2 h⟩

/-- **Runs along `C` keep `P`**, if steps that meet `C` do. -/
theorem holds_of_along {P : σ → Prop} {C : σ → ι → Prop}
    (hstep : ∀ s i, P s → C s i → P (step s i)) {s : σ} (hP : P s) {is : List ι}
    (h : Along step C s is) : Holds step P s is := by
  induction is generalizing s with
  | nil => exact (holds_nil step).2 hP
  | cons i is ih => exact (holds_cons step).2 ⟨hP, ih (hstep s i hP h.1) h.2⟩

/-- **Runs that keep `P` are along `C`**, if steps that keep it meet `C`, for inputs with `D`. -/
theorem along_of_holds {P : σ → Prop} {C : σ → ι → Prop} {D : ι → Prop}
    (hstep : ∀ s i, D i → P s → P (step s i) → C s i) {s : σ} {is : List ι}
    (hD : ∀ i ∈ is, D i) (h : Holds step P s is) : Along step C s is := by
  induction is generalizing s with
  | nil => exact trivial
  | cons i is ih =>
    obtain ⟨hDi, hDis⟩ := List.forall_mem_cons.1 hD
    obtain ⟨hP, hrest⟩ := (holds_cons step).1 h
    exact ⟨hstep s i hDi hP (hrest [] List.nil_prefix), ih hDis hrest⟩

/-- Conditions that agree in the states with an invariant, which the steps that meet them keep, are
met by the same runs. -/
theorem along_iff_along {I : σ → Prop} {C C' : σ → ι → Prop}
    (hI : ∀ s i, I s → C s i → I (step s i)) (h : ∀ s i, I s → (C s i ↔ C' s i)) {s : σ}
    (hs : I s) (is : List ι) : Along step C s is ↔ Along step C' s is := by
  induction is generalizing s with
  | nil => rfl
  | cons i is ih =>
    rw [Along, Along, ← h s i hs]
    refine and_congr_right fun hC => ?_
    exact ih (hI s i hs hC)

/-- Conditions that agree in the states with an invariant are met by the same runs. -/
theorem along_congr {I : σ → Prop} {C C' : σ → ι → Prop} (hI : ∀ s i, I s → I (step s i))
    (h : ∀ s i, I s → (C s i ↔ C' s i)) {s : σ} (hs : I s) (is : List ι) :
    Along step C s is ↔ Along step C' s is :=
  along_iff_along step (fun s i hs _ => hI s i hs) h hs is

theorem along_append {C : σ → ι → Prop} {s : σ} {is js : List ι} :
    Along step C s (is ++ js) ↔ Along step C s is ∧ Along step C (run step s is) js := by
  induction is generalizing s with
  | nil => simp [Along]
  | cons i is ih => simp [Along, ih, and_assoc]

/-- Runs along two conditions. -/
theorem along_and {C C' : σ → ι → Prop} {s : σ} {is : List ι} :
    Along step (fun s i => C s i ∧ C' s i) s is ↔ Along step C s is ∧ Along step C' s is := by
  induction is generalizing s with
  | nil => simp [Along]
  | cons i is ih => simp [Along, ih, and_and_and_comm]

/-- A run along `C` meets it at each of its steps. -/
theorem Along.at {C : σ → ι → Prop} {s : σ} {is : List ι} (h : Along step C s is)
    {pre : List ι} {i : ι} (hpre : pre ++ [i] <+: is) : C (run step s pre) i := by
  induction pre generalizing s is with
  | nil =>
    obtain ⟨rest, rfl⟩ := hpre
    exact h.1
  | cons j pre ih =>
    obtain ⟨rest, rfl⟩ := hpre
    exact ih h.2 ⟨rest, rfl⟩

end Total

/-! ## Partial machines -/

universe u v

theorem bind_eq_ok {α β : Type u} {ε : Type v} {x : Except ε α} {f : α → Except ε β} {b : β} :
    x >>= f = .ok b ↔ ∃ a, x = .ok a ∧ f a = .ok b := by
  cases x with
  | error e => simp [bind, Except.bind]
  | ok a => simp [bind, Except.bind]

/-- A computation that succeeds with a value that passes a test. -/
theorem exists_ok_of_any {α ε : Type*} {x : Except ε α} {p : α → Bool}
    (h : x.toOption.any p = true) : ∃ a, x = .ok a ∧ p a = true := by
  cases x with
  | error e => cases h
  | ok a => exact ⟨a, rfl, h⟩

section Partial

variable {σ ι ε : Type*} (step : σ → ι → Except ε σ)

/-- The state after the inputs `is`, or the first failure. -/
def runE (s : σ) : List ι → Except ε σ
  | [] => .ok s
  | i :: is => step s i >>= fun s' => runE s' is

/-- Every step of the run, up to the first that fails, meets `C` in the state before it. -/
def AlongE (C : σ → ι → Prop) : σ → List ι → Prop
  | _, [] => True
  | s, i :: is => C s i ∧ ∀ s', step s i = .ok s' → AlongE C s' is

@[simp] theorem runE_nil (s : σ) : runE step s [] = .ok s := rfl

theorem runE_cons_ok {s t : σ} {i : ι} {is : List ι} :
    runE step s (i :: is) = .ok t ↔ ∃ s', step s i = .ok s' ∧ runE step s' is = .ok t :=
  bind_eq_ok

theorem runE_append_ok {s t : σ} {is js : List ι} :
    runE step s (is ++ js) = .ok t ↔
      ∃ s', runE step s is = .ok s' ∧ runE step s' js = .ok t := by
  induction is generalizing s with
  | nil => simp
  | cons j is ih =>
    simp only [List.cons_append, runE_cons_ok, ih]
    refine ⟨?_, ?_⟩
    · intro h
      obtain ⟨s₁, hj, s', his, hi⟩ := h
      exact ⟨s', ⟨s₁, hj, his⟩, hi⟩
    · intro h
      obtain ⟨s', ⟨s₁, hj, his⟩, hi⟩ := h
      exact ⟨s₁, hj, s', his, hi⟩

theorem runE_concat_ok {s t : σ} {is : List ι} {i : ι} :
    runE step s (is ++ [i]) = .ok t ↔ ∃ s', runE step s is = .ok s' ∧ step s' i = .ok t := by
  simp [runE_append_ok, runE_cons_ok]

/-- **The simulation rule.** If a step can be taken wherever a machine beside it meets `C`, and
keeps a relation to that machine, then a run can whose inputs are along `C` there. -/
theorem exists_runE_of_along {α : Type*} {next : α → ι → α} {C : α → ι → Prop}
    {R : σ → α → Prop}
    (hstep : ∀ s a i, R s a → C a i → ∃ s', step s i = .ok s' ∧ R s' (next a i))
    {s : σ} {a : α} (h : R s a) {is : List ι} (halong : Along next C a is) :
    ∃ t, runE step s is = .ok t ∧ R t (run next a is) := by
  induction is generalizing s a with
  | nil => exact ⟨s, rfl, h⟩
  | cons i is ih =>
    obtain ⟨s', hs', hR⟩ := hstep s a i h halong.1
    obtain ⟨t, ht, hRt⟩ := ih hR halong.2
    exact ⟨t, (runE_cons_ok step).2 ⟨s', hs', ht⟩, hRt⟩

/-- A run that fails, up to the step that does. -/
theorem exists_of_runE_eq_error {s : σ} {is : List ι} {e : ε} (h : runE step s is = .error e) :
    ∃ pre i post s', is = pre ++ i :: post ∧ runE step s pre = .ok s' ∧ step s' i = .error e := by
  induction is generalizing s with
  | nil => cases h
  | cons i is ih =>
    cases hi : step s i with
    | error e' =>
      refine ⟨[], i, is, s, rfl, rfl, ?_⟩
      simp only [runE, hi] at h
      cases h
      exact hi
    | ok s₁ =>
      simp only [runE, hi] at h
      obtain ⟨pre, j, post, s', rfl, hpre, hj⟩ := ih h
      refine ⟨i :: pre, j, post, s', rfl, ?_, hj⟩
      simp only [runE, hi]
      exact hpre

/-- A fallible loop over a list is a run. -/
theorem foldlM_eq_runE (s : σ) (is : List ι) : is.foldlM step s = runE step s is := by
  induction is generalizing s with
  | nil => rfl
  | cons i is ih => simp only [List.foldlM_cons, runE, ih]

/-- A counted loop, and its last round. -/
theorem foldlM_range_succ {f : σ → Nat → Except ε σ} {s s' t : σ} {n : Nat}
    (h : (List.range n).foldlM f s = .ok s') (hlast : f s' n = .ok t) :
    (List.range (n + 1)).foldlM f s = .ok t := by
  rw [List.range_succ, List.foldlM_append, h]
  exact bind_eq_ok.2 ⟨s', rfl, bind_eq_ok.2 ⟨t, hlast, rfl⟩⟩

/-- **The invariant rule for runs that cannot fail**: a step can be taken in each state with the
invariant, and keeps it. -/
theorem exists_runE_of_invariant {I : σ → Prop} {s : σ} {is : List ι} (h : I s)
    (hstep : ∀ s i, i ∈ is → I s → ∃ s', step s i = .ok s' ∧ I s') :
    ∃ t, runE step s is = .ok t ∧ I t := by
  induction is generalizing s with
  | nil => exact ⟨s, rfl, h⟩
  | cons i is ih =>
    obtain ⟨s', hs', hI⟩ := hstep s i List.mem_cons_self h
    obtain ⟨t, ht, hIt⟩ := ih hI fun s j hj => hstep s j (List.mem_cons_of_mem i hj)
    exact ⟨t, (runE_cons_ok step).2 ⟨s', hs', ht⟩, hIt⟩

/-- The invariant rule for runs that do not fail, of steps with the inputs of the run. -/
theorem runE_invariant_mem {I : σ → Prop} {s t : σ} {is : List ι} (h : I s)
    (hstep : ∀ s i s', i ∈ is → I s → step s i = .ok s' → I s')
    (hrun : runE step s is = .ok t) : I t := by
  induction is generalizing s with
  | nil => cases hrun; exact h
  | cons i is ih =>
    obtain ⟨s', hs, hrest⟩ := (runE_cons_ok step).1 hrun
    have h' := hstep s i s' List.mem_cons_self h hs
    exact ih h' (fun s j s' hj => hstep s j s' (List.mem_cons_of_mem i hj)) hrest

/-- **The invariant rule**, for runs that do not fail. -/
theorem runE_invariant {I : σ → Prop} {s : σ} (h : I s)
    (hstep : ∀ s i s', I s → step s i = .ok s' → I s') {is : List ι} {t : σ}
    (hrun : runE step s is = .ok t) : I t :=
  runE_invariant_mem step h (fun s i s' _ => hstep s i s') hrun

/-- The invariant rule for runs that do not fail, of steps that meet `C`. -/
theorem runE_invariant_along {I : σ → Prop} {C : σ → ι → Prop} {s t : σ} {is : List ι} (h : I s)
    (hstep : ∀ s i s', I s → C s i → step s i = .ok s' → I s') (halong : AlongE step C s is)
    (hrun : runE step s is = .ok t) : I t := by
  induction is generalizing s with
  | nil => cases hrun; exact h
  | cons i is ih =>
    obtain ⟨s', hs, hrest⟩ := (runE_cons_ok step).1 hrun
    exact ih (hstep s i s' h halong.1 hs) (halong.2 s' hs) hrest

/-- The invariant rule for runs of steps that can be taken where they meet `C`. -/
theorem exists_runE_of_alongE {I : σ → Prop} {C : σ → ι → Prop} {s : σ} {is : List ι} (h : I s)
    (hstep : ∀ s i, I s → C s i → ∃ s', step s i = .ok s' ∧ I s') (halong : AlongE step C s is) :
    ∃ t, runE step s is = .ok t ∧ I t := by
  induction is generalizing s with
  | nil => exact ⟨s, rfl, h⟩
  | cons i is ih =>
    obtain ⟨s', hs', hI⟩ := hstep s i h halong.1
    obtain ⟨t, ht, hIt⟩ := ih hI (halong.2 s' hs')
    exact ⟨t, (runE_cons_ok step).2 ⟨s', hs', ht⟩, hIt⟩

/-- **Exactly the runs that stay along `C` succeed**, when `C` is what a step needs to succeed
in a state with the invariant `I`. `D` is what the inputs are promised to satisfy. -/
theorem runE_ok_iff {I : σ → Prop} {C : σ → ι → Prop} {D : ι → Prop}
    (hI : ∀ s i s', I s → D i → step s i = .ok s' → I s')
    (hC : ∀ s i, I s → D i → ((∃ s', step s i = .ok s') ↔ C s i))
    {s : σ} (hs : I s) (is : List ι) (hD : ∀ i ∈ is, D i) :
    (∃ t, runE step s is = .ok t) ↔ AlongE step C s is := by
  induction is generalizing s with
  | nil => simp [AlongE]
  | cons i is ih =>
    have hDi : D i := hD i List.mem_cons_self
    have hDis : ∀ j ∈ is, D j := fun j hj => hD j (List.mem_cons_of_mem i hj)
    simp only [runE_cons_ok, AlongE]
    rw [← hC s i hs hDi]
    refine ⟨?_, ?_⟩
    · intro h
      obtain ⟨t, s', hstep, hrest⟩ := h
      refine ⟨⟨s', hstep⟩, fun s'' hstep' => ?_⟩
      obtain rfl : s' = s'' := by simpa [hstep] using hstep'
      exact (ih (hI s i s' hs hDi hstep) hDis).1 ⟨t, hrest⟩
    · rintro ⟨⟨s', hstep⟩, hrest⟩
      obtain ⟨t, ht⟩ := (ih (hI s i s' hs hDi hstep) hDis).2 (hrest s' hstep)
      exact ⟨t, s', hstep, ht⟩

/-- A run succeeds exactly when all its inputs do, if success does not depend on the state
beyond the invariant `I`. -/
theorem runE_ok_iff_forall {I : σ → Prop} {C : ι → Prop}
    (hI : ∀ s i s', I s → step s i = .ok s' → I s')
    (hC : ∀ s i, I s → ((∃ s', step s i = .ok s') ↔ C i))
    {s : σ} (hs : I s) (is : List ι) : (∃ t, runE step s is = .ok t) ↔ ∀ i ∈ is, C i := by
  induction is generalizing s with
  | nil => simp
  | cons i is ih =>
    simp only [runE_cons_ok, List.forall_mem_cons]
    rw [← hC s i hs]
    refine ⟨?_, ?_⟩
    · intro h
      obtain ⟨t, s', hstep, hrest⟩ := h
      exact ⟨⟨s', hstep⟩, (ih (hI s i s' hs hstep)).1 ⟨t, hrest⟩⟩
    · rintro ⟨⟨s', hstep⟩, hall⟩
      obtain ⟨t, ht⟩ := (ih (hI s i s' hs hstep)).2 hall
      exact ⟨t, s', hstep, ht⟩

/-- Conditions that agree in the states with an invariant are met by the same runs. -/
theorem alongE_congr {I : σ → Prop} {C C' : σ → ι → Prop}
    (hI : ∀ s i s', I s → step s i = .ok s' → I s') (h : ∀ s i, I s → (C s i ↔ C' s i)) {s : σ}
    (hs : I s) (is : List ι) : AlongE step C s is ↔ AlongE step C' s is := by
  induction is generalizing s with
  | nil => rfl
  | cons i is ih =>
    rw [AlongE, AlongE, h s i hs]
    refine and_congr_right fun _ => forall₂_congr fun s' hstep => ?_
    exact ih (hI s i s' hs hstep)

/-- A condition that every step meets. -/
theorem alongE_of_forall {C : σ → ι → Prop} (h : ∀ s i, C s i) (s : σ) (is : List ι) :
    AlongE step C s is := by
  induction is generalizing s with
  | nil => trivial
  | cons i is ih => exact ⟨h s i, fun s' _ => ih s'⟩

/-- A run along `C` meets it at a step after a part that does not fail. -/
theorem AlongE.at {C : σ → ι → Prop} {s t : σ} {pre : List ι} {i : ι} {post : List ι}
    (h : AlongE step C s (pre ++ i :: post)) (hpre : runE step s pre = .ok t) : C t i := by
  induction pre generalizing s with
  | nil =>
    cases hpre
    exact h.1
  | cons j pre ih =>
    obtain ⟨s', hstep, hrest⟩ := (runE_cons_ok step).1 hpre
    exact ih (h.2 s' hstep) hrest

/-- **The simulation rule.** A relation to the states of a total machine that every successful
step keeps, is kept by every successful run. -/
theorem runE_simulates {τ : Type*} {astep : τ → ι → τ} {R : σ → τ → Prop} {D : ι → Prop}
    (hR : ∀ s i s' a, R s a → D i → step s i = .ok s' → R s' (astep a i))
    {s t : σ} {a : τ} {is : List ι} (h : R s a) (hD : ∀ i ∈ is, D i)
    (hrun : runE step s is = .ok t) : R t (run astep a is) := by
  induction is generalizing s a with
  | nil => cases hrun; exact h
  | cons i is ih =>
    obtain ⟨s', hstep, hrest⟩ := (runE_cons_ok step).1 hrun
    have h' := hR s i s' a h (hD i List.mem_cons_self) hstep
    exact ih h' (fun j hj => hD j (List.mem_cons_of_mem i hj)) hrest

/-- **The refinement rule.** If a step is a run of another machine, on what a map makes of the
states, then so is every run. The inputs of the other have `P` if those of the run have `D`. -/
theorem runE_refines {τ κ : Type*} {astep : τ → κ → τ} {f : σ → τ} {D : ι → Prop} {P : κ → Prop}
    (hstep : ∀ s i t, step s i = .ok t → ∃ ks, f t = run astep (f s) ks ∧ (D i → ∀ k ∈ ks, P k))
    {s t : σ} {is : List ι} (hrun : runE step s is = .ok t) :
    ∃ ks, f t = run astep (f s) ks ∧ ((∀ i ∈ is, D i) → ∀ k ∈ ks, P k) := by
  induction is generalizing s with
  | nil =>
    cases hrun
    exact ⟨[], rfl, fun _ k hk => absurd hk List.not_mem_nil⟩
  | cons i is ih =>
    obtain ⟨s', hs, hrest⟩ := (runE_cons_ok step).1 hrun
    obtain ⟨ks, hks, hP⟩ := hstep s i s' hs
    obtain ⟨ls, hls, hP'⟩ := ih hrest
    refine ⟨ks ++ ls, by rw [hls, hks, run_append], fun hD k hk => ?_⟩
    obtain ⟨hi, his⟩ := List.forall_mem_cons.1 hD
    rcases List.mem_append.1 hk with hk | hk
    · exact hP hi k hk
    · exact hP' his k hk

/-- A step may keep a further record beside the state: with `f` forgetting the record, the runs
are the same. -/
theorem runE_map {τ : Type*} {step' : τ → ι → Except ε τ} {f : τ → σ}
    (hf : ∀ t i, (step' t i).map f = step (f t) i) (t : τ) (is : List ι) :
    (runE step' t is).map f = runE step (f t) is := by
  induction is generalizing t with
  | nil => rfl
  | cons i is ih =>
    have h := hf t i
    cases hs : step' t i with
    | error e =>
      rw [hs] at h
      simp only [runE, hs, ← h]
      rfl
    | ok t' =>
      rw [hs] at h
      simp only [runE, hs, ← h]
      exact ih t'

/-- Runs that start in states with a map between them, which the steps keep and their failures
too. -/
theorem runE_mapError {τ ε' : Type*} {step' : τ → ι → Except ε' τ} {f : τ → σ} {g : ε' → ε}
    (hf : ∀ t i, step (f t) i = ((step' t i).map f).mapError g) (t : τ) (is : List ι) :
    runE step (f t) is = ((runE step' t is).map f).mapError g := by
  induction is generalizing t with
  | nil => rfl
  | cons i is ih =>
    have h := hf t i
    cases hs : step' t i with
    | error e =>
      rw [hs] at h
      simp only [runE, hs, h]
      rfl
    | ok t' =>
      rw [hs] at h
      simp only [runE, hs, h]
      exact ih t'

theorem map_eq_ok {α β : Type*} {f : α → β} {x : Except ε α} {b : β} :
    x.map f = .ok b ↔ ∃ a, x = .ok a ∧ f a = b := by
  cases x with
  | error e => simp [Except.map]
  | ok a => simp [Except.map]

end Partial

end Runs
