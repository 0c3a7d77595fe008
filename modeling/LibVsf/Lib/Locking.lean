import LibVsf.Lib.Runs

/-!
# Locked sections that can throw

A state is guarded by a mutex. A call runs one or more sections, each with the mutex held, and a
section may end by an exception, which leaves what it had changed. The mutex is taken either by a
scoped lock, which gives it back on every way out (`uniqueLock`), or by hand, which gives it back
only at the end of the section (`byHand`). Taking a mutex that is held blocks forever.

**Theorem (`holds_free_iff`).** If each call leaves the mutex free exactly when it meets `C`, the
mutex is free after every call of a run, and no call blocks, exactly if all calls meet `C`.
-/

namespace Locking

open Runs

variable {σ ε ι : Type*}

/-- A state, and whether its mutex is held. -/
structure Guarded (σ : Type*) where
  state : σ
  locked : Bool := false

/-- A section; one that throws leaves what it had changed. -/
abbrev Body (ε σ : Type*) := σ → Except (ε × σ) σ

inductive Outcome (ε σ : Type*) where
  | returned (g : Guarded σ)
  | threw (e : ε) (g : Guarded σ)
  | blocked

namespace Outcome

/-- What the next call finds; nothing, if this one never ends. -/
def next : Outcome ε σ → Option (Guarded σ)
  | .returned g => some g
  | .threw _ g => some g
  | .blocked => none

/-- The rest of a call, unless an exception ends it. -/
def andThen (o : Outcome ε σ) (f : Guarded σ → Outcome ε σ) : Outcome ε σ :=
  match o with
  | .returned g => f g
  | .threw e g => .threw e g
  | .blocked => .blocked

end Outcome

/-- `lock()`, the section, `unlock()`. -/
def byHand (body : Body ε σ) (g : Guarded σ) : Outcome ε σ :=
  if g.locked then .blocked
  else
    match body g.state with
    | .ok s => .returned ⟨s, false⟩
    | .error (e, s) => .threw e ⟨s, true⟩

/-- The section in the scope of a `unique_lock`. -/
def uniqueLock (body : Body ε σ) (g : Guarded σ) : Outcome ε σ :=
  if g.locked then .blocked
  else
    match body g.state with
    | .ok s => .returned ⟨s, false⟩
    | .error (e, s) => .threw e ⟨s, false⟩

/-- No call has blocked, and the mutex is free. -/
def Free (o : Option (Guarded σ)) : Prop := ∃ g, o = some g ∧ g.locked = false

theorem free_some (s : σ) : Free (some ⟨s, false⟩) := ⟨_, rfl, rfl⟩

/-- **By hand, the mutex is free after a section exactly if it does not throw.** -/
theorem free_byHand_andThen {body : Body ε σ} {f : Guarded σ → Outcome ε σ} {g : Guarded σ}
    (h : g.locked = false) :
    Free ((byHand body g).andThen f).next ↔
      ∃ s, body g.state = .ok s ∧ Free (f ⟨s, false⟩).next := by
  simp only [byHand, h, Bool.false_eq_true, if_false]
  cases hbody : body g.state with
  | ok s => simp [Outcome.andThen]
  | error p => simp [Outcome.andThen, Outcome.next, Free]

/-- In a scope it is free after every section. -/
theorem free_uniqueLock_andThen {body : Body ε σ} {f : Guarded σ → Outcome ε σ} {g : Guarded σ}
    (h : g.locked = false) (hf : ∀ s, Free (f ⟨s, false⟩).next) :
    Free ((uniqueLock body g).andThen f).next := by
  simp only [uniqueLock, h, Bool.false_eq_true, if_false]
  cases body g.state with
  | ok s => exact hf s
  | error p => exact free_some p.2

theorem free_uniqueLock {body : Body ε σ} {g : Guarded σ} (h : g.locked = false) :
    Free (uniqueLock body g).next := by
  simp only [uniqueLock, h, Bool.false_eq_true, if_false]
  cases body g.state with
  | ok s => exact free_some s
  | error p => exact free_some p.2

/-! ## Runs of calls -/

/-- A call, in what the one before has left. -/
def call (op : ι → Guarded σ → Outcome ε σ) (o : Option (Guarded σ)) (i : ι) :
    Option (Guarded σ) :=
  o.bind fun g => (op i g).next

/-- The call meets `C` in the state it finds. -/
def Meets (C : σ → ι → Prop) (o : Option (Guarded σ)) (i : ι) : Prop :=
  ∀ g, o = some g → C g.state i

/-- **The mutex is free after every call of a run, and none blocks, exactly if every call meets
what it needs to leave it free.** -/
theorem holds_free_iff {op : ι → Guarded σ → Outcome ε σ} {C : σ → ι → Prop}
    (hop : ∀ i g, g.locked = false → (Free (op i g).next ↔ C g.state i)) (s : σ) (is : List ι) :
    Holds (call op) Free (some ⟨s, false⟩) is ↔
      Along (call op) (Meets C) (some ⟨s, false⟩) is := by
  refine holds_iff_along (call op) (I := fun _ => True) (fun _ _ _ => trivial)
    (fun o i _ hfree => ?_) trivial (free_some s) is
  obtain ⟨g, rfl, hg⟩ := hfree
  simp only [call, Option.bind_some, Meets, Option.some.injEq, forall_eq', hop i g hg]

/-! ## Sections made of calls -/

/-- The calls of a section, with what each does when it returns. -/
abbrev Steps (κ σ : Type*) := List (κ × (σ → σ))

/-- A call of a section; `throws` says which end by an exception. -/
def perform {κ : Type*} (throws : κ → Option ε) (s : σ) (step : κ × (σ → σ)) :
    Except (ε × σ) σ :=
  match throws step.1 with
  | none => .ok (step.2 s)
  | some e => .error (e, s)

/-- **A section of calls returns exactly if none of them throws.** -/
theorem runE_perform_ok_iff {κ : Type*} (throws : κ → Option ε) (s : σ) (steps : Steps κ σ) :
    (∃ s', runE (perform throws) s steps = .ok s') ↔
      ∀ c ∈ steps.map Prod.fst, throws c = none := by
  have hstep (s : σ) (step : κ × (σ → σ)) :
      (∃ s', perform throws s step = .ok s') ↔ throws step.1 = none := by
    simp only [perform]
    cases throws step.1 <;> simp
  rw [runE_ok_iff_forall (perform throws) (I := fun _ => True) (fun _ _ _ _ _ => trivial)
    (fun s step _ => hstep s step) trivial steps]
  simp only [List.mem_map, forall_exists_index, and_imp, forall_apply_eq_imp_iff₂]

/-- What it leaves then. -/
theorem runE_perform {κ : Type*} {throws : κ → Option ε} {steps : Steps κ σ}
    (h : ∀ c ∈ steps.map Prod.fst, throws c = none) (s : σ) :
    runE (perform throws) s steps = .ok (steps.foldl (fun s step => step.2 s) s) := by
  induction steps generalizing s with
  | nil => rfl
  | cons step steps ih =>
    obtain ⟨hstep, hsteps⟩ := List.forall_mem_cons.1 h
    simp only [runE, perform, hstep, List.foldl_cons]
    exact ih hsteps (step.2 s)

/-- **A call that begins with a section of calls, by hand, and goes on in scopes** leaves the mutex
free exactly if none of those calls throws. -/
theorem free_byHand_perform {κ : Type*} {throws : κ → Option ε} {enter : σ → σ}
    {steps : σ → Steps κ σ} {f : Guarded σ → Outcome ε σ} {g : Guarded σ} (h : g.locked = false)
    (hf : ∀ s, Free (f ⟨s, false⟩).next) :
    Free ((byHand (fun s => runE (perform throws) (enter s) (steps s)) g).andThen f).next ↔
      ∀ c ∈ (steps g.state).map Prod.fst, throws c = none := by
  rw [free_byHand_andThen h, ← runE_perform_ok_iff throws (enter g.state)]
  exact exists_congr fun s => and_iff_left (hf s)

/-- What every call keeps, a section keeps, also one that throws. -/
theorem perform_invariant {κ : Type*} (throws : κ → Option ε) {I : σ → Prop} {s : σ}
    {steps : Steps κ σ} (h : I s) (hsteps : ∀ step ∈ steps, ∀ s, I s → I (step.2 s)) :
    (∀ s', runE (perform throws) s steps = .ok s' → I s') ∧
      ∀ e s', runE (perform throws) s steps = .error (e, s') → I s' := by
  induction steps generalizing s with
  | nil =>
    refine ⟨?_, ?_⟩
    · rintro s' ⟨⟩
      exact h
    · rintro e s' ⟨⟩
  | cons step steps ih =>
    obtain ⟨hstep, hrest⟩ := List.forall_mem_cons.1 hsteps
    simp only [runE, perform]
    cases throws step.1 with
    | none => exact ih (hstep s h) hrest
    | some e =>
      refine ⟨?_, ?_⟩
      · rintro s' ⟨⟩
      · rintro e' s' ⟨⟩
        exact h

end Locking
