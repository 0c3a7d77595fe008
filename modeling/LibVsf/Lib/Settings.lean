import Mathlib.Data.List.Basic

/-!
# Settings that are written one by one

Writing a setting twice is writing it once, and the order does not matter for different ones.

**Theorem (`hasAll_apply`).** After a record of settings has been applied, all of them are there.
Where they are, applying the record again changes nothing (`apply_of_hasAll`).
-/

structure Settings (μ κ ν : Type*) where
  set : μ → κ → ν → μ
  set_set : ∀ m k v, set (set m k v) k v = set m k v
  set_comm : ∀ m {k k'} v v', k ≠ k' → set (set m k v) k' v' = set (set m k' v') k v

namespace Settings

variable {μ κ ν : Type*} (S : Settings μ κ ν)

/-- A record of settings is applied. -/
def apply (m : μ) (ps : List (κ × ν)) : μ := ps.foldl (fun m p => S.set m p.1 p.2) m

/-- The setting is there: writing it would change nothing. -/
def Has (m : μ) (p : κ × ν) : Prop := S.set m p.1 p.2 = m

def HasAll (m : μ) (ps : List (κ × ν)) : Prop := ∀ p ∈ ps, S.Has m p

variable {S} {m : μ} {p : κ × ν} {ps : List (κ × ν)}

theorem has_set (m : μ) (p : κ × ν) : S.Has (S.set m p.1 p.2) p := S.set_set m p.1 p.2

theorem Has.set (h : S.Has m p) {k : κ} (hk : p.1 ≠ k) (v : ν) : S.Has (S.set m k v) p := by
  rw [Has] at h ⊢
  rw [← S.set_comm m p.2 v hk, h]

theorem Has.apply (h : S.Has m p) (hps : ∀ q ∈ ps, p.1 ≠ q.1) : S.Has (S.apply m ps) p := by
  induction ps generalizing m with
  | nil => exact h
  | cons q ps ih =>
    rw [List.forall_mem_cons] at hps
    obtain ⟨hq, hps⟩ := hps
    exact ih (h.set hq q.2) hps

/-- **After a record is applied** all its settings are there. -/
theorem hasAll_apply (hdistinct : ps.Pairwise fun p q => p.1 ≠ q.1) (m : μ) :
    S.HasAll (S.apply m ps) ps := by
  induction ps generalizing m with
  | nil =>
    intro p hp
    cases hp
  | cons q ps ih =>
    rw [List.pairwise_cons] at hdistinct
    obtain ⟨hq, hdistinct⟩ := hdistinct
    intro p hp
    rcases List.mem_cons.1 hp with rfl | hp
    · exact (has_set m p).apply hq
    · exact ih hdistinct (S.set m q.1 q.2) p hp

/-- **Applying a record that is there** changes nothing. -/
theorem apply_of_hasAll (h : S.HasAll m ps) : S.apply m ps = m := by
  induction ps with
  | nil => rfl
  | cons p ps ih =>
    rw [HasAll, List.forall_mem_cons] at h
    obtain ⟨hp, hps⟩ := h
    rw [Has] at hp
    rw [apply, List.foldl_cons, hp]
    exact ih hps

end Settings
