import Mathlib.Data.List.Induction
import Mathlib.Tactic.Common

/-!
# Since

`Since p q es`: among the events `es` is one with `p`, and none with `q` has come since. Whether an
event has `p` may depend on those before it.

* `since_concat`: one more event.
* `since_append`: more events.
* `Since.not_since`: of two kinds of events, each cannot have been the last.
-/

namespace Events

def Since {ε : Type*} (p : List ε → ε → Prop) (q : ε → Prop) (es : List ε) : Prop :=
  ∃ pre e post, es = pre ++ e :: post ∧ p pre e ∧ ∀ x ∈ post, ¬ q x

variable {ε : Type*} {p : List ε → ε → Prop} {q : ε → Prop}

theorem not_since_nil : ¬ Since p q [] := by
  intro h
  obtain ⟨pre, e, post, hnil, -⟩ := h
  simp at hnil

theorem since_concat {es : List ε} {e : ε} :
    Since p q (es ++ [e]) ↔ p es e ∨ (Since p q es ∧ ¬ q e) := by
  refine ⟨?_, ?_⟩
  · intro h
    obtain ⟨pre, e', post, heq, hp, hq⟩ := h
    rcases List.eq_nil_or_concat post with rfl | ⟨post, x, rfl⟩
    · obtain ⟨rfl, hlast⟩ := List.append_inj' heq rfl
      obtain rfl : e = e' := by simpa using hlast
      exact Or.inl hp
    · rw [List.concat_eq_append, ← List.cons_append, ← List.append_assoc] at heq
      obtain ⟨rfl, hlast⟩ := List.append_inj' heq rfl
      obtain rfl : e = x := by simpa using hlast
      refine Or.inr ⟨⟨pre, e', post, rfl, hp, fun y hy => hq y ?_⟩, hq e ?_⟩
      · rw [List.concat_eq_append]
        exact List.mem_append_left _ hy
      · rw [List.concat_eq_append]
        exact List.mem_append_right _ List.mem_cons_self
  · intro h
    rcases h with hp | ⟨⟨pre, e', post, rfl, hp, hq⟩, he⟩
    · exact ⟨es, e, [], rfl, hp, fun x hx => absurd hx List.not_mem_nil⟩
    · refine ⟨pre, e', post ++ [e], by simp, hp, fun x hx => ?_⟩
      rcases List.mem_append.1 hx with hx | hx
      · exact hq x hx
      · obtain rfl := List.mem_singleton.1 hx
        exact he

/-- Further events, where `p` does not depend on those before. -/
theorem since_append {p : ε → Prop} {es fs : List ε} :
    Since (fun _ => p) q (es ++ fs) ↔
      Since (fun _ => p) q fs ∨ (Since (fun _ => p) q es ∧ ∀ x ∈ fs, ¬ q x) := by
  induction fs using List.reverseRecOn with
  | nil => simp [not_since_nil]
  | append_singleton fs e ih =>
    rw [← List.append_assoc, since_concat, since_concat, ih]
    simp only [List.mem_append, List.mem_singleton, or_imp, forall_and, forall_eq]
    tauto

theorem Since.exists_mem {es : List ε} (h : Since p q es) : ∃ pre e, e ∈ es ∧ p pre e := by
  obtain ⟨pre, e, post, rfl, hp, -⟩ := h
  exact ⟨pre, e, List.mem_append_right _ List.mem_cons_self, hp⟩

/-- **Each of two kinds of events** cannot have come since the other. -/
theorem Since.not_since {p : ε → Prop} (hpq : ∀ e, p e → ¬ q e) {es : List ε}
    (h : Since (fun _ => p) q es) : ¬ Since (fun _ => q) p es := by
  induction es using List.reverseRecOn with
  | nil => exact absurd h not_since_nil
  | append_singleton es e ih =>
    intro h'
    rw [since_concat] at h h'
    have hdisjoint := hpq e
    tauto

end Events
