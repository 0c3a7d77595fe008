import Mathlib.Algebra.Order.Ring.Abs
import Mathlib.Data.Set.Image
import Mathlib.Tactic.Linarith

/-!
# Orders that compare with a tolerance

Values carry a time and a tie-break. Two values whose times are within `ε` of each other count
as simultaneous and are compared by their tie-breaks; otherwise the later one comes first. An
ordered container needs the order to be a strict weak one on the keys it holds.

Nearness is not transitive, so neither is the comparison in general. **Theorem
(`strictWeakOn_iff`).** The order is a strict weak one on a set exactly when the set has no
*ascending chain*: three values, the second near both others, the third more than `ε` later
than the first, with tie-breaks that do not decrease. The order then ranks the first before the
second before the third by tie-break, and the third before the first by time.
-/

namespace ToleranceOrder

/-! ## Strict weak orders on a set -/

section StrictWeak

variable {α : Type*}

/-- Neither value comes before the other. -/
def Incomp (r : α → α → Prop) (a b : α) : Prop := ¬ r a b ∧ ¬ r b a

/-- `r` is a strict weak order on `S`, and its incomparable values are those `e` relates. -/
structure StrictWeakOn (r e : α → α → Prop) (S : Set α) : Prop where
  irrefl : ∀ a ∈ S, ¬ r a a
  trans : ∀ a ∈ S, ∀ b ∈ S, ∀ c ∈ S, r a b → r b c → r a c
  incomp_trans : ∀ a ∈ S, ∀ b ∈ S, ∀ c ∈ S, Incomp r a b → Incomp r b c → Incomp r a c
  incomp_iff : ∀ a ∈ S, ∀ b ∈ S, (Incomp r a b ↔ e a b)

/-- Values compared through a key: the laws hold of them when they hold of their keys. -/
theorem strictWeakOn_comap {β : Type*} (f : β → α) {r e : α → α → Prop} (S : Set β) :
    StrictWeakOn (fun a b => r (f a) (f b)) (fun a b => e (f a) (f b)) S ↔
      StrictWeakOn r e (f '' S) := by
  refine ⟨?_, ?_⟩
  · intro h
    obtain ⟨h₁, h₂, h₃, h₄⟩ := h
    exact {
      irrefl := Set.forall_mem_image.2 h₁
      trans := Set.forall_mem_image.2 fun a ha => Set.forall_mem_image.2 fun b hb =>
        Set.forall_mem_image.2 fun c hc => h₂ a ha b hb c hc
      incomp_trans := Set.forall_mem_image.2 fun a ha => Set.forall_mem_image.2 fun b hb =>
        Set.forall_mem_image.2 fun c hc => h₃ a ha b hb c hc
      incomp_iff := Set.forall_mem_image.2 fun a ha => Set.forall_mem_image.2 fun b hb =>
        h₄ a ha b hb }
  · intro h
    obtain ⟨h₁, h₂, h₃, h₄⟩ := h
    have hf := fun a (ha : a ∈ S) => Set.mem_image_of_mem f ha
    exact {
      irrefl := fun a ha => h₁ _ (hf a ha)
      trans := fun a ha b hb c hc => h₂ _ (hf a ha) _ (hf b hb) _ (hf c hc)
      incomp_trans := fun a ha b hb c hc => h₃ _ (hf a ha) _ (hf b hb) _ (hf c hc)
      incomp_iff := fun a ha b hb => h₄ _ (hf a ha) _ (hf b hb) }

end StrictWeak

/-! ## Comparison with a tolerance -/

variable {α T P : Type*} [CommRing T] [LinearOrder T] [IsStrictOrderedRing T] [LinearOrder P]
variable (ε : T) (time : α → T) (tie : α → P)

/-- The times are within the tolerance. -/
def Near (a b : α) : Prop := |time a - time b| ≤ ε

/-- Near values by tie-break, others the later first. -/
def Lt (a b : α) : Prop := (Near ε time a b ∧ tie a < tie b) ∨ ε < time a - time b

/-- Near values with the same tie-break. -/
def Eqv (a b : α) : Prop := Near ε time a b ∧ tie a = tie b

/-- An ascending chain of near values whose ends are apart. -/
structure Chain (x y z : α) : Prop where
  near_left : Near ε time x y
  near_right : Near ε time y z
  apart : ε < time z - time x
  tie_left : tie x ≤ tie y
  tie_right : tie y ≤ tie z

variable {ε time tie}

omit [IsStrictOrderedRing T] in
theorem Near.symm {a b : α} (h : Near ε time a b) : Near ε time b a := by
  rwa [Near, abs_sub_comm]

theorem Near.le {a b : α} (h : Near ε time a b) : time a - time b ≤ ε := (abs_le.1 h).2

variable (ε time) in
theorem near_or_apart (a b : α) :
    Near ε time a b ∨ ε < time a - time b ∨ ε < time b - time a := by
  rcases le_or_gt |time a - time b| ε with h | h
  · exact Or.inl h
  · rcases lt_abs.1 h with h | h
    · exact Or.inr (Or.inl h)
    · exact Or.inr (Or.inr (by linarith))

theorem not_near_of_apart {a b : α} (h : ε < time a - time b) : ¬ Near ε time a b :=
  fun hn => absurd hn.le (not_le.2 h)

/-- Incomparable values are exactly the near ones with the same tie-break. -/
theorem incomp_iff_eqv {a b : α} :
    Incomp (Lt ε time tie) a b ↔ Eqv ε time tie a b := by
  refine ⟨?_, ?_⟩
  · intro h
    obtain ⟨hab, hba⟩ := h
    rcases near_or_apart ε time a b with h | h | h
    · refine ⟨h, le_antisymm ?_ ?_⟩
      · exact not_lt.1 fun hlt => hba (Or.inl ⟨h.symm, hlt⟩)
      · exact not_lt.1 fun hlt => hab (Or.inl ⟨h, hlt⟩)
    · exact absurd (Or.inr h) hab
    · exact absurd (Or.inr h) hba
  · intro h
    obtain ⟨h, htie⟩ := h
    have h' := h.symm
    refine ⟨?_, ?_⟩ <;> rintro (⟨-, hlt⟩ | hapart)
    · exact absurd htie hlt.ne
    · exact not_near_of_apart hapart h
    · exact absurd htie hlt.ne'
    · exact not_near_of_apart hapart h'

omit [IsStrictOrderedRing T] in
theorem Lt.irrefl (hε : 0 ≤ ε) (a : α) : ¬ Lt ε time tie a a := by
  rintro (⟨-, h⟩ | h)
  · exact absurd h (lt_irrefl _)
  · rw [sub_self] at h
    exact absurd h (not_lt.2 hε)

/-- Near values are compared by their tie-breaks. -/
theorem Near.lt_iff {a b : α} (h : Near ε time a b) : Lt ε time tie a b ↔ tie a < tie b :=
  ⟨fun hlt => hlt.elim (·.2) fun hapart => absurd h (not_near_of_apart hapart),
    fun htie => Or.inl ⟨h, htie⟩⟩

/-- Without ascending chains the comparison is transitive. -/
theorem lt_trans_of_no_chain {S : Set α} (hε : 0 ≤ ε)
    (hS : ∀ x ∈ S, ∀ y ∈ S, ∀ z ∈ S, ¬ Chain ε time tie x y z)
    {a b c : α} (ha : a ∈ S) (hb : b ∈ S) (hc : c ∈ S)
    (hab : Lt ε time tie a b) (hbc : Lt ε time tie b c) : Lt ε time tie a c := by
  rcases hab with ⟨hab, htab⟩ | hab <;> rcases hbc with ⟨hbc, htbc⟩ | hbc
  · -- Both by tie-break: `c` cannot be the later one, or `a`, `b`, `c` is a chain.
    rcases near_or_apart ε time a c with h | h | h
    · exact Or.inl ⟨h, htab.trans htbc⟩
    · exact Or.inr h
    · exact absurd ⟨hab, hbc, h, htab.le, htbc.le⟩ (hS a ha b hb c hc)
  · rcases near_or_apart ε time a c with h | h | h
    · refine Or.inl ⟨h, ?_⟩
      by_contra hle
      exact hS c hc a ha b hb ⟨h.symm, hab, hbc, not_lt.1 hle, htab.le⟩
    · exact Or.inr h
    · have := hab.symm.le
      linarith
  · rcases near_or_apart ε time a c with h | h | h
    · refine Or.inl ⟨h, ?_⟩
      by_contra hle
      exact hS b hb c hc a ha ⟨hbc, h.symm, hab, htbc.le, not_lt.1 hle⟩
    · exact Or.inr h
    · have := hbc.symm.le
      linarith
  · exact Or.inr (by linarith)

/-- Without ascending chains "near with the same tie-break" is transitive. -/
theorem eqv_trans_of_no_chain {S : Set α}
    (hS : ∀ x ∈ S, ∀ y ∈ S, ∀ z ∈ S, ¬ Chain ε time tie x y z)
    {a b c : α} (ha : a ∈ S) (hb : b ∈ S) (hc : c ∈ S)
    (hab : Eqv ε time tie a b) (hbc : Eqv ε time tie b c) : Eqv ε time tie a c := by
  obtain ⟨hab, htab⟩ := hab
  obtain ⟨hbc, htbc⟩ := hbc
  refine ⟨?_, htab.trans htbc⟩
  rcases near_or_apart ε time a c with h | h | h
  · exact h
  · exact absurd ⟨hbc.symm, hab.symm, h, htbc.ge, htab.ge⟩ (hS c hc b hb a ha)
  · exact absurd ⟨hab, hbc, h, htab.le, htbc.le⟩ (hS a ha b hb c hc)

/-- An ascending chain breaks the laws: its last value comes before its first by time. -/
theorem not_chain_of_strictWeakOn {S : Set α}
    (h : StrictWeakOn (Lt ε time tie) (Eqv ε time tie) S)
    {x y z : α} (hx : x ∈ S) (hy : y ∈ S) (hz : z ∈ S) : ¬ Chain ε time tie x y z := by
  intro h
  obtain ⟨hxy, hyz, hapart, htxy, htyz⟩ := h
  have hzx : Lt ε time tie z x := Or.inr hapart
  rcases htxy.lt_or_eq with htxy | htxy
  · have hlxy : Lt ε time tie x y := Or.inl ⟨hxy, htxy⟩
    have hzy := h.trans z hz x hx y hy hzx hlxy
    exact absurd (hyz.symm.lt_iff.1 hzy) (not_lt.2 htyz)
  · rcases htyz.lt_or_eq with htyz | htyz
    · have hlyz : Lt ε time tie y z := Or.inl ⟨hyz, htyz⟩
      have hyx := h.trans y hy z hz x hx hlyz hzx
      exact absurd (hxy.symm.lt_iff.1 hyx) htxy.not_gt
    · have hixy := (h.incomp_iff x hx y hy).2 ⟨hxy, htxy⟩
      have hiyz := (h.incomp_iff y hy z hz).2 ⟨hyz, htyz⟩
      exact (h.incomp_trans x hx y hy z hz hixy hiyz).2 hzx

/-- **The comparison is a strict weak order on a set exactly when the set has no ascending
chain.** -/
theorem strictWeakOn_iff (hε : 0 ≤ ε) (S : Set α) :
    StrictWeakOn (Lt ε time tie) (Eqv ε time tie) S ↔
      ∀ x ∈ S, ∀ y ∈ S, ∀ z ∈ S, ¬ Chain ε time tie x y z := by
  refine ⟨?_, ?_⟩
  · intro h x hx y hy z hz
    exact not_chain_of_strictWeakOn h hx hy hz
  · intro hS
    exact {
      irrefl := fun a _ => Lt.irrefl hε a
      trans := fun a ha b hb c hc => lt_trans_of_no_chain hε hS ha hb hc
      incomp_trans := fun a ha b hb c hc hab hbc => by
        rw [incomp_iff_eqv] at hab hbc ⊢
        exact eqv_trans_of_no_chain hS ha hb hc hab hbc
      incomp_iff := fun a _ b _ => incomp_iff_eqv }

end ToleranceOrder
