import Mathlib.Dynamics.PeriodicPts.Lemmas

/-!
# Shift registers with feedback

A register moves its bits down by one. Where the bit that is lost is set, a mask is added, without
carries. If bit `k` is the highest of the mask, it tells after a step which bit was lost, so that no
word with these bits is reached from two others.

* `getLsbD_step`: a step, bit by bit.
* `step_within`, `step_injOn`: words of `k + 1` bits stay there, and steps can be undone.
* `step_ne_zero`: hence only zero is followed by zero.
* `exists_period`: each word that is not zero comes back.
-/

namespace ShiftRegister

variable {w : Nat}

/-- A step of the register. -/
def step (mask x : BitVec w) : BitVec w := (x >>> 1) ^^^ (if x.getLsbD 0 then mask else 0#w)

/-- There is no bit from `n` on. -/
def Within (n : Nat) (x : BitVec w) : Prop := ∀ i, n ≤ i → x.getLsbD i = false

theorem within_iff {n : Nat} {x : BitVec w} : Within n x ↔ x.toNat < 2 ^ n := by
  constructor
  · intro h
    refine Nat.lt_pow_two_of_testBit _ fun i hi => ?_
    rw [BitVec.testBit_toNat]
    exact h i hi
  · intro h i hi
    rw [← BitVec.testBit_toNat]
    exact Nat.testBit_lt_two_pow (Nat.lt_of_lt_of_le h (Nat.pow_le_pow_right Nat.two_pos hi))

theorem getLsbD_step (mask x : BitVec w) (i : Nat) :
    (step mask x).getLsbD i = (x.getLsbD (i + 1) ^^ (x.getLsbD 0 && mask.getLsbD i)) := by
  rw [step, BitVec.getLsbD_xor, BitVec.getLsbD_ushiftRight, Nat.add_comm 1 i]
  by_cases hlost : x.getLsbD 0 = true
  · simp [hlost]
  · simp [hlost]

section Feedback

variable {k : Nat} {mask : BitVec w}

/-- Words stay in the register. -/
theorem step_within (hmask : Within (k + 1) mask) {x : BitVec w} (hx : Within (k + 1) x) :
    Within (k + 1) (step mask x) := by
  intro i hi
  rw [getLsbD_step, hx (i + 1) (Nat.le_succ_of_le hi), hmask i hi, Bool.and_false, Bool.false_xor]

/-- **The highest bit is the one that was lost.** -/
theorem getLsbD_step_top (htop : mask.getLsbD k = true) {x : BitVec w} (hx : Within (k + 1) x) :
    (step mask x).getLsbD k = x.getLsbD 0 := by
  rw [getLsbD_step, hx (k + 1) (Nat.le_refl _), htop, Bool.and_true, Bool.false_xor]

/-- **Steps can be undone.** -/
theorem step_injOn (htop : mask.getLsbD k = true) :
    Set.InjOn (step mask) {x | Within (k + 1) x} := by
  intro x hx y hy heq
  have hlost : x.getLsbD 0 = y.getLsbD 0 := by
    rw [← getLsbD_step_top htop hx, ← getLsbD_step_top htop hy, heq]
  refine BitVec.eq_of_getLsbD_eq fun i _ => ?_
  cases i with
  | zero => exact hlost
  | succ i =>
    have hbit := congrArg (fun z => z.getLsbD i) heq
    simp only [getLsbD_step, hlost] at hbit
    exact Bool.xor_left_inj.1 hbit

theorem step_zero (mask : BitVec w) : step mask 0#w = 0#w := by
  refine BitVec.eq_of_getLsbD_eq fun i _ => ?_
  simp [getLsbD_step]

/-- Only zero is followed by zero. -/
theorem step_ne_zero (htop : mask.getLsbD k = true) {x : BitVec w} (hx : Within (k + 1) x)
    (hne : x ≠ 0#w) : step mask x ≠ 0#w := by
  have hzero : Within (k + 1) (0#w) := fun i _ => BitVec.getLsbD_zero
  intro h
  exact hne (step_injOn htop hx hzero (h.trans (step_zero mask).symm))

/-- The words of the register other than zero. -/
def words (w k : Nat) : Set (BitVec w) := {x | Within (k + 1) x ∧ x ≠ 0#w}

theorem step_mapsTo (hmask : Within (k + 1) mask) (htop : mask.getLsbD k = true) :
    Set.MapsTo (step mask) (words w k) (words w k) :=
  fun _ hx => ⟨step_within hmask hx.1, step_ne_zero htop hx.1 hx.2⟩

theorem step_injOn_words (htop : mask.getLsbD k = true) : Set.InjOn (step mask) (words w k) :=
  (step_injOn htop).mono fun _ hx => hx.1

/-- **Each word comes back.** -/
theorem exists_period (hmask : Within (k + 1) mask) (htop : mask.getLsbD k = true) {x : BitVec w}
    (hx : x ∈ words w k) : ∃ n, 0 < n ∧ (step mask)^[n] x = x := by
  have hmaps : Set.MapsTo (step mask) (words w k) (words w k) := step_mapsTo hmask htop
  have hinj : Function.Injective (hmaps.restrict (step mask) (words w k) (words w k)) :=
    hmaps.restrict_inj.2 (step_injOn_words htop)
  have hfinite : Finite (words w k) :=
    Finite.of_injective (fun x => x.val.toFin) fun x y hxy => Subtype.ext (BitVec.toFin_inj.1 hxy)
  obtain ⟨n, hn, hperiod⟩ := hinj.mem_periodicPts ⟨x, hx⟩
  refine ⟨n, hn, ?_⟩
  rw [← hmaps.coe_iterate_restrict ⟨x, hx⟩ n, hperiod]

end Feedback

end ShiftRegister
