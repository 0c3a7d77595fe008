import Mathlib.Data.List.GetD
import Mathlib.Tactic.Common

/-!
# Sets of numbers as the bits of words

A set of numbers in an array of 64-bit words: the number `c` is bit `c % 64` of word `c / 64`.

* `mem_setBit`: setting a bit that is in the array adds its number.
* `mem_zeros`: words that are zero hold no number.
-/

namespace BitWords

/-- The bit of a number is set. -/
def Mem (c : Nat) (words : List (BitVec 64)) : Prop := (words.getD (c / 64) 0).getLsbD (c % 64)

instance (c : Nat) (words : List (BitVec 64)) : Decidable (Mem c words) := by
  unfold Mem
  infer_instance

/-- Nothing happens beyond the array. -/
def setBit (c : Nat) (words : List (BitVec 64)) : List (BitVec 64) :=
  words.modify (c / 64) fun word => word ||| 1#64 <<< (c % 64)

def zeros (n : Nat) : List (BitVec 64) := List.replicate n 0

@[simp] theorem length_setBit (c : Nat) (words : List (BitVec 64)) :
    (setBit c words).length = words.length :=
  List.length_modify _ _ _

@[simp] theorem length_zeros (n : Nat) : (zeros n).length = n := List.length_replicate

theorem Mem.lt {c : Nat} {words : List (BitVec 64)} (h : Mem c words) :
    c / 64 < words.length := by
  by_contra hge
  have hzero : words.getD (c / 64) 0 = 0 := List.getD_eq_default _ _ (Nat.le_of_not_lt hge)
  rw [Mem, hzero] at h
  simp at h

theorem mem_zeros {c n : Nat} : ¬ Mem c (zeros n) := by
  intro h
  have hlt := h.lt
  rw [length_zeros] at hlt
  have hzero : (zeros n).getD (c / 64) 0 = 0 := by
    simp [zeros, List.getD_eq_getElem?_getD, hlt]
  rw [Mem, hzero] at h
  simp at h

/-- **Setting a bit** adds its number. -/
theorem mem_setBit {c : Nat} {words : List (BitVec 64)} (hc : c / 64 < words.length) (b : Nat) :
    Mem b (setBit c words) ↔ b = c ∨ Mem b words := by
  by_cases hword : c / 64 = b / 64
  · have hget : (setBit c words).getD (b / 64) 0 =
        words.getD (b / 64) 0 ||| 1#64 <<< (c % 64) := by
      rw [hword] at hc
      simp [setBit, hword, List.getD_eq_getElem?_getD, hc]
    have hbit : b = c ↔ b % 64 = c % 64 := by omega
    have hlt : b % 64 < 64 := Nat.mod_lt _ (by decide)
    rw [Mem, Mem, hget, hbit, BitVec.getLsbD_or, BitVec.getLsbD_shiftLeft, BitVec.getLsbD_one]
    simp only [Bool.or_eq_true, Bool.and_eq_true, decide_eq_true_eq, Bool.not_eq_true',
      decide_eq_false_iff_not]
    rw [or_comm]
    refine or_congr_left ?_
    omega
  · have hget : (setBit c words).getD (b / 64) 0 = words.getD (b / 64) 0 := by
      simp [setBit, List.getD_eq_getElem?_getD, hword]
    have hne : b ≠ c := by
      rintro rfl
      exact hword rfl
    rw [Mem, Mem, hget, or_iff_right hne]

end BitWords
