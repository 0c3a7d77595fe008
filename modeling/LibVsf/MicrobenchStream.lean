import LibVsf.MicrobenchRandom

/-!
# `microbench`: the stream workload

`stream_access_bandwidth` fills each half of an array from the other, again and again. The elements
are `uint64_t`s, and the last one of an odd number is in neither half.

**Theorem (`streamAccessBandwidth_eq`).** It stays within the array, and what it leaves is known:
the second half as it was, with twice the number of passes added, and in the first half one less.
-/

namespace LibVsf

namespace Microbench

/-- `bw_data[dst + i] = bw_data[src + i] + 1;` -/
def streamCopy (dst src : Nat) (bwData : List (BitVec 64)) (i : Nat) :
    Except Fault (List (BitVec 64)) :=
  match bwData[src + i]? with
  | none => .error .outOfBounds
  | some value =>
    if bwData.length ≤ dst + i then .error .outOfBounds
    else .ok (bwData.set (dst + i) (value + 1))

/-- The body of the loop: `mid` is where the second half starts. -/
def streamPass (bwStreamSize : Nat) (bwData : List (BitVec 64)) (_ : Nat) :
    Except Fault (List (BitVec 64)) :=
  let mid := bwStreamSize / 2
  (List.range mid).foldlM (streamCopy 0 mid) bwData >>= fun bwData =>
    (List.range mid).foldlM (streamCopy mid 0) bwData

def streamAccessBandwidth (bwStreamSize loopNum : Nat) (bwData : List (BitVec 64)) :
    Except Fault (List (BitVec 64)) :=
  (List.range loopNum).foldlM (streamPass bwStreamSize) bwData

/-! ## One half -/

section Stream

variable {bwData : List (BitVec 64)}

/-- Elements have been copied, from others than those. -/
structure Copied (dst src n : Nat) (bwData out : List (BitVec 64)) : Prop where
  length_eq : out.length = bwData.length
  inside : ∀ i < n, out[dst + i]? = bwData[src + i]?.map (· + 1)
  outside : ∀ k, (∀ i < n, k ≠ dst + i) → out[k]? = bwData[k]?

theorem streamCopy_ok {dst src i : Nat} (hdst : dst + i < bwData.length)
    (hsrc : src + i < bwData.length) :
    streamCopy dst src bwData i = .ok (bwData.set (dst + i) (bwData[src + i] + 1)) := by
  simp only [streamCopy, List.getElem?_eq_getElem hsrc]
  rw [if_neg (Nat.not_le.2 hdst)]

/-- **A half is copied**, if the other is not in its way. -/
theorem streamCopy_range {dst src n : Nat} (hdst : dst + n ≤ bwData.length)
    (hsrc : src + n ≤ bwData.length) (hapart : dst + n ≤ src ∨ src + n ≤ dst) :
    ∃ out, (List.range n).foldlM (streamCopy dst src) bwData = .ok out ∧
      Copied dst src n bwData out := by
  induction n with
  | zero => exact ⟨bwData, rfl, rfl, fun i hi => absurd hi (Nat.not_lt_zero i), fun _ _ => rfl⟩
  | succ n ih =>
    obtain ⟨out, hout, hlength, hinside, houtside⟩ := ih (by omega) (by omega) (by omega)
    have hdst' : dst + n < out.length := by omega
    have hsrc' : src + n < out.length := by omega
    -- the source has not been written
    have hvalue : out[src + n]? = bwData[src + n]? := houtside _ fun i hi => by omega
    refine ⟨out.set (dst + n) (out[src + n] + 1), ?_, ?_, fun i hi => ?_, fun k hk => ?_⟩
    · exact Runs.foldlM_range_succ hout (streamCopy_ok hdst' hsrc')
    · rw [List.length_set, hlength]
    · rcases Nat.lt_succ_iff_lt_or_eq.1 hi with hi | rfl
      · rw [List.getElem?_set_ne (by omega), hinside i hi]
      · rw [List.getElem?_set_self hdst', ← hvalue, List.getElem?_eq_getElem hsrc']
        rfl
    · rw [List.getElem?_set_ne fun heq => hk n (Nat.lt_succ_self n) heq.symm]
      exact houtside k fun i hi => hk i (Nat.lt_succ_of_lt hi)

/-! ## The passes -/

/-- What is left of an array after a number of passes. -/
structure Streamed (bwData : List (BitVec 64)) (passes : Nat) (out : List (BitVec 64)) : Prop where
  length_eq : out.length = bwData.length
  first : ∀ i < bwData.length / 2, 0 < passes →
    out[i]? = bwData[bwData.length / 2 + i]?.map (· + BitVec.ofNat 64 (2 * passes - 1))
  second : ∀ i < bwData.length / 2, out[bwData.length / 2 + i]? =
    bwData[bwData.length / 2 + i]?.map (· + BitVec.ofNat 64 (2 * passes))
  last : ∀ k, 2 * (bwData.length / 2) ≤ k → out[k]? = bwData[k]?

theorem streamed_zero (bwData : List (BitVec 64)) : Streamed bwData 0 bwData where
  length_eq := rfl
  first := fun _ _ hpos => absurd hpos (Nat.lt_irrefl 0)
  second := by
    intro i _
    cases bwData[bwData.length / 2 + i]? with
    | none => rfl
    | some value => simp
  last := fun _ _ => rfl

/-- **One more pass**: the first half is one more than the second, and then the second one more
than the first. -/
theorem Streamed.pass {passes : Nat} {out : List (BitVec 64)} (h : Streamed bwData passes out)
    (j : Nat) : ∃ out', streamPass bwData.length out j = .ok out' ∧
      Streamed bwData (passes + 1) out' := by
  have hlength := h.length_eq
  obtain ⟨out₁, hout₁, hcopied₁⟩ : ∃ out₁,
      (List.range (bwData.length / 2)).foldlM (streamCopy 0 (bwData.length / 2)) out = .ok out₁ ∧
        Copied 0 (bwData.length / 2) (bwData.length / 2) out out₁ :=
    streamCopy_range (by omega) (by omega) (by omega)
  have hlength₁ := hcopied₁.length_eq
  obtain ⟨out₂, hout₂, hcopied₂⟩ : ∃ out₂,
      (List.range (bwData.length / 2)).foldlM (streamCopy (bwData.length / 2) 0) out₁ = .ok out₂ ∧
        Copied (bwData.length / 2) 0 (bwData.length / 2) out₁ out₂ :=
    streamCopy_range (by omega) (by omega) (by omega)
  have hfirst (i : Nat) (hi : i < bwData.length / 2) : out₁[i]? =
      bwData[bwData.length / 2 + i]?.map (· + BitVec.ofNat 64 (2 * passes + 1)) := by
    have hcopy := hcopied₁.inside i hi
    rw [Nat.zero_add, h.second i hi] at hcopy
    rw [hcopy, Option.map_map]
    congr 1
    funext value
    rw [Function.comp_apply, BitVec.ofNat_add, BitVec.add_assoc]
    rfl
  refine ⟨out₂, Runs.bind_eq_ok.2 ⟨out₁, hout₁, hout₂⟩, ?_, fun i hi _ => ?_, fun i hi => ?_,
    fun k hk => ?_⟩
  · rw [hcopied₂.length_eq, hlength₁, hlength]
  · rw [hcopied₂.outside i fun i' _ => by omega]
    exact hfirst i hi
  · have hcopy := hcopied₂.inside i hi
    rw [Nat.zero_add, hfirst i hi] at hcopy
    rw [hcopy, Option.map_map]
    congr 1
    funext value
    have htwice : BitVec.ofNat 64 (2 * (passes + 1)) = BitVec.ofNat 64 (2 * passes + 1) + 1 := by
      rw [Nat.mul_succ, BitVec.ofNat_add, BitVec.ofNat_add, BitVec.add_assoc]
      rfl
    rw [Function.comp_apply, htwice, BitVec.add_assoc]
  · rw [hcopied₂.outside k fun i' _ => by omega, hcopied₁.outside k fun i' _ => by omega]
    exact h.last k hk

/-- **The workload stays within its array**, and leaves what its passes make of the second half. -/
theorem streamAccessBandwidth_eq (bwData : List (BitVec 64)) (loopNum : Nat) :
    ∃ out, streamAccessBandwidth bwData.length loopNum bwData = .ok out ∧
      Streamed bwData loopNum out := by
  induction loopNum with
  | zero => exact ⟨bwData, rfl, streamed_zero bwData⟩
  | succ loopNum ih =>
    obtain ⟨out, hout, hstreamed⟩ := ih
    obtain ⟨out', hout', hstreamed'⟩ := hstreamed.pass loopNum
    exact ⟨out', Runs.foldlM_range_succ hout hout', hstreamed'⟩

end Stream

end Microbench

end LibVsf
