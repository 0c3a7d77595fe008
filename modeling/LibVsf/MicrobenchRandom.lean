import LibVsf.Lib.Runs
import LibVsf.Lib.ShiftRegister
import LibVsf.Microbench

/-!
# `microbench`: the random workload

`single_static_assignment` touches places of an array that a shift register picks. The register is a
`uint64_t`, and its mask an `unsigned` of 32 bits.

**The generator** (`lrand_generates`). From a seed of 32 bits that is not zero, it stays among such
numbers and comes back to the seed; every index is in the array.

**The workload** (`singleStaticAssignment_ok`). It reads and writes within its arrays.
-/

namespace LibVsf

namespace Microbench

/-! ## The generator -/

inductive Fault where
  | divisionByZero
  /-- An index beyond an array. -/
  | outOfBounds
deriving DecidableEq, Repr

/-- `MASK`, an `unsigned`. -/
def mask : BitVec 32 := 0xd0000001#32

/-- `lrand`: what `lfsr` is assigned. `MASK` is widened, since the other operand is a `uint64_t`. -/
def lrand (lfsr : BitVec 64) : BitVec 64 :=
  (lfsr >>> 1) ^^^ (-(lfsr &&& 1#64) &&& mask.setWidth 64)

/-- `rnum`: an index, and what `lfsr` is assigned. -/
def rnum (workingSetSize lfsr : BitVec 64) : Except Fault (BitVec 64 × BitVec 64) :=
  if workingSetSize = 0#64 then .error .divisionByZero
  else .ok (lrand lfsr % workingSetSize, lrand lfsr)

/-- `timeseed.tv_usec % 11 + 1`, as a `uint64_t`. -/
def seed (tvUsec : Int) : BitVec 64 := BitVec.ofInt 64 (tvUsec.tmod 11 + 1)

/-- From `1` to `2 ^ 32 - 1`. -/
def seeds : Set (BitVec 64) := {x | 1 ≤ x.toNat ∧ x.toNat ≤ 4294967295}

/-- The negation of the lowest bit selects the whole mask or nothing. -/
theorem lrand_eq : lrand = ShiftRegister.step (mask.setWidth 64) := by
  funext lfsr
  have hlowest : lfsr &&& 1#64 = (BitVec.ofBool (lfsr.getLsbD 0)).setWidth 64 :=
    BitVec.and_one_eq_setWidth_ofBool_getLsbD
  by_cases hlost : lfsr.getLsbD 0 = true
  · have hones : -(BitVec.ofBool true).setWidth 64 = BitVec.allOnes 64 := by decide
    rw [lrand, ShiftRegister.step, hlowest, hlost, if_pos rfl, hones, BitVec.allOnes_and]
  · have hzero : -(BitVec.ofBool false).setWidth 64 = 0#64 := by decide
    rw [Bool.not_eq_true] at hlost
    rw [lrand, ShiftRegister.step, hlowest, hlost, if_neg Bool.false_ne_true, hzero,
      BitVec.zero_and]

theorem mask_within : ShiftRegister.Within 32 (mask.setWidth 64) :=
  ShiftRegister.within_iff.2 (by decide)

theorem mask_top : (mask.setWidth 64).getLsbD 31 = true := by decide

theorem seeds_eq : seeds = ShiftRegister.words 64 31 := by
  ext x
  have hzero : x ≠ 0#64 ↔ 1 ≤ x.toNat := by
    rw [Nat.one_le_iff_ne_zero, ne_eq, ne_eq, ← BitVec.toNat_inj, BitVec.toNat_zero]
  simp only [seeds, ShiftRegister.words, Set.mem_ofPred_eq, ShiftRegister.within_iff, hzero]
  omega

theorem lrand_mapsTo : Set.MapsTo lrand seeds seeds := by
  rw [lrand_eq, seeds_eq]
  exact ShiftRegister.step_mapsTo mask_within mask_top

theorem lrand_injOn : Set.InjOn lrand seeds := by
  rw [lrand_eq, seeds_eq]
  exact ShiftRegister.step_injOn_words mask_top

theorem exists_period {lfsr : BitVec 64} (h : lfsr ∈ seeds) :
    ∃ k, 0 < k ∧ ∀ n, lrand^[n + k] lfsr = lrand^[n] lfsr := by
  rw [seeds_eq] at h
  obtain ⟨k, hk, hperiod⟩ := ShiftRegister.exists_period mask_within mask_top h
  refine ⟨k, hk, fun n => ?_⟩
  rw [Function.iterate_add_apply, lrand_eq, hperiod]

/-- An index is in an array of the size. -/
theorem rnum_ok {workingSetSize : BitVec 64} (h : workingSetSize ≠ 0#64) (lfsr : BitVec 64) :
    ∃ index, rnum workingSetSize lfsr = .ok (index, lrand lfsr) ∧
      index.toNat < workingSetSize.toNat := by
  have hpos : 0 < workingSetSize.toNat := by
    rw [Nat.pos_iff_ne_zero, ne_eq, ← BitVec.toNat_zero, BitVec.toNat_inj]
    exact h
  refine ⟨lrand lfsr % workingSetSize, if_neg h, ?_⟩
  rw [BitVec.toNat_umod]
  exact Nat.mod_lt _ hpos

theorem seed_bounds {tvUsec : Int} (h : 0 ≤ tvUsec) :
    1 ≤ (seed tvUsec).toNat ∧ (seed tvUsec).toNat ≤ 11 := by
  have hmod : tvUsec.tmod 11 = tvUsec % 11 := Int.tmod_eq_emod_of_nonneg h
  have hval : (seed tvUsec).toNat = (tvUsec % 11 + 1).toNat := by
    rw [seed, hmod, BitVec.toNat_ofInt]
    omega
  rw [hval]
  omega

/-- **The generator** stays among its seeds, does not stop, comes back, and its indices are in the
array. -/
theorem lrand_generates :
    (∀ tvUsec : Int, 0 ≤ tvUsec → 1 ≤ (seed tvUsec).toNat ∧ (seed tvUsec).toNat ≤ 11) ∧
      Set.InjOn lrand seeds ∧
      ∀ lfsr ∈ seeds,
        (∀ n, lrand^[n] lfsr ∈ seeds) ∧
        (∃ k, 0 < k ∧ ∀ n, lrand^[n + k] lfsr = lrand^[n] lfsr) ∧
        ∀ workingSetSize, workingSetSize ≠ 0#64 → ∀ n, ∃ index,
          rnum workingSetSize (lrand^[n] lfsr) = .ok (index, lrand^[n + 1] lfsr) ∧
            index.toNat < workingSetSize.toNat := by
  refine ⟨fun _ h => seed_bounds h, lrand_injOn, fun lfsr h => ⟨fun n => ?_, exists_period h, ?_⟩⟩
  · exact lrand_mapsTo.iterate n h
  · intro workingSetSize hsize n
    rw [Function.iterate_succ_apply']
    exact rnum_ok hsize _

/-! ## The workload -/

/-- The variables of a thread: `lfsr`, and the arrays. -/
structure Bench where
  lfsr : BitVec 64
  dump : List (BitVec 64)
  dataChunk : List (BitVec 64)

/-- `dump[k]+=data_chunk[rnum(lfsr)]++;` -/
def touch (workingSetSize : BitVec 64) (s : Bench) (k : Nat) : Except Fault Bench :=
  rnum workingSetSize s.lfsr >>= fun (index, lfsr) =>
    match s.dataChunk[index.toNat]?, s.dump[k]? with
    | some value, some sum =>
      .ok { lfsr := lfsr
            dump := s.dump.set k (sum + value)
            dataChunk := s.dataChunk.set index.toNat (value + 1) }
    | _, _ => .error .outOfBounds

/-- `data_chunk[dst + j] = data_chunk[src + j] + 1;` -/
def copy (dst src : Nat) (s : Bench) (j : Nat) : Except Fault Bench :=
  match s.dataChunk[src + j]? with
  | none => .error .outOfBounds
  | some value =>
    if s.dataChunk.length ≤ dst + j then .error .outOfBounds
    else .ok { s with dataChunk := s.dataChunk.set (dst + j) (value + 1) }

/-- The 100 statements of the inner loop. -/
def touchAll (workingSetSize : BitVec 64) (s : Bench) (_ : Nat) : Except Fault Bench :=
  (List.range 100).foldlM (touch workingSetSize) s

/-- The body of the loop: places that the register picks, and then each half from the other. -/
def pass (workingSetSize : BitVec 64) (s : Bench) (_ : Nat) : Except Fault Bench :=
  let mid := workingSetSize.toNat / 2
  (List.range (workingSetSize.toNat / 800)).foldlM (touchAll workingSetSize) s >>= fun s =>
    (List.range mid).foldlM (copy 0 mid) s >>= fun s =>
      (List.range mid).foldlM (copy mid 0) s

def singleStaticAssignment (workingSetSize : BitVec 64) (loopNum : Nat) (tvUsec : Int)
    (dump dataChunk : List (BitVec 64)) : Except Fault Bench :=
  (List.range loopNum).foldlM (pass workingSetSize)
    { lfsr := seed tvUsec, dump := dump, dataChunk := dataChunk }

/-- The arrays have the sizes that `thread_main` allocates. -/
structure Bench.Ok (workingSetSize : BitVec 64) (s : Bench) : Prop where
  lfsr_mem : s.lfsr ∈ seeds
  length_dump : s.dump.length = 100
  length_dataChunk : s.dataChunk.length = workingSetSize.toNat

section Workload

variable {workingSetSize : BitVec 64} {s : Bench}

theorem touch_ok (h : s.Ok workingSetSize) (hsize : workingSetSize ≠ 0#64) {k : Nat}
    (hk : k < 100) : ∃ s', touch workingSetSize s k = .ok s' ∧ s'.Ok workingSetSize := by
  obtain ⟨index, hrnum, hindex⟩ := rnum_ok hsize s.lfsr
  rw [← h.length_dataChunk] at hindex
  rw [← h.length_dump] at hk
  have hvalue := List.getElem?_eq_getElem hindex
  have hsum := List.getElem?_eq_getElem hk
  refine ⟨⟨lrand s.lfsr, s.dump.set k (s.dump[k] + s.dataChunk[index.toNat]),
    s.dataChunk.set index.toNat (s.dataChunk[index.toNat] + 1)⟩, ?_, ?_⟩
  · rw [touch, hrnum]
    show (match s.dataChunk[index.toNat]?, s.dump[k]? with
      | some value, some sum => Except.ok (Bench.mk _ _ _)
      | _, _ => .error Fault.outOfBounds) = _
    rw [hvalue, hsum]
  · refine ⟨lrand_mapsTo h.lfsr_mem, ?_, ?_⟩
    · rw [List.length_set, h.length_dump]
    · rw [List.length_set, h.length_dataChunk]

theorem copy_ok (h : s.Ok workingSetSize) {dst src j : Nat} (hdst : dst + j < workingSetSize.toNat)
    (hsrc : src + j < workingSetSize.toNat) :
    ∃ s', copy dst src s j = .ok s' ∧ s'.Ok workingSetSize := by
  rw [← h.length_dataChunk] at hdst hsrc
  have hvalue := List.getElem?_eq_getElem hsrc
  refine ⟨{ s with dataChunk := s.dataChunk.set (dst + j) (s.dataChunk[src + j] + 1) }, ?_,
    h.lfsr_mem, h.length_dump, ?_⟩
  · simp only [copy, hvalue]
    rw [if_neg (Nat.not_le.2 hdst)]
  · rw [List.length_set, h.length_dataChunk]

theorem touchAll_ok (h : s.Ok workingSetSize) (hsize : workingSetSize ≠ 0#64) (i : Nat) :
    ∃ s', touchAll workingSetSize s i = .ok s' ∧ s'.Ok workingSetSize := by
  rw [touchAll, Runs.foldlM_eq_runE]
  exact Runs.exists_runE_of_invariant _ h fun s k hk hs =>
    touch_ok hs hsize (List.mem_range.1 hk)

/-- A half is copied to the other. -/
theorem copyAll_ok (h : s.Ok workingSetSize) {dst src n : Nat}
    (hdst : dst + n ≤ workingSetSize.toNat) (hsrc : src + n ≤ workingSetSize.toNat) :
    ∃ s', (List.range n).foldlM (copy dst src) s = .ok s' ∧ s'.Ok workingSetSize := by
  rw [Runs.foldlM_eq_runE]
  refine Runs.exists_runE_of_invariant _ h fun s j hj hs => ?_
  have hj := List.mem_range.1 hj
  exact copy_ok hs (by omega) (by omega)

theorem pass_ok (h : s.Ok workingSetSize) (i : Nat) :
    ∃ s', pass workingSetSize s i = .ok s' ∧ s'.Ok workingSetSize := by
  -- an array without elements is not touched
  have htouch : ∃ s', (List.range (workingSetSize.toNat / 800)).foldlM (touchAll workingSetSize) s =
      .ok s' ∧ s'.Ok workingSetSize := by
    rw [Runs.foldlM_eq_runE]
    refine Runs.exists_runE_of_invariant _ h fun s j hj hs => touchAll_ok hs ?_ j
    rintro rfl
    exact absurd (List.mem_range.1 hj) (Nat.not_lt_zero j)
  obtain ⟨s₁, hs₁, hok₁⟩ := htouch
  obtain ⟨s₂, hs₂, hok₂⟩ : ∃ s', (List.range (workingSetSize.toNat / 2)).foldlM
      (copy 0 (workingSetSize.toNat / 2)) s₁ = .ok s' ∧ s'.Ok workingSetSize :=
    copyAll_ok hok₁ (by omega) (by omega)
  obtain ⟨s₃, hs₃, hok₃⟩ : ∃ s', (List.range (workingSetSize.toNat / 2)).foldlM
      (copy (workingSetSize.toNat / 2) 0) s₂ = .ok s' ∧ s'.Ok workingSetSize :=
    copyAll_ok hok₂ (by omega) (by omega)
  exact ⟨s₃, Runs.bind_eq_ok.2 ⟨s₁, hs₁, Runs.bind_eq_ok.2 ⟨s₂, hs₂, hs₃⟩⟩, hok₃⟩

/-- **The workload stays within its arrays**, of any size, and does not divide by zero. -/
theorem singleStaticAssignment_ok {loopNum : Nat} {tvUsec : Int} (hseed : 0 ≤ tvUsec)
    {dump dataChunk : List (BitVec 64)} (hdump : dump.length = 100)
    (hdata : dataChunk.length = workingSetSize.toNat) :
    ∃ s, singleStaticAssignment workingSetSize loopNum tvUsec dump dataChunk = .ok s ∧
      s.Ok workingSetSize := by
  have hlfsr : seed tvUsec ∈ seeds := by
    obtain ⟨hlow, hhigh⟩ := seed_bounds hseed
    exact ⟨hlow, by omega⟩
  rw [singleStaticAssignment, Runs.foldlM_eq_runE]
  exact Runs.exists_runE_of_invariant _ ⟨hlfsr, hdump, hdata⟩ fun s i _ hs => pass_ok hs i

end Workload

/-- Eight words, in a thousand rounds. -/
theorem singleStaticAssignment_ok_eightWords :
    ∃ s, singleStaticAssignment 8#64 1000 7 (List.replicate 100 0) (List.replicate 8 0) = .ok s ∧
      s.Ok 8#64 :=
  singleStaticAssignment_ok (by decide) List.length_replicate List.length_replicate

end Microbench

end LibVsf
