import LibVsf.HsCpuUsageStat
import Mathlib.Algebra.Order.BigOperators.Group.List
import Mathlib.Algebra.Order.Field.Basic
import Mathlib.Data.List.Forall2
import Mathlib.Data.List.Nodup

/-!
# `hsCpuUsage`: two readings of `/proc/stat`

A call publishes, for the total and for the CPUs, the share of the time between the readings that
was not idle.

Main result, `measures_iff`: a call publishes these, or returns, without a division by zero, exactly
when no sum of counters overflows and each that is divided by has grown. Nothing in the code asks
whether it has.
-/

namespace LibVsf

open Std
open VmBase (longLong maxLongLong)

namespace HsCpuUsage

/-! ## What a call should publish -/

namespace Counters

/-- No counter is less than before. -/
def Le (c c' : Counters) : Prop := List.Forall₂ (· ≤ ·) c.fields c'.fields

theorem le_iff_zip {c c' : Counters} : c.Le c' ↔ c.fields.length = c'.fields.length ∧
    ∀ p ∈ c.fields.zip c'.fields, p.1 ≤ p.2 := by
  rw [Le, List.forall₂_iff_zip, Prod.forall]

instance (c c' : Counters) : Decidable (c.Le c') := decidable_of_iff _ le_iff_zip.symm

end Counters

namespace Stat

/-- No counter is less in the second reading. -/
structure Le (a b : Stat) : Prop where
  total : a.total.Le b.total
  cpus : ∀ l ∈ a.cpus, ∀ l' ∈ b.cpus, l.id = l'.id → l.counters.Le l'.counters

/-- The sums that are divided by have grown: all up to the first CPU that is not the same. -/
def Grown (a b : Stat) : Prop :=
  a.cpus.length = b.cpus.length → a.total.sum < b.total.sum ∧
    ∀ p ∈ (a.cpus.zip b.cpus).takeWhile fun p => p.1.id = p.2.id,
      p.1.counters.sum < p.2.counters.sum

instance (a b : Stat) : Decidable (a.Grown b) := inferInstanceAs (Decidable (_ → _ ∧ _))

end Stat

/-- `1 - dIdle / dTotal`. -/
def share (c c' : Counters) : ℚ := 1 - ((c'.idle : ℚ) - c.idle) / ((c'.sum : ℚ) - c.sum)

/-- It is a share, and there is something to divide by. -/
structure IsShare (c c' : Counters) (usage : Option ℚ) : Prop where
  grown : c.sum ≠ c'.sum
  usage_eq : usage = some (share c c')
  nonneg : 0 ≤ share c c'
  le_one : share c c' ≤ 1

/-- The usages of the total and of exactly the CPUs that are listed. -/
structure Published (a b : Stat) (s : HsCpuUsage) : Prop where
  init : s.init = true
  total : IsShare a.total b.total s.totalCpuUsage
  mem_iff_before : ∀ cpuId, cpuId ∈ s.cpuUsages ↔ ∃ l ∈ a.cpus, (l.id : Int) = cpuId
  mem_iff_after : ∀ cpuId, cpuId ∈ s.cpuUsages ↔ ∃ l ∈ b.cpus, (l.id : Int) = cpuId
  cpus : ∀ l ∈ a.cpus, ∀ l' ∈ b.cpus, l.id = l'.id →
    ∃ usage, s.cpuUsages[(l.id : Int)]? = some usage ∧ IsShare l.counters l'.counters usage

/-- A call publishes, or returns a negative value and leaves all as it was; it does not divide by
zero. -/
def Measures (s : HsCpuUsage) (a b : Stat) : Prop :=
  ∃ c, s.collectCpuUsage a.text b.text = some c ∧ (∀ d ∈ c.divisors, d ≠ 0) ∧
    (c.retval < 0 ∧ c.state = s ∨ c.retval = 0 ∧ Published a b c.state)

/-! ## Shares -/

theorem Counters.idle_le_sum (c : Counters) : c.idle ≤ c.sum := by
  obtain ⟨fields, hfour⟩ := c
  match fields, hfour with
  | n₁ :: n₂ :: n₃ :: n₄ :: ns, hfour =>
    simp [sum, idle]
    omega

/-- The idle time does not grow by more than the sum. -/
theorem Counters.Le.growth {c c' : Counters} (h : c.Le c') :
    c.idle ≤ c'.idle ∧ c.sum + c'.idle ≤ c'.sum + c.idle := by
  obtain ⟨fields, hfour⟩ := c
  obtain ⟨fields', hfour'⟩ := c'
  simp only [Counters.Le] at h
  match fields, fields', hfour, hfour', h with
  | n₁ :: n₂ :: n₃ :: n₄ :: ns, m₁ :: m₂ :: m₃ :: m₄ :: ms, hfour, hfour', h =>
    simp only [List.forall₂_cons] at h
    obtain ⟨h₁, h₂, h₃, h₄, hrest⟩ := h
    have hsum : ns.sum ≤ ms.sum := hrest.sum_le_sum
    simp [sum, idle]
    omega

theorem Counters.Le.sum_le {c c' : Counters} (h : c.Le c') : c.sum ≤ c'.sum :=
  List.Forall₂.sum_le_sum h

/-- The usage that is computed for two lines. -/
def pairUsage (c c' : Counters) : Option ℚ :=
  usage ((c.idle : Int) - c'.idle) ((c.sum : Int) - c'.sum)

/-- **It is the share**, if there is something to divide by. -/
theorem isShare_pairUsage {c c' : Counters} (h : c.Le c') (hlt : c.sum < c'.sum) :
    IsShare c c' (pairUsage c c') := by
  obtain ⟨hidle, hgrowth⟩ := h.growth
  have hpos : (0 : ℚ) < (c'.sum : ℚ) - c.sum := by
    rw [sub_pos]
    exact_mod_cast hlt
  have hnonneg : (0 : ℚ) ≤ (c'.idle : ℚ) - c.idle := by
    rw [sub_nonneg]
    exact_mod_cast hidle
  have hle : (c'.idle : ℚ) - c.idle ≤ (c'.sum : ℚ) - c.sum := by
    have hcast : (c.sum : ℚ) + c'.idle ≤ c'.sum + c.idle := by exact_mod_cast hgrowth
    linarith
  have hquot := div_nonneg hnonneg hpos.le
  have hone := (div_le_one hpos).2 hle
  refine ⟨Nat.ne_of_lt hlt, ?_, ?_, ?_⟩
  · rw [pairUsage, usage, if_neg (by omega), share]
    push_cast
    rw [← neg_sub (c'.idle : ℚ), ← neg_sub (c'.sum : ℚ), neg_div_neg_eq]
  · rw [share]
    linarith
  · rw [share]
    linarith

/-! ## The loop over the CPUs -/

/-- The usages of CPUs, one after the other. -/
def published (cpuUsages : ExtTreeMap Int (Option ℚ)) (pairs : List (CpuLine × CpuLine)) :
    ExtTreeMap Int (Option ℚ) :=
  pairs.foldl (fun m p => m.insertIfNew (p.1.id : Int) (pairUsage p.1.counters p.2.counters))
    cpuUsages

/-- The lines of the same CPUs at the start of both files. -/
def same (pairs : List (CpuLine × CpuLine)) : List (CpuLine × CpuLine) :=
  pairs.takeWhile fun p => p.1.id = p.2.id

theorem mem_same {pairs : List (CpuLine × CpuLine)} {p : CpuLine × CpuLine} (h : p ∈ same pairs) :
    p ∈ pairs ∧ p.1.id = p.2.id := by
  have hid := List.mem_takeWhile_imp h
  exact ⟨(List.takeWhile_prefix _).subset h, by simpa using hid⟩

def difference (p : CpuLine × CpuLine) : Int := (p.1.counters.sum : Int) - p.2.counters.sum

/-- **The loop** ends at the first CPU that is not the same. -/
theorem usagesFrom_eq {pairs : List (CpuLine × CpuLine)}
    (hfits : ∀ p ∈ pairs, (p.1.counters.sum : Int) ≤ maxLongLong ∧
      (p.2.counters.sum : Int) ≤ maxLongLong)
    (cpuUsages : ExtTreeMap Int (Option ℚ)) (divisors : List Int) :
    usagesFrom cpuUsages divisors (pairs.map fun p => (p.1.info, p.2.info)) =
      some (if ∀ p ∈ pairs, p.1.id = p.2.id then some (published cpuUsages pairs) else none,
        divisors ++ (same pairs).map difference) := by
  induction pairs generalizing cpuUsages divisors with
  | nil => simp [usagesFrom, published, same]
  | cons p pairs ih =>
    obtain ⟨⟨hone, htwo⟩, hpairs⟩ := List.forall_mem_cons.1 hfits
    have hidle₁ := p.1.counters.idle_le_sum
    have hidle₂ := p.2.counters.idle_le_sum
    rw [List.map_cons, usagesFrom]
    by_cases hid : p.1.id = p.2.id
    · have hcpu : ¬ p.1.info.cpuId ≠ p.2.info.cpuId := not_not.2 (congrArg Nat.cast hid)
      have hidle : longLong (p.1.info.cpuIdleTime - p.2.info.cpuIdleTime) =
          some ((p.1.counters.idle : Int) - p.2.counters.idle) :=
        longLong_sub (by omega) (by omega)
      have htime : longLong (p.1.info.cpuTime - p.2.info.cpuTime) =
          some ((p.1.counters.sum : Int) - p.2.counters.sum) := longLong_sub hone htwo
      have hsame : same (p :: pairs) = p :: same pairs :=
        List.takeWhile_cons_of_pos (decide_eq_true hid)
      rw [if_neg hcpu, hidle, htime, Option.bind_eq_bind, Option.bind_some, Option.bind_some, hsame]
      refine (ih hpairs _ _).trans ?_
      simp only [List.forall_mem_cons, hid, true_and, List.map_cons, List.append_assoc,
        List.singleton_append]
      rfl
    · have hcpu : p.1.info.cpuId ≠ p.2.info.cpuId := fun heq => hid (Int.ofNat.inj heq)
      have hsame : same (p :: pairs) = [] :=
        List.takeWhile_cons_of_neg (by simpa using hid)
      have hnot : ¬ ∀ q ∈ p :: pairs, q.1.id = q.2.id := fun hall => hid (hall p List.mem_cons_self)
      rw [if_pos hcpu, hsame, if_neg hnot, List.map_nil, List.append_nil]

/-! ## The call -/

namespace Stat

/-- The lines at the same places. -/
def pairs (a b : Stat) : List (CpuLine × CpuLine) := a.cpus.zip b.cpus

theorem fits_pairs {a b : Stat} (ha : a.Fits) (hb : b.Fits) : ∀ p ∈ a.pairs b,
    (p.1.counters.sum : Int) ≤ maxLongLong ∧ (p.2.counters.sum : Int) ≤ maxLongLong := by
  intro p hp
  obtain ⟨hone, htwo⟩ := List.of_mem_zip (a := p.1) (b := p.2) hp
  exact ⟨(a.fits_iff.1 ha).2 _ hone, (b.fits_iff.1 hb).2 _ htwo⟩

theorem Le.pairs {a b : Stat} (h : a.Le b) {p : CpuLine × CpuLine} (hp : p ∈ a.pairs b)
    (hid : p.1.id = p.2.id) : p.1.counters.Le p.2.counters := by
  obtain ⟨hone, htwo⟩ := List.of_mem_zip (a := p.1) (b := p.2) hp
  exact h.cpus _ hone _ htwo hid

/-- What has been divided by. -/
def divisors (a b : Stat) : List Int :=
  ((a.total.sum : Int) - b.total.sum) :: (same (a.pairs b)).map difference

/-- **None of it is zero** exactly if all of it has grown. -/
theorem divisors_ne_zero_iff {a b : Stat} (h : a.Le b) :
    (∀ d ∈ a.divisors b, d ≠ 0) ↔ a.total.sum < b.total.sum ∧
      ∀ p ∈ same (a.pairs b), p.1.counters.sum < p.2.counters.sum := by
  have htotal := h.total.sum_le
  rw [divisors, List.forall_mem_cons, List.forall_mem_map]
  refine and_congr (by omega) (forall₂_congr fun p hp => ?_)
  obtain ⟨hmem, hid⟩ := mem_same hp
  have hle := (h.pairs hmem hid).sum_le
  rw [difference]
  omega

end Stat

/-- Different numbers of CPUs. -/
theorem collect_of_length_ne (s : HsCpuUsage) {a b : Stat} (h : a.cpus.length ≠ b.cpus.length) :
    s.collect a.ret b.ret = some ⟨-1, s, []⟩ :=
  if_pos h

/-- **The rest of a call**, with as many CPUs in both files. -/
theorem collect_ret (s : HsCpuUsage) {a b : Stat} (ha : a.Fits) (hb : b.Fits)
    (h : a.cpus.length = b.cpus.length) :
    s.collect a.ret b.ret = some (
      if ∀ p ∈ a.pairs b, p.1.id = p.2.id
      then ⟨0, ⟨pairUsage a.total b.total, published ∅ (a.pairs b), true⟩, a.divisors b⟩
      else ⟨-1, s, a.divisors b⟩) := by
  have hasum := (a.fits_iff.1 ha).1
  have hbsum := (b.fits_iff.1 hb).1
  have hidleₐ := a.total.idle_le_sum
  have hidle_b := b.total.idle_le_sum
  have hidle : longLong (a.ret.totalCpuIdleTime - b.ret.totalCpuIdleTime) =
      some ((a.total.idle : Int) - b.total.idle) := longLong_sub (by omega) (by omega)
  have htime : longLong (a.ret.totalCpuTime - b.ret.totalCpuTime) =
      some ((a.total.sum : Int) - b.total.sum) := longLong_sub hasum hbsum
  have hzip : a.ret.cpuTimeInfos.zip b.ret.cpuTimeInfos =
      (a.pairs b).map fun p => (p.1.info, p.2.info) :=
    @List.zip_map _ _ _ _ CpuLine.info CpuLine.info a.cpus b.cpus
  have hnum : ¬ a.ret.cpuNum ≠ b.ret.cpuNum := not_not.2 h
  rw [collect, if_neg hnum, hidle, htime, hzip]
  simp only [Option.bind_eq_bind, Option.bind_some, usagesFrom_eq (Stat.fits_pairs ha hb)]
  split_ifs <;> rfl

/-- The file is read twice, or something overflows. -/
theorem collectCpuUsage_text (s : HsCpuUsage) (a b : Stat) :
    s.collectCpuUsage a.text b.text =
      if a.Fits ∧ b.Fits then s.collect a.ret b.ret else none := by
  rw [collectCpuUsage, Stat.getPhyCpu_text, Stat.getPhyCpu_text]
  by_cases ha : a.Fits
  · by_cases hb : b.Fits
    · simp only [if_pos ha, if_pos hb, if_pos (And.intro ha hb)]
    · simp only [if_pos ha, hb, and_false, if_false]
  · simp only [ha, false_and, if_false]

/-! ## What is published -/

theorem eq_of_id {a : Stat} {l l' : CpuLine} (hl : l ∈ a.cpus) (hl' : l' ∈ a.cpus)
    (h : l.id = l'.id) : l = l' :=
  List.inj_on_of_nodup_map a.nodup hl hl' h

theorem published_getElem? (pairs : List (CpuLine × CpuLine)) (cpuId : Int) :
    (published ∅ pairs)[cpuId]? = (pairs.find? fun p => (p.1.id : Int) = cpuId).map
      fun p => pairUsage p.1.counters p.2.counters := by
  rw [published, Maps.getElem?_foldl_insertIfNew (fun p : CpuLine × CpuLine => (p.1.id : Int))
    fun p => pairUsage p.1.counters p.2.counters]
  simp

theorem mem_published (pairs : List (CpuLine × CpuLine)) (cpuId : Int) :
    cpuId ∈ published ∅ pairs ↔ ∃ p ∈ pairs, (p.1.id : Int) = cpuId := by
  rw [ExtTreeMap.mem_iff_isSome_getElem?, published_getElem?, Option.isSome_map,
    List.find?_isSome]
  simp only [decide_eq_true_eq]

/-- The usages of the same CPUs whose sums have all grown. -/
theorem published_of_grown {a b : Stat} (h : a.Le b) (hlen : a.cpus.length = b.cpus.length)
    (hids : ∀ p ∈ a.pairs b, p.1.id = p.2.id) (htotal : a.total.sum < b.total.sum)
    (hcpus : ∀ p ∈ a.pairs b, p.1.counters.sum < p.2.counters.sum) :
    Published a b ⟨pairUsage a.total b.total, published ∅ (a.pairs b), true⟩ := by
  have hone : (a.pairs b).map Prod.fst = a.cpus := List.map_fst_zip (by omega)
  have htwo : (a.pairs b).map Prod.snd = b.cpus := List.map_snd_zip (by omega)
  refine ⟨rfl, isShare_pairUsage h.total htotal, fun cpuId => ?_, fun cpuId => ?_,
    fun l hl l' hl' hid => ?_⟩
  · rw [mem_published, ← hone]
    simp only [List.mem_map, exists_exists_and_eq_and]
  · rw [mem_published, ← htwo]
    simp only [List.mem_map, exists_exists_and_eq_and]
    refine exists_congr fun p => and_congr_right fun hp => ?_
    rw [hids p hp]
  · -- The first pair of the CPU is the pair of these two lines: a CPU has one line.
    obtain ⟨q, hq, hql⟩ : ∃ q ∈ a.pairs b, q.1 = l := by
      rw [← hone] at hl
      exact List.mem_map.1 hl
    cases hfind : (a.pairs b).find? fun p => (p.1.id : Int) = l.id with
    | none =>
      have hnot := List.find?_eq_none.1 hfind q hq
      rw [hql] at hnot
      exact absurd (decide_eq_true rfl) hnot
    | some p =>
      have hp := List.mem_of_find?_eq_some hfind
      have hpid : (p.1.id : Int) = l.id := by simpa using List.find?_some hfind
      obtain ⟨hp₁, hp₂⟩ := List.of_mem_zip (a := p.1) (b := p.2) hp
      have hpl : p.1 = l := eq_of_id hp₁ hl (by omega)
      have hpl' : p.2 = l' := by
        refine eq_of_id hp₂ hl' ?_
        rw [← hids p hp, hpl, hid]
      have hshare := isShare_pairUsage (h.pairs hp (hids p hp)) (hcpus p hp)
      rw [hpl, hpl'] at hshare
      refine ⟨pairUsage l.counters l'.counters, ?_, hshare⟩
      rw [published_getElem?, hfind, Option.map_some, hpl, hpl']

/-- All pairs are the same up to the first that is not. -/
theorem same_eq {pairs : List (CpuLine × CpuLine)} (h : ∀ p ∈ pairs, p.1.id = p.2.id) :
    same pairs = pairs :=
  List.takeWhile_eq_self_iff.2 fun p hp => decide_eq_true (h p hp)

/-- A call that measures reads both files, and divides by what has grown. -/
theorem grown_of_measures {a b : Stat} (h : a.Le b) {s : HsCpuUsage} (hm : Measures s a b) :
    a.Fits ∧ b.Fits ∧ a.Grown b := by
  obtain ⟨c, hc, hne, -⟩ := hm
  rw [collectCpuUsage_text] at hc
  split_ifs at hc with hfits
  refine ⟨hfits.1, hfits.2, fun hlen => (Stat.divisors_ne_zero_iff h).1 ?_⟩
  rw [collect_ret s hfits.1 hfits.2 hlen] at hc
  obtain rfl := Option.some.inj hc
  split_ifs at hne
  · exact hne
  · exact hne

/-- A call that reads both files, and divides by what has grown, measures. -/
theorem measures_of_grown {a b : Stat} (h : a.Le b) (s : HsCpuUsage) (ha : a.Fits) (hb : b.Fits)
    (hgrown : a.Grown b) : Measures s a b := by
  have hneg : (-1 : Int) < 0 := by decide
  rw [Measures, collectCpuUsage_text, if_pos ⟨ha, hb⟩]
  by_cases hlen : a.cpus.length = b.cpus.length
  · have hne := (Stat.divisors_ne_zero_iff h).2 (hgrown hlen)
    rw [collect_ret s ha hb hlen]
    by_cases hids : ∀ p ∈ a.pairs b, p.1.id = p.2.id
    · obtain ⟨htotal, hcpus⟩ := hgrown hlen
      have hall : same (a.pairs b) = a.pairs b := same_eq hids
      rw [if_pos hids]
      refine ⟨_, rfl, hne, .inr ⟨rfl, published_of_grown h hlen hids htotal fun p hp => ?_⟩⟩
      rw [← hall] at hp
      exact hcpus p hp
    · rw [if_neg hids]
      exact ⟨_, rfl, hne, .inl ⟨hneg, rfl⟩⟩
  · have hdivisors : ∀ d ∈ ([] : List Int), d ≠ 0 := List.forall_mem_nil _
    rw [collect_of_length_ne s hlen]
    exact ⟨_, rfl, hdivisors, .inl ⟨hneg, rfl⟩⟩

/-- **A call measures** exactly when no sum overflows and each that is divided by has grown. -/
theorem measures_iff {a b : Stat} (h : a.Le b) (s : HsCpuUsage) :
    Measures s a b ↔ a.Fits ∧ b.Fits ∧ a.Grown b := by
  constructor
  · intro hm
    exact grown_of_measures h hm
  · intro h
    obtain ⟨ha, hb, hgrown⟩ := h
    exact measures_of_grown h s ha hb hgrown

def earlier : Stat where
  total := ⟨[7, 0, 5, 20], Nat.le_refl 4⟩
  lines := [
    .cpu ⟨0, ⟨[4, 0, 3, 9], Nat.le_refl 4⟩, by decide, by decide⟩,
    .cpu ⟨1, ⟨[3, 0, 2, 11], Nat.le_refl 4⟩, by decide, by decide⟩,
    .other ⟨"ctxt 115315".toList, by decide, by decide⟩]
  short := by decide
  nodup := by decide

def later : Stat where
  total := ⟨[12, 0, 6, 32], Nat.le_refl 4⟩
  lines := [
    .cpu ⟨0, ⟨[9, 0, 3, 13], Nat.le_refl 4⟩, by decide, by decide⟩,
    .cpu ⟨1, ⟨[3, 0, 3, 19], Nat.le_refl 4⟩, by decide, by decide⟩,
    .other ⟨"ctxt 115402".toList, by decide, by decide⟩]
  short := by decide
  nodup := by decide

theorem measures_iff_ticks : Measures {} earlier later := by
  refine (measures_iff ⟨?_, ?_⟩ {}).2 ⟨?_, ?_, ?_⟩
  all_goals decide

/-- No tick between the readings. -/
theorem not_measures_noTick : earlier.Le earlier ∧ ¬ Measures {} earlier earlier := by
  have hle : earlier.Le earlier := ⟨by decide, by decide⟩
  have hnot : ¬ earlier.Grown earlier := by decide
  exact ⟨hle, fun hm => hnot (grown_of_measures hle hm).2.2⟩

end HsCpuUsage

end LibVsf
