import LibVsf.VmBase

/-!
# `VmBase`: the elapsed time of a process

`ps` prints how long a process has run as `[[dd-]hh:]mm:ss`. `refresh_most` reads the fields with
one of three formats of `sscanf`, and takes the seconds that they make from now, all as `long long`.

* `readEtime_etime`: the fields are read back.
* `startTime64_etime`: no `long long` overflows exactly when the seconds, and the start that they
  give, are ones.
-/

namespace LibVsf

namespace VmBase

/-! ## The fields -/

/-- The variables of `sscanf`. -/
structure Elapsed where
  days : Int := 0
  hours : Int := 0
  minutes : Int := 0
  seconds : Int := 0

/-- The `sscanf` with the format for the separators that there are. -/
def readEtime (etime : List Char) : Elapsed :=
  if '-' ∈ etime then
    let ns := Text.scanNumbers ['-', ':', ':'] etime
    ⟨ns.getD 0 0, ns.getD 1 0, ns.getD 2 0, ns.getD 3 0⟩
  else if etime.count ':' = 2 then
    let ns := Text.scanNumbers [':', ':'] etime
    ⟨0, ns.getD 0 0, ns.getD 1 0, ns.getD 2 0⟩
  else if etime.count ':' = 1 then
    let ns := Text.scanNumbers [':'] etime
    ⟨0, 0, ns.getD 0 0, ns.getD 1 0⟩
  else {}

def Elapsed.total (e : Elapsed) : Int :=
  ((e.days * 24 + e.hours) * 60 + e.minutes) * 60 + e.seconds

theorem startTime_eq (curTime : Int) (etime : List Char) :
    startTime curTime etime = curTime - (readEtime etime).total := by
  simp only [startTime, readEtime, Elapsed.total]
  split_ifs <;> simp

/-! ## In `long long` -/

/-- The largest `long long`. -/
def maxLongLong : Int := 9223372036854775807

/-- The values of `long long` and `time_t`. -/
def IsLongLong (n : Int) : Prop := -maxLongLong - 1 ≤ n ∧ n ≤ maxLongLong

instance (n : Int) : Decidable (IsLongLong n) := inferInstanceAs (Decidable (_ ∧ _))

/-- What `%lld` stores. -/
def stored (n : Int) : Int := max (-maxLongLong - 1) (min n maxLongLong)

/-- What a computation gives, if it does not overflow. -/
def longLong (n : Int) : Option Int := if IsLongLong n then some n else none

def Elapsed.total64 (e : Elapsed) : Option Int := do
  let n ← longLong (stored e.days * 24)
  let n ← longLong (n + stored e.hours)
  let n ← longLong (n * 60)
  let n ← longLong (n + stored e.minutes)
  let n ← longLong (n * 60)
  longLong (n + stored e.seconds)

/-- `start_time`, if nothing overflows. -/
def startTime64 (curTime : Int) (etime : List Char) : Option Int := do
  let total ← (readEtime etime).total64
  longLong (curTime - total)

theorem stored_of_nonneg {n : Int} (h : 0 ≤ n) : stored n = min n maxLongLong := by
  have hlow : -maxLongLong - 1 ≤ min n maxLongLong := le_min (by simp only [maxLongLong]; omega)
    (by decide)
  rw [stored, max_eq_right hlow]

theorem longLong_eq_some {n m : Int} : longLong n = some m ↔ IsLongLong n ∧ n = m := by
  rw [longLong]
  split_ifs with h
  · rw [Option.some.injEq, and_iff_right h]
  · exact iff_of_false (by simp) fun hn => h hn.1

/-- No step overflows, and nothing is cut off, if the total is a `long long`: the terms are not
larger. -/
theorem Elapsed.total64_eq_some {e : Elapsed} (hdays : 0 ≤ e.days) (hhours : 0 ≤ e.hours)
    (hminutes : 0 ≤ e.minutes) (hseconds : 0 ≤ e.seconds) (hmax : e.seconds ≤ maxLongLong)
    {n : Int} : e.total64 = some n ↔ e.total ≤ maxLongLong ∧ n = e.total := by
  simp only [total64, total, Option.bind_eq_bind, Option.bind_eq_some_iff, longLong_eq_some,
    IsLongLong, maxLongLong, stored_of_nonneg hdays, stored_of_nonneg hhours,
    stored_of_nonneg hminutes, stored_of_nonneg hseconds] at hmax ⊢
  constructor
  · intro h
    obtain ⟨_, ⟨h₁, rfl⟩, _, ⟨h₂, rfl⟩, _, ⟨h₃, rfl⟩, _, ⟨h₄, rfl⟩, _, ⟨h₅, rfl⟩, h₆, rfl⟩ := h
    omega
  · intro h
    obtain ⟨hle, rfl⟩ := h
    refine ⟨_, ⟨?_, rfl⟩, _, ⟨?_, rfl⟩, _, ⟨?_, rfl⟩, _, ⟨?_, rfl⟩, _, ⟨?_, rfl⟩, ?_, ?_⟩ <;> omega

/-! ## What `ps` prints -/

def twoDigits (n : Nat) : List Char := [Nat.digitChar (n / 10), Nat.digitChar (n % 10)]

def padded (zeros n : Nat) : List Char := List.replicate zeros '0' ++ Nat.toDigits 10 n

def mmss (elapsed : Nat) : List Char :=
  twoDigits (elapsed / 60 % 60) ++ ':' :: twoDigits (elapsed % 60)

def hhmmss (elapsed : Nat) : List Char :=
  twoDigits (elapsed / 3600 % 24) ++ ':' :: mmss elapsed

/-- The rendering of elapsed seconds, for any number of leading zeros of the days. -/
def etime (zeros elapsed : Nat) : List Char :=
  if elapsed / 86400 ≠ 0 then padded zeros (elapsed / 86400) ++ '-' :: hhmmss elapsed
  else if elapsed / 3600 % 24 ≠ 0 then hhmmss elapsed
  else mmss elapsed

theorem twoDigits_ne (n : Nat) : twoDigits n ≠ [] := List.cons_ne_nil _ _

theorem isDigit_twoDigits {n : Nat} (h : n < 100) {c : Char} (hc : c ∈ twoDigits n) :
    c.isDigit = true := by
  have hdigit : ∀ d < 10, (Nat.digitChar d).isDigit = true := by decide
  simp only [twoDigits, List.mem_cons, List.not_mem_nil, or_false] at hc
  rcases hc with rfl | rfl
  · exact hdigit _ (by omega)
  · exact hdigit _ (by omega)

theorem decimal_twoDigits {n : Nat} (h : n < 100) : Text.decimal (twoDigits n) = n := by
  have hdigit : ∀ d < 10, (Nat.digitChar d).toNat = d + 48 := by decide
  have htens := hdigit (n / 10) (by omega)
  have hones := hdigit (n % 10) (by omega)
  simp only [Text.decimal, twoDigits, List.foldl_cons, List.foldl_nil, htens, hones]
  omega

theorem isDigit_padded {zeros n : Nat} {c : Char} (hc : c ∈ padded zeros n) : c.isDigit = true := by
  rcases List.mem_append.1 hc with hzero | hdigit
  · obtain rfl := List.eq_of_mem_replicate hzero
    rfl
  · exact Text.isDigit_toDigits hdigit

theorem padded_ne (zeros n : Nat) : padded zeros n ≠ [] := by
  simp [padded, Nat.toDigits_ne_nil]

theorem decimal_padded (zeros n : Nat) : Text.decimal (padded zeros n) = n := by
  rw [padded, Text.decimal_zeros, Text.decimal_toDigits]

/-! ### The separators -/

theorem not_mem_twoDigits {n : Nat} (h : n < 100) {sep : Char} (hsep : sep.isDigit = false) :
    sep ∉ twoDigits n := by
  intro hmem
  rw [isDigit_twoDigits h hmem] at hsep
  cases hsep

theorem dash_not_mem_mmss (elapsed : Nat) : '-' ∉ mmss elapsed := by
  have hminutes : '-' ∉ twoDigits (elapsed / 60 % 60) := not_mem_twoDigits (by omega) rfl
  have hseconds : '-' ∉ twoDigits (elapsed % 60) := not_mem_twoDigits (by omega) rfl
  simp [mmss, hminutes, hseconds]

theorem dash_not_mem_hhmmss (elapsed : Nat) : '-' ∉ hhmmss elapsed := by
  have hhours : '-' ∉ twoDigits (elapsed / 3600 % 24) := not_mem_twoDigits (by omega) rfl
  simp [hhmmss, hhours, dash_not_mem_mmss]

theorem count_mmss (elapsed : Nat) : (mmss elapsed).count ':' = 1 := by
  have hminutes : (twoDigits (elapsed / 60 % 60)).count ':' = 0 :=
    List.count_eq_zero.2 (not_mem_twoDigits (by omega) rfl)
  have hseconds : (twoDigits (elapsed % 60)).count ':' = 0 :=
    List.count_eq_zero.2 (not_mem_twoDigits (by omega) rfl)
  rw [mmss, List.count_append, List.count_cons_self, hminutes, hseconds]

theorem count_hhmmss (elapsed : Nat) : (hhmmss elapsed).count ':' = 2 := by
  have hhours : (twoDigits (elapsed / 3600 % 24)).count ':' = 0 :=
    List.count_eq_zero.2 (not_mem_twoDigits (by omega) rfl)
  rw [hhmmss, List.count_append, List.count_cons_self, hhours, count_mmss]

/-! ### The numbers -/

theorem scanNumbers_twoDigits {n : Nat} (h : n < 100) {sep : Char} (hsep : sep.isDigit = false)
    (seps rest : List Char) : Text.scanNumbers (sep :: seps) (twoDigits n ++ sep :: rest) =
      (n : Int) :: Text.scanNumbers seps rest := by
  rw [Text.scanNumbers_digits (twoDigits_ne n) (fun c hc => isDigit_twoDigits h hc) hsep,
    decimal_twoDigits h]

theorem scanNumbers_mmss (elapsed : Nat) : Text.scanNumbers [':'] (mmss elapsed) =
    [((elapsed / 60 % 60 : ℕ) : Int), ((elapsed % 60 : ℕ) : Int)] := by
  have hseconds : elapsed % 60 < 100 := by omega
  rw [mmss, scanNumbers_twoDigits (by omega) rfl, Text.scanNumbers_last (twoDigits_ne _)
    (fun c hc => isDigit_twoDigits hseconds hc), decimal_twoDigits hseconds]

theorem scanNumbers_hhmmss (elapsed : Nat) : Text.scanNumbers [':', ':'] (hhmmss elapsed) =
    ((elapsed / 3600 % 24 : ℕ) : Int) :: Text.scanNumbers [':'] (mmss elapsed) :=
  scanNumbers_twoDigits (by omega) rfl _ _

theorem scanNumbers_days (zeros elapsed : Nat) : Text.scanNumbers ['-', ':', ':']
    (padded zeros (elapsed / 86400) ++ '-' :: hhmmss elapsed) =
      ((elapsed / 86400 : ℕ) : Int) :: Text.scanNumbers [':', ':'] (hhmmss elapsed) := by
  rw [Text.scanNumbers_digits (padded_ne _ _) (fun c hc => isDigit_padded hc) rfl, decimal_padded]

/-- **The fields are read back.** -/
theorem readEtime_etime (zeros elapsed : Nat) : readEtime (etime zeros elapsed) =
    ⟨(elapsed / 86400 : ℕ), (elapsed / 3600 % 24 : ℕ), (elapsed / 60 % 60 : ℕ),
      (elapsed % 60 : ℕ)⟩ := by
  rw [etime]
  by_cases hdays : elapsed / 86400 = 0
  · rw [if_neg (not_not.2 hdays), hdays]
    by_cases hhours : elapsed / 3600 % 24 = 0
    · rw [if_neg (not_not.2 hhours), hhours, readEtime, if_neg (dash_not_mem_mmss elapsed),
        count_mmss, if_neg (by decide), if_pos rfl, scanNumbers_mmss]
      rfl
    · rw [if_pos hhours, readEtime, if_neg (dash_not_mem_hhmmss elapsed), count_hhmmss,
        if_pos rfl, scanNumbers_hhmmss, scanNumbers_mmss]
      rfl
  · have hdash : '-' ∈ padded zeros (elapsed / 86400) ++ '-' :: hhmmss elapsed := by simp
    rw [if_pos hdays, readEtime, if_pos hdash, scanNumbers_days, scanNumbers_hhmmss,
      scanNumbers_mmss]
    rfl

theorem total_readEtime (zeros elapsed : Nat) :
    (readEtime (etime zeros elapsed)).total = elapsed := by
  rw [readEtime_etime]
  simp only [Elapsed.total]
  omega

theorem startTime_etime (curTime : Int) (zeros elapsed : Nat) :
    startTime curTime (etime zeros elapsed) = curTime - elapsed := by
  rw [startTime_eq, total_readEtime]

/-- **The start of a process is read exactly when the elapsed seconds and the start fit in 64
bits.** -/
theorem startTime64_etime (curTime : Int) (zeros elapsed : Nat) :
    (readEtime (etime zeros elapsed)).total = elapsed ∧
      (startTime64 curTime (etime zeros elapsed) = some (curTime - elapsed) ↔
        elapsed ≤ maxLongLong ∧ IsLongLong (curTime - elapsed)) := by
  have htotal := total_readEtime zeros elapsed
  have htotal64 (n : Int) : (readEtime (etime zeros elapsed)).total64 = some n ↔
      elapsed ≤ maxLongLong ∧ n = elapsed := by
    have hseconds : ((elapsed % 60 : ℕ) : Int) ≤ maxLongLong := by
      simp only [maxLongLong]
      omega
    rw [← htotal, readEtime_etime]
    exact Elapsed.total64_eq_some (Int.natCast_nonneg _) (Int.natCast_nonneg _)
      (Int.natCast_nonneg _) (Int.natCast_nonneg _) hseconds
  refine ⟨htotal, ?_⟩
  rw [startTime64, Option.bind_eq_bind, Option.bind_eq_some_iff]
  constructor
  · intro h
    obtain ⟨n, hn, hstart⟩ := h
    obtain ⟨hle, rfl⟩ := (htotal64 n).1 hn
    exact ⟨hle, (longLong_eq_some.1 hstart).1⟩
  · intro h
    obtain ⟨hle, hstart⟩ := h
    exact ⟨elapsed, (htotal64 elapsed).2 ⟨hle, rfl⟩, longLong_eq_some.2 ⟨hstart, rfl⟩⟩

/-- An elapsed time of more days than a `long long` holds. -/
theorem startTime64_manyDays : ¬ ∀ (curTime : Int) (zeros elapsed : Nat),
    startTime64 curTime (etime zeros elapsed) = some (curTime - elapsed) := by
  intro h
  have hmany := h 0 0 (86400 * 9223372036854775808)
  have hnone : startTime64 0 (etime 0 (86400 * 9223372036854775808)) = none := by decide +kernel
  rw [hnone] at hmany
  cases hmany

end VmBase

end LibVsf
