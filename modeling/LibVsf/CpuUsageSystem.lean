import LibVsf.CpuUsageUnknown
import LibVsf.Lib.Doubles

/-!
# `CpuUsage`: the times of the system

`refresh_system` keeps the sums of 64-bit counters in fields of 32 bits, and a field that is zero
also stands for "not read yet". The usage of the system is computed in doubles.

* `busyPercent_eq_iff`: the doubles give the exact percentage but for 14 shares of idle time, which
  are whole percentages.
* `deltas_exact_iff`: over every run of a caller that goes on after an exception, the deltas and the
  usage are exact exactly when they are `Kept`: the total that was read before is no multiple of
  2^32, and the share of idle time is none of the 14, or the system had no time at all.
-/

namespace LibVsf

open Std Runs

/-! ## Two readings of `/proc/stat` -/

namespace Stat

/-- The sum of the counters. -/
def sum (stat : Stat) : ℕ :=
  stat.user.toNat + stat.nice.toNat + stat.system.toNat + stat.idle.toNat

theorem toNat_total (stat : Stat) : stat.total.toNat = stat.sum % 2 ^ 32 := by
  simp only [total, UInt64.toNat_toUInt32, UInt64.toNat_add, sum]
  omega

/-- No counter goes back, and together they grow by less than 2^32. -/
structure Grows (old stat : Stat) : Prop where
  user : old.user ≤ stat.user
  nice : old.nice ≤ stat.nice
  system : old.system ≤ stat.system
  idle : old.idle ≤ stat.idle
  fewer : stat.sum < old.sum + 2 ^ 32

/-- The time the system had between two readings. -/
def totalGrowth (old stat : Stat) : ℕ := stat.sum - old.sum

/-- The time of it that was idle. -/
def idleGrowth (old stat : Stat) : ℕ := stat.idle.toNat - old.idle.toNat

theorem Grows.le {old stat : Stat} (h : Grows old stat) :
    old.sum ≤ stat.sum ∧ idleGrowth old stat ≤ totalGrowth old stat ∧
      totalGrowth old stat < 2 ^ 32 := by
  obtain ⟨huser, hnice, hsystem, hidle, hfewer⟩ := h
  rw [UInt64.le_iff_toNat_le] at huser hnice hsystem hidle
  simp only [idleGrowth, totalGrowth, sum] at *
  omega

/-- The difference of the truncated totals is that of the totals. -/
theorem toNat_total_sub {old stat : Stat} (h : Grows old stat) :
    (stat.total - old.total).toNat = totalGrowth old stat := by
  obtain ⟨hle, -, hlt⟩ := h.le
  rw [UInt32.toNat_sub, toNat_total, toNat_total]
  unfold totalGrowth at *
  omega

theorem toNat_idle_sub {old stat : Stat} (h : Grows old stat) :
    (stat.idle.toUInt32 - old.idle.toUInt32).toNat = idleGrowth old stat := by
  obtain ⟨-, hidle, hlt⟩ := h.le
  have hle : old.idle.toNat ≤ stat.idle.toNat := UInt64.le_iff_toNat_le.1 h.idle
  rw [UInt32.toNat_sub, UInt64.toNat_toUInt32, UInt64.toNat_toUInt32]
  unfold idleGrowth at *
  omega

/-- The share of the time that was not idle, in percent: 0 if the system had no time. -/
def busyFigure (old stat : Stat) : ℕ :=
  100 * (totalGrowth old stat - idleGrowth old stat) / totalGrowth old stat

end Stat

namespace CpuUsage

open Stat

/-! ## Reading the usage of the system -/

/-- The share of the time that was not idle, in percent. The operations are those of doubles. -/
def busyPercent (idle total : ℕ) : ℚ :=
  Doubles.round (Doubles.round (1 - Doubles.round (Doubles.round (idle * 1) / total)) * 100)

/-- What `get_sys_cpu_usage_without_refresh` reads under the lock. -/
def sysCpuUsage (s : CpuUsage) : Int :=
  Doubles.trunc (if s.totalCpuTimeOld = 0 ∨ s.totalCpuTimeDelta = 0 then 0
    else busyPercent s.idleTimeDelta.toNat s.totalCpuTimeDelta.toNat)

/-- `get_sys_cpu_usage_without_refresh`: `none` while it waits for data. -/
def getSysCpuUsageWithoutRefresh (s : CpuUsage) : Option Int :=
  if s.hasData then some s.sysCpuUsage else none

/-! ### The doubles -/

/-- The shares of idle time, in percent, at which the usage comes out one percent short. -/
def shortShares : List ℕ := [34, 55, 56, 67, 68, 78, 79, 80, 81, 89, 90, 91, 92, 93]

/-- The percentage of a share `x` of idle time. -/
def busyOf (x : ℚ) : ℚ := Doubles.round (Doubles.round (1 - Doubles.round x) * 100)

theorem busyPercent_eq {idle total : ℕ} (h : idle < 2 ^ 32) :
    busyPercent idle total = busyOf (idle / total) := by
  rw [busyPercent, mul_one, Doubles.round_natCast (h.trans (by norm_num)), busyOf]

theorem abs_busyOf_sub_le {x : ℚ} (h0 : 0 ≤ x) (h1 : x ≤ 1) :
    |busyOf x - 100 * (1 - x)| ≤ 600 / 2 ^ 53 := by
  have hshare := Doubles.abs_round_sub_le x
  have hbusy := Doubles.abs_round_sub_le (1 - Doubles.round x)
  have hpercent := Doubles.abs_round_sub_le (Doubles.round (1 - Doubles.round x) * 100)
  rw [← busyOf] at hpercent
  generalize busyOf x = c at *
  generalize Doubles.round (1 - Doubles.round x) = b at *
  generalize Doubles.round x = a at *
  have hx : |x| ≤ 1 := abs_le.2 ⟨by linarith, h1⟩
  have ha : |a - x| ≤ 1 / 2 ^ 53 := hshare.trans (by gcongr)
  have hrest : |1 - a| ≤ 2 := by
    obtain ⟨hlow, hhigh⟩ := abs_le.1 ha
    exact abs_le.2 ⟨by linarith, by linarith⟩
  have hb : |b - (1 - a)| ≤ 2 / 2 ^ 53 := hbusy.trans (by gcongr)
  have hscaled : |b * 100| ≤ 300 := by
    obtain ⟨hlow, hhigh⟩ := abs_le.1 hb
    obtain ⟨hlow', hhigh'⟩ := abs_le.1 hrest
    exact abs_le.2 ⟨by linarith, by linarith⟩
  have hc : |c - b * 100| ≤ 300 / 2 ^ 53 := hpercent.trans (by gcongr)
  rw [abs_le] at *
  obtain ⟨ha₁, ha₂⟩ := ha
  obtain ⟨hb₁, hb₂⟩ := hb
  obtain ⟨hc₁, hc₂⟩ := hc
  constructor <;> linarith

theorem trunc_busyOf {idle total : ℕ} (htotal : 0 < total) (hlt : total < 2 ^ 32)
    (hle : idle ≤ total) (hnot : ¬ total ∣ 100 * idle) :
    Doubles.trunc (busyOf (idle / total)) = (100 * (total - idle) / total : ℕ) := by
  have hpos : (0 : ℚ) < total := by exact_mod_cast htotal
  have hne : idle ≠ total := by
    rintro rfl
    exact hnot (Nat.dvd_mul_left _ _)
  have hshare : (idle : ℚ) / total ≤ 1 - 1 / total := by
    rw [le_sub_iff_add_le, ← add_div, div_le_one hpos]
    exact_mod_cast Nat.lt_of_le_of_ne hle hne
  have hunit : (1 : ℚ) / 2 ^ 32 ≤ 1 / total := by
    refine one_div_le_one_div_of_le hpos ?_
    exact_mod_cast hlt.le
  have hexact : 100 * (1 - (idle : ℚ) / total) = (100 * (total - idle) : ℕ) / total := by
    rw [one_sub_div hpos.ne', mul_div_assoc']
    push_cast [hle]
    rfl
  have hnear := abs_busyOf_sub_le (x := idle / total) (by positivity) (by linarith)
  rw [hexact] at hnear
  refine Doubles.trunc_eq_div htotal ?_ ?_ (hnear.trans_lt ?_)
  · rw [Nat.mul_sub]
    exact fun hdvd => hnot ((Nat.dvd_sub_iff_right (Nat.mul_le_mul_left _ hle)
      (Nat.dvd_mul_left _ _)).1 hdvd)
  · have hround := Doubles.abs_round_sub_le ((idle : ℚ) / total)
    rw [abs_of_nonneg (by positivity : (0 : ℚ) ≤ idle / total)] at hround
    have hle1 : Doubles.round ((idle : ℚ) / total) ≤ 1 := by
      obtain ⟨-, hhigh⟩ := abs_le.1 hround
      linarith
    exact Doubles.round_nonneg
      (mul_nonneg (Doubles.round_nonneg (sub_nonneg.2 hle1)) (by norm_num))
  · linarith

/-- The whole percentages. -/
theorem trunc_busyOf_whole : ∀ j ≤ 100,
    (Doubles.trunc (busyOf ((j : ℕ) / 100)) = (100 - j : ℕ) ↔ j ∉ shortShares) := by
  decide +kernel

theorem busyPercent_eq_iff {idle total : ℕ} (htotal : 0 < total) (hlt : total < 2 ^ 32)
    (hle : idle ≤ total) :
    Doubles.trunc (busyPercent idle total) = (100 * (total - idle) / total : ℕ) ↔
      ∀ j ∈ shortShares, 100 * idle ≠ j * total := by
  rw [busyPercent_eq (hle.trans_lt hlt)]
  by_cases hdvd : total ∣ 100 * idle
  · obtain ⟨j, hj⟩ := hdvd
    have hpos : (0 : ℚ) < total := by exact_mod_cast htotal
    have hshare : (idle : ℚ) / total = j / 100 := by
      rw [div_eq_div_iff hpos.ne' (by norm_num)]
      have hcast : (100 * idle : ℚ) = total * j := by exact_mod_cast hj
      linarith
    have hwhole : j ≤ 100 := by
      by_contra hgt
      have hmore : total * 101 ≤ total * j := Nat.mul_le_mul_left _ (by omega)
      omega
    have hexact : 100 * (total - idle) / total = 100 - j := by
      rw [Nat.mul_sub, hj, Nat.mul_comm 100, ← Nat.mul_sub, Nat.mul_div_cancel_left _ htotal]
    rw [hshare, hexact, trunc_busyOf_whole j hwhole, hj]
    constructor
    · intro hnot j' hj' heq
      rw [Nat.mul_comm] at heq
      exact hnot (Nat.eq_of_mul_eq_mul_right htotal heq ▸ hj')
    · intro hall hmem
      exact hall j hmem (Nat.mul_comm _ _)
  · refine iff_of_true (trunc_busyOf htotal hlt hle hdvd) fun j _ heq => hdvd ?_
    exact ⟨j, by rw [heq, Nat.mul_comm]⟩

/-! ## The readings -/

/-- What is kept of a reading: the fields that `refresh_system` has written. -/
structure SystemRead (s : CpuUsage) (stat : Stat) (s' : CpuUsage) : Prop where
  totalOld : s'.totalCpuTimeOld = s.totalCpuTimeNew
  totalNew : s'.totalCpuTimeNew = stat.total
  totalDelta : s'.totalCpuTimeDelta = stat.total - s.totalCpuTimeNew
  idleNew : s'.idleTimeNew = stat.idle.toUInt32
  idleDelta : s'.idleTimeDelta = stat.idle.toUInt32 - s.idleTimeNew

theorem systemRead_of_rest {s s' : CpuUsage} {stat : Stat}
    (h : s'.rest = (s.systemRead stat).refreshWatching.rest) : SystemRead s stat s' :=
  ⟨(eq_of_rest totalCpuTimeOld (fun _ => rfl) h).trans rfl,
    (eq_of_rest totalCpuTimeNew (fun _ => rfl) h).trans rfl,
    (eq_of_rest totalCpuTimeDelta (fun _ => rfl) h).trans rfl,
    (eq_of_rest idleTimeNew (fun _ => rfl) h).trans rfl,
    (eq_of_rest idleTimeDelta (fun _ => rfl) h).trans rfl⟩

/-- However a refresh ends that has read `/proc/stat`, it has written these fields. -/
theorem systemRead_tryRefresh {s s' : CpuUsage} {round : Round} {ended : Ended} {stat : Stat}
    (h : s.tryRefresh round = .ok (s', ended)) (hstat : round.env.stat = some stat) :
    SystemRead s stat s' := by
  have hreturned {s₁ : CpuUsage} (hrefresh : s.refresh round.env = .ok s₁) :
      SystemRead s stat s₁ := by
    obtain ⟨stat', s₂, hstat', hrest, rfl⟩ := rest_refresh hrefresh
    obtain rfl : stat = stat' := Option.some.inj (hstat.symm.trans hstat')
    obtain ⟨htotalOld, htotalNew, htotalDelta, hidleNew, hidleDelta⟩ := systemRead_of_rest hrest
    exact ⟨htotalOld, htotalNew, htotalDelta, hidleNew, hidleDelta⟩
  cases tryRefresh_cases h with
  | statFailed hnone =>
    rw [hnone] at hstat
    cases hstat
  | openprocFailed hstat' hl =>
    obtain rfl := Option.some.inj (hstat.symm.trans hstat')
    exact systemRead_of_rest rfl
  | returned hrefresh => exact hreturned hrefresh
  | callbackThrew hrefresh =>
    obtain ⟨htotalOld, htotalNew, htotalDelta, hidleNew, hidleDelta⟩ := hreturned hrefresh
    exact ⟨htotalOld, htotalNew, htotalDelta, hidleNew, hidleDelta⟩

/-- The sampler, with the reading of `/proc/stat` before, since it was constructed or cleared. -/
structure Metered where
  cpu : CpuUsage
  last : Option Stat := none

namespace Metered

/-- A sampler on a machine with `cpuNum` CPUs. -/
def init (cpuNum : UInt32) : Metered := { cpu := { cpuNum := cpuNum } }

def act (t : Metered) : Act → Except CpuUsageFailure Metered
  | .refresh round => (t.cpu.tryRefresh round).map fun r =>
      ⟨r.1, if round.env.stat.isSome then round.env.stat else t.last⟩
  | .clear => .ok { cpu := t.cpu.clear }
  | .setCallback callbackFunc => .ok { t with cpu := t.cpu.setCallback callbackFunc }
  | .startWatching pid => .ok { t with cpu := t.cpu.startWatching pid }
  | .stopWatching pid => .ok { t with cpu := t.cpu.stopWatching pid }

theorem runE_forget (t : Metered) (acts : List Act) :
    (runE act t acts).map Metered.cpu = runE CpuUsage.act t.cpu acts := by
  refine runE_map CpuUsage.act (fun t a => ?_) t acts
  cases a with
  | refresh round =>
    simp only [act, CpuUsage.act]
    cases t.cpu.tryRefresh round <;> rfl
  | setCallback | startWatching | stopWatching | clear => rfl

/-- The fields hold what the reading before was, or zero. -/
structure Inv (t : Metered) : Prop where
  total : t.cpu.totalCpuTimeNew = (t.last.map Stat.total).getD 0
  idle : t.cpu.idleTimeNew = (t.last.map fun stat => stat.idle.toUInt32).getD 0

theorem inv_init (cpuNum : UInt32) : (init cpuNum).Inv := ⟨rfl, rfl⟩

theorem inv_act {t t' : Metered} {a : Act} (h : t.Inv) (hact : t.act a = .ok t') : t'.Inv := by
  cases a with
  | setCallback callbackFunc | startWatching pid | stopWatching pid =>
    obtain rfl := Except.ok.inj hact
    exact ⟨h.total, h.idle⟩
  | clear =>
    obtain rfl := Except.ok.inj hact
    exact ⟨rfl, rfl⟩
  | refresh round =>
    obtain ⟨⟨cpu, ended⟩, htry, rfl⟩ := map_eq_ok.1 hact
    cases hstat : round.env.stat with
    | some stat =>
      have hread := systemRead_tryRefresh htry hstat
      exact ⟨hread.totalNew, hread.idleNew⟩
    | none =>
      cases tryRefresh_cases htry with
      | statFailed => exact ⟨h.total, h.idle⟩
      | openprocFailed hstat' =>
        rw [hstat] at hstat'
        cases hstat'
      | returned hrefresh | callbackThrew hrefresh =>
        obtain ⟨stat, s₁, hstat', -⟩ := rest_refresh hrefresh
        rw [hstat] at hstat'
        cases hstat'

end Metered

/-! ## What is exact -/

/-- What is kept and reported after the second of two readings is exact. -/
structure Exact (old stat : Stat) (s : CpuUsage) : Prop where
  total : s.getTotalCpuTimeDelta.toNat = totalGrowth old stat
  idle : s.idleTimeDelta.toNat = idleGrowth old stat
  usage : s.sysCpuUsage = busyFigure old stat
  range : 0 ≤ s.sysCpuUsage ∧ s.sysCpuUsage ≤ 100

/-- The total that was read before is not taken for none, and the doubles do not fall short of the
percentage; or the system had no time. -/
def Kept (old stat : Stat) : Prop :=
  totalGrowth old stat = 0 ∨
    old.sum % 2 ^ 32 ≠ 0 ∧
      ∀ j ∈ shortShares, 100 * idleGrowth old stat ≠ j * totalGrowth old stat

theorem busyFigure_le (old stat : Stat) : busyFigure old stat ≤ 100 := by
  unfold busyFigure
  exact Nat.div_le_of_le_mul (by rw [Nat.mul_comm]; exact Nat.mul_le_mul_right _ (Nat.sub_le _ _))

/-- **Two readings.** -/
theorem exact_iff_kept {s s' : CpuUsage} {old stat : Stat} (hread : SystemRead s stat s')
    (htotal : s.totalCpuTimeNew = old.total) (hidle : s.idleTimeNew = old.idle.toUInt32)
    (hgrows : Grows old stat) : Exact old stat s' ↔ Kept old stat := by
  have hdelta : s'.totalCpuTimeDelta.toNat = totalGrowth old stat := by
    rw [hread.totalDelta, htotal, toNat_total_sub hgrows]
  have hidleDelta : s'.idleTimeDelta.toNat = idleGrowth old stat := by
    rw [hread.idleDelta, hidle, toNat_idle_sub hgrows]
  have hold : s'.totalCpuTimeOld = 0 ↔ old.sum % 2 ^ 32 = 0 := by
    rw [hread.totalOld, htotal, ← toNat_total, ← UInt32.toNat_inj]
    rfl
  have hzero : s'.totalCpuTimeDelta = 0 ↔ totalGrowth old stat = 0 := by
    rw [← hdelta, ← UInt32.toNat_inj]
    rfl
  by_cases hgrowth : totalGrowth old stat = 0
  · refine iff_of_true ?_ (.inl hgrowth)
    have hreported : s'.sysCpuUsage = 0 := by
      rw [sysCpuUsage, if_pos (.inr (hzero.2 hgrowth))]
      rfl
    have hfigure : busyFigure old stat = 0 := by rw [busyFigure, hgrowth, Nat.div_zero]
    refine ⟨?_, hidleDelta, by rw [hreported, hfigure]; rfl, by omega⟩
    rw [getTotalCpuTimeDelta, hzero.2 hgrowth, ite_self, hgrowth]
    rfl
  · rw [Kept, or_iff_right hgrowth]
    by_cases htaken : old.sum % 2 ^ 32 = 0
    · refine iff_of_false (fun h => hgrowth ?_) fun h => h.1 htaken
      rw [← h.total, getTotalCpuTimeDelta, if_pos (hold.2 htaken)]
      rfl
    · rw [and_iff_right htaken]
      have hnot : ¬ (s'.totalCpuTimeOld = 0 ∨ s'.totalCpuTimeDelta = 0) := by
        rw [hold, hzero]
        exact not_or.2 ⟨htaken, hgrowth⟩
      obtain ⟨-, hle, hlt⟩ := hgrows.le
      rw [← busyPercent_eq_iff (Nat.pos_of_ne_zero hgrowth) hlt hle]
      have husage : s'.sysCpuUsage =
          Doubles.trunc (busyPercent (idleGrowth old stat) (totalGrowth old stat)) := by
        rw [sysCpuUsage, if_neg hnot, hdelta, hidleDelta]
      rw [← husage]
      refine ⟨fun h => h.usage, fun h => ⟨?_, hidleDelta, h, ?_⟩⟩
      · rw [getTotalCpuTimeDelta, if_neg fun hzero => hnot (.inl hzero), hdelta]
      · have hfigure := busyFigure_le old stat
        have hreported : s'.sysCpuUsage = busyFigure old stat := h
        omega

/-! ## Over a run -/

namespace Metered

/-- `Q` holds of every refresh that reads `/proc/stat` again, and of what it leaves. -/
def OnReading (Q : Stat → Stat → CpuUsage → Prop) (t : Metered) : Act → Prop
  | .refresh round => ∀ cpu ended old stat, t.cpu.tryRefresh round = .ok (cpu, ended) →
      t.last = some old → round.env.stat = some stat → Q old stat cpu
  | _ => True

/-- **The deltas and the usage are exact from the second reading on exactly when they are kept.** -/
theorem deltas_exact_iff (cpuNum : UInt32) (acts : List Act) :
    AlongE act (OnReading fun old stat s => Grows old stat → Exact old stat s)
        (init cpuNum) acts ↔
      AlongE act (OnReading fun old stat _ => Grows old stat → Kept old stat)
        (init cpuNum) acts := by
  refine alongE_congr act (fun t a t' ht => inv_act ht) (fun t a ht => ?_) (inv_init cpuNum) acts
  cases a with
  | refresh round =>
    refine forall₂_congr fun cpu ended => forall₂_congr fun old stat => ?_
    refine forall₃_congr fun htry hlast hstat => forall_congr' fun hgrows => ?_
    refine exact_iff_kept (systemRead_tryRefresh htry hstat) ?_ ?_ hgrows
    · rw [ht.total, hlast]
      rfl
    · rw [ht.idle, hlast]
      rfl
  | setCallback | startWatching | stopWatching | clear => rfl

/-! ### A total of 2^32 -/

/-- The system has had 2^32 and then `later` of both idle and other time. -/
def readsStat (later : UInt64) : Round where
  env := ⟨some ⟨4294967296 + later, 0, 0, later⟩, fun _ => some ⟨[], List.nodup_nil⟩⟩

/-- The system has had 100 more: it is reported that it has had no time. -/
theorem not_exact_wrapped : ¬ ∀ cpuNum acts,
    AlongE act (OnReading fun old stat s => Grows old stat → Exact old stat s)
      (init cpuNum) acts := by
  intro hall
  obtain ⟨t, hrun, ht⟩ := exists_ok_of_any (x := runE act (init 1) [.refresh (readsStat 0)])
    (p := fun t => (t.last.any fun stat =>
        stat.user = 4294967296 ∧ stat.nice = 0 ∧ stat.system = 0 ∧ stat.idle = 0) ∧
      (t.cpu.tryRefresh (readsStat 50)).toOption.any fun r => r.1.getTotalCpuTimeDelta = 0)
    (by decide +kernel)
  obtain ⟨hlast, hany⟩ := of_decide_eq_true ht
  obtain ⟨old, hold, hfields⟩ := (Option.any_eq_true _ _).1 hlast
  obtain ⟨⟨cpu, ended⟩, htry, hcpu⟩ := exists_ok_of_any hany
  obtain ⟨user, nice, system, idle⟩ := old
  obtain ⟨rfl, rfl, rfl, rfl⟩ := of_decide_eq_true hfields
  have hexact := (hall 1 ([.refresh (readsStat 0)] ++ [.refresh (readsStat 50)])).at act hrun
    cpu ended _ _ htry hold rfl ⟨by decide, by decide, by decide, by decide, by decide⟩
  have htotal := hexact.total
  rw [of_decide_eq_true hcpu] at htotal
  exact absurd htotal (by decide)

end Metered

end CpuUsage

end LibVsf
