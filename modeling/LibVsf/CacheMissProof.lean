import LibVsf.CacheMiss
import LibVsf.Lib.Runs
import Mathlib.Tactic.Ring

/-!
# `CacheMiss`: the counts and rates of a round

A round turns the record of a thread into `sampled first second`, whatever happened before: the
reads that fail in `start_sample` or `stop_sample` clear the counts and baselines of all four
events, but the record takes part in the rest of the round. So the two passes can disagree, and
rates are not cleared with the counts.

**Theorem (`counts_iff`).** In any round of any run the counts of a thread are differences of
reads of this round exactly unless it was `Blind`: a first read failed and the second reads did
not, so that the events' accumulated values were taken for counts.

**Theorem (`rates_iff`).** The rates agree with the counts exactly if every event that was not
`Counted` in this round had never been rated before.
-/

namespace LibVsf

open Std Runs

/-! ## The reads of a thread -/

theorem PerfEvent.mem_all (e : PerfEvent) : e ∈ PerfEvent.all := by
  cases e <;> simp [PerfEvent.all]

theorem PerfEvent.nodup_all : PerfEvent.all.Nodup := by decide

/-- Every event can be read. -/
def AllRead (value : PerfEvent → Option UInt64) : Prop := ∀ e ∈ PerfEvent.all, (value e).isSome

instance (value : PerfEvent → Option UInt64) : Decidable (AllRead value) :=
  inferInstanceAs (Decidable (∀ e ∈ PerfEvent.all, (value e).isSome))

/-- The value of an event that was read: the events before it were, too. -/
def made (value : PerfEvent → Option UInt64) (e : PerfEvent) : Option UInt64 :=
  if ∀ e' ∈ PerfEvent.all.takeWhile (· ≠ e), (value e').isSome then value e else none

theorem AllRead.made_eq {value : PerfEvent → Option UInt64} (h : AllRead value) (e : PerfEvent) :
    made value e = value e :=
  if_pos fun e' he' => h e' ((List.takeWhile_prefix _).subset he')

namespace CacheMissData

@[simp] theorem event_mapEvents (f : PerfEvent → PerfData → PerfData) (d : CacheMissData)
    (e : PerfEvent) : (d.mapEvents f).event e = f e (d.event e) := by
  cases e <;> rfl

theorem mapEvents_congr {f g : PerfEvent → PerfData → PerfData} {d : CacheMissData}
    (h : ∀ e, f e (d.event e) = g e (d.event e)) : d.mapEvents f = d.mapEvents g := by
  have hmiss : f .cacheMisses d.cacheMisses = g .cacheMisses d.cacheMisses := h .cacheMisses
  have hcycles : f .cpuCycles d.cpuCycles = g .cpuCycles d.cpuCycles := h .cpuCycles
  have hinstr : f .instructions d.instructions = g .instructions d.instructions :=
    h .instructions
  have href : f .cacheReferences d.cacheReferences = g .cacheReferences d.cacheReferences :=
    h .cacheReferences
  simp only [mapEvents]
  rw [hmiss, hcycles, hinstr, href]

theorem mapEvents_mapEvents (f g : PerfEvent → PerfData → PerfData) (d : CacheMissData) :
    (d.mapEvents f).mapEvents g = d.mapEvents fun e p => g e (f e p) :=
  rfl

theorem setEvent_event (d : CacheMissData) (e : PerfEvent) : d.setEvent e (d.event e) = d := by
  have h : d.setEvent e (d.event e) = d.mapEvents fun _ p => p := by
    refine mapEvents_congr fun e' => ?_
    split_ifs with he
    · rw [he]
    · rfl
  rw [h]
  rfl

/-- The rates over an event: those it is the denominator of. -/
def rates (d : CacheMissData) : PerfEvent → List ℚ
  | .cacheMisses => []
  | .cpuCycles => [d.mptc]
  | .instructions => [d.mpti, d.rpti, d.cpi]
  | .cacheReferences => [d.mptr]

@[simp] theorem rates_mapEvents (f : PerfEvent → PerfData → PerfData) (d : CacheMissData) :
    (d.mapEvents f).rates = d.rates := by
  funext e
  cases e <;> rfl

@[simp] theorem tid_mapEvents (f : PerfEvent → PerfData → PerfData) (d : CacheMissData) :
    (d.mapEvents f).tid = d.tid :=
  rfl

@[simp] theorem event_updateMissRate (d : CacheMissData) (e : PerfEvent) :
    d.updateMissRate.event e = d.event e := by
  unfold updateMissRate
  cases e <;> dsimp only <;> split_ifs <;> rfl

/-- Reads that only change times and counts: either all are made, or what they changed is
cleared. -/
theorem readEvents_eq (read : PerfData → Option UInt64 → PerfData × Bool)
    (done : PerfData → UInt64 → PerfData) (hsome : ∀ p v, read p (some v) = (done p v, true))
    (hnone : ∀ p, read p none = (p, false)) (hclear : ∀ p v, (done p v).clearData = p.clearData)
    (value : PerfEvent → Option UInt64) {es : List PerfEvent} (hes : es.Nodup)
    (d : CacheMissData) :
    ((∀ e ∈ es, (value e).isSome) → readEvents read value es d =
      (d.mapEvents fun e p => if e ∈ es then done p ((value e).getD 0) else p, true)) ∧
    ((¬ ∀ e ∈ es, (value e).isSome) → (readEvents read value es d).2 = false ∧
      (readEvents read value es d).1.clearData = d.clearData) := by
  induction es generalizing d with
  | nil => exact ⟨fun _ => rfl, fun h => absurd (fun e he => by cases he) h⟩
  | cons e es ih =>
    obtain ⟨he, hes⟩ := List.nodup_cons.1 hes
    cases hv : value e with
    | none =>
      refine ⟨fun h => ?_, fun _ => ?_⟩
      · have := h e List.mem_cons_self
        simp [hv] at this
      · simp [readEvents, hv, hnone, setEvent_event]
    | some v =>
      obtain ⟨hall, hnot⟩ := ih hes (d.setEvent e (done (d.event e) v))
      have hread : readEvents read value (e :: es) d =
          readEvents read value es (d.setEvent e (done (d.event e) v)) := by
        simp [readEvents, hv, hsome]
      rw [hread]
      refine ⟨fun h => ?_, fun h => ?_⟩
      · rw [hall fun e' he' => h e' (List.mem_cons_of_mem e he')]
        simp only [setEvent]
        rw [mapEvents_mapEvents]
        refine congrArg (fun d => (d, true)) (mapEvents_congr fun e' => ?_)
        by_cases hee : e' = e
        · subst hee
          simp [he, hv]
        · simp [hee]
      · have hrest : ¬ ∀ e' ∈ es, (value e').isSome := by
          intro hrest
          refine h fun e' he' => ?_
          rcases List.mem_cons.1 he' with rfl | he'
          · rw [hv]
            rfl
          · exact hrest e' he'
        obtain ⟨hfalse, hcleared⟩ := hnot hrest
        refine ⟨hfalse, hcleared.trans ?_⟩
        simp only [setEvent, clearData]
        rw [mapEvents_mapEvents]
        refine mapEvents_congr fun e' => ?_
        split_ifs with hee
        · rw [hee, hclear]
        · rfl

theorem firstRead_eq (d : CacheMissData) (value : PerfEvent → Option UInt64) :
    d.firstRead value = if AllRead value then
      (d.mapEvents fun e p => { p with firstTime := (value e).getD 0 }, true)
    else (d.clearData, false) := by
  obtain ⟨hall, hnot⟩ := readEvents_eq PerfData.firstRead
    (fun p v => { p with firstTime := v }) (fun _ _ => rfl) (fun _ => rfl)
    (fun _ _ => rfl) value PerfEvent.nodup_all d
  unfold firstRead
  split_ifs with h
  · rw [hall h]
    simp only [PerfEvent.mem_all, if_true]
  · obtain ⟨hfalse, hcleared⟩ := hnot h
    generalize readEvents PerfData.firstRead value PerfEvent.all d = r at hfalse hcleared ⊢
    obtain ⟨d', ok⟩ := r
    cases hfalse
    exact congrArg (fun d => (d, false)) hcleared

theorem secondRead_eq (d : CacheMissData) (value : PerfEvent → Option UInt64) :
    d.secondRead value = if AllRead value then
      ((d.mapEvents fun e p => p.second ((value e).getD 0)).updateMissRate, true)
    else (d.clearData, false) := by
  obtain ⟨hall, hnot⟩ := readEvents_eq PerfData.secondRead PerfData.second
    (fun _ _ => rfl) (fun _ => rfl) (fun _ _ => rfl) value PerfEvent.nodup_all d
  unfold secondRead
  split_ifs with h
  · rw [hall h]
    simp only [PerfEvent.mem_all, if_true]
  · obtain ⟨hfalse, hcleared⟩ := hnot h
    generalize readEvents PerfData.secondRead value PerfEvent.all d = r at hfalse hcleared ⊢
    obtain ⟨d', ok⟩ := r
    cases hfalse
    exact congrArg (fun d => (d, false)) hcleared

/-! ## A round of a thread -/

/-- What a round makes of the record of a thread. -/
def sampled (first second : PerfEvent → Option UInt64) (d : CacheMissData) : CacheMissData :=
  ((d.firstRead first).1.secondRead second).1

/-- What the second read of an event is compared with. -/
def baseline (first : PerfEvent → Option UInt64) (e : PerfEvent) : UInt64 :=
  if AllRead first then (first e).getD 0 else 0

/-- The round gives the event a count. -/
def Counted (first second : PerfEvent → Option UInt64) (e : PerfEvent) : Prop :=
  AllRead second ∧ baseline first e < (second e).getD 0

theorem firstTime_firstRead (d : CacheMissData) (first : PerfEvent → Option UInt64)
    (e : PerfEvent) : ((d.firstRead first).1.event e).firstTime = baseline first e := by
  rw [firstRead_eq]
  simp only [baseline]
  split_ifs
  · rw [event_mapEvents]
  · show ((d.mapEvents fun _ p => p.clearData).event e).firstTime = 0
    rw [event_mapEvents]
    rfl

theorem rates_firstRead (d : CacheMissData) (first : PerfEvent → Option UInt64) :
    (d.firstRead first).1.rates = d.rates := by
  rw [firstRead_eq]
  split_ifs
  · exact rates_mapEvents _ d
  · exact rates_mapEvents _ d

theorem tid_firstRead (d : CacheMissData) (first : PerfEvent → Option UInt64) :
    (d.firstRead first).1.tid = d.tid := by
  rw [firstRead_eq]
  split_ifs
  · exact tid_mapEvents _ d
  · exact tid_mapEvents _ d

/-- **The counts of a round.** -/
theorem count_sampled (first second : PerfEvent → Option UInt64) (d : CacheMissData)
    (e : PerfEvent) : ((sampled first second d).event e).count =
      if AllRead second ∧ baseline first e < (second e).getD 0 then
        (second e).getD 0 - baseline first e
      else 0 := by
  simp only [sampled]
  rw [secondRead_eq]
  by_cases h : AllRead second
  · rw [if_pos h, event_updateMissRate, event_mapEvents]
    simp only [PerfData.second]
    simp only [firstTime_firstRead, h, true_and]
  · rw [if_neg h, if_neg fun hc => h hc.1]
    simp only [clearData]
    rw [event_mapEvents]
    rfl

theorem counted_iff (first second : PerfEvent → Option UInt64) (d : CacheMissData)
    (e : PerfEvent) : ((sampled first second d).event e).count > 0 ↔ Counted first second e := by
  rw [count_sampled]
  simp only [Counted]
  split_ifs with h
  · refine iff_of_true ?_ h
    have hlt : (baseline first e).toNat < ((second e).getD 0).toNat := h.2
    rw [gt_iff_lt, UInt64.lt_iff_toNat_lt, UInt64.toNat_sub_of_le _ _ (UInt64.le_of_lt h.2)]
    exact Nat.sub_pos_of_lt hlt
  · exact iff_of_false (by decide) h

/-! ### Counts -/

/-- Zero, or the difference between a second and a first read of the event, both of this
round. -/
def FromRound (first second : PerfEvent → Option UInt64) (e : PerfEvent) (count : UInt64) : Prop :=
  count = 0 ∨ ∃ f v, made first e = some f ∧ made second e = some v ∧ f ≤ v ∧ count = v - f

/-- A first read failed and the second reads did not, and the accumulated value of some event is
not what has been counted since a first read of it. -/
def Blind (first second : PerfEvent → Option UInt64) : Prop :=
  ¬ AllRead first ∧ AllRead second ∧ ∃ e, second e ≠ some 0 ∧ made first e ≠ some 0

theorem eq_zero_of_eq_sub {f v : UInt64} (hle : f ≤ v) (h : v = v - f) : f = 0 := by
  have hnat : v.toNat = v.toNat - f.toNat := by
    rw [← UInt64.toNat_sub_of_le v f hle, ← h]
  have hle' : f.toNat ≤ v.toNat := hle
  refine UInt64.toNat_inj.1 ?_
  show f.toNat = 0
  omega

/-- Where both reads of all events were made, the baselines are the first ones. -/
theorem fromRound_of_allRead {first second : PerfEvent → Option UInt64} (h₁ : AllRead first)
    (h₂ : AllRead second) (d : CacheMissData) (e : PerfEvent) :
    FromRound first second e ((sampled first second d).event e).count := by
  rw [count_sampled]
  split_ifs with hlt
  · obtain ⟨f, hf⟩ := Option.isSome_iff_exists.1 (h₁ e e.mem_all)
    obtain ⟨v, hv⟩ := Option.isSome_iff_exists.1 (h₂ e e.mem_all)
    have hbase : baseline first e = f := by
      simp only [baseline]
      rw [if_pos h₁, hf]
      rfl
    rw [hbase, hv] at hlt ⊢
    exact Or.inr ⟨f, v, (h₁.made_eq e).trans hf, (h₂.made_eq e).trans hv,
      UInt64.le_of_lt hlt.2, rfl⟩
  · exact Or.inl rfl

/-- Where a first read failed the baselines are zero, so the accumulated values are what is
counted. -/
theorem count_sampled_of_unread {first second : PerfEvent → Option UInt64}
    (h₁ : ¬ AllRead first) (h₂ : AllRead second) (d : CacheMissData) (e : PerfEvent) :
    ((sampled first second d).event e).count = (second e).getD 0 := by
  rw [count_sampled, baseline, if_neg h₁]
  split_ifs with hlt
  · exact UInt64.sub_zero _
  · have hle : ¬ (0 : UInt64) < (second e).getD 0 := fun h => hlt ⟨h₂, h⟩
    exact (UInt64.le_antisymm (UInt64.not_lt.1 hle) (UInt64.zero_le)).symm

/-- An accumulated value comes from the round if it is zero, or was zero at the first read. -/
theorem fromRound_accumulated_iff {first second : PerfEvent → Option UInt64}
    (h₂ : AllRead second) (e : PerfEvent) :
    FromRound first second e ((second e).getD 0) ↔
      (second e = some 0 ∨ made first e = some 0) := by
  obtain ⟨v, hsome⟩ := Option.isSome_iff_exists.1 (h₂ e e.mem_all)
  have hmade : made second e = some v := (h₂.made_eq e).trans hsome
  rw [FromRound, hmade, hsome, Option.getD_some, Option.some.injEq]
  refine or_congr_right ⟨?_, ?_⟩
  · rintro ⟨f, v', hf, hv, hle, heq⟩
    rw [← Option.some.inj hv] at hle heq
    rw [hf, eq_zero_of_eq_sub hle heq]
  · intro hf
    exact ⟨0, v, hf, rfl, UInt64.zero_le, (UInt64.sub_zero v).symm⟩

/-- **The counts of a round come from its reads exactly unless the thread was `Blind`.** -/
theorem fromRound_iff (first second : PerfEvent → Option UInt64) (d : CacheMissData) :
    (∀ e, FromRound first second e ((sampled first second d).event e).count) ↔
      ¬ Blind first second := by
  by_cases h₂ : AllRead second
  · by_cases h₁ : AllRead first
    · exact iff_of_true (fromRound_of_allRead h₁ h₂ d) fun hb => hb.1 h₁
    · simp only [count_sampled_of_unread h₁ h₂, fromRound_accumulated_iff h₂]
      refine ⟨?_, ?_⟩
      · rintro h ⟨-, -, e, hv, hf⟩
        exact (h e).elim hv hf
      · intro h e
        by_contra hnot
        obtain ⟨hv, hf⟩ := not_or.1 hnot
        exact h ⟨h₁, h₂, e, hv, hf⟩
  · refine iff_of_true (fun e => ?_) fun hb => h₂ hb.2.1
    rw [count_sampled, if_neg fun hc => h₂ hc.1]
    exact Or.inl rfl

/-! ### Rates -/

/-- A rate over an event, -1 if the event has no count. -/
def rateOver (scale : ℚ) (num den : PerfData) : ℚ :=
  if den.count > 0 then scale * num.count.toNat / den.count.toNat else -1

/-- The rates agree with the counts. -/
structure RatesAgree (d : CacheMissData) : Prop where
  mptc : d.mptc = rateOver 1000 d.cacheMisses d.cpuCycles
  mptr : d.mptr = rateOver 1000 d.cacheMisses d.cacheReferences
  mpti : d.mpti = rateOver 1000 d.cacheMisses d.instructions
  rpti : d.rpti = rateOver 1000 d.cacheReferences d.instructions
  cpi : d.cpi = rateOver 1 d.cpuCycles d.instructions

/-- The rates over an event have never been computed. -/
def Unrated (d : CacheMissData) (e : PerfEvent) : Prop := ∀ r ∈ d.rates e, r = -1

theorem updateMissRate_eq (d : CacheMissData) : d.updateMissRate = { d with
    mptc := if d.cpuCycles.count > 0 then rateOver 1000 d.cacheMisses d.cpuCycles else d.mptc
    mptr := if d.cacheReferences.count > 0 then rateOver 1000 d.cacheMisses d.cacheReferences
      else d.mptr
    mpti := if d.instructions.count > 0 then rateOver 1000 d.cacheMisses d.instructions
      else d.mpti
    rpti := if d.instructions.count > 0 then rateOver 1000 d.cacheReferences d.instructions
      else d.rpti
    cpi := if d.instructions.count > 0 then rateOver 1 d.cpuCycles d.instructions
      else d.cpi } := by
  have hscale (num den : PerfData) (hden : den.count > 0) (scale : ℚ) :
      (num.count.toNat : ℚ) / den.count.toNat * scale = rateOver scale num den := by
    simp only [rateOver]
    rw [if_pos hden]
    ring
  have hcpi (hden : d.instructions.count > 0) :
      (d.cpuCycles.count.toNat : ℚ) / d.instructions.count.toNat =
        rateOver 1 d.cpuCycles d.instructions := by
    rw [← hscale _ _ hden, mul_one]
  simp only [updateMissRate]
  by_cases hc : d.cpuCycles.count > 0 <;> by_cases hr : d.cacheReferences.count > 0 <;>
    by_cases hi : d.instructions.count > 0 <;>
    simp only [hc, hr, hi, if_true, if_false, hscale, hcpi]

/-- Rates that have just been updated agree with the counts if those that were not were unrated. -/
theorem ratesAgree_updateMissRate (d : CacheMissData) :
    RatesAgree d.updateMissRate ↔ ∀ e, (d.event e).count > 0 ∨ Unrated d e := by
  have hone (num den : PerfData) (scale rate : ℚ) :
      (if den.count > 0 then rateOver scale num den else rate) = rateOver scale num den ↔
        den.count > 0 ∨ rate = -1 := by
    simp only [rateOver]
    split_ifs with h <;> simp [h]
  rw [updateMissRate_eq]
  refine ⟨?_, ?_⟩
  · rintro ⟨hmptc, hmptr, hmpti, hrpti, hcpi⟩ e
    rw [hone] at hmptc hmptr hmpti hrpti hcpi
    cases e <;> simp only [event, Unrated, rates, List.forall_mem_cons, List.not_mem_nil,
      IsEmpty.forall_iff, implies_true, and_true] <;> tauto
  · intro h
    have hc := h .cpuCycles
    have hr := h .cacheReferences
    have hi := h .instructions
    simp only [event, Unrated, rates, List.forall_mem_cons, List.not_mem_nil,
      IsEmpty.forall_iff, implies_true, and_true] at hc hr hi
    exact ⟨(hone _ _ _ _).2 hc, (hone _ _ _ _).2 hr, (hone _ _ _ _).2 (by tauto),
      (hone _ _ _ _).2 (by tauto), (hone _ _ _ _).2 (by tauto)⟩

/-- The record of a round is one with the thread and the rates of before, updated. -/
theorem sampled_eq_updateMissRate (first second : PerfEvent → Option UInt64) (d : CacheMissData) :
    ∃ d' : CacheMissData, sampled first second d = d'.updateMissRate ∧
      d'.tid = d.tid ∧ d'.rates = d.rates := by
  simp only [sampled]
  rw [secondRead_eq]
  split_ifs
  · exact ⟨_, rfl, (tid_mapEvents _ _).trans (tid_firstRead d first),
      (rates_mapEvents _ _).trans (rates_firstRead d first)⟩
  · refine ⟨(d.firstRead first).1.clearData, ?_, (tid_mapEvents _ _).trans
      (tid_firstRead d first), (rates_mapEvents _ _).trans (rates_firstRead d first)⟩
    rfl

/-- **The rates of a round agree with its counts exactly if every event without a count was
unrated.** -/
theorem ratesAgree_iff (first second : PerfEvent → Option UInt64) (d : CacheMissData) :
    RatesAgree (sampled first second d) ↔ ∀ e, Counted first second e ∨ Unrated d e := by
  obtain ⟨d', hsampled, -, hrates⟩ := sampled_eq_updateMissRate first second d
  have hcount (e : PerfEvent) : (d'.event e).count > 0 ↔ Counted first second e := by
    rw [← counted_iff first second d, hsampled, event_updateMissRate]
  rw [hsampled, ratesAgree_updateMissRate]
  simp only [Unrated]
  simp only [hcount, hrates]

/-! ## Opening the events of a thread -/

theorem rates_openEvents (fd : PerfEvent → Int) (opened rest : List PerfEvent)
    (d : CacheMissData) : (openEvents fd opened rest d).1.rates = d.rates := by
  induction rest generalizing opened d with
  | nil => rfl
  | cons e rest ih =>
    simp only [openEvents]
    split_ifs
    · exact rates_mapEvents _ d
    · exact (rates_mapEvents _ _).trans (rates_mapEvents _ d)
    · exact (ih (opened ++ [e]) _).trans (rates_mapEvents _ d)

theorem tid_openEvents (fd : PerfEvent → Int) (opened rest : List PerfEvent)
    (d : CacheMissData) : (openEvents fd opened rest d).1.tid = d.tid := by
  induction rest generalizing opened d with
  | nil => rfl
  | cons e rest ih =>
    simp only [openEvents]
    split_ifs
    · rfl
    · rfl
    · exact ih (opened ++ [e]) _

/-- All events of the thread can be opened. -/
def CanOpen (fd : PerfEvent → Int) : Prop := ∀ e ∈ PerfEvent.all, 0 ≤ fd e

instance (fd : PerfEvent → Int) : Decidable (CanOpen fd) :=
  inferInstanceAs (Decidable (∀ e ∈ PerfEvent.all, 0 ≤ fd e))

theorem openFd_ok (d : CacheMissData) (fd : PerfEvent → Int) :
    (d.openFd fd).2.2 = true ↔ CanOpen fd := by
  have hrest (opened rest : List PerfEvent) (d : CacheMissData) :
      (openEvents fd opened rest d).2.2 = true ↔ ∀ e ∈ rest, 0 ≤ fd e := by
    induction rest generalizing opened d with
    | nil => simp [openEvents]
    | cons e rest ih =>
      simp only [openEvents]
      rw [List.forall_mem_cons]
      by_cases he : fd e < 0
      · simp [he]
      · simp only [he, if_false]
        rw [ih, iff_and_self]
        exact fun _ => Int.not_lt.1 he
  exact hrest [] PerfEvent.all d

end CacheMissData

/-! ## A round -/

namespace CacheMiss

open CacheMissData

theorem readAll_getElem? (s : CacheMiss) (read : Int → CacheMissData → CacheMissData × Bool)
    (tid : Int) : (s.readAll read).cacheMissData[tid]? =
      s.cacheMissData[tid]?.map fun d => (read tid d).1 :=
  ExtTreeMap.getElem?_map

/-- **The entries after a round** are those `start_sample` kept, sampled. -/
theorem refresh_getElem? (s : CacheMiss) (env : SampleEnv) (tid : Int) :
    (s.refresh env).1.cacheMissData[tid]? =
      (s.applyRequests env).cacheMissData[tid]?.map (sampled (env.first tid) (env.second tid)) := by
  show ((s.startSample env).readAll _).cacheMissData[tid]? = _
  rw [readAll_getElem?]
  simp only [startSample]
  rw [readAll_getElem?, Option.map_map]
  rfl

/-- What the callback gets is the entries. -/
theorem mem_refresh_published {s : CacheMiss} {env : SampleEnv} {d : CacheMissData}
    (h : d ∈ (s.refresh env).2) : ∃ tid : Int, (s.refresh env).1.cacheMissData[tid]? = some d := by
  have hmem : d ∈ (s.refresh env).1.cacheMissData.toList.map Prod.snd := by
    change d ∈ if (s.refresh env).1.callbackFunc = .null then []
      else (s.refresh env).1.cacheMissData.toList.map Prod.snd at h
    split_ifs at h
    · cases h
    · exact h
  obtain ⟨⟨tid, d'⟩, hp, rfl⟩ := List.mem_map.1 hmem
  exact ⟨tid, ExtTreeMap.mem_toList_iff_getElem?_eq_some.1 hp⟩

/-! ### The requests -/

/-- The record a thread had before a round; a new one has none. -/
def before (s : CacheMiss) (tid : Int) : CacheMissData := s.cacheMissData.getD tid { tid := tid }

/-- The entry of a thread whose events have just been opened. -/
structure Opened (tid : Int) (d : CacheMissData) : Prop where
  tid_eq : d.tid = tid
  rates_eq : d.rates = ({ tid := tid } : CacheMissData).rates

/-- Some request of the list opens the events of the thread. -/
def Opens (env : SampleEnv) (requests : List (Int × Nat)) (tid : Int) : Prop :=
  ∃ request ∈ requests, request.1 = tid ∧ CanOpen (env.openFd request.1 request.2)

theorem startOne_data (env : SampleEnv) (s : CacheMiss) (request : Int × Nat) :
    (startOne env s request).cacheMissData =
      if s.cacheMissData.contains request.1 = true ∨
        ¬ CanOpen (env.openFd request.1 request.2) then s.cacheMissData
      else s.cacheMissData.insert request.1
        (({ tid := request.1 } : CacheMissData).openFd (env.openFd request.1 request.2)).1 := by
  have hok := openFd_ok { tid := request.1 } (env.openFd request.1 request.2)
  simp only [startOne]
  by_cases hmem : s.cacheMissData.contains request.1 = true
  · rw [if_pos hmem, if_pos (Or.inl hmem)]
  · rw [if_neg hmem]
    by_cases hcan : CanOpen (env.openFd request.1 request.2)
    · rw [if_neg (not_or.2 ⟨hmem, not_not.2 hcan⟩)]
      exact if_pos (hok.2 hcan)
    · rw [if_pos (Or.inr hcan)]
      exact if_neg fun h => hcan (hok.1 h)

theorem startOne_getElem? (env : SampleEnv) (s : CacheMiss) (request : Int × Nat) (tid : Int) :
    ∃ new : Option CacheMissData,
      (startOne env s request).cacheMissData[tid]? = s.cacheMissData[tid]?.or new ∧
      (∀ d, new = some d → Opened tid d) ∧ (new.isSome ↔ Opens env [request] tid) := by
  have hopens : Opens env [request] tid ↔
      request.1 = tid ∧ CanOpen (env.openFd request.1 request.2) := by
    simp [Opens]
  rw [hopens, startOne_data]
  by_cases hreq : request.1 = tid ∧ CanOpen (env.openFd request.1 request.2)
  · obtain ⟨rfl, hcan⟩ := hreq
    refine ⟨some (({ tid := request.1 } : CacheMissData).openFd
      (env.openFd request.1 request.2)).1, ?_, fun d hd => ?_, iff_of_true rfl ⟨rfl, hcan⟩⟩
    · cases hd : s.cacheMissData[request.1]? with
      | none => simp [hcan, ExtTreeMap.contains_eq_isSome_getElem?, hd]
      | some d => simp [ExtTreeMap.contains_eq_isSome_getElem?, hd]
    · rw [← Option.some.inj hd]
      exact ⟨tid_openEvents _ _ _ _, rates_openEvents _ _ _ _⟩
  · refine ⟨none, ?_, ?_, iff_of_false Bool.false_ne_true hreq⟩
    · rw [Option.or_none]
      split_ifs with h
      · rfl
      · obtain ⟨hmem, hcan⟩ := not_or.1 h
        have hne : ¬ request.1 = tid := fun heq => hreq ⟨heq, not_not.1 hcan⟩
        simp [ExtTreeMap.getElem?_insert, hne]
    · intro d hd
      cases hd

/-- The first loop adds the threads whose events can be opened. -/
theorem startLoop_getElem? (env : SampleEnv) (requests : List (Int × Nat)) (s : CacheMiss)
    (tid : Int) : ∃ new : Option CacheMissData,
      (requests.foldl (startOne env) s).cacheMissData[tid]? = s.cacheMissData[tid]?.or new ∧
      (∀ d, new = some d → Opened tid d) ∧ (new.isSome ↔ Opens env requests tid) := by
  induction requests generalizing s with
  | nil => exact ⟨none, by simp, by simp, by simp [Opens]⟩
  | cons request requests ih =>
    obtain ⟨new₁, hget₁, hopened₁, hopens₁⟩ := startOne_getElem? env s request tid
    obtain ⟨new₂, hget₂, hopened₂, hopens₂⟩ := ih (startOne env s request)
    refine ⟨new₁.or new₂, ?_, fun d hd => ?_, ?_⟩
    · rw [List.foldl_cons, hget₂, hget₁, Option.or_assoc]
    · rcases Option.or_eq_some_iff.1 hd with h | ⟨-, h⟩
      · exact hopened₁ d h
      · exact hopened₂ d h
    · rw [Option.isSome_or, Bool.or_eq_true, hopens₁, hopens₂]
      simp only [Opens]
      simp only [List.mem_cons, List.not_mem_nil, or_false, exists_eq_left, exists_eq_or_imp]

/-- The second loop removes the threads it is given. -/
theorem stopLoop_getElem? (tids : List Int) (s : CacheMiss) (tid : Int) :
    (tids.foldl stopOne s).cacheMissData[tid]? =
      if tid ∈ tids then none else s.cacheMissData[tid]? := by
  induction tids generalizing s with
  | nil => simp
  | cons t tids ih =>
    have hone : (stopOne s t).cacheMissData[tid]? =
        if tid = t then none else s.cacheMissData[tid]? := by
      simp only [stopOne]
      cases ht : s.cacheMissData[t]? with
      | none =>
        split_ifs with h
        · rw [h, ht]
        · rfl
      | some d =>
        rw [ExtTreeMap.getElem?_erase]
        by_cases h : tid = t
        · simp [h]
        · simp [h, Ne.symm h]
    rw [List.foldl_cons, ih, hone]
    by_cases h : tid = t <;> simp [h]

theorem startLoop_frame (env : SampleEnv) (requests : List (Int × Nat)) (s : CacheMiss) :
    (requests.foldl (startOne env) s).toStopWatching = s.toStopWatching ∧
      (requests.foldl (startOne env) s).callbackFunc = s.callbackFunc := by
  refine run_invariant (startOne env)
    (I := fun s' => s'.toStopWatching = s.toStopWatching ∧ s'.callbackFunc = s.callbackFunc)
    ⟨rfl, rfl⟩ (fun s' request h => ?_) requests
  unfold startOne
  split_ifs
  · exact h
  · exact h

theorem callbackFunc_startSample (s : CacheMiss) (env : SampleEnv) :
    (s.startSample env).callbackFunc = s.callbackFunc := by
  have hstop (tids : List Int) (s : CacheMiss) :
      (tids.foldl stopOne s).callbackFunc = s.callbackFunc := by
    refine run_invariant stopOne (I := fun s' => s'.callbackFunc = s.callbackFunc) rfl
      (fun s' tid h => ?_) tids
    simp only [stopOne]
    cases s'.cacheMissData[tid]? with
    | none => exact h
    | some data => exact h
  exact (hstop _ _).trans (startLoop_frame env s.toStartWatching.zipIdx s).2

/-- **The entries after the requests**: the threads to stop are gone, new ones are there if their
events could be opened. -/
theorem applyRequests_getElem? (s : CacheMiss) (env : SampleEnv) (tid : Int) :
    ∃ new : Option CacheMissData,
      (s.applyRequests env).cacheMissData[tid]? =
        (if tid ∈ s.toStopWatching then none else s.cacheMissData[tid]?.or new) ∧
      (∀ d, new = some d → Opened tid d) ∧
      (new.isSome ↔ Opens env s.toStartWatching.zipIdx tid) := by
  obtain ⟨new, hget, hopened, hopens⟩ := startLoop_getElem? env s.toStartWatching.zipIdx s tid
  refine ⟨new, ?_, hopened, hopens⟩
  simp only [applyRequests]
  rw [← hget, ← (startLoop_frame env s.toStartWatching.zipIdx s).1]
  exact stopLoop_getElem? _ _ tid

/-- The threads a round samples: those that have an entry or get one, less those to stop. -/
def Watched (s : CacheMiss) (env : SampleEnv) (tid : Int) : Prop :=
  tid ∉ s.toStopWatching ∧
    ((s.cacheMissData[tid]?).isSome ∨ Opens env s.toStartWatching.zipIdx tid)

theorem applyRequests_isSome (s : CacheMiss) (env : SampleEnv) (tid : Int) :
    ((s.applyRequests env).cacheMissData[tid]?).isSome ↔ s.Watched env tid := by
  obtain ⟨new, hget, -, hopens⟩ := s.applyRequests_getElem? env tid
  simp only [Watched]
  rw [hget, ← hopens]
  split_ifs with h
  · simp [h]
  · simp [h, Option.isSome_or]

/-- An entry is its thread's. -/
def Keyed (s : CacheMiss) : Prop :=
  ∀ (tid : Int) (d : CacheMissData), s.cacheMissData[tid]? = some d → d.tid = tid

/-- The entries `start_sample` samples have the rates they had before. -/
theorem applyRequests_entry {s : CacheMiss} {env : SampleEnv} {tid : Int} {d : CacheMissData}
    (h : (s.applyRequests env).cacheMissData[tid]? = some d) :
    d.rates = (s.before tid).rates ∧ (s.Keyed → d.tid = tid) := by
  obtain ⟨new, hget, hopened, -⟩ := s.applyRequests_getElem? env tid
  rw [h] at hget
  simp only [before]
  rw [ExtTreeMap.getD_eq_getD_getElem?]
  split_ifs at hget
  rcases Option.or_eq_some_iff.1 hget.symm with hold | ⟨hnone, hnew⟩
  · rw [hold]
    exact ⟨rfl, fun hkeyed => hkeyed tid d hold⟩
  · rw [hnone]
    exact ⟨(hopened d hnew).rates_eq, fun _ => (hopened d hnew).tid_eq⟩

theorem tid_sampled (first second : PerfEvent → Option UInt64) (d : CacheMissData) :
    (sampled first second d).tid = d.tid := by
  obtain ⟨d', hsampled, htid, -⟩ := sampled_eq_updateMissRate first second d
  rw [hsampled, updateMissRate_eq]
  exact htid

theorem refresh_entry {s : CacheMiss} {env : SampleEnv} {tid : Int} {d : CacheMissData}
    (h : (s.refresh env).1.cacheMissData[tid]? = some d) :
    ∃ d', (s.applyRequests env).cacheMissData[tid]? = some d' ∧
      d = sampled (env.first tid) (env.second tid) d' := by
  rw [refresh_getElem?] at h
  obtain ⟨d', hd', rfl⟩ := Option.map_eq_some_iff.1 h
  exact ⟨d', hd', rfl⟩

theorem mem_readAll_toStop (s : CacheMiss) (read : Int → CacheMissData → CacheMissData × Bool)
    (tid : Int) : tid ∈ (s.readAll read).toStopWatching ↔
      tid ∈ s.toStopWatching ∨
        ∃ d, s.cacheMissData[tid]? = some d ∧ (read tid d).2 = false := by
  simp only [readAll]
  simp only [List.mem_append, List.mem_map, List.mem_filter, Prod.exists, exists_and_right,
    exists_eq_right, ExtTreeMap.mem_toList_iff_getElem?_eq_some, Bool.not_eq_true']

/-- **The threads that a round leaves to be stopped**: those of which a read failed. -/
theorem mem_refresh_toStop (s : CacheMiss) (env : SampleEnv) (tid : Int) :
    tid ∈ (s.refresh env).1.toStopWatching ↔
      s.Watched env tid ∧ ¬ (AllRead (env.first tid) ∧ AllRead (env.second tid)) := by
  have hfirst (d : CacheMissData) : (d.firstRead (env.first tid)).2 = false ↔
      ¬ AllRead (env.first tid) := by
    rw [firstRead_eq]
    split_ifs with h <;> simp [h]
  have hsecond (d : CacheMissData) : (d.secondRead (env.second tid)).2 = false ↔
      ¬ AllRead (env.second tid) := by
    rw [secondRead_eq]
    split_ifs with h <;> simp [h]
  have hnone : (s.applyRequests env).toStopWatching = [] := rfl
  show tid ∈ ((s.startSample env).readAll
    fun tid data => data.secondRead (env.second tid)).toStopWatching ↔ _
  rw [mem_readAll_toStop]
  simp only [startSample]
  rw [mem_readAll_toStop, readAll_getElem?, hnone, ← applyRequests_isSome]
  cases (s.applyRequests env).cacheMissData[tid]? with
  | none => simp
  | some d => simp [hfirst, hsecond, imp_iff_not_or]

theorem keyed_step {s : CacheMiss} (h : s.Keyed) (op : Op) : (s.step op).Keyed := by
  cases op with
  | setCallback callbackFunc | startWatching tid | stopWatching tid => exact h
  | clear =>
    intro tid d hd
    rw [show (s.step .clear).cacheMissData = ∅ from rfl, ExtTreeMap.getElem?_empty] at hd
    cases hd
  | refresh env =>
    intro tid d hd
    obtain ⟨d', hd', rfl⟩ := refresh_entry hd
    rw [tid_sampled]
    exact (applyRequests_entry hd').2 h

theorem keyed_init : Keyed {} := by
  intro tid d hd
  rw [ExtTreeMap.getElem?_empty] at hd
  cases hd

/-! ## Runs -/

/-- A condition on the rounds of a run. -/
def OnRounds (P : CacheMiss → SampleEnv → Prop) (s : CacheMiss) : Op → Prop
  | .refresh env => P s env
  | _ => True

/-- The counts a round leaves in the entries and passes to the callback are differences of its
own reads. -/
def CountsFromRound (s : CacheMiss) (env : SampleEnv) : Prop :=
  (∀ (tid : Int) (d : CacheMissData), (s.refresh env).1.cacheMissData[tid]? = some d →
    ∀ e, FromRound (env.first tid) (env.second tid) e (d.event e).count) ∧
  ∀ d ∈ (s.refresh env).2, ∀ e, FromRound (env.first d.tid) (env.second d.tid) e (d.event e).count

/-- No thread the round samples is blind. -/
def NoneBlind (s : CacheMiss) (env : SampleEnv) : Prop :=
  ∀ tid, s.Watched env tid → ¬ Blind (env.first tid) (env.second tid)

theorem countsFromRound_iff {s : CacheMiss} (h : s.Keyed) (env : SampleEnv) :
    s.CountsFromRound env ↔ s.NoneBlind env := by
  refine ⟨?_, ?_⟩
  · rintro ⟨hentries, -⟩ tid hwatched
    obtain ⟨d, hd⟩ := Option.isSome_iff_exists.1 ((s.applyRequests_isSome env tid).2 hwatched)
    rw [← fromRound_iff _ _ d]
    refine hentries tid _ ?_
    rw [refresh_getElem?, hd]
    rfl
  · intro hblind
    have hentries : ∀ (tid : Int) (d : CacheMissData),
        (s.refresh env).1.cacheMissData[tid]? = some d →
        ∀ e, FromRound (env.first tid) (env.second tid) e (d.event e).count := by
      intro tid d hd
      obtain ⟨d', hd', rfl⟩ := refresh_entry hd
      rw [fromRound_iff]
      refine hblind tid ((s.applyRequests_isSome env tid).1 ?_)
      rw [hd']
      rfl
    refine ⟨hentries, fun d hd => ?_⟩
    obtain ⟨tid, htid⟩ := mem_refresh_published hd
    rw [keyed_step h (.refresh env) tid d htid]
    exact hentries tid d htid

/-- **The counts of every round of a run come from its own reads exactly if no thread it samples is
blind in it.** -/
theorem counts_iff (ops : List Op) :
    Along step (OnRounds CountsFromRound) {} ops ↔ Along step (OnRounds NoneBlind) {} ops := by
  refine along_congr step (I := Keyed) (fun _ op h => keyed_step h op) (fun s op h => ?_)
    keyed_init ops
  cases op with
  | refresh env => exact countsFromRound_iff h env
  | setCallback _ | startWatching _ | stopWatching _ | clear => rfl

/-- A round in which the events of every thread can be opened and all read alike. -/
def envOf (first second : Option UInt64) : SampleEnv where
  openFd := fun _ _ _ => 3
  first := fun _ _ => first
  second := fun _ _ => second

/-- The first reads of thread 1 fail and the second ones give 5, which is then its count. -/
theorem not_countsFromRound_blind :
    ¬ Along step (OnRounds CountsFromRound) {}
      [.startWatching 1, .refresh (envOf none (some 5))] := by
  intro h
  obtain ⟨-, ⟨hentries, -⟩, -⟩ := h
  have hcount : (((step {} (.startWatching 1)).refresh
      (envOf none (some 5))).1.cacheMissData[(1 : Int)]?).map (fun d => d.cpuCycles.count) =
      some 5 := by decide +kernel
  obtain ⟨d, hd, hfive⟩ := Option.map_eq_some_iff.1 hcount
  rcases hentries 1 d hd .cpuCycles with hzero | ⟨f, v, hmade, -⟩
  · exact absurd (hzero.symm.trans hfive) (by decide)
  · have hnone : made ((envOf none (some 5)).first 1) .cpuCycles = none := by decide
    exact Option.some_ne_none f (hmade.symm.trans hnone)

/-- The rates of every entry agree with its counts after a round. -/
def RatesOfRound (s : CacheMiss) (env : SampleEnv) : Prop :=
  ∀ (tid : Int) (d : CacheMissData), (s.refresh env).1.cacheMissData[tid]? = some d →
    RatesAgree d

/-- The events of the sampled threads that get no count have never been rated. -/
def NoneStale (s : CacheMiss) (env : SampleEnv) : Prop :=
  ∀ tid, s.Watched env tid →
    ∀ e, Counted (env.first tid) (env.second tid) e ∨ Unrated (s.before tid) e

theorem ratesOfRound_iff (s : CacheMiss) (env : SampleEnv) :
    s.RatesOfRound env ↔ s.NoneStale env := by
  have hunrated {tid : Int} {d : CacheMissData}
      (hd : (s.applyRequests env).cacheMissData[tid]? = some d) (e : PerfEvent) :
      Unrated d e ↔ Unrated (s.before tid) e := by
    simp only [Unrated]
    rw [(applyRequests_entry hd).1]
  refine ⟨?_, ?_⟩
  · intro hentries tid hwatched e
    obtain ⟨d, hd⟩ := Option.isSome_iff_exists.1 ((s.applyRequests_isSome env tid).2 hwatched)
    rw [← hunrated hd]
    refine (ratesAgree_iff _ _ d).1 (hentries tid _ ?_) e
    rw [refresh_getElem?, hd]
    rfl
  · intro hstale tid d hd
    obtain ⟨d', hd', rfl⟩ := refresh_entry hd
    rw [ratesAgree_iff]
    intro e
    rw [hunrated hd']
    refine hstale tid ((s.applyRequests_isSome env tid).1 ?_) e
    rw [hd']
    rfl

/-- **The rates agree with the counts after every round of a run exactly if every event without a
count in a round was still unrated.** -/
theorem rates_iff (ops : List Op) :
    Along step (OnRounds RatesOfRound) {} ops ↔ Along step (OnRounds NoneStale) {} ops := by
  refine along_congr step (I := fun _ => True) (fun _ _ _ => trivial) (fun s op _ => ?_)
    trivial ops
  cases op with
  | refresh env => exact ratesOfRound_iff s env
  | setCallback _ | startWatching _ | stopWatching _ | clear => rfl

/-- Thread 1 is busy in one round and idle in the next: it keeps the rates of the first. -/
theorem not_ratesOfRound_idle :
    ¬ Along step (OnRounds RatesOfRound) {} [.startWatching 1,
      .refresh (envOf (some 0) (some 5)), .refresh (envOf (some 5) (some 5))] := by
  intro h
  obtain ⟨-, -, hentries, -⟩ := h
  have hrates : (((step (step {} (.startWatching 1)) (.refresh (envOf (some 0) (some 5)))).refresh
      (envOf (some 5) (some 5))).1.cacheMissData[(1 : Int)]?).map
      (fun d => (d.cpuCycles.count, d.mptc)) = some (0, 1000) := by decide +kernel
  obtain ⟨d, hd, hrate⟩ := Option.map_eq_some_iff.1 hrates
  obtain ⟨hcycles, hmptc⟩ := Prod.mk.inj hrate
  have hagree := (hentries 1 d hd).mptc
  unfold rateOver at hagree
  rw [hcycles, hmptc, if_neg (by decide)] at hagree
  exact absurd hagree (by decide)

end CacheMiss

end LibVsf
