import LibVsf.HsCpuUsageProof
import LibVsf.Lib.FlaggedCache

/-!
# `hsCpuUsage`: its thread and its getters

The thread collects the usages again and again. A getter collects them itself if `init` is not set,
which the first usages that are published set. A collection calls `get_phy_cpu` twice before it
takes the mutex, and publishes nothing if the CPUs have changed in between.

`get_phy_cpu` takes its lines apart with `strtok`, which remembers one text for the whole process.
Two collections may be under way at the same time, but a call of `get_phy_cpu` during which anybody
else calls `strtok` reads other fields than those of its line: a step to that is undefined here.

**Theorem (`figures_published`).** In every order of the steps of getters, of the thread and of the
callers of `refresh`, in which nobody calls `strtok` during a call of `get_phy_cpu`, what a getter
returns are the shares of one collection, the last that has published, or `-1` and NaNs if none has.
After the first, getters collect no more, also where no thread runs.

Each step is one of a flagged cache, whose refreshes are the collections that publish, or nothing
there (`coarse_step`).
-/

namespace LibVsf

namespace HsCpuUsage

/-! ## Steps -/

/-- Who calls `collect_cpu_usage`: a getter, or else the thread or a caller of `refresh`. -/
inductive Collector where
  | getter (g : Nat)
  | refresher (k : Nat)
deriving DecidableEq, Repr

/-- Where a caller is. -/
inductive Stage where
  | idle
  | begun
  /-- In the first call of `get_phy_cpu`. -/
  | scanning
  | slept (before : Stat)
  /-- In the second. -/
  | scanningAgain (before : Stat)
  | ready (before after : Stat)
  | reading

/-- Where a caller is after a collection. -/
def Collector.next : Collector → Stage
  | .getter _ => .reading
  | .refresher _ => .idle

inductive CollectEvent where
  /-- A getter looks at `init`. -/
  | check (g : Nat)
  | begin (k : Nat)
  /-- `get_phy_cpu` is called. -/
  | enter (c : Collector)
  /-- It returns, and has read this. -/
  | leave (c : Collector) (stat : Stat)
  /-- What is left of a collection, with the mutex. -/
  | publish (c : Collector)
  | read (g : Nat)
  /-- A call of `strtok` by other code. -/
  | strtok

/-- A step of the thread or of a caller of `refresh`. -/
def CollectEvent.IsRefresher : CollectEvent → Prop
  | .begin _ | .enter (.refresher _) | .leave (.refresher _) _ | .publish (.refresher _) => True
  | _ => False

structure Collections where
  usages : HsCpuUsage := {}
  stage : Collector → Stage := fun _ => .idle
  /-- Whose text `strtok` remembers. -/
  scanner : Option Collector := none
  /-- What the collections that have published have read. -/
  published : List (Stat × Stat) := []

namespace Collections

def goTo (s : Collections) (c : Collector) (stage : Stage) : Collections :=
  { s with stage := Function.update s.stage c stage }

def enter (s : Collections) (c : Collector) (stage : Stage) : Except Failure Collections :=
  if s.scanner = none then .ok { s.goTo c stage with scanner := some c } else .error .undefined

def leave (s : Collections) (c : Collector) (stage : Stage) : Collections :=
  { s.goTo c stage with scanner := none }

/-- What a collection leaves. -/
def record (s : Collections) (before after : Stat) (collected : Collected) : Collections :=
  { s with
    usages := collected.state
    published := if collected.retval = 0 then s.published ++ [(before, after)] else s.published }

def publish (s : Collections) (c : Collector) (before after : Stat) : Except Failure Collections :=
  match s.usages.collectCpuUsage before.text after.text with
  | none => .error .undefined
  | some collected => .ok ((s.record before after collected).goTo c c.next)

def step (s : Collections) : CollectEvent → Except Failure Collections
  | .check g =>
    match s.stage (.getter g) with
    | .idle => .ok (s.goTo (.getter g) (if s.usages.init then .reading else .begun))
    | _ => .ok s
  | .begin k =>
    match s.stage (.refresher k) with
    | .idle => .ok (s.goTo (.refresher k) .begun)
    | _ => .ok s
  | .enter c =>
    match s.stage c with
    | .begun => s.enter c .scanning
    | .slept before => s.enter c (.scanningAgain before)
    | _ => .ok s
  | .leave c stat =>
    match s.stage c with
    | .scanning => .ok (s.leave c (.slept stat))
    | .scanningAgain before => .ok (s.leave c (.ready before stat))
    | _ => .ok s
  | .publish c =>
    match s.stage c with
    | .ready before after => s.publish c before after
    | _ => .ok s
  | .read g =>
    match s.stage (.getter g) with
    | .reading => .ok (s.goTo (.getter g) .idle)
    | _ => .ok s
  | .strtok => if s.scanner = none then .ok s else .error .undefined

end Collections

/-! ## A flagged cache -/

open FlaggedCache

/-- What a collection leaves, if it publishes. -/
def publishes (r : Stat × Stat) : Option HsCpuUsage :=
  match collectCpuUsage {} r.1.text r.2.text with
  | none => none
  | some c => if c.retval = 0 then some c.state else none

/-- The flag is `init`. A `pass` is a collection of the thread, or of `refresh`. -/
def cache : Cache (Stat × Stat) HsCpuUsage where
  fetch := publishes
  raises := true

/-- A call reads neither the usages nor `init`: it leaves all as it was, or publishes and sets
`init`. -/
theorem collectCpuUsage_eq_some {s : HsCpuUsage} {a b : Stat} {c : Collected}
    (h : s.collectCpuUsage a.text b.text = some c) :
    (c.retval = 0 → c.state.init = true ∧ publishes (a, b) = some c.state) ∧
      (c.retval ≠ 0 → c.state = s ∧ publishes (a, b) = none) := by
  have hneg : (-1 : Int) ≠ 0 := by decide
  rw [collectCpuUsage_text] at h
  split_ifs at h with hfits
  obtain ⟨ha, hb⟩ := hfits
  have hnew : collectCpuUsage {} a.text b.text = collect {} a.ret b.ret := by
    rw [collectCpuUsage_text, if_pos ⟨ha, hb⟩]
  by_cases hlen : a.cpus.length = b.cpus.length
  · rw [collect_ret s ha hb hlen] at h
    by_cases hids : ∀ p ∈ a.pairs b, p.1.id = p.2.id
    · rw [if_pos hids] at h
      obtain rfl := Option.some.inj h
      rw [publishes, hnew, collect_ret {} ha hb hlen, if_pos hids]
      exact ⟨fun _ => ⟨rfl, rfl⟩, fun hne => absurd rfl hne⟩
    · rw [if_neg hids] at h
      obtain rfl := Option.some.inj h
      rw [publishes, hnew, collect_ret {} ha hb hlen, if_neg hids]
      exact ⟨fun hzero => absurd hzero hneg, fun _ => ⟨rfl, rfl⟩⟩
  · rw [collect_of_length_ne s hlen] at h
    obtain rfl := Option.some.inj h
    rw [publishes, hnew, collect_of_length_ne {} hlen]
    exact ⟨fun hzero => absurd hzero hneg, fun _ => ⟨rfl, rfl⟩⟩

def Stage.phase : Stage → Phase
  | .idle => .idle
  | .reading => .reading
  | _ => .refreshing

namespace Collections

/-- What the collections are to a cache. -/
def coarse (s : Collections) : State Nat (Stat × Stat) HsCpuUsage where
  data := s.usages
  flag := s.usages.init
  phase g := (s.stage (.getter g)).phase
  fetched := s.published

theorem coarse_getter (s : Collections) (g : Nat) (stage : Stage) :
    (s.goTo (.getter g) stage).coarse = s.coarse.goTo g stage.phase := by
  have hphase : (fun g' => ((s.goTo (.getter g) stage).stage (.getter g')).phase) =
      Function.update (fun g' => (s.stage (.getter g')).phase) g stage.phase := by
    funext g'
    by_cases hg : g' = g
    · subst hg
      simp [goTo]
    · simp [goTo, hg]
  exact congrArg (fun phase => { s.coarse with phase := phase }) hphase

theorem coarse_refresher (s : Collections) (k : Nat) (stage : Stage) :
    (s.goTo (.refresher k) stage).coarse = s.coarse := by
  have hphase : (fun g' => ((s.goTo (.refresher k) stage).stage (.getter g')).phase) =
      fun g' => (s.stage (.getter g')).phase := by
    funext g'
    simp [goTo]
  exact congrArg (fun phase => { s.coarse with phase := phase }) hphase

/-- A part of a collection is nothing to the cache. -/
theorem coarse_goTo {s : Collections} {c : Collector} {stage : Stage}
    (h : (s.stage c).phase = stage.phase) : (s.goTo c stage).coarse = s.coarse := by
  cases c with
  | refresher k => exact s.coarse_refresher k stage
  | getter g =>
    rw [coarse_getter, ← h]
    exact congrArg (fun phase => { s.coarse with phase := phase }) (Function.update_eq_self g _)

/-- **A collection that ends** is a refresh of the cache. -/
theorem coarse_record {s : Collections} {before after : Stat} {collected : Collected}
    (h : s.usages.collectCpuUsage before.text after.text = some collected) :
    (s.record before after collected).coarse = s.coarse.write cache (before, after) := by
  obtain ⟨hpublishes, hkeeps⟩ := collectCpuUsage_eq_some h
  have hfetch : cache.fetch (before, after) = publishes (before, after) := rfl
  rw [State.write, hfetch]
  by_cases hzero : collected.retval = 0
  · obtain ⟨hinit, hpublished⟩ := hpublishes hzero
    rw [hpublished]
    simp [coarse, record, hzero, hinit, cache]
  · obtain ⟨hstate, hpublished⟩ := hkeeps hzero
    rw [hpublished]
    simp [coarse, record, hzero, hstate]

theorem publish_eq_ok {s t : Collections} {c : Collector} {before after : Stat}
    (h : s.publish c before after = .ok t) :
    ∃ collected, s.usages.collectCpuUsage before.text after.text = some collected ∧
      t = (s.record before after collected).goTo c c.next := by
  rw [publish] at h
  cases hcollect : s.usages.collectCpuUsage before.text after.text with
  | none =>
    rw [hcollect] at h
    cases h
  | some collected =>
    rw [hcollect] at h
    exact ⟨collected, rfl, (Except.ok.inj h).symm⟩

theorem enter_eq_ok {s t : Collections} {c : Collector} {stage : Stage}
    (h : s.enter c stage = .ok t) : t = { s.goTo c stage with scanner := some c } := by
  rw [enter] at h
  split_ifs at h
  exact (Except.ok.inj h).symm

/-- What a step can do. -/
inductive Steps (s : Collections) : CollectEvent → Collections → Prop where
  | nothing (e : CollectEvent) : Steps s e s
  | check (g : Nat) (hstage : s.stage (.getter g) = .idle) :
    Steps s (.check g) (s.goTo (.getter g) (if s.usages.init then .reading else .begun))
  | begin (k : Nat) (hstage : s.stage (.refresher k) = .idle) :
    Steps s (.begin k) (s.goTo (.refresher k) .begun)
  | enter (c : Collector) (hstage : s.stage c = .begun) :
    Steps s (.enter c) { s.goTo c .scanning with scanner := some c }
  | enterAgain (c : Collector) (before : Stat) (hstage : s.stage c = .slept before) :
    Steps s (.enter c) { s.goTo c (.scanningAgain before) with scanner := some c }
  | leave (c : Collector) (stat : Stat) (hstage : s.stage c = .scanning) :
    Steps s (.leave c stat) (s.leave c (.slept stat))
  | leaveAgain (c : Collector) (before after : Stat) (hstage : s.stage c = .scanningAgain before) :
    Steps s (.leave c after) (s.leave c (.ready before after))
  | publish (c : Collector) (before after : Stat) (collected : Collected)
    (hstage : s.stage c = .ready before after)
    (hcollect : s.usages.collectCpuUsage before.text after.text = some collected) :
    Steps s (.publish c) ((s.record before after collected).goTo c c.next)
  | read (g : Nat) (hstage : s.stage (.getter g) = .reading) :
    Steps s (.read g) (s.goTo (.getter g) .idle)

theorem steps_of_step {s t : Collections} {e : CollectEvent} (h : s.step e = .ok t) :
    Steps s e t := by
  cases e with
  | strtok =>
    rw [step] at h
    split_ifs at h
    obtain rfl := Except.ok.inj h
    exact .nothing _
  | check g =>
    rw [step] at h
    split at h
    · next hstage =>
      obtain rfl := Except.ok.inj h
      exact .check g hstage
    · obtain rfl := Except.ok.inj h
      exact .nothing _
  | begin k =>
    rw [step] at h
    split at h
    · next hstage =>
      obtain rfl := Except.ok.inj h
      exact .begin k hstage
    · obtain rfl := Except.ok.inj h
      exact .nothing _
  | enter c =>
    rw [step] at h
    split at h
    · next hstage =>
      obtain rfl := enter_eq_ok h
      exact .enter c hstage
    · next before hstage =>
      obtain rfl := enter_eq_ok h
      exact .enterAgain c before hstage
    · obtain rfl := Except.ok.inj h
      exact .nothing _
  | leave c stat =>
    rw [step] at h
    split at h
    · next hstage =>
      obtain rfl := Except.ok.inj h
      exact .leave c stat hstage
    · next before hstage =>
      obtain rfl := Except.ok.inj h
      exact .leaveAgain c before stat hstage
    · obtain rfl := Except.ok.inj h
      exact .nothing _
  | publish c =>
    rw [step] at h
    split at h
    · next before after hstage =>
      obtain ⟨collected, hcollect, rfl⟩ := publish_eq_ok h
      exact .publish c before after collected hstage hcollect
    · obtain rfl := Except.ok.inj h
      exact .nothing _
  | read g =>
    rw [step] at h
    split at h
    · next hstage =>
      obtain rfl := Except.ok.inj h
      exact .read g hstage
    · obtain rfl := Except.ok.inj h
      exact .nothing _

/-- **A step** is one of the cache, or nothing. -/
theorem coarse_step {s t : Collections} {e : CollectEvent} (h : Steps s e t) :
    ∃ ds, t.coarse = Runs.run (FlaggedCache.step cache) s.coarse ds ∧
      (¬ e.IsRefresher → ∀ d ∈ ds, ¬ d.IsPass) := by
  have hskip (heq : t.coarse = s.coarse) :
      ∃ ds, t.coarse = Runs.run (FlaggedCache.step cache) s.coarse ds ∧
        (¬ e.IsRefresher → ∀ d ∈ ds, ¬ d.IsPass) :=
    ⟨[], heq, fun _ _ hd => absurd hd List.not_mem_nil⟩
  have hone (d : FlaggedCache.Event Nat (Stat × Stat))
      (heq : t.coarse = FlaggedCache.step cache s.coarse d) (hpass : ¬ e.IsRefresher → ¬ d.IsPass) :
      ∃ ds, t.coarse = Runs.run (FlaggedCache.step cache) s.coarse ds ∧
        (¬ e.IsRefresher → ∀ d ∈ ds, ¬ d.IsPass) := by
    refine ⟨[d], heq, fun he d' hd' => ?_⟩
    obtain rfl := List.mem_singleton.1 hd'
    exact hpass he
  have hpart {c : Collector} {stage : Stage} (stage' : Stage) (hstage : s.stage c = stage)
      (hsame : stage.phase = stage'.phase) (scanner : Option Collector) :
      ({ s.goTo c stage' with scanner := scanner } : Collections).coarse = s.coarse :=
    coarse_goTo ((congrArg Stage.phase hstage).trans hsame)
  have hphase (g : Nat) : s.coarse.phase g = (s.stage (.getter g)).phase := rfl
  cases h with
  | nothing => exact hskip rfl
  | check g hstage =>
    refine hone (.check g) ?_ fun _ => not_isPass_check
    rw [FlaggedCache.step, hphase, hstage, coarse_getter]
    refine Eq.trans ?_ (if_pos rfl).symm
    cases hinit : s.usages.init <;> simp [coarse, hinit, Stage.phase]
  | begin k => exact hskip (s.coarse_refresher k .begun)
  | enter c hstage => exact hskip (hpart .scanning hstage rfl _)
  | enterAgain c before hstage => exact hskip (hpart (.scanningAgain before) hstage rfl _)
  | leave c stat hstage => exact hskip (hpart (.slept stat) hstage rfl _)
  | leaveAgain c before after hstage => exact hskip (hpart (.ready before after) hstage rfl _)
  | publish c before after collected hstage hcollect =>
    cases c with
    | getter g =>
      refine hone (.refresh g (before, after)) ?_ fun _ => not_isPass_refresh
      rw [FlaggedCache.step, hphase, hstage, Collector.next, coarse_getter, coarse_record hcollect]
      exact (if_pos rfl).symm
    | refresher k =>
      refine hone (.pass (before, after)) ?_ fun he => absurd trivial he
      rw [FlaggedCache.step, Collector.next, coarse_refresher, coarse_record hcollect]
  | read g hstage =>
    refine hone (.read g) ?_ fun _ => not_isPass_read
    rw [FlaggedCache.step, hphase, hstage, coarse_getter]
    exact (if_pos rfl).symm

end Collections

/-! ## Runs -/

/-- The counters have grown between the readings of a collection, and fit. -/
structure Grow (before after : Stat) : Prop where
  le : before.Le after
  fits_before : before.Fits
  fits_after : after.Fits
  grown : before.Grown after

namespace Collections

/-- A step to something that is defined. -/
structure Proper (s : Collections) (e : CollectEvent) : Prop where
  /-- Nobody calls `strtok` during a call of `get_phy_cpu`. -/
  enter : ∀ c, e = .enter c → s.scanner = none
  strtok : e = .strtok → s.scanner = none
  grow : ∀ c before after, e = .leave c after → s.stage c = .scanningAgain before →
    Grow before after

/-- What has been read by collections that have published or are about to. -/
structure Grows (s : Collections) : Prop where
  published : ∀ p ∈ s.published, Grow p.1 p.2
  ready : ∀ c before after, s.stage c = .ready before after → Grow before after

theorem Grows.goTo {s : Collections} (h : s.Grows) {c : Collector} {stage : Stage}
    (hready : ∀ before after, stage = .ready before after → Grow before after) :
    (s.goTo c stage).Grows := by
  refine ⟨h.published, fun c' before after hstage => ?_⟩
  by_cases hc : c' = c
  · subst hc
    exact hready before after (by simpa [Collections.goTo] using hstage)
  · exact h.ready c' before after (by simpa [Collections.goTo, hc] using hstage)

theorem Grows.scanner {s : Collections} (h : s.Grows) (scanner : Option Collector) :
    ({ s with scanner := scanner } : Collections).Grows := ⟨h.published, h.ready⟩

theorem Grows.step {s t : Collections} {e : CollectEvent} (h : s.Grows) (he : s.Proper e)
    (hstep : Steps s e t) : t.Grows := by
  cases hstep with
  | nothing => exact h
  | check g => exact h.goTo (by split_ifs <;> exact nofun)
  | begin k => exact h.goTo fun _ _ heq => nomatch heq
  | enter c => exact (h.goTo fun _ _ heq => by cases heq).scanner (some c)
  | enterAgain c before => exact (h.goTo fun _ _ heq => by cases heq).scanner (some c)
  | leave c stat => exact (h.goTo fun _ _ heq => by cases heq).scanner none
  | leaveAgain c before after hstage =>
    have hgoTo : (s.goTo c (.ready before after)).Grows := by
      refine h.goTo fun before' after' heq => ?_
      obtain ⟨rfl, rfl⟩ := Stage.ready.inj heq
      exact he.grow c before after rfl hstage
    exact hgoTo.scanner none
  | publish c before after collected hstage hcollect =>
    have hrecord : (s.record before after collected).Grows := by
      refine ⟨fun p hp => ?_, h.ready⟩
      rw [record] at hp
      split_ifs at hp
      · rcases List.mem_append.1 hp with hp | hp
        · exact h.published p hp
        · obtain rfl := List.mem_singleton.1 hp
          exact h.ready c before after hstage
      · exact h.published p hp
    exact hrecord.goTo (by cases c <;> exact nofun)
  | read g => exact h.goTo fun _ _ heq => nomatch heq

/-- **Proper steps** can be taken. -/
theorem exists_step {s : Collections} {e : CollectEvent} (h : s.Grows) (he : s.Proper e) :
    ∃ t, s.step e = .ok t := by
  cases e with
  | strtok => exact ⟨s, if_pos (he.strtok rfl)⟩
  | enter c =>
    have hscanner := he.enter c rfl
    rw [step]
    split
    · exact ⟨_, if_pos hscanner⟩
    · exact ⟨_, if_pos hscanner⟩
    · exact ⟨s, rfl⟩
  | publish c =>
    rw [step]
    split
    · next before after hstage =>
      have hgrow := h.ready c before after hstage
      obtain ⟨collected, hcollect, -⟩ :=
        measures_of_grown hgrow.le s.usages hgrow.fits_before hgrow.fits_after hgrow.grown
      rw [publish, hcollect]
      exact ⟨_, rfl⟩
    · exact ⟨s, rfl⟩
  | check g | begin k | leave c stat | read g =>
    rw [step]
    split <;> exact ⟨_, rfl⟩

theorem grows_new : ({} : Collections).Grows :=
  ⟨fun _ hp => absurd hp List.not_mem_nil, fun _ _ _ => nofun⟩

/-- **Runs of proper steps** are defined. -/
theorem exists_run {es : List CollectEvent} (h : Runs.AlongE step Proper {} es) :
    ∃ s, Runs.runE step {} es = .ok s ∧ s.Grows := by
  refine Runs.exists_runE_of_alongE step grows_new (fun s e hs he => ?_) h
  obtain ⟨t, ht⟩ := exists_step hs he
  exact ⟨t, ht, hs.step he (steps_of_step ht)⟩

/-- A collection of the getter is under way. -/
def Collecting (s : Collections) (g : Nat) : Prop := (s.stage (.getter g)).phase = .refreshing

end Collections

def getCpuUsage (s : HsCpuUsage) : Option ℚ := s.totalCpuUsage

/-- Of a CPU, or a NaN. -/
def getCpuUsageOf (s : HsCpuUsage) (cpuid : Int) : Option ℚ :=
  match s.cpuUsages[cpuid]? with
  | none => none
  | some usage => usage

/-- What is published are the shares. -/
theorem published_of_publishes {r : Stat × Stat} (hr : Grow r.1 r.2) {s : HsCpuUsage}
    (h : publishes r = some s) : Published r.1 r.2 s := by
  obtain ⟨c, hc, -, hleft⟩ := measures_of_grown hr.le {} hr.fits_before hr.fits_after hr.grown
  simp only [publishes, hc] at h
  split_ifs at h with hzero
  obtain rfl := Option.some.inj h
  rcases hleft with ⟨hneg, -⟩ | ⟨-, hpublished⟩
  · omega
  · exact hpublished

open Collections in
/-- **What getters return** are the shares of the last collection that has published. After the
first, only the thread and the callers of `refresh` collect. -/
theorem figures_published {es : List CollectEvent} (hproper : Runs.AlongE step Proper {} es) :
    ∃ s, Runs.runE step {} es = .ok s ∧
      (s.published = [] ∧ getCpuUsage s.usages = some (-1) ∧
          (∀ cpuid, getCpuUsageOf s.usages cpuid = none) ∨
        ∃ r, s.published.getLast? = some r ∧ Published r.1 r.2 s.usages) ∧
      (s.usages.init = true → (∀ g, ¬ s.Collecting g) →
        ∀ fs t, (∀ e ∈ fs, ¬ e.IsRefresher) → Runs.runE step s fs = .ok t →
          t.usages = s.usages) := by
  obtain ⟨s, hrun, hgrows⟩ := exists_run hproper
  have hrefines (s : Collections) (e : CollectEvent) (t : Collections) (h : step s e = .ok t) :=
    coarse_step (steps_of_step h)
  obtain ⟨ds, hds, -⟩ := Runs.runE_refines step hrefines hrun
  have hds : s.coarse = after cache {} ds := hds
  have hinv := inv_after cache {} ds
  rw [← hds] at hinv
  refine ⟨s, hrun, ?_, fun hinit hphase fs t hfs ht => ?_⟩
  · by_cases hnil : s.published = []
    · have hnew : s.usages = {} := hinv.new hnil
      refine .inl ⟨hnil, ?_, fun cpuid => ?_⟩
      · rw [hnew]
        rfl
      · rw [hnew]
        simp [getCpuUsageOf]
    · have hlast := List.getLast?_eq_some_getLast hnil
      have hgrow := hgrows.published _ (List.getLast_mem hnil)
      exact .inr ⟨_, hlast, published_of_publishes hgrow (hinv.data _ hlast)⟩
  · obtain ⟨ds', hds', hpass⟩ := Runs.runE_refines step hrefines ht
    have hflag : (after cache {} ds).flag = true := by
      rw [← hds]
      exact hinit
    have hphase : ∀ g, (after cache {} ds).phase g ≠ .refreshing := by
      rw [← hds]
      exact hphase
    have hstays := stays hflag hphase (hpass hfs)
    rw [after, Runs.run_append, ← after, ← hds, ← hds'] at hstays
    exact hstays

/-- The collection of a getter, during which the thread collects. -/
def twoCollections : List CollectEvent :=
  [.check 0, .begin 0, .enter (.getter 0), .leave (.getter 0) earlier, .enter (.refresher 0),
    .leave (.refresher 0) earlier, .enter (.getter 0), .leave (.getter 0) later, .strtok]

open Collections in
theorem figures_published_twoCollections :
    ∃ s, Runs.runE step {} twoCollections = .ok s ∧
      (s.published = [] ∧ getCpuUsage s.usages = some (-1) ∧
          (∀ cpuid, getCpuUsageOf s.usages cpuid = none) ∨
        ∃ r, s.published.getLast? = some r ∧ Published r.1 r.2 s.usages) ∧
      (s.usages.init = true → (∀ g, ¬ s.Collecting g) →
        ∀ fs t, (∀ e ∈ fs, ¬ e.IsRefresher) → Runs.runE step s fs = .ok t →
          t.usages = s.usages) := by
  have hgrow : Grow earlier later := ⟨⟨by decide, by decide⟩, by decide, by decide, by decide⟩
  have hcheck {s : Collections} {g : Nat} : s.Proper (.check g) := ⟨nofun, nofun, nofun⟩
  have hbegin {s : Collections} {k : Nat} : s.Proper (.begin k) := ⟨nofun, nofun, nofun⟩
  have henter {s : Collections} (h : s.scanner = none) {c : Collector} : s.Proper (.enter c) :=
    ⟨fun _ _ => h, nofun, nofun⟩
  have hleave {s : Collections} {c : Collector} {stat : Stat}
      (h : ∀ before, s.stage c = .scanningAgain before → Grow before stat) :
      s.Proper (.leave c stat) := by
    refine ⟨nofun, nofun, fun c' before after heq hstage => ?_⟩
    obtain ⟨rfl, rfl⟩ := CollectEvent.leave.inj heq
    exact h before hstage
  refine figures_published ⟨hcheck, fun _ h => ?_⟩
  cases h
  refine ⟨hbegin, fun _ h => ?_⟩
  cases h
  refine ⟨henter rfl, fun _ h => ?_⟩
  cases h
  refine ⟨hleave (fun _ h => by cases h), fun _ h => ?_⟩
  cases h
  refine ⟨henter rfl, fun _ h => ?_⟩
  cases h
  refine ⟨hleave (fun _ h => by cases h), fun _ h => ?_⟩
  cases h
  refine ⟨henter rfl, fun _ h => ?_⟩
  cases h
  refine ⟨hleave fun before h => ?_, fun _ h => ?_⟩
  · cases h
    exact hgrow
  cases h
  exact ⟨⟨nofun, fun _ => rfl, nofun⟩, fun _ _ => trivial⟩

end HsCpuUsage

end LibVsf
