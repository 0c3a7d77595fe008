import LibVsf.Lib.Settings
import LibVsf.VmSetCallbacks

/-!
# What is stored and what the modules have

The parameters of an option are in the store and in its module. `set_param` writes them to both,
`clear_param` takes both back to the defaults, and `init_vms` writes to the modules of the VMs what
is stored. The parameters of `NodeTestDist` are written when the host is constructed.

**Theorem (`configured`).** In every run, the modules have all parameters that are stored for them:
the host's whenever there is a host, and those of the VMs after the first `init_vms`, if no option
is cleared that is not enabled and falls through to one that is. From then on `init_vms` does not
change the parameters of a module.

A module may have more than is stored, since a record replaces the one before it.
-/

namespace LibVsf

open Std Runs

/-! ## The parameters of a module -/

/-- The callback a parameter stands for. -/
def OptionParamVal.callback (v : OptionParamVal) : Callback :=
  match v.getPointer with
  | none => .null
  | some obj => .user obj

namespace VmSet.ModuleParam

/-- A parameter is written. Those that a module does not have are ignored. -/
def set (m : ModuleParam) (k : OptionParam) (v : OptionParamVal) : ModuleParam :=
  match m, k with
  | .vmBase p, .vmCmd => .vmBase { p with vmCmd := v.getString }
  | .vmBase p, .loopInterval => .vmBase { p with intervalMs := v.getInt }
  | .vmBase p, .callback => .vmBase { p with callbackFunc := v.callback }
  | .vmCpuUsage p, .loopInterval => .vmCpuUsage { p with intervalMs := v.getInt }
  | .vmCpuUsage p, .callback => .vmCpuUsage { p with callbackFunc := v.callback }
  | .vmCacheMiss p, .loopInterval => .vmCacheMiss { p with loopIntervalMs := v.getInt }
  | .vmCacheMiss p, .sampleInterval =>
    .vmCacheMiss { p with cacheMiss := { p.cacheMiss with sampleIntervalUs := v.getInt } }
  | .vmCacheMiss p, .callback => .vmCacheMiss { p with callbackFunc := v.callback }
  | _, _ => m

/-- A module has the value of a parameter, or no such parameter. -/
def Has (m : ModuleParam) (k : OptionParam) (v : OptionParamVal) : Prop :=
  match m, k with
  | .vmBase p, .vmCmd => p.vmCmd = v.getString
  | .vmBase p, .loopInterval => p.intervalMs = v.getInt
  | .vmBase p, .callback => p.callbackFunc = v.callback
  | .vmCpuUsage p, .loopInterval => p.intervalMs = v.getInt
  | .vmCpuUsage p, .callback => p.callbackFunc = v.callback
  | .vmCacheMiss p, .loopInterval => p.loopIntervalMs = v.getInt
  | .vmCacheMiss p, .sampleInterval => p.cacheMiss.sampleIntervalUs = v.getInt
  | .vmCacheMiss p, .callback => p.callbackFunc = v.callback
  | _, _ => True

def settings : Settings ModuleParam OptionParam OptionParamVal where
  set := set
  set_set m k v := by cases m <;> cases k <;> rfl
  set_comm m k k' v v' h := by
    cases m <;> cases k <;> cases k' <;> first | rfl | exact absurd rfl h

theorem has_iff (m : ModuleParam) (k : OptionParam) (v : OptionParamVal) :
    m.Has k v ↔ settings.Has m (k, v) := by
  show m.Has k v ↔ m.set k v = m
  cases m with
  | vmBase p => cases p; cases k <;> simp [Has, set, eq_comm]
  | vmCpuUsage p => cases p; cases k <;> simp [Has, set, eq_comm]
  | vmCacheMiss p =>
    obtain ⟨loop, callback, cacheMiss⟩ := p
    cases cacheMiss
    cases k <;> simp [Has, set, eq_comm]

end VmSet.ModuleParam

/-! ## Writing to a module -/

namespace VmSet

open ModuleParam

theorem readCallback_eq {s : VmSet} {v : OptionParamVal} {r : VmSet × Callback}
    (h : s.readCallback v = .ok r) : ∃ events, r = ({ s with events := events }, v.callback) := by
  unfold readCallback at h
  unfold OptionParamVal.callback
  cases hv : v.getPointer with
  | none => simp [hv] at h
  | some obj =>
    simp only [hv, Except.ok.injEq] at h
    exact ⟨_, h.symm⟩

/-- One parameter is written to the module of its option. -/
theorem module_setOneParam {op : OptionId} {s s' : VmSet} {p : OptionParam × OptionParamVal}
    (h : setOneParam op s p = .ok s') (o : OptionId) :
    s'.module o = if o = op then (s.module o).map (settings.set · p.1 p.2) else s.module o := by
  unfold setOneParam at h
  split at h
  case h_3 | h_5 | h_8 =>
    obtain ⟨r, hr, h⟩ := bind_eq_ok.1 h
    obtain ⟨events, rfl⟩ := readCallback_eq hr
    rw [← Except.ok.inj h]
    cases o <;> rfl
  case h_9 h₁ h₂ h₃ h₄ h₅ h₆ h₇ h₈ =>
    -- The module has no such parameter.
    obtain ⟨k, v⟩ := p
    have hignored : (s.module op).map (settings.set · k v) = s.module op := by
      cases op <;> cases k <;> first
        | rfl
        | exact (h₁ v rfl rfl).elim
        | exact (h₂ v rfl rfl).elim
        | exact (h₃ v rfl rfl).elim
        | exact (h₄ v rfl rfl).elim
        | exact (h₅ v rfl rfl).elim
        | exact (h₆ v rfl rfl).elim
        | exact (h₇ v rfl rfl).elim
        | exact (h₈ v rfl rfl).elim
    rw [← Except.ok.inj h]
    split_ifs with ho
    · rw [ho]
      exact hignored.symm
    · rfl
  all_goals
    rw [← Except.ok.inj h]
    cases o <;> rfl

theorem module_setOneParams {op : OptionId} {s s' : VmSet}
    {ps : List (OptionParam × OptionParamVal)} (h : runE (setOneParam op) s ps = .ok s')
    (o : OptionId) :
    s'.module o = if o = op then (s.module o).map (settings.apply · ps) else s.module o := by
  induction ps generalizing s with
  | nil =>
    cases h
    simp [Settings.apply]
  | cons p ps ih =>
    obtain ⟨s₁, hp, hps⟩ := (runE_cons_ok _).1 h
    rw [ih hps, module_setOneParam hp]
    split_ifs with ho
    · rw [Option.map_map]
      rfl
    · rfl

theorem module_setParamByOption {op : OptionId} {s s' : VmSet} {params : Params}
    (h : s.setParamByOption op params = .ok s') (o : OptionId) :
    s'.module o =
      if o = op then (s.module o).map (settings.apply · params.toList) else s.module o := by
  rw [setParamByOption, foldlM_eq_runE] at h
  exact module_setOneParams h o

/-! ## What is stored -/

/-- The module of an option has all that is stored for it. -/
def ConfiguredAt (s : VmSet) (o : OptionId) : Prop :=
  ∀ m ∈ s.module o, ∀ params ∈ s.funcOption.options[o]?, ∀ k, ∀ v ∈ params[k]?, m.Has k v

def Configured (s : VmSet) : Prop := ∀ o, s.ConfiguredAt o

theorem hasAll_iff (m : ModuleParam) (params : Params) :
    (∀ k, ∀ v ∈ params[k]?, m.Has k v) ↔ settings.HasAll m params.toList := by
  simp only [Settings.HasAll, Prod.forall, ExtTreeMap.mem_toList_iff_getElem?_eq_some, has_iff,
    Option.mem_def]

theorem ConfiguredAt.congr {s s' : VmSet} {o : OptionId} (h : s.ConfiguredAt o)
    (hmodule : s'.module o = s.module o)
    (hstore : s'.funcOption.options[o]? = s.funcOption.options[o]?) : s'.ConfiguredAt o := by
  rw [ConfiguredAt, hmodule, hstore]
  exact h

/-- A record has been applied to the module, and is stored. -/
theorem configuredAt_of_apply {s s' : VmSet} {o : OptionId} {params : Params}
    (hmodule : s'.module o = (s.module o).map (settings.apply · params.toList))
    (hstore : s'.funcOption.options[o]? = some params) : s'.ConfiguredAt o := by
  intro m hm params' hparams'
  rw [hstore, Option.mem_some_iff] at hparams'
  rw [hmodule, Option.mem_def, Option.map_eq_some_iff] at hm
  obtain ⟨m₀, -, rfl⟩ := hm
  rw [← hparams', hasAll_iff]
  refine Settings.hasAll_apply ?_ m₀
  exact params.distinct_keys_toList.imp fun hne heq => hne (LawfulEqCmp.compare_eq_iff_eq.2 heq)

/-- Where all of a record is there, applying it changes no module. -/
theorem ConfiguredAt.module_eq {s s' : VmSet} {o : OptionId} (h : s.ConfiguredAt o)
    {params : Params} (hparams : s.funcOption.options[o]? = some params)
    (hmodule : s'.module o = (s.module o).map (settings.apply · params.toList)) :
    s'.module o = s.module o := by
  rw [hmodule]
  cases hm : s.module o with
  | none => rfl
  | some m =>
    have hall := (hasAll_iff m params).1 (h m hm params hparams)
    exact congrArg some (Settings.apply_of_hasAll hall)

/-! ### `init_vms` -/

theorem module_applyStored {op : OptionId} {s s' : VmSet} (h : s.applyStored op = .ok s')
    (o : OptionId) (ho : o ≠ op) : s'.module o = s.module o := by
  unfold applyStored at h
  split_ifs at h
  · rw [module_setParamByOption h, if_neg ho]
  · rw [Except.ok.inj h]

theorem module_applyStored_self {op : OptionId} {s s' : VmSet} (h : s.applyStored op = .ok s') :
    (s.funcOption.options[op]? = none ∧ s'.module op = s.module op) ∨
      ∃ params, s.funcOption.options[op]? = some params ∧
        s'.module op = (s.module op).map (settings.apply · params.toList) := by
  rw [applyStored, FuncOption.checkOption_eq, FuncOption.getParam_eq] at h
  cases hparams : s.funcOption.options[op]? with
  | none =>
    rw [hparams] at h
    cases h
    exact Or.inl ⟨rfl, rfl⟩
  | some params =>
    rw [hparams] at h
    refine Or.inr ⟨params, rfl, ?_⟩
    rw [module_setParamByOption h, if_pos rfl]
    rfl

theorem configuredAt_applyStored {op : OptionId} {s s' : VmSet} (h : s.applyStored op = .ok s')
    {o : OptionId} (ho : o = op ∨ s.ConfiguredAt o) : s'.ConfiguredAt o := by
  have hstore := applyStored_funcOption h
  by_cases hop : o = op
  · subst hop
    rcases module_applyStored_self h with ⟨hnone, -⟩ | ⟨params, hparams, hmodule⟩
    · intro m _ params hparams
      rw [hstore, hnone] at hparams
      cases hparams
    · rw [← hstore] at hparams
      exact configuredAt_of_apply hmodule hparams
  · have hold := ho.resolve_left hop
    exact hold.congr (module_applyStored h o hop) (by rw [hstore])

theorem configuredAt_initVms {s s' : VmSet} {ops : List OptionId}
    (h : runE applyStored s ops = .ok s') {o : OptionId} (ho : o ∈ ops ∨ s.ConfiguredAt o) :
    s'.ConfiguredAt o := by
  induction ops generalizing s with
  | nil =>
    cases h
    exact ho.resolve_left List.not_mem_nil
  | cons op ops ih =>
    obtain ⟨s₁, hop, hops⟩ := (runE_cons_ok _).1 h
    refine ih hops ?_
    rw [List.mem_cons, or_assoc, or_left_comm] at ho
    exact ho.imp_right (configuredAt_applyStored hop)

/-- **After `init_vms`** the modules have all that is stored. -/
theorem configured_initVms {s s' : VmSet} (h : s.initVms = .ok s') : s'.Configured := by
  rw [initVms_eq] at h
  intro o
  by_cases ho : o ∈ [OptionId.vmBase, .vmCpuUsage, .vmCacheMiss]
  · exact configuredAt_initVms h (Or.inl ho)
  · intro m hm
    cases o <;> simp [module] at hm ho

/-- **From then on** another one changes no module. -/
theorem Configured.module_initVms {s s' : VmSet} (h : s.Configured) (hinit : s.initVms = .ok s')
    (o : OptionId) : s'.module o = s.module o := by
  rw [initVms_eq] at hinit
  have hinv : s'.Configured ∧ s'.module o = s.module o := by
    refine runE_invariant _ (I := fun t => t.Configured ∧ t.module o = s.module o) ⟨h, rfl⟩
      (fun t op t' ht hstep => ⟨?_, ?_⟩) hinit
    · exact fun o' => configuredAt_applyStored hstep (Or.inr (ht.1 o'))
    · by_cases ho : o = op
      · subst ho
        rcases module_applyStored_self hstep with ⟨-, hsame⟩ | ⟨params, hparams, hmodule⟩
        · exact hsame.trans ht.2
        · exact ((ht.1 o).module_eq hparams hmodule).trans ht.2
      · exact (module_applyStored hstep o ho).trans ht.2
  exact hinv.2

/-! ### `set_param` and `clear_param` -/

theorem module_setOneOption {s s' : VmSet} {p : OptionId × Params}
    (h : s.setOneOption p = .ok s') (o : OptionId) :
    s'.module o =
      if o = p.1 then (s.module o).map (settings.apply · p.2.toList) else s.module o := by
  unfold setOneOption at h
  split at h
  case h_4 h₁ h₂ h₃ =>
    rw [← Except.ok.inj h]
    split_ifs with ho
    · have hnone : s.module p.1 = none := by
        cases hp : p.1 with
        | vmBase => exact absurd hp h₁
        | vmCpuUsage => exact absurd hp h₂
        | vmCacheMiss => exact absurd hp h₃
        | _ => rfl
      rw [ho, hnone]
      rfl
    · rfl
  all_goals
    have hdeleted : (if s.funcOption.checkOption p.1 then s.deleteCallback p.1 else s).module o =
        s.module o := by
      obtain ⟨events, he⟩ := s.deleteCallback_eq p.1
      rw [he]
      split_ifs <;> cases o <;> rfl
    rw [module_setParamByOption h, hdeleted]

theorem Configured.setParam {s s' : VmSet} (h : s.Configured) {p : OptionId × Params}
    (hset : s.setParam (.of [p]) = .ok s') : s'.Configured := by
  have hstore := setParam_funcOption hset
  unfold VmSet.setParam at hset
  obtain ⟨s₁, hloop, hset⟩ := bind_eq_ok.1 hset
  have hmodule (o : OptionId) : s'.module o = s₁.module o := by
    rw [← Except.ok.inj hset]
    cases o <;> rfl
  rw [toList_of, foldlM_eq_runE, runE_cons_ok] at hloop
  obtain ⟨s₂, hone, hnil⟩ := hloop
  cases hnil
  intro o
  by_cases ho : o = p.1
  · subst ho
    have happly : s'.module p.1 = (s.module p.1).map (settings.apply · p.2.toList) := by
      rw [hmodule, module_setOneOption hone, if_pos rfl]
    refine configuredAt_of_apply happly ?_
    rw [hstore, FuncOption.enableOption_getElem?, Options.of_getElem?, if_pos rfl]
    rfl
  · refine (h o).congr ?_ ?_
    · rw [hmodule, module_setOneOption hone, if_neg ho]
    · rw [hstore, FuncOption.enableOption_getElem?, Options.of_getElem?, if_neg (Ne.symm ho)]
      rfl

/-- The options that an option falls through to are enabled only with it. -/
def Tidy (s : VmSet) (op : OptionId) : Prop :=
  ∀ o ∈ fallsTo op, s.funcOption.checkOption o → s.funcOption.checkOption op

/-- The defaults of the modules are those that are stored for them. -/
theorem has_default {o : OptionId} {m : ModuleParam} (hm : m ∈ defaultModule o)
    {k : OptionParam} {v : OptionParamVal} (hv : v ∈ (defaultParams o)[k]?) : m.Has k v := by
  cases o <;> cases hm <;> cases k <;> first | trivial | (cases hv; rfl)

theorem Configured.clearOneOption {s : VmSet} (h : s.Configured) {op : OptionId}
    (htidy : s.Tidy op) : (s.clearOneOption op).Configured := by
  intro o
  by_cases ho : o ∈ fallsTo op
  · intro m hm params hparams
    rw [clearOneOption_module, if_pos ho] at hm
    rw [clearOneOption_options] at hparams
    split_ifs at hparams with hc
    · rw [Option.mem_some_iff] at hparams
      rw [← hparams]
      exact fun k v hv => has_default hm hv
    · have hnone : ¬ s.funcOption.checkOption o := fun henabled => hc ⟨htidy o ho henabled, ho⟩
      rw [FuncOption.checkOption_eq, hparams] at hnone
      exact absurd rfl hnone
  · refine (h o).congr ?_ ?_
    · rw [clearOneOption_module, if_neg ho]
    · rw [clearOneOption_options, if_neg fun hc => ho hc.2]

end VmSet

/-! ## The host -/

namespace Host

/-- `NodeTestDist` has what is stored for it. -/
def Configured (s : Host) : Prop :=
  ∀ params ∈ s.funcOption.options[OptionId.hsNodeTestDist]?,
    s.nodeTestDist.param = optionParamToMicroParam params

/-- **Parameters can be stored and read back.** -/
theorem optionParamToMicroParam_microParamToOptionParam (p : MicroParam) :
    optionParamToMicroParam (microParamToOptionParam p) = p := rfl

theorem param_getNodeTestDist (s : NodeTestDist) (b : Bench) :
    (s.getNodeTestDist b).1.param = s.param := by
  rw [NodeTestDist.getNodeTestDist]
  split_ifs <;> rfl

theorem configured_of_not_checkOption {s : Host}
    (h : ¬ s.funcOption.checkOption .hsNodeTestDist) : s.Configured := by
  intro params hparams
  rw [FuncOption.checkOption_eq, hparams] at h
  exact absurd rfl h

/-- The host that is constructed, or that is left to the next attempt. -/
theorem configured_construct (s : Host) (env : Env) (h : (s.construct env).2 = true) :
    (s.construct env).1.Configured := by
  rw [construct] at h ⊢
  split_ifs at h ⊢ with hthrows henabled
  · intro params hparams
    have hstored : s.funcOption.options[OptionId.hsNodeTestDist]? = some params := hparams
    have hget : s.funcOption.getParam .hsNodeTestDist = params := by
      rw [FuncOption.getParam_eq, hstored]
      rfl
    simp only [hget]
    exact param_getNodeTestDist _ env.bench
  · exact configured_of_not_checkOption henabled

theorem foldl_of {β : Type} (f : β → OptionId → Params → β) (b : β) (p : OptionId × Params) :
    (Options.of [p]).foldl f b = f b p.1 p.2 := by
  rw [ExtTreeMap.foldl_eq_foldl_toList, VmSet.toList_of]
  rfl

theorem Configured.congr {s s' : Host} (h : s.Configured)
    (hparam : s'.nodeTestDist.param = s.nodeTestDist.param)
    (hstore : s'.funcOption.options[OptionId.hsNodeTestDist]? =
      s.funcOption.options[OptionId.hsNodeTestDist]?) : s'.Configured := by
  rw [Configured, hparam, hstore]
  exact h

theorem Configured.setParam {s : Host} (h : s.Configured) (p : OptionId × Params) :
    (s.setParam (.of [p])).Configured := by
  obtain ⟨o, params⟩ := p
  by_cases ho : o = .hsNodeTestDist
  · subst ho
    intro params' hparams'
    simp only [Host.setParam, FuncOption.enableOption_getElem?, Options.of_getElem?, if_true,
      Option.some_or, Option.mem_some_iff] at hparams'
    simp only [Host.setParam, foldl_of]
    rw [← hparams']
    rfl
  · refine h.congr ?_ ?_
    · simp only [Host.setParam, foldl_of]
    · simp only [Host.setParam, FuncOption.enableOption_getElem?, Options.of_getElem?, if_neg ho,
        Option.none_or]

theorem Configured.clearOneOption {s : Host} (h : s.Configured) (op : OptionId) :
    (s.clearOneOption op).Configured := by
  by_cases hop : op = .hsNodeTestDist
  · subst hop
    by_cases henabled : s.funcOption.checkOption .hsNodeTestDist
    · intro params hparams
      simp only [Host.clearOneOption, if_pos henabled, FuncOption.enableOption_getElem?,
        Options.of_getElem?, if_true, Option.some_or, Option.mem_some_iff] at hparams
      rw [← hparams, optionParamToMicroParam_microParamToOptionParam]
      rfl
    · refine configured_of_not_checkOption ?_
      simp only [Host.clearOneOption, if_neg henabled]
      exact henabled
  · have hkept : s.clearOneOption op = s := by
      cases op <;> first | rfl | exact absurd rfl hop
    rw [hkept]
    exact h

end Host

/-! ## Runs -/

namespace Vsf

/-- The host has what is stored, if there is one, and after `init_vms` the modules of the VMs. -/
structure Configured (started : Prop) (s : Vsf) : Prop where
  host : s.host = true → s.toHost.Configured
  vms : started → s.vmSet.Configured

variable {started : Prop} {s s' : Vsf}

/-- Only the host's records have changed. -/
theorem vms_withStore {s : VmSet} (h : s.Configured) {store : FuncOption}
    (hstore : ∀ o : OptionId, o.HasModule → store.options[o]? = s.funcOption.options[o]?) :
    ({ s with funcOption := store } : VmSet).Configured := by
  intro o m hm
  have hmodule : s.module o = some m := by
    cases o <;> exact hm
  have ho : o.HasModule := by
    cases o <;> first | rfl | cases hm
  rw [hstore o ho]
  exact h o m hmodule

theorem Configured.setOneOption (h : s.Configured started) {p : OptionId × Params}
    (hset : s.setOneOption p = .ok s') : s'.Configured started := by
  rw [Vsf.setOneOption] at hset
  split_ifs at hset with hvm
  · obtain ⟨vmSet, hvmSet, hs'⟩ := bind_eq_ok.1 hset
    rw [← Except.ok.inj hs']
    refine ⟨fun hhost => (h.host hhost).congr rfl ?_, fun hstarted => ?_⟩
    · have hne : p.1 ≠ .hsNodeTestDist := fun heq => by
        rw [heq] at hvm
        cases hvm
      show vmSet.funcOption.options[OptionId.hsNodeTestDist]? = _
      rw [VmSet.setParam_funcOption hvmSet, FuncOption.enableOption_getElem?,
        Options.of_getElem?, if_neg hne, Option.none_or]
      rfl
    · exact (h.vms hstarted).setParam hvmSet
  · rw [onHost] at hset
    split_ifs at hset with hhost
    rw [← Except.ok.inj hset]
    refine ⟨fun _ => (h.host hhost).setParam p, fun hstarted => ?_⟩
    refine vms_withStore (h.vms hstarted) fun o ho => ?_
    have hne : p.1 ≠ o := fun heq => by
      rw [heq] at hvm
      cases o <;> first | exact hvm rfl | cases ho
    simp only [Host.setParam, FuncOption.enableOption_getElem?, Options.of_getElem?, if_neg hne,
      Option.none_or]
    rfl

theorem Configured.clearOneOption (h : s.Configured started) {op : OptionId}
    (htidy : s.vmSet.Tidy op) (hclear : s.clearOneOption op = .ok s') : s'.Configured started := by
  rw [Vsf.clearOneOption] at hclear
  split_ifs at hclear with hvm
  · obtain ⟨vmSet, hvmSet, hs'⟩ := bind_eq_ok.1 hclear
    rw [← Except.ok.inj hs', ← Except.ok.inj hvmSet]
    refine ⟨fun hhost => (h.host hhost).congr rfl ?_, fun hstarted => ?_⟩
    · have hnot : OptionId.hsNodeTestDist ∉ VmSet.fallsTo op := by
        cases op <;> simp [VmSet.fallsTo]
      show (s.vmSet.clearOneOption op).funcOption.options[OptionId.hsNodeTestDist]? = _
      rw [VmSet.clearOneOption_options, if_neg fun hc => hnot hc.2]
      rfl
    · exact (h.vms hstarted).clearOneOption htidy
  · rw [onHost] at hclear
    split_ifs at hclear with hhost
    rw [← Except.ok.inj hclear]
    refine ⟨fun _ => (h.host hhost).clearOneOption op, fun hstarted => ?_⟩
    exact vms_withStore (h.vms hstarted) fun o ho => Host.clearOneOption_options s.toHost op ho

theorem Configured.initHost (h : s.Configured started) (env : Host.Env) :
    (s.initHost env).Configured started := by
  have hstore := s.initHost_funcOption env
  rw [Vsf.initHost] at hstore ⊢
  split_ifs at hstore ⊢ with hhost
  · exact h
  · refine ⟨fun hcompleted => Host.configured_construct s.toHost env hcompleted, fun hstarted => ?_⟩
    refine vms_withStore (h.vms hstarted) fun o _ => ?_
    exact congrArg (fun store : FuncOption => store.options[o]?) hstore

theorem Configured.initVms (h : s.Configured started) (hinit : s.initVms = .ok s') :
    s'.Configured True := by
  obtain ⟨vmSet, hvmSet, hs'⟩ := bind_eq_ok.1 hinit
  rw [← Except.ok.inj hs']
  refine ⟨fun hhost => (h.host hhost).congr rfl ?_, fun _ => VmSet.configured_initVms hvmSet⟩
  show vmSet.funcOption.options[OptionId.hsNodeTestDist]? = _
  rw [VmSet.initVms_funcOption hvmSet]
  rfl

/-- The options of a call fall through only to those that are enabled with them, one after the
other. -/
def Tidy (s : Vsf) : Call → Prop
  | .clearParam ops => AlongE clearOneOption (fun s op => s.vmSet.Tidy op) s ops
  | _ => True

theorem Configured.mono {started' : Prop} (h : s.Configured started)
    (hstarted : started' → started) : s.Configured started' :=
  ⟨h.host, fun h' => h.vms (hstarted h')⟩

/-- **One call.** -/
theorem Configured.step (h : s.Configured started) {c : Call} (htidy : s.Tidy c)
    (hstep : s.step c = .ok s') : s'.Configured (started ∨ c = .initVms) := by
  have hsame (hc : c ≠ .initVms) : started ∨ c = .initVms → started := fun h => h.resolve_right hc
  cases c with
  | initHost env =>
    rw [← Except.ok.inj hstep]
    exact (h.initHost env).mono (hsame nofun)
  | setParam ops =>
    have hloop : runE Vsf.setOneOption s ops.toList = .ok s' := by
      rw [← foldlM_eq_runE]
      exact hstep
    have hset := runE_invariant Vsf.setOneOption h (fun s p s' hs => hs.setOneOption) hloop
    exact hset.mono (hsame nofun)
  | clearParam ops =>
    have hloop : runE Vsf.clearOneOption s ops = .ok s' := by
      rw [← foldlM_eq_runE]
      exact hstep
    have hclear := runE_invariant_along Vsf.clearOneOption h
      (fun s op s' hs => hs.clearOneOption) htidy hloop
    exact hclear.mono (hsame nofun)
  | initVms => exact (h.initVms hstep).mono fun _ => trivial

/-- **A run.** -/
theorem Configured.run (h : s.Configured started) {calls : List Call}
    (hrun : runE Vsf.step s calls = .ok s') (htidy : AlongE Vsf.step Tidy s calls) :
    s'.Configured (started ∨ Call.initVms ∈ calls) := by
  induction calls generalizing started s with
  | nil =>
    cases hrun
    exact h.mono fun h' => h'.resolve_right List.not_mem_nil
  | cons c calls ih =>
    obtain ⟨s₁, hstep, hrest⟩ := (runE_cons_ok _).1 hrun
    have hone := h.step htidy.1 hstep
    refine (ih hone hrest (htidy.2 s₁ hstep)).mono fun h' => ?_
    rw [List.mem_cons, ← or_assoc, eq_comm] at h'
    exact h'

/-- **The modules have what is stored**, and `init_vms` changes none of them any more. -/
theorem configured {ops : Options} {calls : List Call} {s : Vsf}
    (hrun : runE step (init ops) calls = .ok s) (htidy : AlongE step Tidy (init ops) calls) :
    (s.host = true → s.toHost.Configured) ∧ (Call.initVms ∈ calls → s.vmSet.Configured ∧
      ∀ vmSet, s.vmSet.initVms = .ok vmSet → ∀ o, vmSet.module o = s.vmSet.module o) := by
  have hnew : (init ops).Configured False := by
    refine ⟨fun hhost => ?_, fun hfalse => hfalse.elim⟩
    cases hhost
  have h := hnew.run hrun htidy
  refine ⟨h.host, fun hcalled => ⟨h.vms (Or.inr hcalled), fun vmSet hinit o => ?_⟩⟩
  exact (h.vms (Or.inr hcalled)).module_initVms hinit o

/-- The samplers of the VMs, each with an interval. -/
def intervals : Options :=
  .of [(.vmBase, .of [(.loopInterval, .int 3000)]), (.vmCpuUsage, .of [(.loopInterval, .int 200)])]

/-- The interval of `VmBase` is taken back after the modules have been set up. -/
def clearedAfterwards : List Call := [.initVms, .clearParam [.vmBase], .setParam intervals]

theorem configured_intervals : ∃ s, runE step (init intervals) clearedAfterwards = .ok s ∧
    (s.host = true → s.toHost.Configured) ∧ (Call.initVms ∈ clearedAfterwards →
      s.vmSet.Configured ∧ ∀ vmSet, s.vmSet.initVms = .ok vmSet →
        ∀ o, vmSet.module o = s.vmSet.module o) := by
  have htidy : AlongE step Tidy (init intervals) clearedAfterwards := by
    refine ⟨trivial, fun s hs => ⟨⟨fun o _ _ => ?_, fun _ _ => trivial⟩, fun s' _ => ?_⟩⟩
    · obtain ⟨vmSet, hvmSet, hs⟩ := bind_eq_ok.1 hs
      rw [← Except.ok.inj hs]
      show vmSet.funcOption.checkOption .vmBase = true
      rw [VmSet.initVms_funcOption hvmSet]
      decide
    · exact ⟨trivial, fun _ _ => trivial⟩
  exact ⟨_, rfl, configured rfl htidy⟩

/-- Only the CPU usage is enabled. -/
def usageOnly : Options := .of [(.vmCpuUsage, .of [(.loopInterval, .int 200)])]

/-- Clearing `OP_VM_BASE` takes the interval of a module back, and the store keeps it. -/
theorem not_configured_usageOnly : ¬ ∀ ops calls s, runE step (init ops) calls = .ok s →
    Call.initVms ∈ calls → s.vmSet.Configured := by
  intro hall
  have hconfigured := hall usageOnly [.initVms, .clearParam [.vmBase]] _ rfl List.mem_cons_self
  have hinterval : (1000 : Int) = 200 :=
    hconfigured .vmCpuUsage _ rfl _ rfl .loopInterval (.int 200) rfl
  exact absurd hinterval (by decide)

end Vsf

end LibVsf
