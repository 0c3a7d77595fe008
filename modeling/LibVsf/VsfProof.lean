import LibVsf.Lib.Runs
import LibVsf.VmSetProof
import LibVsf.Vsf

/-!
# `Vsf`: which runs dereference no null pointer

A run is one `init` followed by any calls, and the user promises that every callback he passes
is a function object. `clear_param` stores a null callback for the options it resets, and
`init_vms` reads the callback of every stored record again. So the runs that fail are told by
who wrote the record of an option last. `Tracked` keeps that beside the state (`writer`).

**Theorem (`run_ok_iff_safe`).** A run makes no null dereference exactly when each call in it is
`Safe`: `init_vms` is not called while `clear_param` was the last to write the record of some VM
option, and no host option is named before `init_host` has returned.
-/

namespace LibVsf

open Std Runs

/-! ## Callbacks in a record -/

/-- The options that name a VM module. -/
abbrev OptionId.HasModule (o : OptionId) : Prop := (VmSet.defaultModule o).isSome

/-- If the record has a callback, it is the address of a function object. -/
def Params.CallbackSet (params : Params) : Prop :=
  ∀ v, params[OptionParam.callback]? = some v → v.getPointer ≠ none

namespace VmSet

theorem setOneParam_ok (op : OptionId) (s : VmSet) (p : OptionParam × OptionParamVal) :
    (∃ s', setOneParam op s p = .ok s') ↔
      (op.HasModule → p.1 = .callback → p.2.getPointer ≠ none) := by
  obtain ⟨k, v⟩ := p
  have hread (s : VmSet) : (∃ r, s.readCallback v = .ok r) ↔ v.getPointer ≠ none := by
    simp only [readCallback]
    cases v.getPointer <;> simp
  cases op <;> cases k <;> simp [OptionId.HasModule, defaultModule, module, setOneParam,
    bind_eq_ok, pure, Except.pure, ← hread s]

theorem readCallback_funcOption {s : VmSet} {v : OptionParamVal} {r : VmSet × Callback}
    (h : s.readCallback v = .ok r) : r.1.funcOption = s.funcOption := by
  unfold readCallback at h
  cases hv : v.getPointer with
  | none => simp [hv] at h
  | some obj =>
    simp only [hv, Except.ok.injEq] at h
    rw [← h]

theorem setOneParam_funcOption {op : OptionId} {s s' : VmSet} {p : OptionParam × OptionParamVal}
    (h : setOneParam op s p = .ok s') : s'.funcOption = s.funcOption := by
  unfold setOneParam at h
  split at h
  -- The three callback cases.
  case h_3 | h_5 | h_8 =>
    obtain ⟨r, hr, h⟩ := bind_eq_ok.1 h
    rw [← Except.ok.inj h]
    exact readCallback_funcOption hr
  all_goals
    cases h
    rfl

theorem setParamByOption_ok (op : OptionId) (s : VmSet) (params : Params) :
    (∃ s', s.setParamByOption op params = .ok s') ↔ (op.HasModule → params.CallbackSet) := by
  simp only [setParamByOption]
  rw [foldlM_eq_runE, runE_ok_iff_forall _ (I := fun _ => True) (fun _ _ _ _ _ => trivial)
    (fun s p _ => setOneParam_ok op s p) trivial]
  refine ⟨?_, ?_⟩
  · intro h hop v hv
    exact h (.callback, v) (ExtTreeMap.mem_toList_iff_getElem?_eq_some.2 hv) hop rfl
  · intro h p hp hop hk
    obtain ⟨k, v⟩ := p
    subst hk
    exact h hop v (ExtTreeMap.mem_toList_iff_getElem?_eq_some.1 hp)

theorem setParamByOption_funcOption {op : OptionId} {s s' : VmSet} {params : Params}
    (h : s.setParamByOption op params = .ok s') : s'.funcOption = s.funcOption := by
  unfold setParamByOption at h
  rw [foldlM_eq_runE] at h
  exact runE_invariant _ (I := fun t => t.funcOption = s.funcOption) rfl
    (fun _ _ _ ht hstep => (setOneParam_funcOption hstep).trans ht) h

/-! ## `set_param` -/

theorem hasModule_cases (op : OptionId) :
    (op = .vmBase ∨ op = .vmCpuUsage ∨ op = .vmCacheMiss) ↔ op.HasModule := by
  cases op <;> simp [OptionId.HasModule, defaultModule, module]

theorem setOneOption_ok (s : VmSet) (p : OptionId × Params) :
    (∃ s', s.setOneOption p = .ok s') ↔ (p.1.HasModule → p.2.CallbackSet) := by
  simp only [setOneOption]
  split
  case h_4 h₁ h₂ h₃ =>
    have hnot : ¬ p.1.HasModule := by
      rw [← hasModule_cases]
      tauto
    simp [hnot]
  all_goals
    exact setParamByOption_ok p.1 _ p.2

theorem setOneOption_funcOption {s s' : VmSet} {p : OptionId × Params}
    (h : s.setOneOption p = .ok s') : s'.funcOption = s.funcOption := by
  unfold setOneOption at h
  split at h
  case h_4 =>
    cases h
    rfl
  all_goals
    rw [setParamByOption_funcOption h]
    obtain ⟨events, he⟩ := s.deleteCallback_eq p.1
    rw [he]
    split_ifs <;> rfl

theorem setParam_ok (s : VmSet) (ops : Options) :
    (∃ s', s.setParam ops = .ok s') ↔
      ∀ (o : OptionId) (params : Params), ops[o]? = some params → o.HasModule →
        params.CallbackSet := by
  have hloop : (∃ s', s.setParam ops = .ok s') ↔ ∃ s', runE setOneOption s ops.toList = .ok s' := by
    simp only [setParam]
    simp [foldlM_eq_runE, bind_eq_ok, pure, Except.pure]
  rw [hloop, runE_ok_iff_forall _ (I := fun _ => True) (fun _ _ _ _ _ => trivial)
    (fun s p _ => setOneOption_ok s p) trivial]
  simp only [Prod.forall, ExtTreeMap.mem_toList_iff_getElem?_eq_some]

theorem setParam_funcOption {s s' : VmSet} {ops : Options} (h : s.setParam ops = .ok s') :
    s'.funcOption = s.funcOption.enableOption ops := by
  unfold setParam at h
  rw [foldlM_eq_runE] at h
  obtain ⟨s₁, hrun, h⟩ := bind_eq_ok.1 h
  have hs₁ : s₁.funcOption = s.funcOption :=
    runE_invariant _ (I := fun t => t.funcOption = s.funcOption) rfl
      (fun _ _ _ ht hstep => (setOneOption_funcOption hstep).trans ht) hrun
  rw [← Except.ok.inj h, ← hs₁]

/-! ## `init_vms` -/

/-- Every stored record of an option with a module has its callback set, if it has one. -/
def CallbacksStored (s : VmSet) (op : OptionId) : Prop :=
  ∀ params, s.funcOption.options[op]? = some params → op.HasModule → params.CallbackSet

theorem applyStored_ok (s : VmSet) (op : OptionId) :
    (∃ s', s.applyStored op = .ok s') ↔ s.CallbacksStored op := by
  simp only [applyStored, CallbacksStored]
  rw [FuncOption.checkOption_eq, FuncOption.getParam_eq]
  cases h : s.funcOption.options[op]? with
  | none => simp
  | some params => simp [setParamByOption_ok]

theorem applyStored_funcOption {op : OptionId} {s s' : VmSet} (h : s.applyStored op = .ok s') :
    s'.funcOption = s.funcOption := by
  unfold applyStored at h
  split_ifs at h
  · exact setParamByOption_funcOption h
  · cases h
    rfl

theorem initVms_eq (s : VmSet) :
    s.initVms = runE applyStored s [.vmBase, .vmCpuUsage, .vmCacheMiss] := by
  rw [← foldlM_eq_runE]
  simp only [initVms, List.foldlM_cons, List.foldlM_nil, bind_pure]

theorem initVms_ok (s : VmSet) : (∃ s', s.initVms = .ok s') ↔ ∀ op, s.CallbacksStored op := by
  have hsame {t : VmSet} (ht : t.funcOption = s.funcOption) (op : OptionId) :
      t.CallbacksStored op ↔ s.CallbacksStored op := by
    simp only [CallbacksStored]
    rw [ht]
  rw [initVms_eq, runE_ok_iff_forall _ (I := fun t => t.funcOption = s.funcOption)
    (fun _ _ _ ht hstep => (applyStored_funcOption hstep).trans ht)
    (fun t op ht => (applyStored_ok t op).trans (hsame ht op)) rfl]
  refine ⟨?_, ?_⟩
  · intro h op params hparams hop
    refine h op ?_ params hparams hop
    rcases (hasModule_cases op).2 hop with rfl | rfl | rfl <;> simp
  · exact fun h op _ => h op

theorem initVms_funcOption {s s' : VmSet} (h : s.initVms = .ok s') :
    s'.funcOption = s.funcOption := by
  rw [initVms_eq] at h
  exact runE_invariant _ (I := fun t => t.funcOption = s.funcOption) rfl
    (fun _ _ _ ht hstep => (applyStored_funcOption hstep).trans ht) h

end VmSet

/-! ## The calls of `Vsf` -/

theorem Options.of_getElem? (p : OptionId × Params) (o : OptionId) :
    (Options.of [p])[o]? = if p.1 = o then some p.2 else none := by
  simp only [Options.of]
  rw [ExtTreeMap.ofList_singleton, ExtTreeMap.getElem?_insert]
  simp

/-- The record a host call stores is no VM option's. -/
theorem Host.clearOneOption_options (s : Host) (op : OptionId) {o : OptionId}
    (ho : o.HasModule) :
    (s.clearOneOption op).funcOption.options[o]? = s.funcOption.options[o]? := by
  have hne : ¬ OptionId.hsNodeTestDist = o := by
    intro h
    subst h
    exact absurd ho (by decide)
  simp only [clearOneOption]
  split
  · split_ifs
    · rw [FuncOption.enableOption_getElem?, Options.of_getElem?, if_neg hne]
      rfl
    · rfl
  · rfl

namespace Vsf

theorem onVmSet_ok {s : Vsf} {f : VmSet → Except Fault VmSet} :
    (∃ s', s.onVmSet f = .ok s') ↔ ∃ vmSet, f s.vmSet = .ok vmSet := by
  simp only [onVmSet]
  simp [bind_eq_ok, pure, Except.pure]

theorem of_onVmSet {s s' : Vsf} {f : VmSet → Except Fault VmSet} (h : s.onVmSet f = .ok s') :
    f s.vmSet = .ok s'.vmSet ∧ s'.host = s.host := by
  obtain ⟨vmSet, hf, h⟩ := bind_eq_ok.1 h
  rw [← Except.ok.inj h]
  exact ⟨hf, rfl⟩

theorem onHost_ok {s : Vsf} {f : Host → Host} : (∃ s', s.onHost f = .ok s') ↔ s.host = true := by
  simp only [onHost]
  split_ifs with h <;> simp [h]

theorem of_onHost {s s' : Vsf} {f : Host → Host} (h : s.onHost f = .ok s') :
    s'.vmSet.funcOption = (f s.toHost).funcOption ∧ s'.host = s.host := by
  unfold onHost at h
  split_ifs at h
  rw [← Except.ok.inj h]
  exact ⟨rfl, rfl⟩

/-! ### `set_param` -/

theorem setOneOption_ok (s : Vsf) (p : OptionId × Params) :
    (∃ s', s.setOneOption p = .ok s') ↔
      if p.1.isVm then (p.1.HasModule → p.2.CallbackSet) else s.host = true := by
  simp only [setOneOption]
  split_ifs with hvm
  · rw [onVmSet_ok, VmSet.setParam_ok]
    refine ⟨?_, ?_⟩
    · intro h
      refine h p.1 p.2 ?_
      rw [Options.of_getElem?, if_pos rfl]
    · intro h o params ho
      rw [Options.of_getElem?] at ho
      split_ifs at ho with hpo
      subst hpo
      rw [← Option.some.inj ho]
      exact h
  · exact onHost_ok

theorem of_setOneOption {s s' : Vsf} {p : OptionId × Params} (h : s.setOneOption p = .ok s') :
    s'.vmSet.funcOption = s.vmSet.funcOption.enableOption (.of [p]) ∧ s'.host = s.host := by
  unfold setOneOption at h
  split_ifs at h
  · obtain ⟨hset, hhost⟩ := of_onVmSet h
    exact ⟨VmSet.setParam_funcOption hset, hhost⟩
  · exact of_onHost h

theorem setParam_ok (s : Vsf) (ops : Options) :
    (∃ s', s.setParam ops = .ok s') ↔ ∀ (o : OptionId) (params : Params), ops[o]? = some params →
      if o.isVm then (o.HasModule → params.CallbackSet) else s.host = true := by
  simp only [setParam]
  rw [foldlM_eq_runE, runE_ok_iff_forall _ (I := fun t => t.host = s.host)
    (fun _ _ _ ht hstep => (of_setOneOption hstep).2.trans ht)
    (fun t p ht => (setOneOption_ok t p).trans (by rw [ht])) rfl]
  simp only [Prod.forall, ExtTreeMap.mem_toList_iff_getElem?_eq_some]

/-! ### `clear_param` -/

theorem clearOneOption_ok (s : Vsf) (op : OptionId) :
    (∃ s', s.clearOneOption op = .ok s') ↔ op.isVm ∨ s.host = true := by
  simp only [clearOneOption]
  split_ifs with hvm
  · simp [onVmSet_ok, hvm]
  · simp [onHost_ok, hvm]

theorem of_clearOneOption {s s' : Vsf} {op : OptionId} (h : s.clearOneOption op = .ok s') :
    (∀ o : OptionId, o.HasModule → s'.vmSet.funcOption.options[o]? =
      (s.vmSet.clearOneOption op).funcOption.options[o]?) ∧ s'.host = s.host := by
  unfold clearOneOption at h
  split_ifs at h with hvm
  · obtain ⟨hclear, hhost⟩ := of_onVmSet h
    rw [← Except.ok.inj hclear]
    exact ⟨fun _ _ => rfl, hhost⟩
  · obtain ⟨hstore, hhost⟩ := of_onHost h
    refine ⟨fun o ho => ?_, hhost⟩
    -- A host option has no label in `VmSet::clear_param`.
    have hfall : o ∉ VmSet.fallsTo op := by
      intro hmem
      cases op <;> simp [VmSet.fallsTo, OptionId.isVm, OptionId.ctorIdx] at hmem hvm
    rw [hstore, VmSet.clearOneOption_options, if_neg (fun hc => hfall hc.2)]
    exact Host.clearOneOption_options s.toHost op ho

theorem clearParam_ok (s : Vsf) (ops : List OptionId) :
    (∃ s', s.clearParam ops = .ok s') ↔ ∀ op ∈ ops, op.isVm ∨ s.host = true := by
  simp only [clearParam]
  rw [foldlM_eq_runE, runE_ok_iff_forall _ (I := fun t => t.host = s.host)
    (fun _ _ _ ht hstep => (of_clearOneOption hstep).2.trans ht)
    (fun t op ht => (clearOneOption_ok t op).trans (by rw [ht])) rfl]

theorem initHost_funcOption (s : Vsf) (env : Host.Env) :
    (s.initHost env).vmSet.funcOption = s.vmSet.funcOption := by
  have hconstruct (h : Host) : (h.construct env).1.funcOption = h.funcOption := by
    simp only [Host.construct]
    split_ifs <;> rfl
  simp only [initHost]
  split_ifs
  · rfl
  · exact hconstruct s.toHost

end Vsf

/-! ## Who wrote a record -/

/-- The call that last wrote the record of an enabled option: `init` or `set_param`, with the
user's parameters, or `clear_param`, with the defaults. -/
inductive Writer where
  | user
  | clear
deriving DecidableEq

namespace Writer

variable (w : OptionId → Option Writer)

def setParam (p : OptionId × Params) : OptionId → Option Writer :=
  Function.update w p.1 (some user)

def clearParam (op : OptionId) : OptionId → Option Writer := fun o =>
  if (w op).isSome ∧ o ∈ VmSet.fallsTo op then some clear else w o

/-- The writers after a call. -/
def call : Vsf.Call → OptionId → Option Writer
  | .setParam ops => run setParam w ops.toList
  | .clearParam ops => run clearParam w ops
  | .initHost _ | .initVms => w

/-- The store holds, for every VM option with a module, what its last writer put there. -/
def Agrees (store : FuncOption) : Prop :=
  ∀ o : OptionId, o.HasModule → match w o with
    | none => store.options[o]? = none
    | some user => ∃ params, store.options[o]? = some params ∧ params.CallbackSet
    | some clear => store.options[o]? = some (VmSet.defaultParams o)

variable {w}

theorem run_setParam (ps : List (OptionId × Params)) (o : OptionId) :
    run setParam w ps o = if ∃ p ∈ ps, p.1 = o then some user else w o := by
  induction ps generalizing w with
  | nil => simp
  | cons p ps ih =>
    rw [run_cons, ih, setParam]
    by_cases hpo : p.1 = o
    · subst hpo
      simp
    · simp only [List.mem_cons, exists_eq_or_imp, hpo, false_or,
        Function.update_of_ne (Ne.symm hpo)]

theorem Agrees.isSome {store : FuncOption} (h : Agrees w store) {o : OptionId}
    (ho : o.HasModule) : (w o).isSome = store.checkOption o := by
  have hat := h o ho
  rw [FuncOption.checkOption_eq]
  split at hat
  case h_1 hw => rw [hw, hat]; rfl
  case h_2 hw =>
    obtain ⟨params, hparams, -⟩ := hat
    rw [hw, hparams]
    rfl
  case h_3 hw => rw [hw, hat]; rfl

theorem Agrees.setParam {store : FuncOption} (h : Agrees w store) {p : OptionId × Params}
    (hp : p.2.CallbackSet) : Agrees (setParam w p) (store.enableOption (.of [p])) := by
  intro o ho
  rw [FuncOption.enableOption_getElem?, Options.of_getElem?, Writer.setParam]
  by_cases hpo : p.1 = o
  · subst hpo
    simpa using hp
  · rw [Function.update_of_ne (Ne.symm hpo), if_neg hpo]
    exact h o ho

theorem Agrees.clearParam {s : VmSet} (h : Agrees w s.funcOption) (op : OptionId) :
    Agrees (clearParam w op) (s.clearOneOption op).funcOption := by
  intro o ho
  rw [VmSet.clearOneOption_options, Writer.clearParam]
  by_cases hfall : o ∈ VmSet.fallsTo op
  · have hop : op.HasModule := by
      cases op <;> first | rfl | simp [VmSet.fallsTo] at hfall
    rw [h.isSome hop]
    split_ifs
    · rfl
    · exact h o ho
  · simp only [hfall, and_false, if_false]
    exact h o ho

/-- The callback `clear_param` stores is null. -/
theorem not_callbackSet_defaultParams {o : OptionId} (ho : o.HasModule) :
    ¬ (VmSet.defaultParams o).CallbackSet := by
  have hnull : (VmSet.defaultParams o)[OptionParam.callback]? = some (.ptr none) := by
    rcases (VmSet.hasModule_cases o).2 ho with rfl | rfl | rfl <;> decide
  intro h
  exact h _ hnull rfl

theorem Agrees.callbacksStored_iff {s : VmSet} (h : Agrees w s.funcOption) {o : OptionId}
    (ho : o.HasModule) : s.CallbacksStored o ↔ w o ≠ some clear := by
  have hat := h o ho
  simp only [VmSet.CallbacksStored]
  split at hat
  case h_1 hw => simp [hat, hw]
  case h_2 hw =>
    obtain ⟨params, hparams, hset⟩ := hat
    simp [hparams, hw, hset]
  case h_3 hw =>
    simp [hat, hw, ho, not_callbackSet_defaultParams ho]

end Writer

/-! ## Runs -/

/-- What the user promises: every callback he passes is a function object. -/
def Options.Promised (ops : Options) : Prop :=
  ∀ (o : OptionId) (params : Params), ops[o]? = some params → params.CallbackSet

namespace Vsf

def Call.Promised : Call → Prop
  | .setParam ops => ops.Promised
  | .initHost _ | .clearParam _ | .initVms => True

/-- The framework, with the last writer of every record. -/
structure Tracked where
  vsf : Vsf
  writer : OptionId → Option Writer

namespace Tracked

def init (ops : Options) : Tracked :=
  ⟨Vsf.init ops, Writer.call (fun _ => none) (.setParam ops)⟩

def step (t : Tracked) (c : Call) : Except Fault Tracked :=
  (t.vsf.step c).map fun vsf => ⟨vsf, Writer.call t.writer c⟩

/-- What a call needs to dereference no null pointer. -/
def Safe (t : Tracked) : Call → Prop
  | .initHost _ => True
  | .setParam ops => ∀ o ∈ ops, o.isVm ∨ t.vsf.host = true
  | .clearParam ops => ∀ o ∈ ops, o.isVm ∨ t.vsf.host = true
  | .initVms => ∀ o : OptionId, o.HasModule → t.writer o ≠ some .clear

/-- The writers tell what is in the store. -/
def Inv (t : Tracked) : Prop := Writer.Agrees t.writer t.vsf.vmSet.funcOption

/-! ### One call -/

theorem inv_step {t t' : Tracked} {c : Call} (h : t.Inv) (hc : c.Promised)
    (hstep : t.step c = .ok t') : t'.Inv := by
  obtain ⟨vsf, hvsf, rfl⟩ := map_eq_ok.1 hstep
  cases c with
  | initHost env =>
    rw [← Except.ok.inj hvsf]
    simp only [Inv]
    rw [initHost_funcOption]
    exact h
  | setParam ops =>
    have hloop : runE setOneOption t.vsf ops.toList = .ok vsf := by
      rw [← foldlM_eq_runE]
      exact hvsf
    refine runE_simulates setOneOption (D := fun p => p.2.CallbackSet)
      (R := fun s w => Writer.Agrees w s.vmSet.funcOption) ?_ h ?_ hloop
    · intro s p s' w hw hp hs'
      rw [(of_setOneOption hs').1]
      exact hw.setParam hp
    · intro p hp
      exact hc p.1 p.2 (ExtTreeMap.mem_toList_iff_getElem?_eq_some.1 hp)
  | clearParam ops =>
    have hloop : runE clearOneOption t.vsf ops = .ok vsf := by
      rw [← foldlM_eq_runE]
      exact hvsf
    refine runE_simulates clearOneOption (D := fun _ => True)
      (R := fun s w => Writer.Agrees w s.vmSet.funcOption) ?_ h (fun _ _ => trivial) hloop
    intro s op s' w hw _ hs' o ho
    rw [(of_clearOneOption hs').1 o ho]
    exact hw.clearParam op o ho
  | initVms =>
    obtain ⟨hinit, -⟩ := of_onVmSet hvsf
    simp only [Inv]
    rw [VmSet.initVms_funcOption hinit]
    exact h

/-- **One call dereferences no null pointer exactly when it is `Safe`.** -/
theorem step_ok_iff {t : Tracked} {c : Call} (h : t.Inv) (hc : c.Promised) :
    (∃ t', t.step c = .ok t') ↔ t.Safe c := by
  have hmap : (∃ t', t.step c = .ok t') ↔ ∃ vsf, t.vsf.step c = .ok vsf := by
    simp only [step]
    simp only [map_eq_ok]
    exact ⟨fun ⟨_, vsf, hvsf, _⟩ => ⟨vsf, hvsf⟩, fun ⟨vsf, hvsf⟩ => ⟨_, vsf, hvsf, rfl⟩⟩
  rw [hmap]
  cases c with
  | initHost env => exact iff_of_true ⟨_, rfl⟩ trivial
  | setParam ops =>
    rw [show t.vsf.step (.setParam ops) = t.vsf.setParam ops from rfl, setParam_ok]
    refine ⟨?_, ?_⟩
    · intro hall o ho
      have hat := hall o ops[o] (ExtTreeMap.getElem?_eq_some_getElem ho)
      split_ifs at hat with hvm
      · exact Or.inl hvm
      · exact Or.inr hat
    · intro hsafe o params ho
      split_ifs with hvm
      · exact fun _ => hc o params ho
      · exact (hsafe o (ExtTreeMap.mem_iff_isSome_getElem?.2 (by rw [ho]; rfl))).resolve_left hvm
  | clearParam ops => exact clearParam_ok t.vsf ops
  | initVms =>
    rw [show t.vsf.step .initVms = t.vsf.initVms from rfl, Vsf.initVms, onVmSet_ok,
      VmSet.initVms_ok]
    refine ⟨?_, ?_⟩
    · intro hall o ho
      exact (h.callbacksStored_iff ho).1 (hall o)
    · intro hsafe o params hparams ho
      exact (h.callbacksStored_iff ho).2 (hsafe o ho) params hparams ho

/-! ### Runs of calls -/

theorem inv_init {ops : Options} (h : ops.Promised) : (init ops).Inv := by
  intro o ho
  show match run Writer.setParam (fun _ => none) ops.toList o with
    | none => (FuncOption.enableOption {} ops).options[o]? = none
    | some .user => ∃ params, (FuncOption.enableOption {} ops).options[o]? = some params ∧
        params.CallbackSet
    | some .clear => (FuncOption.enableOption {} ops).options[o]? = some (VmSet.defaultParams o)
  have hempty : (FuncOption.mk ∅).options[o]? = none := ExtTreeMap.getElem?_empty
  rw [Writer.run_setParam, FuncOption.enableOption_getElem?, hempty, Option.or_none]
  split_ifs with hmem
  · obtain ⟨⟨o', params⟩, hp, rfl⟩ := hmem
    have hparams := ExtTreeMap.mem_toList_iff_getElem?_eq_some.1 hp
    exact ⟨params, hparams, h o' params hparams⟩
  · cases hops : ops[o]? with
    | none => rfl
    | some params =>
      exact absurd ⟨(o, params), ExtTreeMap.mem_toList_iff_getElem?_eq_some.2 hops, rfl⟩ hmem

theorem runE_forget (t : Tracked) (calls : List Call) :
    (∃ t', runE step t calls = .ok t') ↔ ∃ s, runE Vsf.step t.vsf calls = .ok s := by
  have hstep (t : Tracked) (c : Call) : (t.step c).map Tracked.vsf = t.vsf.step c := by
    simp only [step]
    cases t.vsf.step c <;> rfl
  rw [← runE_map Vsf.step hstep]
  simp [map_eq_ok]

/-- **A run dereferences no null pointer exactly when each of its calls is `Safe`.** -/
theorem run_ok_iff_safe (ops : Options) (calls : List Call) (hops : ops.Promised)
    (hcalls : ∀ c ∈ calls, c.Promised) :
    (∃ s, runE Vsf.step (Vsf.init ops) calls = .ok s) ↔
      AlongE step Safe (init ops) calls := by
  rw [show Vsf.init ops = (init ops).vsf from rfl, ← runE_forget]
  exact runE_ok_iff step (fun _ _ _ => inv_step) (fun _ _ => step_ok_iff) (inv_init hops) calls
    hcalls

/-- The user's callback, once. -/
def callbackOnce : Options := .of [(.vmCacheMiss, .of [(.callback, .ptr (some 0))])]

theorem promised_callbackOnce : callbackOnce.Promised := by
  intro o params ho
  unfold callbackOnce at ho
  rw [Options.of_getElem?] at ho
  split_ifs at ho
  rw [← Option.some.inj ho]
  intro v hv
  have hval : (Params.of [(.callback, .ptr (some 0))])[OptionParam.callback]? =
      some (.ptr (some 0)) := by decide
  rw [hval] at hv
  rw [← Option.some.inj hv]
  exact Option.some_ne_none 0

/-- The user sets a callback, clears the option's parameters and starts the samplers again. -/
def clearedAndRestarted : List Call := [.initVms, .clearParam [.vmCacheMiss], .initVms]

theorem promised_clearedAndRestarted : ∀ c ∈ clearedAndRestarted, c.Promised := by
  intro c hc
  simp only [clearedAndRestarted, List.mem_cons, List.not_mem_nil, or_false] at hc
  rcases hc with rfl | rfl | rfl <;> trivial

/-- The second `init_vms` reads the null callback that `clear_param` stored; and a host option
set before `init_host` reaches a null `host_`. -/
theorem not_run_ok_cleared :
    (callbackOnce.Promised ∧ (∀ c ∈ clearedAndRestarted, c.Promised) ∧
      ∀ s, runE Vsf.step (Vsf.init callbackOnce) clearedAndRestarted ≠ .ok s) ∧
    ∀ s, runE Vsf.step (Vsf.init ∅) [.setParam (.of [(.hsNodeTestDist, ∅)])] ≠ .ok s := by
  refine ⟨?_, ?_⟩
  · refine ⟨promised_callbackOnce, promised_clearedAndRestarted, fun s hs => ?_⟩
    have herror : (runE Vsf.step (Vsf.init callbackOnce) clearedAndRestarted).toOption.isNone :=
      by decide +kernel
    rw [hs] at herror
    exact absurd herror Bool.false_ne_true
  · intro s hs
    have herror : (runE Vsf.step (Vsf.init ∅)
        [.setParam (.of [(.hsNodeTestDist, ∅)])]).toOption.isNone := by decide +kernel
    rw [hs] at herror
    exact absurd herror Bool.false_ne_true

/-- The run that starts the samplers, clears and sets the callback again is safe. -/
theorem run_ok_iff_safe_callbackOnce :
    callbackOnce.Promised ∧
      ((∃ s, runE Vsf.step (Vsf.init callbackOnce) [.initVms, .clearParam [.vmCacheMiss],
          .setParam callbackOnce, .initVms] = .ok s) ↔
        AlongE step Safe (init callbackOnce) [.initVms, .clearParam [.vmCacheMiss],
          .setParam callbackOnce, .initVms]) := by
  refine ⟨promised_callbackOnce, run_ok_iff_safe _ _ promised_callbackOnce ?_⟩
  intro c hc
  simp only [List.mem_cons, List.not_mem_nil, or_false] at hc
  rcases hc with rfl | rfl | rfl | rfl
  · trivial
  · trivial
  · exact promised_callbackOnce
  · trivial

end Tracked

end Vsf

end LibVsf
