import LibVsf.Lib.Handles
import LibVsf.VsfProof
import Mathlib.Data.Multiset.OrderedMonoid

/-!
# Callback objects and their deletion

The callback objects that the user allocates belong to the option store once they are handed over:
`delete_callback` deletes that of a record before the record is replaced, and the destructor deletes
those that are left.

A run is followed by the log of the accesses to the objects. What is held after a log is what has
been handed over and not deleted; the store has some of it (`owned`), and the rest is lost.

* `deleteCallback_events`, `setParamByOption_events`: what an operation deletes and reads.
* `Leads`: how a step changes what is held. It loses nothing exactly under a condition.
* `balanced_iff_keeps`: over every run that ends with the destructor, each object is deleted exactly
  once, and not read after that, exactly when no record that still has an object is replaced without
  its deletion: by `init`, or by `clear_param` of an option that falls through to it.
-/

namespace LibVsf

open Std Runs Handles

/-- The object of the callback of a record. -/
def Params.callbackObj (params : Params) : Option Nat :=
  params[OptionParam.callback]?.bind OptionParamVal.getPointer

def CallbackEvent.access : CallbackEvent → Access Nat
  | .read obj => .used obj
  | .delete obj => .released obj

namespace VmSet

/-- The object of the callback that is stored for an option. -/
def stored (s : VmSet) (o : OptionId) : List Nat :=
  (s.funcOption.options[o]?.bind Params.callbackObj).toList

theorem stored_eq_nil {s : VmSet} {o : OptionId} (h : ¬ s.funcOption.checkOption o) :
    s.stored o = [] := by
  rw [FuncOption.checkOption_eq, Bool.not_eq_true, Option.isSome_eq_false_iff,
    Option.isNone_iff_eq_none] at h
  simp [stored, h]

/-! ## Deletions and reads -/

/-- The loop of `delete_callback` over the parameters of a record. -/
theorem foldl_delete (params : Params) (s : VmSet) :
    params.foldl (fun s p v => match p with | .callback => s.delete v | _ => s) s =
      { s with events := s.events ++ params.callbackObj.toList.map .delete } := by
  have hloop (l : List (OptionParam × OptionParamVal)) (s : VmSet) :
      l.foldl (fun s p => match p.1 with | .callback => s.delete p.2 | _ => s) s =
        { s with events := s.events ++ (l.flatMap fun p =>
          if p.1 = .callback then p.2.getPointer.toList.map .delete else []) } := by
    induction l generalizing s with
    | nil => simp
    | cons p l ih =>
      obtain ⟨p, v⟩ := p
      rw [List.foldl_cons, ih, List.flatMap_cons]
      by_cases hp : p = .callback
      · subst hp
        cases hv : v.getPointer <;> simp [delete, hv]
      · simp [hp]
  have hkey := Maps.flatMap_toList_of_key params OptionParam.callback
    fun v => v.getPointer.toList.map CallbackEvent.delete
  rw [ExtTreeMap.foldl_eq_foldl_toList, hloop, hkey, Params.callbackObj]
  cases params[OptionParam.callback]? <;> simp

/-- **What `delete_callback` deletes** is the object that is stored. -/
theorem deleteCallback_events (s : VmSet) {op : OptionId} (hop : op.HasModule) :
    s.deleteCallback op = { s with events := s.events ++ (s.stored op).map .delete } := by
  have hstored : (if s.funcOption.checkOption op then
      (s.funcOption.getParam op).foldl
        (fun s p v => match p with | .callback => s.delete v | _ => s) s else s) =
      { s with events := s.events ++ (s.stored op).map .delete } := by
    rw [FuncOption.checkOption_eq, FuncOption.getParam_eq, stored]
    cases s.funcOption.options[op]? with
    | none => simp
    | some params => simpa using foldl_delete params s
  rcases (hasModule_cases op).2 hop with rfl | rfl | rfl <;> exact hstored

/-- What one parameter makes `set_param_by_option` read. -/
def readOf (p : OptionParam × OptionParamVal) : List CallbackEvent :=
  if p.1 = .callback then p.2.getPointer.toList.map .read else []

theorem readCallback_events {s : VmSet} {v : OptionParamVal} {r : VmSet × Callback}
    (h : s.readCallback v = .ok r) :
    r.1.events = s.events ++ v.getPointer.toList.map CallbackEvent.read := by
  unfold readCallback at h
  cases hv : v.getPointer with
  | none => simp [hv] at h
  | some obj =>
    simp only [hv, Except.ok.injEq] at h
    rw [← h]
    rfl

theorem setOneParam_events {op : OptionId} (hop : op.HasModule) {s s' : VmSet}
    {p : OptionParam × OptionParamVal} (h : setOneParam op s p = .ok s') :
    s'.events = s.events ++ readOf p := by
  obtain ⟨k, v⟩ := p
  have hcallback {r : VmSet × Callback} (hr : s.readCallback v = .ok r) (hk : k = .callback) :
      r.1.events = s.events ++ readOf (k, v) := by
    rw [readCallback_events hr, readOf, if_pos hk]
  rcases (hasModule_cases op).2 hop with rfl | rfl | rfl <;> cases k
  case inl.callback | inr.inl.callback | inr.inr.callback =>
    obtain ⟨r, hr, h⟩ := bind_eq_ok.1 h
    rw [← Except.ok.inj h]
    exact hcallback hr rfl
  all_goals
    cases h
    simp [readOf]

/-- **What `set_param_by_option` reads** is the object of the parameters. -/
theorem setParamByOption_events {op : OptionId} (hop : op.HasModule) {s s' : VmSet}
    {params : Params} (h : s.setParamByOption op params = .ok s') :
    s'.events = s.events ++ params.callbackObj.toList.map .read := by
  have hloop (l : List (OptionParam × OptionParamVal)) {s : VmSet}
      (hl : runE (setOneParam op) s l = .ok s') : s'.events = s.events ++ l.flatMap readOf := by
    induction l generalizing s with
    | nil =>
      cases hl
      simp
    | cons p l ih =>
      obtain ⟨s₁, hstep, hrest⟩ := (runE_cons_ok _).1 hl
      rw [ih hrest, setOneParam_events hop hstep, List.flatMap_cons, List.append_assoc]
  have hkey := Maps.flatMap_toList_of_key params OptionParam.callback
    fun v => v.getPointer.toList.map CallbackEvent.read
  unfold setParamByOption at h
  rw [foldlM_eq_runE] at h
  refine (hloop _ h).trans (congrArg (s.events ++ ·) (hkey.trans ?_))
  rw [Params.callbackObj]
  cases params[OptionParam.callback]? <;> rfl

/-! ## What is owned -/

/-- The objects that are stored for the options of the list. -/
def storedIn (s : VmSet) (os : List OptionId) : Multiset Nat := os.flatMap s.stored

def modules : List OptionId := [.vmBase, .vmCpuUsage, .vmCacheMiss]

/-- The objects that belong to the store. -/
def owned (s : VmSet) : Multiset Nat := s.storedIn modules

theorem mem_modules {o : OptionId} : o ∈ modules ↔ o.HasModule := by
  rw [← hasModule_cases]
  simp [modules]

theorem storedIn_congr {s s' : VmSet} {os : List OptionId}
    (h : ∀ o ∈ os, s'.stored o = s.stored o) : s'.storedIn os = s.storedIn os := by
  rw [storedIn, storedIn, List.flatMap_congr h]

theorem storedIn_eq_zero {s : VmSet} {os : List OptionId} :
    s.storedIn os = 0 ↔ ∀ o ∈ os, s.stored o = [] := by
  rw [storedIn, Multiset.coe_eq_zero, List.flatMap_eq_nil_iff]

theorem storedIn_perm {s : VmSet} {os os' : List OptionId} (h : os.Perm os') :
    s.storedIn os = s.storedIn os' :=
  Multiset.coe_eq_coe.2 (h.flatMap_right s.stored)

theorem storedIn_append (s : VmSet) (os os' : List OptionId) :
    s.storedIn (os ++ os') = s.storedIn os + s.storedIn os' := by
  rw [storedIn, List.flatMap_append, ← Multiset.coe_add]
  rfl

/-- Those of one option, and the others. -/
theorem owned_eq (s : VmSet) {o : OptionId} (ho : o.HasModule) :
    s.owned = (s.stored o : Multiset Nat) + s.storedIn (modules.erase o) := by
  rw [owned, storedIn_perm (List.perm_cons_erase (mem_modules.2 ho)), storedIn, List.flatMap_cons,
    ← Multiset.coe_add]
  rfl

/-! ## What a step leads to -/

/-- From `s` a step that takes over the objects `hs` leads to `s'`: what it accesses is held, and it
loses nothing exactly under `C`. -/
def Leads (s : VmSet) (hs : Multiset Nat) (s' : VmSet) (C : Prop) : Prop :=
  ∃ es lost, s'.events = s.events ++ es ∧ (lost = 0 ↔ C) ∧
    ∀ rest, Uses (s.owned + (hs + rest)) (es.map CallbackEvent.access) (s'.owned + (lost + rest))

theorem Leads.append {s s₁ s₂ : VmSet} {hs hs₁ : Multiset Nat} {C C₁ : Prop}
    (h : Leads s hs s₁ C) (h₁ : Leads s₁ hs₁ s₂ C₁) : Leads s (hs + hs₁) s₂ (C ∧ C₁) := by
  obtain ⟨es, lost, hes, hlost, huses⟩ := h
  obtain ⟨es₁, lost₁, hes₁, hlost₁, huses₁⟩ := h₁
  refine ⟨es ++ es₁, lost + lost₁, by rw [hes₁, hes, List.append_assoc], ?_, fun rest => ?_⟩
  · rw [add_eq_zero, hlost, hlost₁]
  · have hfirst := huses (hs₁ + rest)
    have hsecond := huses₁ (lost + rest)
    rw [add_left_comm lost] at hfirst
    rw [List.map_append, add_assoc hs, add_comm lost lost₁, add_assoc lost₁]
    exact hfirst.append hsecond

theorem Leads.congr {s s' : VmSet} {hs : Multiset Nat} {C C' : Prop} (h : Leads s hs s' C)
    (hC : C ↔ C') : Leads s hs s' C' := by
  obtain ⟨es, lost, hes, hlost, huses⟩ := h
  exact ⟨es, lost, hes, hlost.trans hC, huses⟩

/-- A step that changes no store and accesses nothing. -/
theorem leads_refl {s s' : VmSet} (hevents : s'.events = s.events)
    (hstored : ∀ o : OptionId, o.HasModule → s'.stored o = s.stored o) : Leads s 0 s' True := by
  have howned : s'.owned = s.owned :=
    storedIn_congr fun o ho => hstored o (mem_modules.1 ho)
  refine ⟨[], 0, by rw [hevents, List.append_nil], iff_of_true rfl trivial, fun rest => ?_⟩
  rw [howned]
  exact uses_nil _

/-! ### `set_param` -/

theorem setOneOption_events {s s' : VmSet} {p : OptionId × Params} (hp : p.1.HasModule)
    (h : s.setOneOption p = .ok s') :
    s'.events = s.events ++
      ((s.stored p.1).map .delete ++ p.2.callbackObj.toList.map .read) := by
  have hdeleted : (if s.funcOption.checkOption p.1 then s.deleteCallback p.1 else s) =
      { s with events := s.events ++ (s.stored p.1).map .delete } := by
    split_ifs with hc
    · exact s.deleteCallback_events hp
    · simp [stored_eq_nil hc]
  have hset : ({ s with events := s.events ++ (s.stored p.1).map .delete } : VmSet).setParamByOption
      p.1 p.2 = .ok s' := by
    rw [← hdeleted, ← h]
    obtain ⟨o, params⟩ := p
    rcases (hasModule_cases o).2 hp with rfl | rfl | rfl <;> rfl
  rw [setParamByOption_events hp hset, List.append_assoc]

theorem stored_enableOption {s s' : VmSet} {p : OptionId × Params}
    (h : s'.funcOption = s.funcOption.enableOption (.of [p])) (o : OptionId) :
    s'.stored o = if p.1 = o then p.2.callbackObj.toList else s.stored o := by
  rw [stored, h, FuncOption.enableOption_getElem?, Options.of_getElem?]
  split_ifs <;> rfl

/-- The object that a record hands over, if it is of an option with a module. -/
def handedOf (p : OptionId × Params) : List Nat :=
  if p.1.HasModule then p.2.callbackObj.toList else []

theorem toList_of (p : OptionId × Params) : (Options.of [p]).toList = [p] := by
  obtain ⟨o, params⟩ := p
  have hnone : (∅ : Options)[o]? = none := ExtTreeMap.getElem?_empty
  rw [Options.of, ExtTreeMap.ofList_singleton]
  exact List.perm_singleton.1 (Maps.toList_insert_perm params hnone)

/-- The old object is deleted and the new one is read. -/
theorem uses_replaced (old new : List Nat) (others rest : Multiset Nat) :
    Uses ((old : Multiset Nat) + others + ((new : Multiset Nat) + rest))
      (old.map .released ++ new.map .used) ((new : Multiset Nat) + others + (0 + rest)) := by
  have hnew : (new : Multiset Nat) + others + (0 + rest) =
      others + ((new : Multiset Nat) + rest) := by
    rw [zero_add, add_comm (new : Multiset Nat), add_assoc]
  rw [hnew, add_assoc]
  exact (uses_released _ old).append (uses_used fun x hx => by simp [hx])

/-- **Setting the parameters of an option** deletes the object that was stored and loses nothing. -/
theorem leads_setParam {s s' : VmSet} {p : OptionId × Params} (h : s.setParam (.of [p]) = .ok s') :
    Leads s (handedOf p) s' True := by
  have hstored := stored_enableOption (setParam_funcOption h)
  unfold setParam at h
  rw [toList_of, foldlM_eq_runE] at h
  obtain ⟨s₁, hrun, hs'⟩ := bind_eq_ok.1 h
  obtain ⟨s₂, hset, hs₂⟩ := (runE_cons_ok _).1 hrun
  cases hs₂
  have hevents : s'.events = s₁.events := by
    cases hs'
    rfl
  by_cases hp : p.1.HasModule
  · have hothers : s'.storedIn (modules.erase p.1) = s.storedIn (modules.erase p.1) := by
      refine storedIn_congr fun o ho => ?_
      have hne : p.1 ≠ o := fun heq => by
        subst heq
        exact List.Nodup.not_mem_erase (by decide) ho
      rw [hstored, if_neg hne]
    refine ⟨_, 0, hevents.trans (setOneOption_events hp hset), iff_of_true rfl trivial,
      fun rest => ?_⟩
    rw [s.owned_eq hp, s'.owned_eq hp, hothers, hstored, if_pos rfl, handedOf, if_pos hp,
      List.map_append, List.map_map, List.map_map]
    exact uses_replaced _ _ _ rest
  · have hskip : s₁ = s := by
      rw [← hasModule_cases] at hp
      push Not at hp
      obtain ⟨hbase, hcpu, hmiss⟩ := hp
      obtain ⟨o, params⟩ := p
      cases o <;> first | contradiction | exact (Except.ok.inj hset).symm
    rw [handedOf, if_neg hp]
    refine leads_refl (hevents.trans (congrArg events hskip)) fun o ho => ?_
    have hne : p.1 ≠ o := fun heq => hp (heq ▸ ho)
    rw [hstored, if_neg hne]

/-! ### `clear_param` -/

theorem clearCase_events {op target : OptionId} (hop : op.HasModule) (s : VmSet) :
    (clearCase op target s).events = s.events ++ (s.stored op).map .delete := by
  have hmodule (s : VmSet) : (s.clearModule target).events = s.events := by
    cases target <;> rfl
  simp only [clearCase]
  rw [hmodule]
  split_ifs with hc
  · rw [s.deleteCallback_events hop]
  · simp [stored_eq_nil hc]

theorem callbackObj_defaultParams (o : OptionId) : (defaultParams o).callbackObj = none := by
  cases o <;> decide

theorem stored_clearCase (op target : OptionId) (s : VmSet) (o : OptionId) :
    (clearCase op target s).stored o =
      if s.funcOption.checkOption op ∧ o = target then [] else s.stored o := by
  rw [stored, clearCase_options]
  split_ifs
  · simp [callbackObj_defaultParams]
  · rfl

theorem stored_clearOneOption (s : VmSet) (op o : OptionId) :
    (s.clearOneOption op).stored o =
      if s.funcOption.checkOption op ∧ o ∈ fallsTo op then [] else s.stored o := by
  rw [stored, clearOneOption_options]
  split_ifs
  · simp [callbackObj_defaultParams]
  · rfl

theorem fallsTo_eq_cons {op : OptionId} (hop : op.HasModule) :
    fallsTo op = op :: (fallsTo op).tail := by
  rcases (hasModule_cases op).2 hop with rfl | rfl | rfl <;> rfl

/-- **Clearing an option deletes its own object**, and none of the options it falls through to. -/
theorem clearOneOption_events (s : VmSet) {op : OptionId} (hop : op.HasModule) :
    (s.clearOneOption op).events = s.events ++ (s.stored op).map .delete := by
  have hnone (targets : List OptionId) {s : VmSet} (hs : s.stored op = []) :
      (targets.foldl (fun s target => clearCase op target s) s).events = s.events := by
    induction targets generalizing s with
    | nil => rfl
    | cons target targets ih =>
      have hs' : (clearCase op target s).stored op = [] := by
        rw [stored_clearCase, hs, ite_self]
      rw [List.foldl_cons, ih hs', clearCase_events hop, hs, List.map_nil, List.append_nil]
  have hown : (clearCase op op s).stored op = [] := by
    rw [stored_clearCase]
    split_ifs with hc
    · rfl
    · exact stored_eq_nil fun h => hc ⟨h, rfl⟩
  rw [clearOneOption_eq, fallsTo_eq_cons hop, List.foldl_cons, hnone _ hown, clearCase_events hop]

/-- If the option is enabled, no other that it falls through to has an object. -/
def Keeps (s : VmSet) (op : OptionId) : Prop :=
  s.funcOption.checkOption op → ∀ o ∈ fallsTo op, o ≠ op → s.stored o = []

theorem keeps_iff {s : VmSet} {op : OptionId} (hop : op.HasModule)
    (hc : s.funcOption.checkOption op) : s.Keeps op ↔ s.storedIn (fallsTo op).tail = 0 := by
  have htail : op ∉ (fallsTo op).tail := by
    rcases (hasModule_cases op).2 hop with rfl | rfl | rfl <;> decide
  rw [storedIn_eq_zero, Keeps, fallsTo_eq_cons hop]
  simp only [hc, true_imp_iff, List.mem_cons, List.tail_cons]
  constructor
  · intro h o ho
    exact h o (.inr ho) fun heq => htail (heq ▸ ho)
  · rintro h o (rfl | ho) hne
    · exact absurd rfl hne
    · exact h o ho

/-- The options with a module that an option does not fall through to. -/
def spared (op : OptionId) : List OptionId := modules.filter fun o => o ∉ fallsTo op

theorem modules_perm {op : OptionId} (hop : op.HasModule) :
    modules.Perm (op :: ((fallsTo op).tail ++ spared op)) := by
  rcases (hasModule_cases op).2 hop with rfl | rfl | rfl <;> decide

theorem storedIn_spared (s : VmSet) (op : OptionId) :
    (s.clearOneOption op).storedIn (spared op) = s.storedIn (spared op) := by
  refine storedIn_congr fun o ho => ?_
  have hnot : o ∉ fallsTo op := by simpa using (List.mem_filter.1 ho).2
  rw [stored_clearOneOption, if_neg fun hc => hnot hc.2]

/-- **Clearing an option** loses the objects of those that it falls through to. -/
theorem leads_clearOneOption (s : VmSet) (op : OptionId) :
    Leads s 0 (s.clearOneOption op) (s.Keeps op) := by
  by_cases hop : op.HasModule
  · by_cases hc : s.funcOption.checkOption op
    · have hcleared : (s.clearOneOption op).storedIn (op :: (fallsTo op).tail) = 0 := by
        rw [storedIn_eq_zero, ← fallsTo_eq_cons hop]
        intro o ho
        rw [stored_clearOneOption, if_pos ⟨hc, ho⟩]
      have howned : s.owned =
          (s.stored op : Multiset Nat) +
            (s.storedIn (fallsTo op).tail + s.storedIn (spared op)) := by
        rw [owned, storedIn_perm (modules_perm hop), storedIn, List.flatMap_cons,
          ← Multiset.coe_add, ← storedIn_append]
        rfl
      have howned' : (s.clearOneOption op).owned = s.storedIn (spared op) := by
        rw [owned, storedIn_perm (modules_perm hop), ← List.cons_append, storedIn_append, hcleared,
          zero_add, storedIn_spared]
      refine ⟨_, s.storedIn (fallsTo op).tail, s.clearOneOption_events hop, (keeps_iff hop hc).symm,
        fun rest => ?_⟩
      have hkept : s.storedIn (spared op) + (s.storedIn (fallsTo op).tail + rest) =
          s.storedIn (fallsTo op).tail + s.storedIn (spared op) + rest := by
        rw [← add_assoc, add_comm (s.storedIn (spared op))]
      rw [howned, howned', hkept, zero_add, add_assoc (s.stored op : Multiset Nat), List.map_map]
      exact uses_released _ (s.stored op)
    · have hevents := s.clearOneOption_events hop
      rw [stored_eq_nil hc, List.map_nil, List.append_nil] at hevents
      refine (leads_refl hevents fun o _ => ?_).congr (iff_of_true trivial fun hop => absurd hop hc)
      rw [stored_clearOneOption, if_neg fun h => hc h.1]
  · have hskip : s.clearOneOption op = s ∧ fallsTo op = [] := by
      rw [← hasModule_cases] at hop
      cases op <;> first | exact ⟨rfl, rfl⟩ | simp at hop
    obtain ⟨hsame, hnone⟩ := hskip
    rw [hsame]
    refine (leads_refl rfl fun _ _ => rfl).congr (iff_of_true trivial fun _ o ho => ?_)
    rw [hnone] at ho
    cases ho

/-! ### `init_vms` and the destructor -/

/-- An operation that reads what is stored for an option, and changes no store. -/
theorem leads_applyStored {s s' : VmSet} {op : OptionId} (hop : op.HasModule)
    (h : s.applyStored op = .ok s') : Leads s 0 s' True := by
  have hstore := applyStored_funcOption h
  have hevents : s'.events = s.events ++ (s.stored op).map .read := by
    unfold applyStored at h
    split_ifs at h with hc
    · rw [setParamByOption_events hop h, FuncOption.getParam_eq, stored]
      rw [FuncOption.checkOption_eq] at hc
      obtain ⟨params, hparams⟩ := Option.isSome_iff_exists.1 hc
      simp [hparams]
    · cases h
      simp [stored_eq_nil hc]
  have howned : s'.owned = s.owned := by
    refine storedIn_congr fun o _ => ?_
    rw [stored, stored, hstore]
  refine ⟨_, 0, hevents, iff_of_true rfl trivial, fun rest => ?_⟩
  rw [howned, List.map_map]
  refine uses_used fun x hx => ?_
  rw [s.owned_eq hop]
  simp [hx]

theorem leads_initVms {s s' : VmSet} (h : s.initVms = .ok s') : Leads s 0 s' True := by
  have hloop (os : List OptionId) {s : VmSet} (hos : ∀ o ∈ os, o.HasModule)
      (hrun : runE applyStored s os = .ok s') : Leads s 0 s' True := by
    induction os generalizing s with
    | nil =>
      cases hrun
      exact leads_refl rfl fun _ _ => rfl
    | cons o os ih =>
      obtain ⟨ho, hos⟩ := List.forall_mem_cons.1 hos
      obtain ⟨s₁, hstep, hrest⟩ := (runE_cons_ok _).1 hrun
      exact ((leads_applyStored ho hstep).append (ih hos hrest)).congr (and_self_iff)
  rw [initVms_eq] at h
  exact hloop _ (fun o ho => mem_modules.1 ho) h

/-- `~VmSet`. -/
def destruct (s : VmSet) : VmSet := modules.foldl deleteCallback s

/-- **The destructor deletes what is owned.** -/
theorem destruct_events (s : VmSet) :
    s.destruct.events = s.events ++ (modules.flatMap s.stored).map .delete := by
  have hloop (os : List OptionId) {s : VmSet} (hos : ∀ o ∈ os, o.HasModule) :
      (os.foldl deleteCallback s).events = s.events ++ (os.flatMap s.stored).map .delete := by
    induction os generalizing s with
    | nil => simp
    | cons o os ih =>
      obtain ⟨ho, hos⟩ := List.forall_mem_cons.1 hos
      rw [List.foldl_cons, ih hos, s.deleteCallback_events ho, List.flatMap_cons, List.map_append,
        List.append_assoc]
      rfl
  exact hloop modules fun o ho => mem_modules.1 ho

end VmSet

/-! ## The calls of `Vsf` -/

namespace Vsf

open VmSet

theorem of_onHost_events {s s' : Vsf} {f : Host → Host} (h : s.onHost f = .ok s') :
    s'.vmSet.events = s.vmSet.events := by
  unfold onHost at h
  split_ifs at h
  cases h
  rfl

/-- The objects that the records of a call hand over. -/
def handed (ps : List (OptionId × Params)) : List Nat := ps.flatMap handedOf

theorem leads_setOneOption {s s' : Vsf} {p : OptionId × Params} (h : s.setOneOption p = .ok s') :
    Leads s.vmSet (handedOf p) s'.vmSet True := by
  have hstored := stored_enableOption (s := s.vmSet) (of_setOneOption h).1
  unfold setOneOption at h
  split_ifs at h with hvm
  · exact leads_setParam (of_onVmSet h).1
  · have hp : ¬ p.1.HasModule := by
      intro hp
      rcases (hasModule_cases p.1).2 hp with heq | heq | heq <;>
        simp [heq, OptionId.isVm, OptionId.ctorIdx] at hvm
    rw [handedOf, if_neg hp]
    refine leads_refl (of_onHost_events h) fun o ho => ?_
    have hne : p.1 ≠ o := fun heq => hp (heq ▸ ho)
    rw [hstored, if_neg hne]

theorem leads_setOptions {s s' : Vsf} {ps : List (OptionId × Params)}
    (h : runE setOneOption s ps = .ok s') : Leads s.vmSet (handed ps) s'.vmSet True := by
  induction ps generalizing s with
  | nil =>
    cases h
    exact leads_refl rfl fun _ _ => rfl
  | cons p ps ih =>
    obtain ⟨s₁, hstep, hrest⟩ := (runE_cons_ok _).1 h
    have hboth := ((leads_setOneOption hstep).append (ih hrest)).congr and_self_iff
    rwa [Multiset.coe_add] at hboth

theorem leads_clearOneOption {s s' : Vsf} {op : OptionId} (h : s.clearOneOption op = .ok s') :
    Leads s.vmSet 0 s'.vmSet (s.vmSet.Keeps op) := by
  have hstored := (of_clearOneOption h).1
  unfold clearOneOption at h
  split_ifs at h with hvm
  · have hclear := (of_onVmSet h).1
    rw [← Except.ok.inj hclear]
    exact VmSet.leads_clearOneOption s.vmSet op
  · have hnone : fallsTo op = [] := by
      cases op <;> first | rfl | simp [OptionId.isVm, OptionId.ctorIdx] at hvm
    have hkeeps : s.vmSet.Keeps op := by
      intro _ o ho
      rw [hnone] at ho
      cases ho
    refine (leads_refl (of_onHost_events h) fun o ho => ?_).congr (iff_of_true trivial hkeeps)
    rw [stored, hstored o ho, clearOneOption_options, hnone]
    simp [stored]

theorem leads_clearOptions {s s' : Vsf} {ops : List OptionId}
    (h : runE clearOneOption s ops = .ok s') :
    Leads s.vmSet 0 s'.vmSet (AlongE clearOneOption (fun s op => s.vmSet.Keeps op) s ops) := by
  induction ops generalizing s with
  | nil =>
    cases h
    exact leads_refl rfl fun _ _ => rfl
  | cons op ops ih =>
    obtain ⟨s₁, hstep, hrest⟩ := (runE_cons_ok _).1 h
    refine ((leads_clearOneOption hstep).append (ih hrest)).congr (and_congr_right fun _ => ?_)
    simp [hstep]

/-- The objects that a call hands over. -/
def Call.handed : Call → List Nat
  | .setParam ops => Vsf.handed ops.toList
  | .initHost _ | .clearParam _ | .initVms => []

/-- A `clear_param` comes to no enabled option that falls through to another with an object. -/
def KeepsCall (s : Vsf) : Call → Prop
  | .clearParam ops => AlongE clearOneOption (fun s op => s.vmSet.Keeps op) s ops
  | .initHost _ | .setParam _ | .initVms => True

theorem leads_step {s s' : Vsf} {c : Call} (h : s.step c = .ok s') :
    Leads s.vmSet c.handed s'.vmSet (s.KeepsCall c) := by
  cases c with
  | initHost env =>
    rw [← Except.ok.inj h]
    refine leads_refl ?_ fun o _ => ?_
    · simp only [initHost]
      split_ifs <;> rfl
    · rw [stored, stored, initHost_funcOption]
  | setParam ops =>
    have hrun : runE setOneOption s ops.toList = .ok s' := by
      rw [← foldlM_eq_runE]
      exact h
    exact leads_setOptions hrun
  | clearParam ops =>
    have hrun : runE clearOneOption s ops = .ok s' := by
      rw [← foldlM_eq_runE]
      exact h
    exact leads_clearOptions hrun
  | initVms => exact leads_initVms (of_onVmSet h).1

/-! ## Lives -/

/-- All lists of the options with a module. -/
def total (f : OptionId → List Nat) : Multiset Nat := modules.flatMap f

theorem total_append (f g : OptionId → List Nat) :
    total (fun o => f o ++ g o) = total f + total g := by
  rw [total, total, total, Multiset.coe_add]
  exact Multiset.coe_eq_coe.2 (List.flatMap_append_perm modules f g).symm

/-- What is handed over, by options. -/
theorem handed_eq (ps : List (OptionId × Params)) : (handed ps : Multiset Nat) =
    total fun o => ps.flatMap fun p => if p.1 = o then p.2.callbackObj.toList else [] := by
  induction ps with
  | nil => rfl
  | cons p ps ih =>
    have hone : (handedOf p : Multiset Nat) =
        total fun o => if p.1 = o then p.2.callbackObj.toList else [] := by
      obtain ⟨o, params⟩ := p
      cases o <;> simp [handedOf, total, modules, OptionId.HasModule, defaultModule, module]
    have hcons : (handed (p :: ps) : Multiset Nat) = (handedOf p : Multiset Nat) + handed ps := by
      rw [handed, List.flatMap_cons, ← Multiset.coe_add]
      rfl
    rw [hcons, hone, ih, ← total_append]
    rfl

end Vsf

/-- The framework from the first call on, with the log of the accesses to callback objects. -/
structure Life where
  vsf : Vsf := {}
  inited : Bool := false
  log : List (Access Nat) := []

namespace Life

open VmSet Vsf

/-- A call of `init`, or another one. -/
inductive Act where
  | init (ops : Options)
  | call (c : Call)

/-- What has been read and deleted between two states. -/
def between (s s' : VmSet) : List (Access Nat) :=
  (s'.events.drop s.events.length).map CallbackEvent.access

/-- `init` and the other calls. A second `init` throws before it takes anything. The objects of a
call are handed over at its start. -/
def act (t : Life) : Act → Except Fault Life
  | .init ops =>
    if t.inited then .ok t
    else .ok {
      vsf := { t.vsf with
        vmSet := { t.vsf.vmSet with funcOption := t.vsf.vmSet.funcOption.enableOption ops } }
      inited := true
      log := t.log ++ (handed ops.toList).map .acquired }
  | .call c => (t.vsf.step c).map fun vsf => { t with
      vsf := vsf
      log := t.log ++ (c.handed.map .acquired ++ between t.vsf.vmSet vsf.vmSet) }

/-- The log after the destructor. -/
def finish (t : Life) : List (Access Nat) := t.log ++ between t.vsf.vmSet t.vsf.vmSet.destruct

/-- No record is replaced while it has an object that is not deleted: by `init`, or by `clear_param`
on its way. -/
def Keeps (t : Life) : Act → Prop
  | .init ops => t.inited = false → ∀ o ∈ ops, o.HasModule → t.vsf.vmSet.stored o = []
  | .call c => t.vsf.KeepsCall c

/-- What is held after the log: what the store owns, and what is lost. -/
def Holding (t : Life) (lost : Multiset Nat) : Prop := Uses 0 t.log (t.vsf.vmSet.owned + lost)

theorem between_eq {s s' : VmSet} {es : List CallbackEvent} (h : s'.events = s.events ++ es) :
    between s s' = es.map CallbackEvent.access := by
  rw [between, h, List.drop_left]

/-- The objects of the records that `init` replaces. -/
def replaced (s : VmSet) (ops : Options) (o : OptionId) : List Nat :=
  if o ∈ ops then s.stored o else []

/-- `init` takes its objects over, and what they replace is no longer owned. -/
theorem owned_init (s : VmSet) (ops : Options) :
    (handed ops.toList : Multiset Nat) + s.owned =
      ({ s with funcOption := s.funcOption.enableOption ops } : VmSet).owned +
        total (replaced s ops) := by
  have hnew : (handed ops.toList : Multiset Nat) =
      total fun o => (ops[o]?.bind Params.callbackObj).toList := by
    rw [handed_eq]
    refine congrArg total (funext fun o => ?_)
    rw [Maps.flatMap_toList_of_key ops o fun params => params.callbackObj.toList]
    cases ops[o]? <;> rfl
  have hentry (o : OptionId) : (ops[o]?.bind Params.callbackObj).toList ++ s.stored o =
      ({ s with funcOption := s.funcOption.enableOption ops } : VmSet).stored o ++
        replaced s ops o := by
    rw [stored, stored, FuncOption.enableOption_getElem?, replaced, stored]
    by_cases ho : o ∈ ops
    · rw [if_pos ho, ExtTreeMap.getElem?_eq_some_getElem ho]
      rfl
    · rw [if_neg ho, ExtTreeMap.getElem?_eq_none ho]
      exact (List.append_nil _).symm
  calc (handed ops.toList : Multiset Nat) + s.owned
      = total fun o => (ops[o]?.bind Params.callbackObj).toList ++ s.stored o := by
        rw [hnew, total_append]
        rfl
    _ = _ := by
        rw [funext hentry, total_append]
        rfl

/-- `init` loses what it replaces. -/
theorem holding_init {t t' : Life} {lost : Multiset Nat} (h : t.Holding lost) {ops : Options}
    (hact : t.act (.init ops) = .ok t') :
    ∃ lost', t'.Holding lost' ∧ (lost' = 0 ↔ lost = 0 ∧ t.Keeps (.init ops)) := by
  unfold act at hact
  split_ifs at hact with hinited
  · cases hact
    exact ⟨lost, h, (and_iff_left fun hfirst => absurd hinited (by simp [hfirst])).symm⟩
  · cases hact
    have hkeeps : total (replaced t.vsf.vmSet ops) = 0 ↔ t.Keeps (.init ops) := by
      rw [total, Multiset.coe_eq_zero, List.flatMap_eq_nil_iff]
      simp only [mem_modules, replaced, ite_eq_right_iff]
      exact ⟨fun h _ o ho hmodule => h o hmodule ho,
        fun h o hmodule ho => h (by simpa using hinited) o ho hmodule⟩
    refine ⟨lost + total (replaced t.vsf.vmSet ops), ?_, ?_⟩
    · have huses := Uses.append h (uses_acquired _ (handed ops.toList))
      rw [← add_assoc, owned_init, add_assoc, add_comm (total _)] at huses
      exact huses
    · rw [add_eq_zero, hkeeps]

/-- Another call takes its objects over and leads on. -/
theorem holding_call {t t' : Life} {lost : Multiset Nat} (h : t.Holding lost) {c : Call}
    (hact : t.act (.call c) = .ok t') :
    ∃ lost', t'.Holding lost' ∧ (lost' = 0 ↔ lost = 0 ∧ t.Keeps (.call c)) := by
  obtain ⟨vsf, hstep, rfl⟩ := map_eq_ok.1 hact
  obtain ⟨es, lostNow, hes, hlost, huses⟩ := leads_step hstep
  refine ⟨lost + lostNow, ?_, ?_⟩
  · have hall := (Uses.append h (uses_acquired _ c.handed)).append (by
      rw [add_left_comm]
      exact huses lost)
    rw [List.append_assoc, ← between_eq hes, add_comm lostNow] at hall
    exact hall
  · rw [add_eq_zero, hlost]
    rfl

theorem holding_act {t t' : Life} {lost : Multiset Nat} (h : t.Holding lost) {a : Act}
    (hact : t.act a = .ok t') :
    ∃ lost', t'.Holding lost' ∧ (lost' = 0 ↔ lost = 0 ∧ t.Keeps a) := by
  cases a with
  | init ops => exact holding_init h hact
  | call c => exact holding_call h hact

/-- **What a run loses**: nothing, exactly when each of its calls keeps what it replaces. -/
theorem holding_run {t t' : Life} {lost : Multiset Nat} (h : t.Holding lost) {acts : List Act}
    (hrun : runE act t acts = .ok t') :
    ∃ lost', t'.Holding lost' ∧ (lost' = 0 ↔ lost = 0 ∧ AlongE act Keeps t acts) := by
  induction acts generalizing t lost with
  | nil =>
    cases hrun
    exact ⟨lost, h, (and_iff_left trivial).symm⟩
  | cons a acts ih =>
    obtain ⟨t₁, hact, hrest⟩ := (runE_cons_ok _).1 hrun
    obtain ⟨lost₁, h₁, hlost₁⟩ := holding_act h hact
    obtain ⟨lost₂, h₂, hlost₂⟩ := ih h₁ hrest
    refine ⟨lost₂, h₂, ?_⟩
    rw [hlost₂, hlost₁, and_assoc]
    simp [AlongE, hact]

/-- After the destructor only what is lost is held. -/
theorem uses_finish {t : Life} {lost : Multiset Nat} (h : t.Holding lost) :
    Uses 0 t.finish lost := by
  have hdeleted := uses_released lost (modules.flatMap t.vsf.vmSet.stored)
  rw [finish, between_eq t.vsf.vmSet.destruct_events, List.map_map]
  exact Uses.append h hdeleted

/-- **Each callback object that is handed over is deleted exactly once, and not read after that,
exactly when no call replaces a record whose object is not deleted.** -/
theorem balanced_iff_keeps {acts : List Act} {t : Life} (hrun : runE act {} acts = .ok t)
    (hfresh : Fresh (events t.finish)) : Balanced t.finish ↔ AlongE act Keeps {} acts := by
  have hstart : ({} : Life).Holding 0 := uses_nil 0
  obtain ⟨lost, hholding, hlost⟩ := holding_run hstart hrun
  rw [balanced_iff hfresh (uses_finish hholding), hlost]
  simp

/-- A record with a callback only. -/
def withCallback (obj : Nat) : Params := .of [(.callback, .ptr (some obj))]

theorem balanced_iff_keeps_swapped : ∃ t,
    runE act {} [.init (.of [(.vmBase, withCallback 0)]),
      .call (.setParam (.of [(.vmBase, withCallback 1)])), .call .initVms] = .ok t ∧
    (Balanced t.finish ↔ AlongE act Keeps {} [.init (.of [(.vmBase, withCallback 0)]),
      .call (.setParam (.of [(.vmBase, withCallback 1)])), .call .initVms]) := by
  have hlog : (runE act {} [.init (.of [(.vmBase, withCallback 0)]),
      .call (.setParam (.of [(.vmBase, withCallback 1)])), .call .initVms]).map finish =
      .ok [.acquired 0, .acquired 1, .released 0, .used 1, .used 1, .released 1] := by
    decide +kernel
  obtain ⟨t, hrun, hfinish⟩ := map_eq_ok.1 hlog
  exact ⟨t, hrun, balanced_iff_keeps hrun (hfinish ▸ by decide)⟩

/-- `clear_param` of `OP_VM_BASE` falls through and replaces the record of `OP_VM_CPU_USAGE`: its
object is never deleted. -/
theorem not_balanced_fallThrough : ¬ ∀ acts t, runE act {} acts = .ok t →
    Fresh (events t.finish) → Balanced t.finish := by
  intro hall
  have hlog : (runE act {}
      [.init (.of [(.vmBase, withCallback 0), (.vmCpuUsage, withCallback 1)]),
        .call (.clearParam [.vmBase])]).map finish =
      .ok [.acquired 0, .acquired 1, .released 0] := by
    decide +kernel
  obtain ⟨t, hrun, hfinish⟩ := map_eq_ok.1 hlog
  have honce := (hall _ t hrun (hfinish ▸ by decide)).once [.acquired 0] 1 [.released 0]
  rw [hfinish] at honce
  exact absurd (honce rfl) (by decide)

end Life

end LibVsf
