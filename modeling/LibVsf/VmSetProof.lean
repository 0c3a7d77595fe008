import LibVsf.Lib.Runs
import LibVsf.VmSet

/-!
# `VmSet::clear_param`: which options it clears

The `switch` of `clear_param` has three labels and one `break`, so an option is followed by
every option whose label comes after its own: `fallsTo`. Each of them has its module cleared;
their stored records are replaced if the option of the call is enabled, enabled or not
themselves.

`clearParam_options` and `clearParam_module` say what a call with any list of options leaves.
**Theorem (`clearsOnly_iff`).** A call touches only the options in its list exactly when every
option it falls through to and that is not in the list had the default parameters already.
-/

namespace LibVsf.VmSet

open Std Runs

/-! ## Parameters by option -/

/-- The parameters of a module. -/
inductive ModuleParam where
  | vmBase (p : VmBaseParam)
  | vmCpuUsage (p : VmCpuUsageParam)
  | vmCacheMiss (p : VmCacheMissParam)
deriving DecidableEq

/-- The parameters of the module of an option, for the options that have one. -/
def module (s : VmSet) : OptionId → Option ModuleParam
  | .vmBase => some (.vmBase s.vmBase)
  | .vmCpuUsage => some (.vmCpuUsage s.vmCpuUsage)
  | .vmCacheMiss => some (.vmCacheMiss s.vmCacheMiss)
  | _ => none

/-- The default parameters of the module of an option. -/
def defaultModule (o : OptionId) : Option ModuleParam := ({} : VmSet).module o

/-- The labels `clear_param` runs through for an option: its own and the ones after it. -/
def fallsTo : OptionId → List OptionId
  | .vmBase => [.vmBase, .vmCpuUsage, .vmCacheMiss]
  | .vmCpuUsage => [.vmCpuUsage, .vmCacheMiss]
  | .vmCacheMiss => [.vmCacheMiss]
  | _ => []

theorem mem_fallsTo_self {o : OptionId} (h : (defaultModule o).isSome) : o ∈ fallsTo o := by
  cases o <;> simp [fallsTo, defaultModule, module] at h ⊢

theorem isSome_of_mem_fallsTo {op o : OptionId} (h : o ∈ fallsTo op) :
    (defaultModule o).isSome := by
  cases op <;> simp only [fallsTo, List.mem_cons, List.not_mem_nil, or_false] at h
  · rcases h with rfl | rfl | rfl <;> rfl
  · rcases h with rfl | rfl <;> rfl
  · subst h; rfl

theorem fallsTo_trans {op o o' : OptionId} (h : o ∈ fallsTo op) (h' : o' ∈ fallsTo o) :
    o' ∈ fallsTo op := by
  cases op <;> simp only [fallsTo, List.mem_cons, List.not_mem_nil, or_false] at h
  · rcases h with rfl | rfl | rfl <;> simp [fallsTo] at h' ⊢ <;> tauto
  · rcases h with rfl | rfl <;> simp [fallsTo] at h' ⊢ <;> tauto
  · subst h; exact h'

/-! ## One label -/

/-- Deleting callbacks changes nothing but the log. -/
theorem deleteCallback_eq (s : VmSet) (op : OptionId) :
    ∃ events, s.deleteCallback op = { s with events := events } := by
  have hdelete (s : VmSet) (v : OptionParamVal) :
      ∃ events, s.delete v = { s with events := events } := by
    simp only [delete]
    cases v.getPointer with
    | none => exact ⟨s.events, rfl⟩
    | some obj => exact ⟨_, rfl⟩
  simp only [deleteCallback]
  split
  case h_4 => exact ⟨s.events, rfl⟩
  all_goals
    split_ifs
    · rw [ExtTreeMap.foldl_eq_foldl_toList]
      refine run_invariant _ (I := fun s' : VmSet => ∃ events, s' = { s with events := events })
        ⟨s.events, rfl⟩ (fun s' p hs' => ?_) _
      obtain ⟨p, v⟩ := p
      obtain ⟨events, rfl⟩ := hs'
      cases p with
      | callback => exact hdelete { s with events := events } v
      | _ => exact ⟨events, rfl⟩
    · exact ⟨s.events, rfl⟩

theorem clearModule_module (s : VmSet) {target : OptionId} (o : OptionId)
    (h : (defaultModule target).isSome) :
    (s.clearModule target).module o = if o = target then defaultModule o else s.module o := by
  cases target <;> simp [defaultModule, module] at h <;> cases o <;> rfl

theorem clearModule_funcOption (s : VmSet) (target : OptionId) :
    (s.clearModule target).funcOption = s.funcOption := by
  cases target <;> rfl

theorem clearCase_module (op : OptionId) {target : OptionId} (s : VmSet) (o : OptionId)
    (h : (defaultModule target).isSome) :
    (clearCase op target s).module o = if o = target then defaultModule o else s.module o := by
  obtain ⟨events, he⟩ := s.deleteCallback_eq op
  simp only [clearCase]
  rw [clearModule_module _ o h, he]
  split_ifs <;> cases o <;> rfl

theorem clearCase_options (op target : OptionId) (s : VmSet) (o : OptionId) :
    (clearCase op target s).funcOption.options[o]? =
      if s.funcOption.checkOption op ∧ o = target then some (defaultParams o)
      else s.funcOption.options[o]? := by
  obtain ⟨events, he⟩ := s.deleteCallback_eq op
  simp only [clearCase]
  rw [clearModule_funcOption, he]
  by_cases hc : s.funcOption.checkOption op
  · simp only [hc, if_true, true_and, FuncOption.enableOption_getElem?]
    by_cases ho : o = target
    · subst ho
      simp [Options.of]
    · have hne : ¬ target = o := Ne.symm ho
      simp [Options.of, ho, hne]
  · simp [hc]

theorem clearCase_checkOption (op target : OptionId) (s : VmSet) (o : OptionId) :
    (clearCase op target s).funcOption.checkOption o =
      (s.funcOption.checkOption o || (s.funcOption.checkOption op && o = target)) := by
  simp only [FuncOption.checkOption_eq, clearCase_options]
  split_ifs with h
  · simp [h]
  · by_cases ho : o = target
    · simp only [ho, and_true] at h
      simp [ho, h]
    · simp [ho]

/-! ## One option -/

theorem clearOneOption_eq (s : VmSet) (op : OptionId) :
    s.clearOneOption op = (fallsTo op).foldl (fun s target => clearCase op target s) s := by
  cases op <;> rfl

theorem clearCases_options (op : OptionId) (targets : List OptionId) (s : VmSet) (o : OptionId) :
    (targets.foldl (fun s target => clearCase op target s) s).funcOption.options[o]? =
      if s.funcOption.checkOption op ∧ o ∈ targets then some (defaultParams o)
      else s.funcOption.options[o]? := by
  induction targets generalizing s with
  | nil => simp
  | cons target targets ih =>
    have hop : (clearCase op target s).funcOption.checkOption op =
        s.funcOption.checkOption op := by
      rw [clearCase_checkOption]
      cases s.funcOption.checkOption op <;> rfl
    rw [List.foldl_cons, ih, hop, clearCase_options]
    by_cases hc : s.funcOption.checkOption op <;> by_cases ho : o = target <;> simp [hc, ho]

theorem clearCases_module (op : OptionId) (targets : List OptionId) (s : VmSet) (o : OptionId)
    (h : ∀ target ∈ targets, (defaultModule target).isSome) :
    (targets.foldl (fun s target => clearCase op target s) s).module o =
      if o ∈ targets then defaultModule o else s.module o := by
  induction targets generalizing s with
  | nil => simp
  | cons target targets ih =>
    rw [List.foldl_cons, ih _ fun x hx => h x (List.mem_cons_of_mem target hx),
      clearCase_module op s o (h target List.mem_cons_self)]
    by_cases ho : o = target <;> simp [ho]

theorem clearOneOption_options (s : VmSet) (op o : OptionId) :
    (s.clearOneOption op).funcOption.options[o]? =
      if s.funcOption.checkOption op ∧ o ∈ fallsTo op then some (defaultParams o)
      else s.funcOption.options[o]? := by
  rw [clearOneOption_eq, clearCases_options]

theorem clearOneOption_checkOption (s : VmSet) (op o : OptionId) :
    (s.clearOneOption op).funcOption.checkOption o ↔
      s.funcOption.checkOption o ∨ s.funcOption.checkOption op ∧ o ∈ fallsTo op := by
  rw [FuncOption.checkOption_eq, clearOneOption_options]
  split_ifs with h
  · simp [h]
  · rw [or_iff_left h, FuncOption.checkOption_eq]

theorem clearOneOption_module (s : VmSet) (op o : OptionId) :
    (s.clearOneOption op).module o =
      if o ∈ fallsTo op then defaultModule o else s.module o := by
  rw [clearOneOption_eq, clearCases_module op _ s o fun _ => isSome_of_mem_fallsTo]

/-! ## Any list of options -/

/-- The records a call leaves: those of the options that an enabled option of the list falls
through to are the defaults, the others are as they were. -/
theorem clearParam_options (s : VmSet) (ops : List OptionId) (o : OptionId) :
    (s.clearParam ops).funcOption.options[o]? =
      if ∃ op ∈ ops, s.funcOption.checkOption op ∧ o ∈ fallsTo op then some (defaultParams o)
      else s.funcOption.options[o]? := by
  induction ops generalizing s with
  | nil => simp [clearParam]
  | cons op ops ih =>
    show ((s.clearOneOption op).clearParam ops).funcOption.options[o]? = _
    rw [ih, clearOneOption_options]
    simp only [clearOneOption_checkOption, List.mem_cons, exists_eq_or_imp]
    by_cases hop : s.funcOption.checkOption op ∧ o ∈ fallsTo op
    · simp [hop]
    · -- What `op` enabled on its way falls through to nothing `op` does not fall through to.
      have hsame : (∃ op' ∈ ops, (s.funcOption.checkOption op' ∨
          s.funcOption.checkOption op ∧ op' ∈ fallsTo op) ∧ o ∈ fallsTo op') ↔
          ∃ op' ∈ ops, s.funcOption.checkOption op' ∧ o ∈ fallsTo op' := by
        refine ⟨?_, ?_⟩
        · rintro ⟨op', hmem, hc | ⟨hc, hfall⟩, ho⟩
          · exact ⟨op', hmem, hc, ho⟩
          · exact absurd ⟨hc, fallsTo_trans hfall ho⟩ hop
        · intro h
          obtain ⟨op', hmem, hc, ho⟩ := h
          exact ⟨op', hmem, Or.inl hc, ho⟩
      simp only [hsame, hop, false_or, if_false]

/-- The modules a call leaves: those of the options that an option of the list falls through to
have the defaults, the others are as they were. -/
theorem clearParam_module (s : VmSet) (ops : List OptionId) (o : OptionId) :
    (s.clearParam ops).module o =
      if ∃ op ∈ ops, o ∈ fallsTo op then defaultModule o else s.module o := by
  induction ops generalizing s with
  | nil => simp [clearParam]
  | cons op ops ih =>
    show ((s.clearOneOption op).clearParam ops).module o = _
    rw [ih, clearOneOption_module]
    simp only [List.mem_cons, exists_eq_or_imp]
    by_cases hop : o ∈ fallsTo op <;> simp [hop]

/-! ## The frame of a call -/

/-- A call clears the options of its list and touches no other: the others keep their records
and the parameters of their modules, and those of the list that have a module and were enabled
get the defaults. -/
def ClearsOnly (s : VmSet) (ops : List OptionId) : Prop :=
  (∀ o, o ∉ ops → (s.clearParam ops).funcOption.options[o]? = s.funcOption.options[o]? ∧
    (s.clearParam ops).module o = s.module o) ∧
  ∀ o ∈ ops, (defaultModule o).isSome → s.funcOption.checkOption o →
    (s.clearParam ops).funcOption.options[o]? = some (defaultParams o) ∧
      (s.clearParam ops).module o = defaultModule o

/-- Every option that the list falls through to without naming it had a module with the default
parameters, and a default record if it was to get one. -/
def Spared (s : VmSet) (ops : List OptionId) : Prop :=
  ∀ op ∈ ops, ∀ o ∈ fallsTo op, o ∉ ops → s.module o = defaultModule o ∧
    (s.funcOption.checkOption op → s.funcOption.options[o]? = some (defaultParams o))

/-- **`clear_param` touches only the options in its list exactly when every other option it falls
through to had the default parameters already.** -/
theorem clearsOnly_iff (s : VmSet) (ops : List OptionId) : s.ClearsOnly ops ↔ s.Spared ops := by
  refine ⟨?_, ?_⟩
  · rintro ⟨hframe, -⟩ op hop o ho hnot
    obtain ⟨hopts, hmod⟩ := hframe o hnot
    refine ⟨?_, fun hc => ?_⟩
    · rw [← hmod, clearParam_module, if_pos ⟨op, hop, ho⟩]
    · rw [← hopts, clearParam_options, if_pos ⟨op, hop, hc, ho⟩]
  · intro h
    refine ⟨fun o hnot => ⟨?_, ?_⟩, fun o ho hm hc => ⟨?_, ?_⟩⟩
    · rw [clearParam_options]
      split_ifs with hex
      · obtain ⟨op, hop, hc, hfall⟩ := hex
        exact ((h op hop o hfall hnot).2 hc).symm
      · rfl
    · rw [clearParam_module]
      split_ifs with hex
      · obtain ⟨op, hop, hfall⟩ := hex
        exact (h op hop o hfall hnot).1.symm
      · rfl
    · rw [clearParam_options, if_pos ⟨o, ho, hc, mem_fallsTo_self hm⟩]
    · rw [clearParam_module, if_pos ⟨o, ho, mem_fallsTo_self hm⟩]

/-- Clearing `OP_VM_BASE` resets the interval the user configured for `VmCpuUsage`. -/
theorem not_clearsOnly_vmBase :
    ¬ ClearsOnly { vmCpuUsage := { intervalMs := 200 } } [.vmBase] := by
  intro h
  obtain ⟨hframe, -⟩ := h
  exact absurd (hframe .vmCpuUsage (by decide)).2 (by decide)

end LibVsf.VmSet
