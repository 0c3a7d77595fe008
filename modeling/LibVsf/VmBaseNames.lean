import LibVsf.VmBaseListing

/-!
# `VmBase`: names and uuids

The value of an option is the word after it. The loop over the words of a line runs once more after
the last, so the vector that the options are looked for in ends with the last word twice: an option
that is the last word is taken for its own value.

* `optionArg_vector`: what is found for an option.
* `yields_iff`: `refresh_most` yields a VM for each line with the words after `-name` and `-uuid`,
  exactly when all conversions of the lines succeed and no line's first `-name` or `-uuid` is its
  last word. Trees hold what is yielded where the VMs are ordered lawfully.
-/

namespace LibVsf

open Writing

namespace VmBase

/-- The word after the first that is the option. -/
def valueAfter (option : List Char) (args : List (List Char)) : Option (List Char) :=
  (args.dropWhile fun arg => arg ≠ option)[1]?

theorem dropWhile_option {option : List Char} {pre : List (List Char)} (hpre : option ∉ pre)
    (post : List (List Char)) :
    (pre ++ option :: post).dropWhile (fun arg => arg ≠ option) = option :: post := by
  have hskip : ∀ arg ∈ pre, decide (arg ≠ option) = true :=
    fun arg harg => decide_eq_true fun heq => hpre (heq ▸ harg)
  rw [List.dropWhile_append_of_pos hskip, List.dropWhile_cons_of_neg (by simp)]

theorem valueAfter_of_split {option : List Char} {pre : List (List Char)} (hpre : option ∉ pre)
    (post : List (List Char)) : valueAfter option (pre ++ option :: post) = post.head? := by
  rw [valueAfter, dropWhile_option hpre, List.getElem?_cons_succ, List.head?_eq_getElem?]

theorem valueAfter_of_not_mem {option : List Char} {args : List (List Char)} (h : option ∉ args) :
    valueAfter option args = none := by
  have hnil : args.dropWhile (fun arg => arg ≠ option) = [] :=
    List.dropWhile_eq_nil_iff.2 fun arg harg => decide_eq_true fun heq => h (heq ▸ harg)
  rw [valueAfter, hnil]
  rfl

theorem optionArg_eq (args : List (List Char)) (option : List Char) :
    optionArg args option =
      if option ∈ args then some ((valueAfter option args).getD []) else none := by
  rw [optionArg, valueAfter, List.getD_eq_getElem?_getD]

/-- **With the last word twice**, an option is followed by what followed it, or by itself. -/
theorem valueAfter_getLast {option : List Char} {args : List (List Char)} (hne : args ≠ [])
    (h : option ∈ args) : valueAfter option (args ++ [args.getLast hne]) =
      some ((valueAfter option args).getD option) := by
  obtain ⟨pre, post, rfl, hpre⟩ := List.eq_append_cons_of_mem h
  rw [valueAfter_of_split hpre, List.append_assoc, List.cons_append, valueAfter_of_split hpre]
  cases post with
  | nil =>
    rw [List.getLast_append_singleton]
    rfl
  | cons v post => rfl

end VmBase

namespace PsLine

open VmBase

variable (l : PsLine)

/-- The option is there, and no word follows the first. -/
def Ends (option : List Char) : Prop := option ∈ l.args ∧ valueAfter option l.args = none

instance (option : List Char) : Decidable (l.Ends option) := inferInstanceAs (Decidable (_ ∧ _))

/-- `*iter` after `++iter` is in the vector, if the option has been found. -/
def InBounds (option : List Char) : Prop := option ∈ l.vector → (valueAfter option l.vector).isSome

theorem mem_vector {option : List Char} : option ∈ l.vector ↔ option ∈ l.args := by
  rw [vector, List.mem_append, List.mem_singleton]
  refine or_iff_left_of_imp fun heq => ?_
  rw [heq]
  exact List.getLast_mem l.args_ne

/-- What follows an option in the vector. -/
theorem valueAfter_vector {option : List Char} (h : option ∈ l.args) :
    valueAfter option l.vector = some ((valueAfter option l.args).getD option) :=
  valueAfter_getLast l.args_ne h

theorem inBounds (option : List Char) : l.InBounds option := by
  intro h
  rw [l.valueAfter_vector (l.mem_vector.1 h)]
  rfl

/-- **What is found for an option**: what follows it, or the option itself where it is last. -/
theorem optionArg_vector (option : List Char) : optionArg l.vector option =
    if l.Ends option then some option else valueAfter option l.args := by
  rw [optionArg_eq]
  by_cases hmem : option ∈ l.args
  · rw [if_pos (l.mem_vector.2 hmem), l.valueAfter_vector hmem, Option.getD_some]
    cases hvalue : valueAfter option l.args with
    | none => rw [if_pos ⟨hmem, hvalue⟩, Option.getD_none]
    | some v =>
      have hnot : ¬ l.Ends option := by
        intro hends
        rw [hends.2] at hvalue
        cases hvalue
      rw [if_neg hnot, Option.getD_some]
  · rw [if_neg fun h => hmem (l.mem_vector.1 h), if_neg fun hends => hmem hends.1,
      valueAfter_of_not_mem hmem]

/-! ## Conversions -/

/-- The keys of the line's `-smp` and their values. -/
def smpPairs : List (SmpKey × List Char) :=
  ((valueAfter smpOption l.args).elim [] fun arg => StrTools.split arg ',').filterMap smpOp

/-- `-smp` itself has no keys. -/
theorem smpPairs_vector : VmBase.smpPairs l.vector = l.smpPairs := by
  rw [VmBase.smpPairs, smpOps, l.optionArg_vector, smpPairs]
  by_cases hends : l.Ends smpOption
  · rw [if_pos hends, hends.2]
    decide
  · rw [if_neg hends]

/-- `stoi` converts the values of `-m` and `-smp`, and `-m` is not the last word. -/
structure Numeric : Prop where
  mem_followed : ¬ l.Ends memOption
  mem : ∀ v, valueAfter memOption l.args = some v → Converts v
  smp : ∀ p ∈ l.smpPairs, Converts p.2

instance : Decidable l.Numeric :=
  decidable_of_iff (¬ l.Ends memOption ∧
      (∀ v ∈ (valueAfter memOption l.args).toList, Converts v) ∧ ∀ p ∈ l.smpPairs, Converts p.2)
    ⟨fun h => ⟨h.1, fun v hv => h.2.1 v (Option.mem_toList.2 hv), h.2.2⟩,
      fun h => ⟨h.mem_followed, fun v hv => h.mem v (Option.mem_toList.1 hv), h.smp⟩⟩

theorem not_converts_memOption : ¬ Converts memOption := by decide

theorem failure_writes {curTime : Int} : (l.writes curTime).failure = none ↔ l.Numeric := by
  rw [writes, vmWrites, Log.failure_andThen, Log.failure_andThen, failure_smpWrites,
    failure_memWrites, l.smpPairs_vector, l.optionArg_vector]
  constructor
  · intro h
    obtain ⟨-, hsmp, hmem⟩ := h
    have hfollowed : ¬ l.Ends memOption := by
      intro hends
      exact not_converts_memOption (hmem memOption (if_pos hends))
    rw [if_neg hfollowed] at hmem
    exact ⟨hfollowed, hmem, hsmp⟩
  · intro h
    obtain ⟨hfollowed, hmem, hsmp⟩ := h
    rw [if_neg hfollowed]
    exact ⟨rfl, hsmp, hmem⟩

end PsLine

namespace PsOutput

open VmBase

variable (o : PsOutput)

/-- A VM for each line, with the words after its `-name` and `-uuid`, and no value from behind the
end of the vector. -/
structure Yields (curTime : Int) (d : VmData) : Prop where
  keys : d.vmIds.keys.Perm (o.lines.map fun l => l.vmId curTime)
  name : ∀ l ∈ o.lines,
    d.name.find (l.vmId curTime) = some ((valueAfter nameOption l.args).getD [])
  uuid : ∀ l ∈ o.lines,
    d.uuid.find (l.vmId curTime) = some ((valueAfter uuidOption l.args).getD [])
  inBounds : ∀ l ∈ o.lines, ∀ option ∈ [nameOption, uuidOption, smpOption, memOption],
    l.InBounds option

/-- The VMs of the lines. -/
def ids (curTime : Int) : Set VmId := {k | ∃ l ∈ o.lines, l.vmId curTime = k}

/-- A listing assigns to the VMs of its lines. -/
theorem ids_listing {host : VmHost} {vmCmd : String} (hps : host.popen (psCmd vmCmd) = o.text)
    (hshort : o.Short) : host.ids vmCmd ⊆ o.ids host.curTime := by
  rintro k ⟨w, hw, rfl⟩
  rw [o.listing_eq hps hshort] at hw
  obtain ⟨l, hl, hw⟩ := Log.mem_all hw
  exact ⟨l, hl, (key_of_mem_vmWrites hw).symm⟩

variable {host : VmHost} {s : VmBase}

/-- Trees hold what a listing leaves, if the VMs of its lines are ordered lawfully. -/
theorem held_listed (hps : host.popen (psCmd s.vmCmd) = o.text) (hshort : o.Short)
    (hlawful : VmId.StrictWeakOn (o.ids host.curTime)) :
    (host.listed s.vmCmd).Held (o.ids host.curTime) :=
  (all_listed (kept_sorted hlawful.weakOn) (o.ids_listing hps hshort)).held hlawful

/-- `refresh_most` throws nothing exactly when all conversions of the lines succeed. -/
theorem exists_refreshMost_iff (hps : host.popen (psCmd s.vmCmd) = o.text) (hshort : o.Short) :
    (∃ s', s.refreshMost host = .ok s') ↔ ∀ l ∈ o.lines, l.Numeric := by
  have hfailure := o.failure_listing hps hshort
  simp only [PsLine.failure_writes] at hfailure
  rw [← hfailure]
  exact exists_refreshMost_iff_failure

/-- The value that is found is that of the line, unless the option is the last word. -/
theorem getD_optionArg_eq_iff {option : List Char} (hne : option ≠ []) (l : PsLine) :
    (optionArg l.vector option).getD [] = (valueAfter option l.args).getD [] ↔
      ¬ l.Ends option := by
  rw [l.optionArg_vector]
  by_cases hends : l.Ends option
  · rw [if_pos hends, hends.2]
    exact iff_of_false hne (not_not.2 hends)
  · rw [if_neg hends]
    exact iff_of_true rfl hends

/-- **Each line yields its VM, with its name and uuid, exactly when all conversions succeed and no
line's first `-name` or `-uuid` is its last word**, and trees hold what is yielded where the VMs are
ordered lawfully. -/
theorem yields_iff (hps : host.popen (psCmd s.vmCmd) = o.text) (hshort : o.Short) :
    ((∃ s', s.refreshMost host = .ok s' ∧ o.Yields host.curTime s'.data) ↔
      ∀ l ∈ o.lines, l.Numeric ∧ ¬ l.Ends nameOption ∧ ¬ l.Ends uuidOption) ∧
    (VmId.StrictWeakOn (o.ids host.curTime) →
      (host.listed s.vmCmd).Held (o.ids host.curTime)) := by
  refine ⟨?_, o.held_listed hps hshort⟩
  have hnumeric := o.exists_refreshMost_iff hps hshort
  -- What is found for the name and the uuid, where nothing throws.
  have hfound {s' : VmBase} (hok : s.refreshMost host = .ok s') {l : PsLine} (hl : l ∈ o.lines) :
      s'.data.name.find (l.vmId host.curTime) = some ((optionArg l.vector nameOption).getD []) ∧
        s'.data.uuid.find (l.vmId host.curTime) =
          some ((optionArg l.vector uuidOption).getD []) := by
    have hfailure : (l.writes host.curTime).failure = none :=
      l.failure_writes.2 (hnumeric.1 ⟨s', hok⟩ l hl)
    exact ⟨(o.find_refreshMost hps hshort hok hl .name).trans (last_name hfailure),
      (o.find_refreshMost hps hshort hok hl .uuid).trans (last_uuid hfailure)⟩
  constructor
  · rintro ⟨s', hok, hyields⟩ l hl
    obtain ⟨hname, huuid⟩ := hfound hok hl
    rw [hyields.name l hl, Option.some.injEq, eq_comm] at hname
    rw [hyields.uuid l hl, Option.some.injEq, eq_comm] at huuid
    exact ⟨hnumeric.1 ⟨s', hok⟩ l hl, (getD_optionArg_eq_iff (by decide) l).1 hname,
      (getD_optionArg_eq_iff (by decide) l).1 huuid⟩
  · intro h
    obtain ⟨s', hok⟩ := hnumeric.2 fun l hl => (h l hl).1
    refine ⟨s', hok, o.keys_refreshMost hps hshort hok, fun l hl => ?_, fun l hl => ?_,
      fun l _ option _ => l.inBounds option⟩
    · rw [(hfound hok hl).1, (getD_optionArg_eq_iff (by decide) l).2 (h l hl).2.1]
    · rw [(hfound hok hl).2, (getD_optionArg_eq_iff (by decide) l).2 (h l hl).2.2]

end PsOutput

/-- A VM whose last word is `-name`. -/
def nameLast : PsLine where
  text := "00:10 42 kvm -name".toList
  etime := "00:10".toList
  pid := Text.Numeral.ofNat 42 (by decide)
  args := ["kvm".toList, "-name".toList]
  words_eq := by decide +kernel
  args_ne := by decide
  newline_not_mem := by decide
  nul_not_mem := by decide

/-- A VM with a name, a uuid and numbers. -/
def named : PsLine where
  text := "00:10 43 kvm -m 512 -smp 4,sockets=2 -name a -uuid u".toList
  etime := "00:10".toList
  pid := Text.Numeral.ofNat 43 (by decide)
  args := ["kvm".toList, "-m".toList, "512".toList, "-smp".toList, "4,sockets=2".toList,
    "-name".toList, "a".toList, "-uuid".toList, "u".toList]
  words_eq := by decide +kernel
  args_ne := by decide
  newline_not_mem := by decide
  nul_not_mem := by decide

/-- These two VMs. -/
def nameLastOutput : PsOutput where
  lines := [nameLast, named]
  pids := by decide +kernel

theorem nameLastOutput_short : nameLastOutput.Short := by
  simp only [PsOutput.Short, nameLastOutput, List.forall_mem_cons]
  decide +kernel

/-- A host where `ps` prints this. -/
def PsOutput.host (o : PsOutput) : VmHost where
  curTime := 1000
  popen _ := o.text
  scandir _ := some []
  readFile _ := none

theorem yields_iff_twoVms :
    ((∃ s', ({} : VmBase).refreshMost nameLastOutput.host = .ok s' ∧
      nameLastOutput.Yields 1000 s'.data) ↔ ∀ l ∈ nameLastOutput.lines,
        l.Numeric ∧ ¬ l.Ends VmBase.nameOption ∧ ¬ l.Ends VmBase.uuidOption) ∧
    (VmId.StrictWeakOn (nameLastOutput.ids 1000) →
      (nameLastOutput.host.listed defaultVmCmd).Held (nameLastOutput.ids 1000)) :=
  nameLastOutput.yields_iff rfl nameLastOutput_short

/-- The name of a VM whose last word is `-name` is `-name`. -/
theorem not_yields_nameLast : ¬ ∀ (o : PsOutput) (host : VmHost) (s : VmBase),
    host.popen (VmBase.psCmd s.vmCmd) = o.text → o.Short → (∀ l ∈ o.lines, l.Numeric) →
      ∃ s', s.refreshMost host = .ok s' ∧ o.Yields host.curTime s'.data := by
  intro h
  have hnumeric : ∀ l ∈ nameLastOutput.lines, l.Numeric := by
    simp only [nameLastOutput, List.forall_mem_cons]
    decide +kernel
  obtain ⟨s', hok, hyields⟩ :=
    h nameLastOutput nameLastOutput.host {} rfl nameLastOutput_short hnumeric
  have hname : (({} : VmBase).refreshMost nameLastOutput.host).toOption.any (fun s =>
      decide (s.data.name.find ⟨990, 42⟩ = some VmBase.nameOption)) = true := by decide +kernel
  obtain ⟨t, hok', hfind⟩ := Runs.exists_ok_of_any hname
  obtain rfl : t = s' := Except.ok.inj (hok'.symm.trans hok)
  have hempty := hyields.name nameLast List.mem_cons_self
  have hid : nameLast.vmId nameLastOutput.host.curTime = ⟨990, 42⟩ := by decide +kernel
  rw [hid, of_decide_eq_true hfind] at hempty
  exact absurd hempty (by decide)

end LibVsf
