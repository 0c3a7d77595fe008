import LibVsf.VmBaseNames

/-!
# `VmBase`: numbers of VMs

`stoi` converts the values of `-m` and `-smp`. It throws for a text that does not start with a
number of an `int`, and the loop over the lines with it. It takes the number at the start of any
other text.

**Theorem (`reportsNumbers_iff`).** Where the ids of the lines are ordered lawfully, `refresh_most`
throws nothing and reports each VM, with `-1` for a value that is not a number, exactly when all
values are converted, and of the values that are kept each is a number, or starts with `-1`.
-/

namespace LibVsf

open Writing

namespace VmBase

/-- The whole text is a number. -/
def IsNumber (text : List Char) : Prop := (Text.scanNumber text).map Prod.snd = some []

instance (text : List Char) : Decidable (IsNumber text) := inferInstanceAs (Decidable (_ = _))

/-- The number that a text is, if it is one of an `int`. -/
def number (text : List Char) : Option Int :=
  if IsNumber text then (Text.stoi text).toOption else none

/-- What `stoi` gives for the text is the number that it is, or the unknown value. -/
def ReadWhole (text : List Char) : Prop := IsNumber text ∨ Text.stoi text = .ok (-1)

instance (text : List Char) : Decidable (ReadWhole text) := inferInstanceAs (Decidable (_ ∨ _))

theorem intOf_eq_iff {text : List Char} (h : Converts text) :
    intOf text = (number text).getD (-1) ↔ ReadWhole text := by
  obtain ⟨n, hn⟩ := h
  rw [stoi_eq_ok hn, number, ReadWhole, hn]
  by_cases hnumber : IsNumber text
  · rw [if_pos hnumber]
    exact iff_of_true rfl (.inl hnumber)
  · rw [if_neg hnumber, or_iff_right hnumber, Except.ok.injEq]
    rfl

/-- A value that may be missing. -/
theorem getD_intOf_eq_iff {value : Option (List Char)} (h : ∀ v, value = some v → Converts v) :
    (value.map intOf).getD (-1) = (value.bind number).getD (-1) ↔
      ∀ v, value = some v → ReadWhole v := by
  cases value with
  | none => simp
  | some v => simpa using intOf_eq_iff (h v rfl)

/-! ## Whatever is printed -/

/-- What is read of each part that `fgets` gives. -/
def rows : PsCursor → List (List Char) → List (PsCursor × List (List Char))
  | _, [] => []
  | cur, part :: parts =>
    let row := cur.read (part.takeWhile fun c => c ≠ Char.ofNat 0)
    row :: rows row.1 parts

theorem psWrites_eq (curTime : Int) (cur : PsCursor) (parts : List (List Char)) :
    psWrites curTime cur parts =
      Log.all (fun row => lineWrites curTime row.1 row.2) (rows cur parts) := by
  induction parts generalizing cur with
  | nil => rfl
  | cons part parts ih =>
    simp only [psWrites, rows, Log.all, ih]

/-- The pid, the value of `-m` and those of `-smp` are converted. -/
structure RowConverts (row : PsCursor × List (List Char)) : Prop where
  pid : ∃ pid, Text.stoull row.1.pid = .ok pid
  mem : ∀ v, optionArg row.2 memOption = some v → Converts v
  smp : ∀ p ∈ smpPairs row.2, Converts p.2

theorem failure_lineWrites {curTime : Int} {row : PsCursor × List (List Char)} :
    (lineWrites curTime row.1 row.2).failure = none ↔ RowConverts row := by
  rw [lineWrites]
  cases hpid : Text.stoull row.1.pid with
  | error failure =>
    refine iff_of_false (by simp) fun h => ?_
    obtain ⟨pid, hok⟩ := h.pid
    rw [hpid] at hok
    cases hok
  | ok pid =>
    simp only [vmWrites, Log.failure_andThen, failure_smpWrites, failure_memWrites]
    constructor
    · intro h
      obtain ⟨-, hsmp, hmem⟩ := h
      exact ⟨⟨pid, hpid⟩, hmem, hsmp⟩
    · intro h
      exact ⟨rfl, h.smp, h.mem⟩

end VmBase

/-- What a listing reads. -/
def VmHost.rows (host : VmHost) (vmCmd : String) : List (VmBase.PsCursor × List (List Char)) :=
  VmBase.rows {} (Text.buffered VmBase.bufSize (host.popen (VmBase.psCmd vmCmd)))

/-- **Nothing is thrown exactly when all that is read is converted**, whatever `ps` prints. -/
theorem VmBase.exists_refreshMost_iff_rows (host : VmHost) (s : VmBase) :
    (∃ s', s.refreshMost host = .ok s') ↔ ∀ row ∈ host.rows s.vmCmd, RowConverts row := by
  have hfailure : (host.listing s.vmCmd).failure = none ↔
      ∀ row ∈ host.rows s.vmCmd, RowConverts row := by
    simp only [VmHost.listing, psWrites_eq, Log.failure_all, failure_lineWrites, VmHost.rows]
  rw [← hfailure]
  exact exists_refreshMost_iff_failure

namespace PsLine

open VmBase

variable (l : PsLine)

/-- The memory size of the line's VM. -/
def memSize : Int := ((valueAfter memOption l.args).bind number).getD (-1)

/-- The number for a key of the line's `-smp`. -/
def smpNum (k : SmpKey) : Int := ((textsOf k l.smpPairs).getLast?.bind number).getD (-1)

/-- All values are converted, and those that are kept are read whole. -/
structure Readable : Prop extends l.Numeric where
  mem_whole : ∀ v, valueAfter memOption l.args = some v → ReadWhole v
  smp_whole : ∀ k v, (textsOf k l.smpPairs).getLast? = some v → ReadWhole v

end PsLine

namespace PsOutput

open VmBase

variable (o : PsOutput)

/-- Each VM with its name, uuid and numbers. -/
structure Reports (curTime : Int) (d : VmData) : Prop where
  keys : d.vmIds.keys.Perm (o.lines.map fun l => l.vmId curTime)
  name : ∀ l ∈ o.lines,
    d.name.find (l.vmId curTime) = some ((optionArg l.vector nameOption).getD [])
  uuid : ∀ l ∈ o.lines,
    d.uuid.find (l.vmId curTime) = some ((optionArg l.vector uuidOption).getD [])
  totalMemSize : ∀ l ∈ o.lines, d.getTotalMemSize (l.vmId curTime) = l.memSize
  vsocketNum : ∀ l ∈ o.lines, d.getVsocketNum (l.vmId curTime) = l.smpNum .sockets
  vcoreNum : ∀ l ∈ o.lines, d.getVcoreNum (l.vmId curTime) = l.smpNum .cores
  vhpthreadNum : ∀ l ∈ o.lines, d.getVhpthreadNum (l.vmId curTime) = l.smpNum .threads

variable {host : VmHost} {s s' : VmBase}

/-- The memory size is that of the line exactly when its value is read whole. -/
theorem totalMemSize_eq_iff (hps : host.popen (psCmd s.vmCmd) = o.text) (hshort : o.Short)
    (hok : s.refreshMost host = .ok s') {l : PsLine} (hl : l ∈ o.lines) :
    s'.data.getTotalMemSize (l.vmId host.curTime) = l.memSize ↔
      ∀ v, valueAfter memOption l.args = some v → ReadWhole v := by
  have hnumeric : l.Numeric := (o.exists_refreshMost_iff hps hshort).1 ⟨s', hok⟩ l hl
  have hfailure : (l.writes host.curTime).failure = none := l.failure_writes.2 hnumeric
  have hfind := (o.find_refreshMost hps hshort hok hl .totalMemSize).trans
    (last_totalMemSize hfailure)
  rw [l.optionArg_vector, if_neg hnumeric.mem_followed] at hfind
  have hsize : s'.data.getTotalMemSize (l.vmId host.curTime) =
      ((valueAfter memOption l.args).map intOf).getD (-1) := by
    rw [VmData.getTotalMemSize, getDataByVmId]
    refine (congrArg (fun n : Option Int => n.getD (-1)) hfind).trans ?_
    cases valueAfter memOption l.args <;> rfl
  rw [hsize, PsLine.memSize, getD_intOf_eq_iff hnumeric.mem]

/-- A number of `-smp` is that of the line exactly when its value is read whole. -/
theorem smpNum_eq_iff (hps : host.popen (psCmd s.vmCmd) = o.text) (hshort : o.Short)
    (hok : s.refreshMost host = .ok s') {l : PsLine} (hl : l ∈ o.lines) (k : SmpKey) :
    getDataByVmId ((VmField.smp k).map s'.data) (l.vmId host.curTime) (-1) = l.smpNum k ↔
      ∀ v, (textsOf k l.smpPairs).getLast? = some v → ReadWhole v := by
  have hnumeric : l.Numeric := (o.exists_refreshMost_iff hps hshort).1 ⟨s', hok⟩ l hl
  have hfailure : (l.writes host.curTime).failure = none := l.failure_writes.2 hnumeric
  have hfind := (o.find_refreshMost hps hshort hok hl (.smp k)).trans (last_smp k hfailure)
  rw [l.smpPairs_vector] at hfind
  have hconverts (v : List Char) (hv : (textsOf k l.smpPairs).getLast? = some v) : Converts v := by
    obtain ⟨p, hp, hvalue⟩ := List.mem_filterMap.1 (List.mem_of_getLast? hv)
    split_ifs at hvalue
    obtain rfl := Option.some.inj hvalue
    exact hnumeric.smp p hp
  rw [getDataByVmId, hfind, PsLine.smpNum, getD_intOf_eq_iff hconverts]

theorem reports_short_iff (hps : host.popen (psCmd s.vmCmd) = o.text) (hshort : o.Short) :
    (∃ s', s.refreshMost host = .ok s' ∧ o.Reports host.curTime s'.data) ↔
      ∀ l ∈ o.lines, l.Readable := by
  have hnumeric := o.exists_refreshMost_iff hps hshort
  constructor
  · rintro ⟨s', hok, hreports⟩ l hl
    refine ⟨hnumeric.1 ⟨s', hok⟩ l hl, ?_, fun k => ?_⟩
    · exact (o.totalMemSize_eq_iff hps hshort hok hl).1 (hreports.totalMemSize l hl)
    · refine (o.smpNum_eq_iff hps hshort hok hl k).1 ?_
      cases k with
      | sockets => exact hreports.vsocketNum l hl
      | cores => exact hreports.vcoreNum l hl
      | threads => exact hreports.vhpthreadNum l hl
  · intro h
    obtain ⟨s', hok⟩ := hnumeric.2 fun l hl => (h l hl).toNumeric
    have hfailure (l : PsLine) (hl : l ∈ o.lines) : (l.writes host.curTime).failure = none :=
      l.failure_writes.2 (h l hl).toNumeric
    have hsmp (l : PsLine) (hl : l ∈ o.lines) (k : SmpKey) :=
      (o.smpNum_eq_iff hps hshort hok hl k).2 ((h l hl).smp_whole k)
    refine ⟨s', hok, ?_⟩
    exact {
      keys := o.keys_refreshMost hps hshort hok
      name := fun l hl =>
        (o.find_refreshMost hps hshort hok hl .name).trans (last_name (hfailure l hl))
      uuid := fun l hl =>
        (o.find_refreshMost hps hshort hok hl .uuid).trans (last_uuid (hfailure l hl))
      totalMemSize := fun l hl =>
        (o.totalMemSize_eq_iff hps hshort hok hl).2 (h l hl).mem_whole
      vsocketNum := fun l hl => hsmp l hl .sockets
      vcoreNum := fun l hl => hsmp l hl .cores
      vhpthreadNum := fun l hl => hsmp l hl .threads }

end PsOutput

/-- **Whatever `ps` prints, nothing is thrown exactly when all that is read is converted; and where
the lines fit in the buffer and the VMs are ordered lawfully, each VM is reported, with `-1` for a
value that is no number, exactly when all values of the lines are converted and those that are kept
are read whole**, and trees hold what is reported. -/
theorem PsOutput.reportsNumbers_iff (host : VmHost) (s : VmBase) :
    ((∃ s', s.refreshMost host = .ok s') ↔
      ∀ row ∈ host.rows s.vmCmd, VmBase.RowConverts row) ∧
    ∀ o : PsOutput, host.popen (VmBase.psCmd s.vmCmd) = o.text → o.Short →
      VmId.StrictWeakOn (o.ids host.curTime) →
      ((∃ s', s.refreshMost host = .ok s' ∧ o.Reports host.curTime s'.data) ↔
        ∀ l ∈ o.lines, l.Readable) ∧ (host.listed s.vmCmd).Held (o.ids host.curTime) := by
  refine ⟨VmBase.exists_refreshMost_iff_rows host s, fun o hps hshort hlawful => ?_⟩
  exact ⟨o.reports_short_iff hps hshort, o.held_listed hps hshort hlawful⟩

/-- A VM with the memory size of a named option. -/
def memSized : PsLine where
  text := "00:10 41 kvm -m size=4096M".toList
  etime := "00:10".toList
  pid := Text.Numeral.ofNat 41 (by decide)
  args := ["kvm".toList, "-m".toList, "size=4096M".toList]
  words_eq := by decide +kernel
  args_ne := by decide
  newline_not_mem := by decide
  nul_not_mem := by decide

/-- This VM and another. -/
def memSizedOutput : PsOutput where
  lines := [memSized, named]
  pids := by decide +kernel

theorem memSizedOutput_short : memSizedOutput.Short := by
  simp only [PsOutput.Short, memSizedOutput, List.forall_mem_cons]
  decide +kernel

theorem memSizedOutput_lawful : VmId.StrictWeakOn (memSizedOutput.ids 1000) := by
  have hstart : ∀ l ∈ memSizedOutput.lines, (l.vmId 1000).startTimestamp = 990 := by
    simp only [memSizedOutput, List.forall_mem_cons]
    decide +kernel
  refine VmId.StrictWeakOn.of_near ?_
  rintro _ ⟨l, hl, rfl⟩ _ ⟨l', hl', rfl⟩
  rw [hstart l hl, hstart l' hl']
  decide

theorem reportsNumbers_iff_memSized :
    ((∃ s', ({} : VmBase).refreshMost memSizedOutput.host = .ok s' ∧
      memSizedOutput.Reports 1000 s'.data) ↔ ∀ l ∈ memSizedOutput.lines, l.Readable) ∧
    (memSizedOutput.host.listed defaultVmCmd).Held (memSizedOutput.ids 1000) :=
  (PsOutput.reportsNumbers_iff memSizedOutput.host {}).2 memSizedOutput rfl memSizedOutput_short
    memSizedOutput_lawful

/-- `-m size=4096M` makes the scan throw, before the other VM is listed. -/
theorem not_reports_memSized : ¬ ∀ (o : PsOutput) (host : VmHost) (s : VmBase),
    host.popen (VmBase.psCmd s.vmCmd) = o.text → o.Short →
      ∃ s', s.refreshMost host = .ok s' ∧ o.Reports host.curTime s'.data := by
  intro h
  obtain ⟨s', hok, -⟩ := h memSizedOutput memSizedOutput.host {} rfl memSizedOutput_short
  have hthrows : (({} : VmBase).refreshMost memSizedOutput.host).toOption.isSome = false := by
    decide +kernel
  rw [hok] at hthrows
  cases hthrows

end LibVsf
