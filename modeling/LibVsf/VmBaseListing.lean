import LibVsf.VmBaseMaps

/-!
# `VmBase`: the lines of `ps`

A line is an elapsed time, the pid of a process and its arguments. The strings that the loop over
the lines keeps are assigned anew by such a line, and each map of the VMs is filled line by line.

* `listing_eq`: the assignments are those of each line, where the lines fit in the buffer.
* `PsOutput.find_refreshMost`: for the VM of a line each map has the last value that the line
  assigns.
* `PsOutput.keys_refreshMost`: each line has one VM.
-/

namespace LibVsf

open EqvMap EqvOrd Writing

/-! ## Lines -/

/-- A line for a process with arguments. -/
structure PsLine where
  text : List Char
  etime : List Char
  pid : Text.Numeral
  args : List (List Char)
  words_eq : Text.words text = etime :: pid.text :: args
  args_ne : args ≠ []
  newline_not_mem : '\n' ∉ text
  nul_not_mem : Char.ofNat 0 ∉ text

namespace PsLine

open VmBase

variable (l : PsLine)

def vmId (curTime : Int) : VmId := ⟨startTime curTime l.etime, l.pid.value⟩

/-- The vector `args` after the loop over the words, which has the last word twice. -/
def vector : List (List Char) := l.args ++ [l.args.getLast l.args_ne]

/-- A line is read without what was kept of others. -/
theorem read_eq (cur : PsCursor) :
    cur.read ((l.text ++ ['\n']).takeWhile fun c => c ≠ Char.ofNat 0) =
      (⟨l.etime, l.pid.text, l.args.getLast l.args_ne⟩, l.vector) := by
  have hnul : Char.ofNat 0 ∉ l.text ++ ['\n'] := by
    rw [List.mem_append, not_or]
    exact ⟨l.nul_not_mem, by decide⟩
  have hline : (l.text ++ ['\n']).takeWhile (fun c => c ≠ Char.ofNat 0) = l.text ++ ['\n'] :=
    Text.cString_eq hnul
  have hwords : Text.words (l.text ++ ['\n']) = l.etime :: l.pid.text :: l.args := by
    rw [Text.words, Text.pieces_append rfl, ← Text.words, l.words_eq]
    exact List.append_nil _
  rw [hline, PsCursor.read, hwords]
  simp only [List.getLast?_eq_some_getLast l.args_ne, Option.getD_some, vector]

/-- The assignments of the line. -/
def writes (curTime : Int) : VmWrites := vmWrites (l.vmId curTime) l.vector

theorem lineWrites_eq (curTime : Int) {cur : PsCursor} (hetime : cur.startTimestamp = l.etime)
    (hpid : cur.pid = l.pid.text) : lineWrites curTime cur l.vector = l.writes curTime := by
  have hle : l.pid.value ≤ 2147483647 := l.pid.le_max
  have hpid' : toPid l.pid.value = l.pid.value := Int.bmod_eq_of_le (by omega) (by omega)
  rw [lineWrites, hpid, hetime, l.pid.stoull_text]
  simp only
  rw [hpid', writes, vmId]

end PsLine

/-- What `ps` prints: a line for each process. -/
structure PsOutput where
  lines : List PsLine
  pids : lines.Pairwise fun l l' => l.pid.value ≠ l'.pid.value

namespace PsOutput

open VmBase

variable (o : PsOutput)

def text : List Char := Text.unlines (o.lines.map PsLine.text)

/-- The lines, with their ends, are shorter than the buffer. -/
def Short : Prop := ∀ l ∈ o.lines, l.text.length + 1 < bufSize

theorem psWrites_lines (curTime : Int) (cur : PsCursor) (ls : List PsLine) :
    psWrites curTime cur (ls.map fun l => l.text ++ ['\n']) =
      Log.all (fun l => l.writes curTime) ls := by
  induction ls generalizing cur with
  | nil => rfl
  | cons l ls ih =>
    rw [List.map_cons, psWrites, l.read_eq cur]
    simp only
    rw [l.lineWrites_eq curTime rfl rfl, ih]
    rfl

/-- **The assignments of a listing** are those of its lines. -/
theorem listing_eq {host : VmHost} {vmCmd : String} (hps : host.popen (psCmd vmCmd) = o.text)
    (hshort : o.Short) :
    host.listing vmCmd = Log.all (fun l => l.writes host.curTime) o.lines := by
  have hfit : ∀ t ∈ o.lines.map PsLine.text, '\n' ∉ t ∧ t.length + 1 < bufSize := by
    intro t ht
    obtain ⟨l, hl, rfl⟩ := List.mem_map.1 ht
    exact ⟨l.newline_not_mem, hshort l hl⟩
  rw [VmHost.listing, hps, text, Text.buffered_unlines hfit, List.map_map]
  exact psWrites_lines host.curTime {} o.lines

end PsOutput

/-! ## The maps -/

/-- A value has been assigned. -/
def VmWrite.Assigns : VmWrite → Prop
  | .vsocketEntry _ | .vcoreEntry _ | .vhpthreadEntry _ => False
  | _ => True

/-- A map of the VMs, and what is assigned to it. -/
structure VmField (α : Type) where
  map : VmData → EqvMap VmId α
  value : VmWrite → Option α
  map_empty : map {} = ∅
  map_write : ∀ d (w : VmWrite), w.Assigns → map (d.write w) = (map d).assign w.key (value w)
  map_threads : ∀ d vcpuIds stable, map (d.withThreads vcpuIds stable) = map d

namespace VmField

def vmIds : VmField Unit where
  map d := d.vmIds
  value
    | .vmId _ => some ()
    | _ => none
  map_empty := rfl
  map_write d w hw := by cases w <;> rfl
  map_threads _ _ _ := rfl

def name : VmField (List Char) where
  map d := d.name
  value
    | .name _ x => some x
    | _ => none
  map_empty := rfl
  map_write d w hw := by cases w <;> rfl
  map_threads _ _ _ := rfl

def uuid : VmField (List Char) where
  map d := d.uuid
  value
    | .uuid _ x => some x
    | _ => none
  map_empty := rfl
  map_write d w hw := by cases w <;> rfl
  map_threads _ _ _ := rfl

def totalMemSize : VmField Int where
  map d := d.totalMemSize
  value
    | .totalMemSize _ n => some n
    | _ => none
  map_empty := rfl
  map_write d w hw := by cases w <;> rfl
  map_threads _ _ _ := rfl

def smp : SmpKey → VmField Int
  | .sockets => {
      map := fun d => d.vsocketNum
      value := fun
        | .vsocketNum _ n => some n
        | _ => none
      map_empty := rfl
      map_write := fun d w hw => by cases w <;> first | rfl | exact hw.elim
      map_threads := fun _ _ _ => rfl }
  | .cores => {
      map := fun d => d.vcoreNum
      value := fun
        | .vcoreNum _ n => some n
        | _ => none
      map_empty := rfl
      map_write := fun d w hw => by cases w <;> first | rfl | exact hw.elim
      map_threads := fun _ _ _ => rfl }
  | .threads => {
      map := fun d => d.vhpthreadNum
      value := fun
        | .vhpthreadNum _ n => some n
        | _ => none
      map_empty := rfl
      map_write := fun d w hw => by cases w <;> first | rfl | exact hw.elim
      map_threads := fun _ _ _ => rfl }

variable {α : Type} (F : VmField α)

/-- The value that assignments leave. -/
def last (ws : List VmWrite) : Option α := (ws.filterMap F.value).getLast?

/-- Assignments for one VM. -/
theorem map_foldl {ws : List VmWrite} {k : VmId} (hws : ∀ w ∈ ws, w.key = k ∧ w.Assigns)
    {d : VmData}
    (hk : (F.map d).contains k = false) :
    F.map (ws.foldl VmData.write d) = (F.map d).assign k (F.last ws) := by
  have hinsert (d : VmData) : F.map (ws.foldl VmData.write d) =
      (ws.filterMap F.value).foldl (fun m x => m.insert k x) (F.map d) := by
    induction ws generalizing d with
    | nil => rfl
    | cons w ws ih =>
      obtain ⟨hw, hrest⟩ := List.forall_mem_cons.1 hws
      rw [List.foldl_cons, ih hrest, F.map_write d w hw.2, hw.1]
      cases hvalue : F.value w with
      | none => rw [List.filterMap_cons_none hvalue, assign, Option.elim_none]
      | some x => rw [List.filterMap_cons_some hvalue, assign, Option.elim_some, List.foldl_cons]
  rw [hinsert, foldl_insert hk, last]

/-- Assignments for VMs one after the other. -/
theorem map_flatMap {ι : Type} {key : ι → VmId} {writes : ι → List VmWrite} {is : List ι}
    (hwrites : ∀ i ∈ is, ∀ w ∈ writes i, w.key = key i ∧ w.Assigns) {d : VmData}
    (hnew : New key (F.map d) is) :
    F.map ((is.flatMap writes).foldl VmData.write d) =
      (F.map d).assignAll key (fun i => F.last (writes i)) is := by
  induction is generalizing d with
  | nil => rfl
  | cons i is ih =>
    obtain ⟨hi, his⟩ := List.forall_mem_cons.1 hwrites
    have hmap := F.map_foldl hi (hnew.contains i List.mem_cons_self)
    have hnext : New key (F.map ((writes i).foldl VmData.write d)) is := by
      rw [hmap]
      exact hnew.assign _
    rw [List.flatMap_cons, List.foldl_append, ih his hnext, hmap]
    rfl

end VmField

/-! ## What a line assigns -/

namespace VmBase

theorem key_of_mem_vmWrites {vmId : VmId} {args : List (List Char)} {w : VmWrite}
    (h : w ∈ (vmWrites vmId args).entries) : w.key = vmId := by
  rcases Log.mem_andThen h with h | h
  · simp only [idWrites, List.mem_cons, List.not_mem_nil, or_false] at h
    rcases h with rfl | rfl | rfl <;> rfl
  rcases Log.mem_andThen h with h | h
  · rw [smpWrites_eq] at h
    obtain ⟨op, -, hop⟩ := Log.mem_all h
    obtain ⟨k, rfl | ⟨n, rfl⟩⟩ := mem_smpOpWrites hop
    · cases k <;> rfl
    · cases k <;> rfl
  · rw [memWrites] at h
    cases hv : optionArg args memOption with
    | none =>
      rw [hv] at h
      obtain rfl := List.mem_singleton.1 h
      rfl
    | some v =>
      rw [hv] at h
      obtain ⟨n, rfl⟩ := mem_converted h
      rfl

/-- Where all values are converted, all of them are assigned. -/
theorem assigns_of_mem_vmWrites {vmId : VmId} {args : List (List Char)}
    (hok : (vmWrites vmId args).failure = none) {w : VmWrite}
    (h : w ∈ (vmWrites vmId args).entries) : w.Assigns := by
  obtain ⟨-, hsmpmem⟩ := Log.failure_andThen.1 hok
  obtain ⟨hsmp, -⟩ := Log.failure_andThen.1 hsmpmem
  rw [entries_vmWrites hok] at h
  rcases List.mem_append.1 h with h | h
  · simp only [idWrites, List.mem_cons, List.not_mem_nil, or_false] at h
    rcases h with rfl | rfl | rfl <;> trivial
  rcases List.mem_append.1 h with h | h
  · rw [smpWrites_eq] at hsmp h
    obtain ⟨op, hop, hw⟩ := Log.mem_all h
    have hconverts := failure_smpOpWrites.1 (Log.failure_all.1 hsmp op hop)
    rw [smpOpWrites_eq] at hw
    cases hp : smpOp op with
    | none =>
      rw [hp] at hw
      cases hw
    | some p =>
      rw [hp, Option.elim_some, assigned_eq (hconverts p hp)] at hw
      obtain ⟨n, rfl⟩ := mem_converted hw
      cases p.1 <;> trivial
  · obtain rfl := List.mem_singleton.1 h
    trivial

/-! ### The last values -/

/-- A map that `-smp` does not fill. -/
theorem last_vmWrites {α : Type} {F : VmField α} (hF : ∀ w : VmWrite, w.OfSmp → F.value w = none)
    {vmId : VmId} {args : List (List Char)} (h : (vmWrites vmId args).failure = none) :
    F.last (vmWrites vmId args).entries = F.last ((idWrites vmId args).entries ++
      [.totalMemSize vmId ((optionArg args memOption).elim (-1) intOf)]) := by
  have hsmp : (smpWrites vmId args).entries.filterMap F.value = [] :=
    List.filterMap_eq_nil_iff.2 fun w hw => hF w (ofSmp_smpWrites hw)
  rw [VmField.last, VmField.last, entries_vmWrites h, List.filterMap_append, List.filterMap_append,
    hsmp, List.nil_append, ← List.filterMap_append]

theorem last_vmIds {vmId : VmId} {args : List (List Char)}
    (h : (vmWrites vmId args).failure = none) :
    VmField.vmIds.last (vmWrites vmId args).entries = some () :=
  last_vmWrites (fun w hw => by cases w <;> trivial) h

theorem last_name {vmId : VmId} {args : List (List Char)}
    (h : (vmWrites vmId args).failure = none) :
    VmField.name.last (vmWrites vmId args).entries =
      some ((optionArg args nameOption).getD []) :=
  last_vmWrites (fun w hw => by cases w <;> trivial) h

theorem last_uuid {vmId : VmId} {args : List (List Char)}
    (h : (vmWrites vmId args).failure = none) :
    VmField.uuid.last (vmWrites vmId args).entries =
      some ((optionArg args uuidOption).getD []) :=
  last_vmWrites (fun w hw => by cases w <;> trivial) h

theorem last_totalMemSize {vmId : VmId} {args : List (List Char)}
    (h : (vmWrites vmId args).failure = none) :
    VmField.totalMemSize.last (vmWrites vmId args).entries =
      some ((optionArg args memOption).elim (-1) intOf) :=
  last_vmWrites (fun w hw => by cases w <;> trivial) h

/-- The values of a key of `-smp`. -/
def textsOf (k : SmpKey) (ps : List (SmpKey × List Char)) : List (List Char) :=
  ps.filterMap fun p => if p.1 = k then some p.2 else none

theorem value_write (k k' : SmpKey) (vmId : VmId) (n : Int) :
    (VmField.smp k).value (k'.write vmId n) = if k' = k then some n else none := by
  cases k <;> cases k' <;> rfl

theorem filterMap_smpOpWrites (k : SmpKey) {vmId : VmId} {op : List Char}
    (h : (smpOpWrites vmId op).failure = none) :
    (smpOpWrites vmId op).entries.filterMap (VmField.smp k).value =
      (textsOf k (smpOp op).toList).map intOf := by
  have hconverts := failure_smpOpWrites.1 h
  rw [smpOpWrites_eq]
  cases hop : smpOp op with
  | none => rfl
  | some p =>
    rw [Option.elim_some, assigned_eq (hconverts p hop), entries_converted (hconverts p hop),
      textsOf, Option.toList_some]
    by_cases hk : p.1 = k <;> simp [value_write, hk]

theorem filterMap_smpOps (k : SmpKey) {vmId : VmId} {ops : List (List Char)}
    (h : (Log.all (smpOpWrites vmId) ops).failure = none) :
    (Log.all (smpOpWrites vmId) ops).entries.filterMap (VmField.smp k).value =
      (textsOf k (ops.filterMap smpOp)).map intOf := by
  induction ops with
  | nil => rfl
  | cons op ops ih =>
    obtain ⟨hop, hops⟩ := Log.failure_andThen.1 h
    have hcons : (op :: ops).filterMap smpOp = (smpOp op).toList ++ ops.filterMap smpOp := by
      cases hp : smpOp op with
      | none => rw [List.filterMap_cons_none hp]; rfl
      | some p => rw [List.filterMap_cons_some hp]; rfl
    rw [Log.all, Log.entries_andThen hop, List.filterMap_append, ih hops,
      filterMap_smpOpWrites k hop, hcons, textsOf, textsOf, textsOf, List.filterMap_append,
      List.map_append]

theorem last_smp (k : SmpKey) {vmId : VmId} {args : List (List Char)}
    (h : (vmWrites vmId args).failure = none) :
    (VmField.smp k).last (vmWrites vmId args).entries =
      (textsOf k (smpPairs args)).getLast?.map intOf := by
  obtain ⟨-, hsmpmem⟩ := Log.failure_andThen.1 h
  obtain ⟨hsmp, -⟩ := Log.failure_andThen.1 hsmpmem
  rw [smpWrites_eq] at hsmp
  have hids : (idWrites vmId args).entries.filterMap (VmField.smp k).value = [] := by
    cases k <;> rfl
  have hmem (n : Int) : [VmWrite.totalMemSize vmId n].filterMap (VmField.smp k).value = [] := by
    cases k <;> rfl
  rw [VmField.last, entries_vmWrites h, List.filterMap_append, List.filterMap_append, hids, hmem,
    List.nil_append, List.append_nil, smpWrites_eq, filterMap_smpOps k hsmp, List.getLast?_map,
    smpPairs]

end VmBase

/-! ## What a listing leaves -/

namespace VmBase

/-- A refresh throws nothing where the listing does not. -/
theorem exists_refreshMost_iff_failure {host : VmHost} {s : VmBase} :
    (∃ s', s.refreshMost host = .ok s') ↔ (host.listing s.vmCmd).failure = none := by
  constructor
  · rintro ⟨s', hok⟩
    exact (refreshMost_eq_ok.1 hok).1
  · intro h
    exact ⟨_, refreshMost_eq_ok.2 ⟨h, rfl⟩⟩

end VmBase

namespace PsOutput

open VmBase

variable (o : PsOutput) {host : VmHost} {s s' : VmBase}

theorem new_lines (curTime : Int) {α : Type} :
    New (fun l : PsLine => l.vmId curTime) (∅ : EqvMap VmId α) o.lines where
  contains _ _ := rfl
  apart := o.pids.imp fun hne heqv => hne (Int.ofNat.inj heqv.2)

/-- No conversion throws. -/
theorem failure_listing (hps : host.popen (psCmd s.vmCmd) = o.text) (hshort : o.Short) :
    (host.listing s.vmCmd).failure = none ↔
      ∀ l ∈ o.lines, (l.writes host.curTime).failure = none := by
  rw [o.listing_eq hps hshort, Log.failure_all]

theorem map_refreshMost (hps : host.popen (psCmd s.vmCmd) = o.text) (hshort : o.Short)
    (h : s.refreshMost host = .ok s') {α : Type} (F : VmField α) :
    F.map s'.data = (∅ : EqvMap VmId α).assignAll (fun l : PsLine => l.vmId host.curTime)
      (fun l => F.last (l.writes host.curTime).entries) o.lines := by
  obtain ⟨hfailure, rfl⟩ := refreshMost_eq_ok.1 h
  rw [o.listing_eq hps hshort] at hfailure
  have hnew : New (fun l : PsLine => l.vmId host.curTime) (F.map {}) o.lines := by
    rw [F.map_empty]
    exact o.new_lines host.curTime
  have hlines := Log.failure_all.1 hfailure
  have hkey : ∀ l ∈ o.lines, ∀ w ∈ (l.writes host.curTime).entries,
      w.key = l.vmId host.curTime ∧ w.Assigns :=
    fun l hl w hw => ⟨key_of_mem_vmWrites hw, assigns_of_mem_vmWrites (hlines l hl) hw⟩
  rw [F.map_threads, VmHost.listed, o.listing_eq hps hshort, Log.entries_all hfailure,
    F.map_flatMap hkey hnew, F.map_empty]

/-- **A map has, for the VM of a line, the last value that the line assigns.** -/
theorem find_refreshMost (hps : host.popen (psCmd s.vmCmd) = o.text) (hshort : o.Short)
    (h : s.refreshMost host = .ok s') {l : PsLine} (hl : l ∈ o.lines) {α : Type} (F : VmField α) :
    (F.map s'.data).find (l.vmId host.curTime) = F.last (l.writes host.curTime).entries := by
  rw [o.map_refreshMost hps hshort h F]
  exact find_assignAll (o.new_lines host.curTime) hl

/-- **Each line has one VM.** -/
theorem keys_refreshMost (hps : host.popen (psCmd s.vmCmd) = o.text) (hshort : o.Short)
    (h : s.refreshMost host = .ok s') :
    s'.data.vmIds.keys.Perm (o.lines.map fun l => l.vmId host.curTime) := by
  obtain ⟨hfailure, -⟩ := refreshMost_eq_ok.1 h
  have hsome : ∀ l ∈ o.lines, (VmField.vmIds.last (l.writes host.curTime).entries).isSome := by
    intro l hl
    rw [PsLine.writes, last_vmIds ((o.failure_listing hps hshort).1 hfailure l hl)]
    rfl
  have hkeys := keys_assignAll (o.new_lines host.curTime) hsome
  have hempty : (∅ : EqvMap VmId Unit).keys = [] := rfl
  rw [← o.map_refreshMost hps hshort h VmField.vmIds, hempty, List.append_nil] at hkeys
  exact hkeys

end PsOutput

end LibVsf
