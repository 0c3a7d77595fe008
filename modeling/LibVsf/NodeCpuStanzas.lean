import LibVsf.NodeCpuProof

/-!
# `NodeCpu`: stanzas in any order

The loop over the lines of `/proc/cpuinfo` keeps a hardware thread, a socket and a core from line
to line, and from stanza to stanza. A stanza sets all three before its blank line inserts them, so
what is inserted is its own, and sets and maps do not remember in which order.

Main result, `refreshSocketCoreHpthread_decimal`: whatever the object holds, reading adds the
hardware threads of the stanzas to those it has, and each to its socket and its core; any order of
the stanzas leaves the same object. A number that does not fit in an `int` ends the reading
(`not_read_largeProcessor`).
-/

namespace LibVsf

open Std MapOfSets

namespace NodeCpu

/-! ## Stanzas with decimal values -/

/-- A line with a field: the key, blanks, a colon, blanks and any decimal number. -/
structure DecimalField (key : FieldKey) where
  pad : List Char
  blanks : List Char
  digits : Text.Digits
  pad_blank : ∀ c ∈ pad, c = ' ' ∨ c = '\t'
  blanks_blank : ∀ c ∈ blanks, c = ' ' ∨ c = '\t'

namespace DecimalField

variable {key : FieldKey} (f : DecimalField key)

def line : List Char := (key.text ++ f.pad) ++ ':' :: (f.blanks ++ f.digits.chars)

def value : Nat := f.digits.value

/-- The field, where its number fits in an `int`. -/
def toField (h : f.value ≤ 2147483647) : Field key where
  pad := f.pad
  number :=
    { blanks := f.blanks
      digits := f.digits.chars
      blanks_space := by
        intro c hc
        rcases f.blanks_blank c hc with rfl | rfl <;> decide
      digits_ne := f.digits.chars_ne
      digits_digit := f.digits.chars_digit
      le_max := h }
  pad_blank := f.pad_blank
  newline_not_mem := by
    intro hmem
    rcases f.blanks_blank _ hmem with h | h <;> exact absurd h (by decide)

end DecimalField

/-- A stanza of `/proc/cpuinfo`. -/
structure DecimalStanza where
  processor : DecimalField .processor
  physicalId : DecimalField .physicalId
  coreId : DecimalField .coreId
  beforeProcessor : List (List Char) := []
  beforePhysicalId : List (List Char) := []
  beforeCoreId : List (List Char) := []
  afterCoreId : List (List Char) := []
  blank : List Char := []
  others : ∀ line ∈ beforeProcessor ++ beforePhysicalId ++ beforeCoreId ++ afterCoreId,
    OtherLine line
  blank_blank : ∀ c ∈ blank, StrTools.isBlank c = true ∧ c ≠ '\n'

namespace DecimalStanza

variable (st : DecimalStanza)

def lines : List (List Char) :=
  st.beforeProcessor ++ st.processor.line :: (st.beforePhysicalId ++ st.physicalId.line ::
    (st.beforeCoreId ++ st.coreId.line :: (st.afterCoreId ++ [st.blank])))

/-- The hardware thread of a stanza. -/
def hpthreadId : HpthreadId := ⟨st.processor.value⟩

def socketId : SocketId := ⟨st.physicalId.value⟩

/-- A core is numbered within its socket. -/
def coreOf : CoreId := ⟨st.physicalId.value, st.coreId.value⟩

/-- The values fit in an `int`. -/
def Fits : Prop :=
  st.processor.value ≤ 2147483647 ∧ st.physicalId.value ≤ 2147483647 ∧
    st.coreId.value ≤ 2147483647

/-- What the loop has set at the end of a stanza. -/
def cursor : Cursor := ⟨st.hpthreadId, st.socketId, st.coreOf⟩

end DecimalStanza

def decimalText (stanzas : List DecimalStanza) : List Char :=
  Text.unlines (stanzas.flatMap DecimalStanza.lines)

/-- Stanzas whose values fit are read as such. -/
theorem exists_stanzas {stanzas : List DecimalStanza} (h : ∀ st ∈ stanzas, st.Fits) :
    ∃ sts : List Stanza, sts.flatMap Stanza.lines = stanzas.flatMap DecimalStanza.lines ∧
      sts.map Stanza.cursor = stanzas.map DecimalStanza.cursor := by
  induction stanzas with
  | nil => exact ⟨[], rfl, rfl⟩
  | cons st stanzas ih =>
    obtain ⟨⟨hprocessor, hphysical, hcore⟩, hstanzas⟩ := List.forall_mem_cons.1 h
    obtain ⟨sts, hlines, hcursors⟩ := ih hstanzas
    let read : Stanza :=
      { processor := st.processor.toField hprocessor
        physicalId := st.physicalId.toField hphysical
        coreId := st.coreId.toField hcore
        beforeProcessor := st.beforeProcessor
        beforePhysicalId := st.beforePhysicalId
        beforeCoreId := st.beforeCoreId
        afterCoreId := st.afterCoreId
        blank := st.blank
        others := st.others
        blank_blank := st.blank_blank }
    refine ⟨read :: sts, ?_, ?_⟩
    · rw [List.flatMap_cons, List.flatMap_cons, hlines]
      rfl
    · rw [List.map_cons, List.map_cons, hcursors]
      rfl

/-! ## What the stanzas insert -/

/-- The object after the stanzas have been read. -/
structure Inserted (s : NodeCpu) (stanzas : List DecimalStanza) (t : NodeCpu) : Prop where
  hpthread : ∀ h, h ∈ t.hpthread ↔ (∃ st ∈ stanzas, st.hpthreadId = h) ∨ h ∈ s.hpthread
  socketHpthread : ∀ k h, h ∈ valuesOf t.socketHpthread k ↔
    (∃ st ∈ stanzas, st.socketId = k ∧ st.hpthreadId = h) ∨ h ∈ valuesOf s.socketHpthread k
  coreHpthread : ∀ c h, h ∈ valuesOf t.coreHpthread c ↔
    (∃ st ∈ stanzas, st.coreOf = c ∧ st.hpthreadId = h) ∨ h ∈ valuesOf s.coreHpthread c

theorem inserted_foldl (s : NodeCpu) (stanzas : List DecimalStanza) :
    Inserted s stanzas ((stanzas.map DecimalStanza.cursor).foldl insertHpthread s) := by
  rw [foldl_insertHpthread]
  constructor
  · intro h
    rw [mem_foldl_hpthread]
    simp [DecimalStanza.cursor]
  · intro k h
    rw [mem_valuesOf_insertAll]
    simp [DecimalStanza.cursor]
  · intro c h
    rw [mem_valuesOf_insertAll]
    simp [DecimalStanza.cursor]

/-- **Only which hardware threads are inserted matters.** -/
theorem foldl_insertHpthread_congr {cursors cursors' : List Cursor}
    (h : ∀ cur, cur ∈ cursors ↔ cur ∈ cursors') (s : NodeCpu) :
    cursors.foldl insertHpthread s = cursors'.foldl insertHpthread s := by
  have hmap {α : Type} (f : Cursor → α) (a : α) : a ∈ cursors.map f ↔ a ∈ cursors'.map f := by
    simp only [List.mem_map, h]
  have hset : cursors.foldl (fun t cur => t.insert cur.hpthreadId) s.hpthread =
      cursors'.foldl (fun t cur => t.insert cur.hpthreadId) s.hpthread := by
    refine ExtTreeSet.ext_mem fun a => ?_
    simp only [mem_foldl_hpthread, h]
  rw [foldl_insertHpthread, foldl_insertHpthread, hset,
    insertAll_congr (hmap fun cur => (cur.socketId, cur.hpthreadId)),
    insertAll_congr (hmap fun cur => (cur.coreId, cur.hpthreadId))]

/-! ## Reading -/

theorem refreshSocketCoreHpthread_eq {stanzas : List DecimalStanza}
    (h : ∀ st ∈ stanzas, st.Fits) (s : NodeCpu) (files : HostFiles) :
    s.refreshSocketCoreHpthread { files with cpuinfo := some (decimalText stanzas) } =
      .ok ((stanzas.map DecimalStanza.cursor).foldl insertHpthread s) := by
  obtain ⟨sts, hlines, hcursors⟩ := exists_stanzas h
  rw [← hcursors, decimalText, ← hlines]
  exact refreshSocketCoreHpthread_stanzas rfl s

/-- **What the stanzas insert**, in any order. -/
theorem refreshSocketCoreHpthread_decimal {stanzas : List DecimalStanza}
    (h : ∀ st ∈ stanzas, st.Fits) (s : NodeCpu) (files : HostFiles) :
    ∃ t, s.refreshSocketCoreHpthread { files with cpuinfo := some (decimalText stanzas) } = .ok t ∧
      Inserted s stanzas t ∧ ∀ stanzas' : List DecimalStanza, stanzas'.Perm stanzas →
        s.refreshSocketCoreHpthread { files with cpuinfo := some (decimalText stanzas') } =
          .ok t := by
  refine ⟨_, refreshSocketCoreHpthread_eq h s files, inserted_foldl s stanzas, ?_⟩
  intro stanzas' hperm
  rw [refreshSocketCoreHpthread_eq (fun st hst => h st (hperm.mem_iff.1 hst)) s files]
  refine congrArg Except.ok (foldl_insertHpthread_congr (fun cur => ?_) s)
  simp only [List.mem_map, hperm.mem_iff]

/-- A field without blanks. -/
def shortField (key : FieldKey) (n : Nat) : DecimalField key where
  pad := []
  blanks := []
  digits := .ofNat n
  pad_blank := List.forall_mem_nil _
  blanks_blank := List.forall_mem_nil _

/-- The shortest stanza with these numbers. -/
def shortStanza (processor physicalId coreId : Nat) : DecimalStanza where
  processor := shortField .processor processor
  physicalId := shortField .physicalId physicalId
  coreId := shortField .coreId coreId
  others := List.forall_mem_nil _
  blank_blank := List.forall_mem_nil _

theorem shortStanza_fits {processor physicalId coreId : Nat} (hprocessor : processor ≤ 2147483647)
    (hphysical : physicalId ≤ 2147483647) (hcore : coreId ≤ 2147483647) :
    (shortStanza processor physicalId coreId).Fits := by
  simp only [DecimalStanza.Fits, shortStanza, shortField, DecimalField.value,
    Text.Digits.value_ofNat]
  exact ⟨hprocessor, hphysical, hcore⟩

/-- A host with nothing but its cpus. -/
def cpuinfoFiles (cpuinfo : List Char) : HostFiles where
  nodeDir := none
  cpulist := fun _ => none
  cpuinfo := some cpuinfo

theorem refreshSocketCoreHpthread_decimal_two :
    ∃ t, ({} : NodeCpu).refreshSocketCoreHpthread
        { cpuinfoFiles [] with
          cpuinfo := some (decimalText [shortStanza 0 0 0, shortStanza 1 0 1]) } = .ok t ∧
      Inserted {} [shortStanza 0 0 0, shortStanza 1 0 1] t ∧
      ∀ stanzas' : List DecimalStanza, stanzas'.Perm [shortStanza 0 0 0, shortStanza 1 0 1] →
        ({} : NodeCpu).refreshSocketCoreHpthread
          { cpuinfoFiles [] with cpuinfo := some (decimalText stanzas') } = .ok t := by
  refine refreshSocketCoreHpthread_decimal (fun st hst => ?_) {} (cpuinfoFiles [])
  simp only [List.mem_cons, List.not_mem_nil, or_false] at hst
  obtain rfl | rfl := hst
  · exact shortStanza_fits (by decide) (by decide) (by decide)
  · exact shortStanza_fits (by decide) (by decide) (by decide)

/-- A number of a processor that does not fit in an `int` is not read. -/
theorem not_read_largeProcessor :
    ¬ ∀ stanzas : List DecimalStanza, (stanzas.map DecimalStanza.hpthreadId).Nodup →
      ∃ t, ({} : NodeCpu).refreshSocketCoreHpthread (cpuinfoFiles (decimalText stanzas)) = .ok t ∧
        Inserted {} stanzas t := by
  intro h
  obtain ⟨t, hread, -⟩ := h [shortStanza 2147483648 0 0] (List.nodup_singleton _)
  have hfails : ({} : NodeCpu).refreshSocketCoreHpthread
      (cpuinfoFiles (decimalText [shortStanza 2147483648 0 0])) =
        .error (.conversionFailed .outOfRange, {}) := by
    rfl
  exact nomatch hfails.symm.trans hread

end NodeCpu

end LibVsf
