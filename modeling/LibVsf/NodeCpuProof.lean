import Mathlib.Data.List.Nodup
import LibVsf.NodeCpu

/-!
# `NodeCpu`: the queries agree

The text of `/proc/cpuinfo` is a list of stanzas, one for each hardware thread, that give its
number, its socket and its core within the socket, in this order. Reading them inserts each
hardware thread to its socket and its core (`refreshSocketCoreHpthread_stanzas`).

**Theorem (`topology_agrees`).** If no hardware thread is in two nodes or two stanzas, all queries
agree: cores partition the hardware threads and refine the sockets, a core or socket is in a node
exactly if its hardware threads are, and every number is the size of its set.

A hardware thread has one stanza, so it is in the set of one core and one socket (`Placed.unique`).
This makes the lookups by member the inverse of the sets, and inclusion of a core's hardware threads
in a socket's the same as having the socket in its id.
-/

namespace LibVsf

open Std MapOfSets

namespace NodeCpu

/-! ## Stanzas -/

/-- The keys of the fields that are read. -/
inductive FieldKey where
  | processor | physicalId | coreId
deriving DecidableEq, Repr

def FieldKey.text : FieldKey → List Char
  | .processor => processorKey
  | .physicalId => physicalIdKey
  | .coreId => coreIdKey

/-- What a field sets. -/
def Cursor.set (cur : Cursor) (n : Int) : FieldKey → Cursor
  | .processor => { cur with hpthreadId := ⟨n⟩ }
  | .physicalId => { cur with socketId := ⟨n⟩ }
  | .coreId => { cur with coreId := ⟨cur.socketId.id, n⟩ }

/-- A line with a field: the key, blanks, a colon and a number. -/
structure Field (key : FieldKey) where
  pad : List Char
  number : Text.Numeral
  pad_blank : ∀ c ∈ pad, c = ' ' ∨ c = '\t'
  newline_not_mem : '\n' ∉ number.blanks

def Field.line {key : FieldKey} (f : Field key) : List Char :=
  (key.text ++ f.pad) ++ ':' :: f.number.text

/-- A line with something else. -/
structure OtherLine (line : List Char) : Prop where
  newline_not_mem : '\n' ∉ line
  strip_ne : StrTools.strip line ≠ []
  key_ne : ∀ key : FieldKey, StrTools.strip ((StrTools.split line ':').headD []) ≠ key.text

/-- What `/proc/cpuinfo` says of a hardware thread. -/
structure Stanza where
  processor : Field .processor
  physicalId : Field .physicalId
  coreId : Field .coreId
  beforeProcessor : List (List Char) := []
  beforePhysicalId : List (List Char) := []
  beforeCoreId : List (List Char) := []
  afterCoreId : List (List Char) := []
  blank : List Char := []
  others : ∀ line ∈ beforeProcessor ++ beforePhysicalId ++ beforeCoreId ++ afterCoreId,
    OtherLine line
  blank_blank : ∀ c ∈ blank, StrTools.isBlank c = true ∧ c ≠ '\n'

namespace Stanza

def lines (st : Stanza) : List (List Char) :=
  st.beforeProcessor ++ st.processor.line :: (st.beforePhysicalId ++ st.physicalId.line ::
    (st.beforeCoreId ++ st.coreId.line :: (st.afterCoreId ++ [st.blank])))

/-- The hardware thread, its socket and its core. -/
def cursor (st : Stanza) : Cursor where
  hpthreadId := ⟨st.processor.number.value⟩
  socketId := ⟨st.physicalId.number.value⟩
  coreId := ⟨st.physicalId.number.value, st.coreId.number.value⟩

end Stanza

def cpuinfoText (stanzas : List Stanza) : List Char := Text.unlines (stanzas.flatMap Stanza.lines)

/-! ## Reading a line -/

theorem Field.newline_not_mem_line {key : FieldKey} (f : Field key) : '\n' ∉ f.line := by
  have hkey : '\n' ∉ key.text := by cases key <;> decide
  have hpad : '\n' ∉ f.pad := by
    intro h
    rcases f.pad_blank _ h with h | h <;> exact absurd h (by decide)
  have hdigits : '\n' ∉ f.number.digits := by
    intro h
    exact absurd (f.number.digits_digit _ h) (by decide)
  simp [line, Text.Numeral.text, hkey, hpad, hdigits, f.newline_not_mem]

/-- The words of a field's line. -/
theorem Field.split_line {key : FieldKey} (f : Field key) (h : ':' ∉ f.number.blanks) :
    StrTools.split f.line ':' = [key.text ++ f.pad, f.number.text] := by
  have hkey : ':' ∉ key.text := by cases key <;> decide
  have hkeyne : key.text ≠ [] := by cases key <;> decide
  have hpad : ':' ∉ f.pad := by
    intro h
    rcases f.pad_blank _ h with h | h <;> exact absurd h (by decide)
  have hdigits : ':' ∉ f.number.digits := by
    intro h
    exact absurd (f.number.digits_digit _ h) (by decide)
  apply StrTools.split_pair
  · simp [hkeyne]
  · simp [Text.Numeral.text, f.number.digits_ne]
  · simp [hkey, hpad]
  · simp [Text.Numeral.text, h, hdigits]

theorem Field.colon_not_mem {key : FieldKey} (f : Field key) : ':' ∉ f.number.blanks := by
  intro h
  exact absurd (f.number.blanks_space _ h) (by decide)

theorem Field.strip_key {key : FieldKey} (f : Field key) :
    StrTools.strip (key.text ++ f.pad) = key.text := by
  have hblank : ∀ c ∈ f.pad, StrTools.isBlank c = true := by
    intro c hc
    obtain rfl | rfl := f.pad_blank c hc <;> decide
  cases key <;> exact StrTools.strip_append (by decide) (by decide) (by decide) hblank

theorem readField_eq {words : List (List Char)} {key : FieldKey} {n : Int} {cur : Cursor}
    (hkey : StrTools.strip (words.headD []) = key.text)
    (hn : Text.stoi (words.getD 1 []) = .ok n) : readField words cur = .ok (cur.set n key) := by
  have hne₁ : physicalIdKey ≠ processorKey := by decide
  have hne₂ : coreIdKey ≠ processorKey := by decide
  have hne₃ : coreIdKey ≠ physicalIdKey := by decide
  cases key with
  | processor =>
    simp only [FieldKey.text] at hkey
    simp only [readField, hkey, if_true, hn]
    rfl
  | physicalId =>
    simp only [FieldKey.text] at hkey
    simp only [readField, hkey, hne₁, if_true, if_false, hn]
    rfl
  | coreId =>
    simp only [FieldKey.text] at hkey
    simp only [readField, hkey, hne₂, hne₃, if_true, if_false, hn]
    rfl

theorem strip_ne_nil {s : List Char} {c : Char} (hc : c ∈ s) (h : StrTools.isBlank c = false) :
    StrTools.strip s ≠ [] := by
  intro hnil
  have hdrop : s.dropWhile StrTools.isBlank ≠ [] := by
    intro hall
    have hblank := List.dropWhile_eq_nil_iff.1 hall c hc
    rw [h] at hblank
    cases hblank
  simp only [StrTools.strip, List.reverse_eq_nil_iff, List.dropWhile_eq_nil_iff,
    List.mem_reverse] at hnil
  have hhead := List.head_dropWhile_not StrTools.isBlank hdrop
  rw [hnil _ (List.head_mem hdrop)] at hhead
  cases hhead

/-- A field's line sets its part of the cursor, at both words. -/
theorem readLine_field {key : FieldKey} (f : Field key) (s : NodeCpu) (cur : Cursor) :
    readLine (s, cur) f.line = .ok (s, (cur.set f.number.value key).set f.number.value key) := by
  have hcolon : StrTools.strip f.line ≠ [] := by
    refine strip_ne_nil (c := ':') ?_ (by decide)
    simp [Field.line]
  have hread (cur : Cursor) :
      readField [key.text ++ f.pad, f.number.text] cur = .ok (cur.set f.number.value key) :=
    readField_eq f.strip_key f.number.stoi_text
  simp only [readLine, ne_eq, hcolon, not_false_eq_true, if_true, f.split_line f.colon_not_mem]
  simp only [List.foldlM_cons, List.foldlM_nil, hread]
  rfl

theorem readLine_other {line : List Char} (h : OtherLine line) (s : NodeCpu) (cur : Cursor) :
    readLine (s, cur) line = .ok (s, cur) := by
  have hread (cur : Cursor) : readField (StrTools.split line ':') cur = .ok cur := by
    have hprocessor := h.key_ne .processor
    have hphysicalId := h.key_ne .physicalId
    have hcoreId := h.key_ne .coreId
    simp only [FieldKey.text] at hprocessor hphysicalId hcoreId
    simp only [readField, hprocessor, hphysicalId, hcoreId, if_false]
    rfl
  have hwords (ws : List (List Char)) :
      ws.foldlM (fun cur _ => readField (StrTools.split line ':') cur) cur = .ok cur := by
    induction ws with
    | nil => rfl
    | cons w ws ih =>
      rw [List.foldlM_cons, hread]
      exact ih
  simp only [readLine, ne_eq, h.strip_ne, not_false_eq_true, if_true, hwords]

theorem readLine_blank {line : List Char} (h : ∀ c ∈ line, StrTools.isBlank c = true)
    (s : NodeCpu) (cur : Cursor) : readLine (s, cur) line = .ok (s.insertHpthread cur, cur) := by
  simp [readLine, StrTools.strip_eq_nil h]

/-! ## Reading the text -/

theorem foldlM_others {ls : List (List Char)} (h : ∀ line ∈ ls, OtherLine line) (s : NodeCpu)
    (cur : Cursor) : ls.foldlM readLine (s, cur) = .ok (s, cur) := by
  induction ls with
  | nil => rfl
  | cons line ls ih =>
    obtain ⟨hline, hls⟩ := List.forall_mem_cons.1 h
    rw [List.foldlM_cons, readLine_other hline]
    exact ih hls

/-- **A stanza** inserts its hardware thread, whatever the stanza before has left. -/
theorem foldlM_stanza (st : Stanza) (s : NodeCpu) (cur : Cursor) :
    st.lines.foldlM readLine (s, cur) = .ok (s.insertHpthread st.cursor, st.cursor) := by
  have hothers := st.others
  simp only [List.mem_append, or_imp, forall_and] at hothers
  obtain ⟨⟨⟨hbefore, hphysical⟩, hcore⟩, hafter⟩ := hothers
  simp only [Stanza.lines, List.foldlM_append, List.foldlM_cons, List.foldlM_nil]
  rw [foldlM_others hbefore]
  show (readLine (s, cur) st.processor.line >>= _) = _
  rw [readLine_field]
  show (st.beforePhysicalId.foldlM readLine _ >>= _) = _
  rw [foldlM_others hphysical]
  show (readLine _ st.physicalId.line >>= _) = _
  rw [readLine_field]
  show (st.beforeCoreId.foldlM readLine _ >>= _) = _
  rw [foldlM_others hcore]
  show (readLine _ st.coreId.line >>= _) = _
  rw [readLine_field]
  show (st.afterCoreId.foldlM readLine _ >>= _) = _
  rw [foldlM_others hafter]
  show (readLine _ st.blank >>= _) = _
  rw [readLine_blank fun c hc => (st.blank_blank c hc).1]
  rfl

theorem foldlM_stanzas (stanzas : List Stanza) (s : NodeCpu) (cur : Cursor) :
    ∃ cur', (stanzas.flatMap Stanza.lines).foldlM readLine (s, cur) =
      .ok (stanzas.foldl (fun s st => s.insertHpthread st.cursor) s, cur') := by
  induction stanzas generalizing s cur with
  | nil => exact ⟨cur, rfl⟩
  | cons st stanzas ih =>
    obtain ⟨cur', hrest⟩ := ih (s.insertHpthread st.cursor) st.cursor
    refine ⟨cur', ?_⟩
    rw [List.flatMap_cons, List.foldlM_append, foldlM_stanza]
    exact hrest

theorem Stanza.newline_not_mem (st : Stanza) : ∀ line ∈ st.lines, '\n' ∉ line := by
  have hothers := st.others
  simp only [List.mem_append, or_imp, forall_and] at hothers
  obtain ⟨⟨⟨hbefore, hphysical⟩, hcore⟩, hafter⟩ := hothers
  intro line hline
  simp only [Stanza.lines, List.mem_append, List.mem_cons, List.not_mem_nil, or_false] at hline
  obtain h | rfl | h | rfl | h | rfl | h | rfl := hline
  · exact (hbefore line h).newline_not_mem
  · exact st.processor.newline_not_mem_line
  · exact (hphysical line h).newline_not_mem
  · exact st.physicalId.newline_not_mem_line
  · exact (hcore line h).newline_not_mem
  · exact st.coreId.newline_not_mem_line
  · exact (hafter line h).newline_not_mem
  · intro hmem
    exact (st.blank_blank _ hmem).2 rfl

/-- **What reading stanzas leaves.** -/
theorem refreshSocketCoreHpthread_stanzas {files : HostFiles} {stanzas : List Stanza}
    (h : files.cpuinfo = some (cpuinfoText stanzas)) (s : NodeCpu) :
    s.refreshSocketCoreHpthread files =
      .ok ((stanzas.map Stanza.cursor).foldl insertHpthread s) := by
  have hlines : ∀ line ∈ stanzas.flatMap Stanza.lines, '\n' ∉ line := by
    intro line hline
    obtain ⟨st, -, hst⟩ := List.mem_flatMap.1 hline
    exact st.newline_not_mem line hst
  obtain ⟨cur', hread⟩ := foldlM_stanzas stanzas s {}
  simp only [refreshSocketCoreHpthread, h, cpuinfoText, Text.lines_unlines hlines]
  rw [hread, List.foldl_map]
  rfl

/-! ## The maps -/

theorem foldl_insertHpthread (cursors : List Cursor) (s : NodeCpu) :
    cursors.foldl insertHpthread s = { s with
      socketHpthread := insertAll s.socketHpthread
        (cursors.map fun cur => (cur.socketId, cur.hpthreadId))
      coreHpthread := insertAll s.coreHpthread
        (cursors.map fun cur => (cur.coreId, cur.hpthreadId))
      hpthread := cursors.foldl (fun t cur => t.insert cur.hpthreadId) s.hpthread } := by
  induction cursors generalizing s with
  | nil => rfl
  | cons cur cursors ih =>
    rw [List.foldl_cons, ih]
    rfl

theorem mem_foldl_hpthread (cursors : List Cursor) (t : ExtTreeSet HpthreadId) (h : HpthreadId) :
    h ∈ cursors.foldl (fun t cur => t.insert cur.hpthreadId) t ↔
      (∃ cur ∈ cursors, cur.hpthreadId = h) ∨ h ∈ t := by
  induction cursors generalizing t with
  | nil => simp
  | cons cur cursors ih =>
    rw [List.foldl_cons, ih, ExtTreeSet.mem_insert, LawfulEqOrd.compare_eq_iff_eq]
    simp only [List.mem_cons, exists_eq_or_imp]
    exact or_left_comm.trans or_assoc.symm

/-! ## The queries -/

section Queries

variable {κ α : Type} [Ord κ] [TransOrd κ] [Ord α]

theorem getValueByKey_eq (data : MapOfSets κ α) (key : κ) :
    getValueByKey data key = valuesOf data key := by
  simp only [getValueByKey]
  split_ifs with h
  · rfl
  · rw [valuesOf, ExtTreeMap.getD_eq_fallback fun hmem => h (ExtTreeMap.mem_iff_contains.1 hmem)]

theorem getValueNumByKey_eq (data : MapOfSets κ α) (key : κ) :
    getValueNumByKey data key = (getValueByKey data key).size := by
  simp only [getValueNumByKey, getValueByKey]
  split_ifs
  · rfl
  · exact ExtTreeSet.size_empty.symm

theorem getKeyNum_eq (data : MapOfSets κ α) : getKeyNum data = (getKeys data).size := by
  simp only [getKeyNum, getKeys]
  rw [ExtTreeSet.size_ofList ExtTreeMap.distinct_keys, ExtTreeMap.length_keys]

theorem mem_getKeys [LawfulEqOrd κ] {data : MapOfSets κ α} {key : κ} :
    key ∈ getKeys data ↔ key ∈ data := by
  classical
  simp [getKeys]

end Queries

/-! ## Agreement -/

/-- The hardware threads are placed: each once, in a core of its socket. -/
structure Placed (cursors : List Cursor) : Prop where
  unique : ∀ cur ∈ cursors, ∀ cur' ∈ cursors, cur.hpthreadId = cur'.hpthreadId → cur = cur'
  core_socket : ∀ cur ∈ cursors, cur.coreId.socketId = cur.socketId.id
  nonneg : ∀ cur ∈ cursors, 0 ≤ cur.socketId.id

/-- The nodes are numbered from zero on and share no hardware thread. -/
structure SeparateNodes (nodes : MapOfSets NodeId HpthreadId) : Prop where
  nonneg : ∀ n ∈ nodes, 0 ≤ n.id
  disjoint : ∀ n n' h, h ∈ valuesOf nodes n → h ∈ valuesOf nodes n' → n = n'

/-- All queries of a topology agree. -/
structure TopologyAgrees (s : NodeCpu) : Prop where
  core_of_hpthread : ∀ h ∈ s.getHpthreadIds, ∀ c,
    h ∈ s.getHpthreadIdsOfCore c ↔ c = s.getCoreIdOfHpthread h
  socket_of_hpthread : ∀ h ∈ s.getHpthreadIds,
    s.getSocketIdOfHpthread h = s.getSocketIdOfCore (s.getCoreIdOfHpthread h)
  core_in_socket : ∀ c ∈ s.getCoreIds, ∀ k,
    c ∈ s.getCoreIdsOfSocket k ↔ s.getSocketIdOfCore c = k
  socket_union : ∀ k h, h ∈ s.getHpthreadIdsOfSocket k ↔
    ∃ c ∈ s.getCoreIdsOfSocket k, h ∈ s.getHpthreadIdsOfCore c
  socket_disjoint : ∀ k, ∀ c ∈ s.getCoreIdsOfSocket k, ∀ c' ∈ s.getCoreIdsOfSocket k, c ≠ c' →
    ∀ h ∈ s.getHpthreadIdsOfCore c, h ∉ s.getHpthreadIdsOfCore c'
  core_in_node : ∀ n ∈ s.getNodeIds, ∀ c ∈ s.getCoreIds,
    (c ∈ s.getCoreIdsOfNode n ↔ s.getNodeIdOfCore c = n) ∧
    (s.getNodeIdOfCore c = n ↔ ∀ h ∈ s.getHpthreadIdsOfCore c, h ∈ s.getHpthreadIdsOfNode n)
  socket_in_node : ∀ n ∈ s.getNodeIds, ∀ k ∈ s.getSocketIds,
    (k ∈ s.getSocketIdsOfNode n ↔ s.getNodeIdOfSocket k = n) ∧
    (s.getNodeIdOfSocket k = n ↔ ∀ h ∈ s.getHpthreadIdsOfSocket k, h ∈ s.getHpthreadIdsOfNode n)
  node_num : s.getNodeNum = s.getNodeIds.size
  socket_num : s.getSocketNum = s.getSocketIds.size
  socket_num_of_node : ∀ n, s.getSocketNumOfNode n = (s.getSocketIdsOfNode n).size
  core_num : s.getCoreNum = s.getCoreIds.size
  core_num_of_node : ∀ n, s.getCoreNumOfNode n = (s.getCoreIdsOfNode n).size
  core_num_of_socket : ∀ k, s.getCoreNumOfSocket k = (s.getCoreIdsOfSocket k).size
  hpthread_num : s.getHpthreadNum = s.getHpthreadIds.size
  hpthread_num_of_node : ∀ n, s.getHpthreadNumOfNode n = (s.getHpthreadIdsOfNode n).size
  hpthread_num_of_socket : ∀ k, s.getHpthreadNumOfSocket k = (s.getHpthreadIdsOfSocket k).size
  hpthread_num_of_core : ∀ c, s.getHpthreadNumOfCore c = (s.getHpthreadIdsOfCore c).size

/-- The data a refresh leaves that has read these nodes and hardware threads. -/
def filled (nodes : MapOfSets NodeId HpthreadId) (cursors : List Cursor) : NodeCpu :=
  (cursors.foldl insertHpthread { nodeHpthread := nodes }).refreshOthers

section Filled

variable (nodes : MapOfSets NodeId HpthreadId) (cursors : List Cursor)

theorem filled_nodeHpthread : (filled nodes cursors).nodeHpthread = nodes := by
  simp only [filled, foldl_insertHpthread]
  rfl

theorem filled_socketHpthread : (filled nodes cursors).socketHpthread =
    insertAll ∅ (cursors.map fun cur => (cur.socketId, cur.hpthreadId)) := by
  simp only [filled, foldl_insertHpthread]
  rfl

theorem filled_coreHpthread : (filled nodes cursors).coreHpthread =
    insertAll ∅ (cursors.map fun cur => (cur.coreId, cur.hpthreadId)) := by
  simp only [filled, foldl_insertHpthread]
  rfl

theorem filled_others :
    (filled nodes cursors).nodeSocket =
        groupBy nodes (filled nodes cursors).socketHpthread ∅ ∧
      (filled nodes cursors).nodeCore = groupBy nodes (filled nodes cursors).coreHpthread ∅ ∧
      (filled nodes cursors).socketCore =
        groupBy (filled nodes cursors).socketHpthread (filled nodes cursors).coreHpthread ∅ := by
  simp only [filled, foldl_insertHpthread]
  exact ⟨rfl, rfl, rfl⟩

theorem mem_filled_hpthread (h : HpthreadId) :
    h ∈ (filled nodes cursors).hpthread ↔ ∃ cur ∈ cursors, cur.hpthreadId = h := by
  simp only [filled, foldl_insertHpthread]
  exact (mem_foldl_hpthread cursors ∅ h).trans (or_iff_left ExtTreeSet.not_mem_empty)

/-- The hardware threads of a socket. -/
theorem mem_socket (k : SocketId) (h : HpthreadId) :
    h ∈ valuesOf (filled nodes cursors).socketHpthread k ↔
      ∃ cur ∈ cursors, cur.socketId = k ∧ cur.hpthreadId = h := by
  rw [filled_socketHpthread, mem_valuesOf_insertAll]
  simp [mem_valuesOf_empty]

/-- The hardware threads of a core. -/
theorem mem_core (c : CoreId) (h : HpthreadId) :
    h ∈ valuesOf (filled nodes cursors).coreHpthread c ↔
      ∃ cur ∈ cursors, cur.coreId = c ∧ cur.hpthreadId = h := by
  rw [filled_coreHpthread, mem_valuesOf_insertAll]
  simp [mem_valuesOf_empty]

theorem mem_sockets (k : SocketId) :
    k ∈ (filled nodes cursors).socketHpthread ↔ ∃ cur ∈ cursors, cur.socketId = k := by
  rw [filled_socketHpthread, mem_insertAll]
  simp

theorem mem_cores (c : CoreId) :
    c ∈ (filled nodes cursors).coreHpthread ↔ ∃ cur ∈ cursors, cur.coreId = c := by
  rw [filled_coreHpthread, mem_insertAll]
  simp

end Filled

section Agrees

variable {nodes : MapOfSets NodeId HpthreadId} {cursors : List Cursor}

theorem mem_core_self {cur : Cursor} (hcur : cur ∈ cursors) :
    cur.hpthreadId ∈ valuesOf (filled nodes cursors).coreHpthread cur.coreId :=
  (mem_core nodes cursors _ _).2 ⟨cur, hcur, rfl, rfl⟩

theorem mem_socket_self {cur : Cursor} (hcur : cur ∈ cursors) :
    cur.hpthreadId ∈ valuesOf (filled nodes cursors).socketHpthread cur.socketId :=
  (mem_socket nodes cursors _ _).2 ⟨cur, hcur, rfl, rfl⟩

/-- The core in whose set a hardware thread is. -/
theorem coreId_of_mem (hplaced : Placed cursors) {cur : Cursor} (hcur : cur ∈ cursors)
    {c : CoreId} (h : cur.hpthreadId ∈ valuesOf (filled nodes cursors).coreHpthread c) :
    c = cur.coreId := by
  obtain ⟨cur', hcur', rfl, heq⟩ := (mem_core nodes cursors c _).1 h
  rw [hplaced.unique cur' hcur' cur hcur heq]

theorem socketId_of_mem (hplaced : Placed cursors) {cur : Cursor} (hcur : cur ∈ cursors)
    {k : SocketId} (h : cur.hpthreadId ∈ valuesOf (filled nodes cursors).socketHpthread k) :
    k = cur.socketId := by
  obtain ⟨cur', hcur', rfl, heq⟩ := (mem_socket nodes cursors k _).1 h
  rw [hplaced.unique cur' hcur' cur hcur heq]

theorem getCoreIdOfHpthread_eq (hplaced : Placed cursors) {cur : Cursor} (hcur : cur ∈ cursors) :
    (filled nodes cursors).getCoreIdOfHpthread cur.hpthreadId = cur.coreId := by
  have hne : cur.coreId ≠ {} := by
    intro heq
    have hsocket := hplaced.core_socket cur hcur
    have hnonneg := hplaced.nonneg cur hcur
    rw [heq] at hsocket
    simp only at hsocket
    omega
  refine (keyOf_eq_iff (fun c c' hc hc' => ?_) hne).2 ?_
  · rw [coreId_of_mem hplaced hcur hc, coreId_of_mem hplaced hcur hc']
  · exact mem_core_self hcur

theorem getSocketIdOfHpthread_eq (hplaced : Placed cursors) {cur : Cursor}
    (hcur : cur ∈ cursors) :
    (filled nodes cursors).getSocketIdOfHpthread cur.hpthreadId = cur.socketId := by
  have hne : cur.socketId ≠ {} := by
    intro heq
    have hnonneg := hplaced.nonneg cur hcur
    rw [heq] at hnonneg
    simp only at hnonneg
    omega
  refine (keyOf_eq_iff (fun k k' hk hk' => ?_) hne).2 ?_
  · rw [socketId_of_mem hplaced hcur hk, socketId_of_mem hplaced hcur hk']
  · exact mem_socket_self hcur

/-- The socket of a core is the one in the ids of its hardware threads. -/
theorem socketId_of_coreId (hplaced : Placed cursors) {cur : Cursor} (hcur : cur ∈ cursors) :
    (⟨cur.coreId.socketId⟩ : SocketId) = cur.socketId := by
  rw [hplaced.core_socket cur hcur]

/-- **A core is in a socket exactly if its id says so.** -/
theorem mem_socketCore (hplaced : Placed cursors) {cur : Cursor} (hcur : cur ∈ cursors)
    (k : SocketId) :
    cur.coreId ∈ valuesOf (filled nodes cursors).socketCore k ↔ cur.socketId = k := by
  rw [(filled_others nodes cursors).2.2, mem_valuesOf_groupBy, mem_sockets, mem_cores]
  refine ⟨?_, ?_⟩
  · intro h
    obtain ⟨-, -, hsub⟩ := h
    have hmem := hsub cur.hpthreadId (mem_core_self hcur)
    exact (socketId_of_mem hplaced hcur hmem).symm
  · intro hk
    refine ⟨⟨cur, hcur, hk⟩, ⟨cur, hcur, rfl⟩, fun h hh => ?_⟩
    obtain ⟨cur', hcur', hcore, rfl⟩ := (mem_core nodes cursors _ _).1 hh
    refine (mem_socket nodes cursors _ _).2 ⟨cur', hcur', ?_, rfl⟩
    rw [← socketId_of_coreId hplaced hcur', hcore, socketId_of_coreId hplaced hcur, hk]

/-- **What holds of an item's node**, for the items of a map whose sets are not empty. -/
theorem node_agrees {ι : Type} [Ord ι] [TransOrd ι] [LawfulEqOrd ι]
    (hnodes : SeparateNodes nodes) {items : MapOfSets ι HpthreadId} {x : ι} (hx : x ∈ items)
    {h : HpthreadId} (hh : h ∈ valuesOf items x) {n : NodeId} (hn : n ∈ nodes) :
    (x ∈ valuesOf (groupBy nodes items ∅) n ↔ keyOf {} (groupBy nodes items ∅) x = n) ∧
    (keyOf {} (groupBy nodes items ∅) x = n ↔
      ∀ a ∈ valuesOf items x, a ∈ valuesOf nodes n) := by
  have hne : n ≠ {} := by
    intro heq
    have hnonneg := hnodes.nonneg n hn
    rw [heq] at hnonneg
    simp only at hnonneg
    omega
  have hkey : keyOf {} (groupBy nodes items ∅) x = n ↔
      x ∈ valuesOf (groupBy nodes items ∅) n := by
    refine keyOf_eq_iff (fun n₁ n₂ h₁ h₂ => ?_) hne
    have hsub₁ := (mem_valuesOf_groupBy.1 h₁).2.2
    have hsub₂ := (mem_valuesOf_groupBy.1 h₂).2.2
    exact hnodes.disjoint n₁ n₂ h (hsub₁ h hh) (hsub₂ h hh)
  refine ⟨hkey.symm, ?_⟩
  rw [hkey, mem_valuesOf_groupBy]
  simp only [hn, hx, true_and]

theorem mem_getNodeIds_filled {n : NodeId} : n ∈ (filled nodes cursors).getNodeIds ↔ n ∈ nodes := by
  rw [getNodeIds, mem_getKeys, filled_nodeHpthread]

/-- A socket has the hardware threads of its cores. -/
theorem socket_union_filled (hplaced : Placed cursors) (k : SocketId) (h : HpthreadId) :
    h ∈ (filled nodes cursors).getHpthreadIdsOfSocket k ↔
      ∃ c ∈ (filled nodes cursors).getCoreIdsOfSocket k,
        h ∈ (filled nodes cursors).getHpthreadIdsOfCore c := by
  simp only [getHpthreadIdsOfSocket, getCoreIdsOfSocket, getHpthreadIdsOfCore, getValueByKey_eq]
  refine ⟨?_, ?_⟩
  · intro hh
    obtain ⟨cur, hcur, rfl, rfl⟩ := (mem_socket nodes cursors k h).1 hh
    exact ⟨cur.coreId, (mem_socketCore hplaced hcur _).2 rfl, mem_core_self hcur⟩
  · intro hh
    obtain ⟨c, hc, hmem⟩ := hh
    rw [(filled_others nodes cursors).2.2, mem_valuesOf_groupBy] at hc
    exact hc.2.2 h hmem

/-- **The queries agree** on hardware threads that are placed, in separate nodes. -/
theorem topologyAgrees_filled (hnodes : SeparateNodes nodes) (hplaced : Placed cursors) :
    TopologyAgrees (filled nodes cursors) where
  core_of_hpthread := by
    intro h hh c
    obtain ⟨cur, hcur, rfl⟩ := (mem_filled_hpthread nodes cursors h).1 hh
    rw [getCoreIdOfHpthread_eq hplaced hcur, getHpthreadIdsOfCore, getValueByKey_eq]
    refine ⟨coreId_of_mem hplaced hcur, ?_⟩
    intro hc
    exact (mem_core nodes cursors _ _).2 ⟨cur, hcur, hc.symm, rfl⟩
  socket_of_hpthread := by
    intro h hh
    obtain ⟨cur, hcur, rfl⟩ := (mem_filled_hpthread nodes cursors h).1 hh
    rw [getCoreIdOfHpthread_eq hplaced hcur, getSocketIdOfHpthread_eq hplaced hcur]
    exact (socketId_of_coreId hplaced hcur).symm
  core_in_socket := by
    intro c hc k
    obtain ⟨cur, hcur, rfl⟩ := (mem_cores nodes cursors c).1 (mem_getKeys.1 hc)
    rw [getCoreIdsOfSocket, getValueByKey_eq, mem_socketCore hplaced hcur, getSocketIdOfCore,
      socketId_of_coreId hplaced hcur]
  socket_union := socket_union_filled hplaced
  socket_disjoint := by
    intro k c _ c' _ hne h hh hh'
    simp only [getHpthreadIdsOfCore, getValueByKey_eq] at hh hh'
    obtain ⟨cur, hcur, rfl, rfl⟩ := (mem_core nodes cursors c h).1 hh
    exact hne (coreId_of_mem hplaced hcur hh').symm
  core_in_node := by
    intro n hn c hc
    have hn := mem_getNodeIds_filled.1 hn
    have hc := mem_getKeys.1 hc
    obtain ⟨cur, hcur, rfl⟩ := (mem_cores nodes cursors c).1 hc
    have hagrees := node_agrees hnodes hc (mem_core_self hcur) hn
    rw [← (filled_others nodes cursors).2.1] at hagrees
    simp only [getCoreIdsOfNode, getHpthreadIdsOfCore, getHpthreadIdsOfNode, getValueByKey_eq,
      filled_nodeHpthread]
    exact hagrees
  socket_in_node := by
    intro n hn k hk
    have hn := mem_getNodeIds_filled.1 hn
    have hk := mem_getKeys.1 hk
    obtain ⟨cur, hcur, rfl⟩ := (mem_sockets nodes cursors k).1 hk
    have hagrees := node_agrees hnodes hk (mem_socket_self hcur) hn
    rw [← (filled_others nodes cursors).1] at hagrees
    simp only [getSocketIdsOfNode, getHpthreadIdsOfSocket, getHpthreadIdsOfNode, getValueByKey_eq,
      filled_nodeHpthread]
    exact hagrees
  node_num := getKeyNum_eq _
  socket_num := getKeyNum_eq _
  socket_num_of_node := fun _ => getValueNumByKey_eq _ _
  core_num := getKeyNum_eq _
  core_num_of_node := fun _ => getValueNumByKey_eq _ _
  core_num_of_socket := fun _ => getValueNumByKey_eq _ _
  hpthread_num := rfl
  hpthread_num_of_node := fun _ => getValueNumByKey_eq _ _
  hpthread_num_of_socket := fun _ => getValueNumByKey_eq _ _
  hpthread_num_of_core := fun _ => getValueNumByKey_eq _ _

end Agrees

/-! ## The queries after reading stanzas -/

/-- Stanzas with different processor numbers place their hardware threads. -/
theorem placed_cursors {stanzas : List Stanza}
    (hnodup : (stanzas.map fun st => st.processor.number.value).Nodup) :
    Placed (stanzas.map Stanza.cursor) where
  unique := by
    intro cur hcur cur' hcur' heq
    obtain ⟨st, hst, rfl⟩ := List.mem_map.1 hcur
    obtain ⟨st', hst', rfl⟩ := List.mem_map.1 hcur'
    have hvalue : st.processor.number.value = st'.processor.number.value := by
      have hid := congrArg HpthreadId.id heq
      simp only [Stanza.cursor] at hid
      omega
    rw [List.inj_on_of_nodup_map hnodup hst hst' hvalue]
  core_socket := by
    intro cur hcur
    obtain ⟨st, -, rfl⟩ := List.mem_map.1 hcur
    rfl
  nonneg := by
    intro cur hcur
    obtain ⟨st, -, rfl⟩ := List.mem_map.1 hcur
    exact Int.natCast_nonneg _

/-- **All topology queries agree** after the maps have been filled from stanzas in which every
processor number occurs once, whatever the nodes are, if they share no hardware thread. -/
theorem topology_agrees {nodes : MapOfSets NodeId HpthreadId} (hnodes : SeparateNodes nodes)
    {stanzas : List Stanza}
    (hnodup : (stanzas.map fun st => st.processor.number.value).Nodup)
    {files : HostFiles} (hfiles : files.cpuinfo = some (cpuinfoText stanzas)) :
    ∃ s, ({ nodeHpthread := nodes } : NodeCpu).refreshSocketCoreHpthread files = .ok s ∧
      TopologyAgrees s.refreshOthers := by
  refine ⟨_, refreshSocketCoreHpthread_stanzas hfiles _, ?_⟩
  exact topologyAgrees_filled hnodes (placed_cursors hnodup)

theorem decimal_digit_le {c : Char} (h : c.isDigit = true) : Text.decimal [c] ≤ 2147483647 := by
  have hc : c.toNat ≤ 57 := by
    simp only [Char.isDigit, Bool.and_eq_true, decide_eq_true_eq] at h
    exact UInt32.le_iff_toNat_le.1 h.2
  simp only [Text.decimal, List.foldl_cons, List.foldl_nil]
  omega

/-- A field with a number of one digit. -/
def Field.ofDigit (key : FieldKey) (c : Char) (h : c.isDigit = true) : Field key where
  pad := ['\t']
  number :=
    { blanks := [' ']
      digits := [c]
      blanks_space := by
        intro b hb
        obtain rfl := List.mem_singleton.1 hb
        rfl
      digits_ne := List.cons_ne_nil _ _
      digits_digit := by simpa using h
      le_max := decimal_digit_le h }
  pad_blank := by
    intro b hb
    exact Or.inr (List.mem_singleton.1 hb)
  newline_not_mem := by simp

/-- The second core of a socket, with a line about something else. -/
def secondCore : Stanza where
  processor := .ofDigit _ '1' (by decide)
  physicalId := .ofDigit _ '0' (by decide)
  coreId := .ofDigit _ '1' (by decide)
  beforePhysicalId := ["model: 6".toList]
  others := by
    intro line hline
    obtain rfl : line = "model: 6".toList := by simpa using hline
    exact ⟨by decide, by decide, fun key => by cases key <;> decide⟩
  blank_blank := by simp

/-- The first core. -/
def firstCore : Stanza where
  processor := .ofDigit _ '0' (by decide)
  physicalId := .ofDigit _ '0' (by decide)
  coreId := .ofDigit _ '0' (by decide)
  others := by simp
  blank_blank := by simp

/-- A socket whose two cores are in different nodes. -/
theorem topology_agrees_split : ∃ s,
    ({ nodeHpthread := insertAll ∅ [(⟨0⟩, ⟨0⟩), (⟨1⟩, ⟨1⟩)] } : NodeCpu).refreshSocketCoreHpthread
      ⟨none, fun _ => none, some (cpuinfoText [firstCore, secondCore])⟩ = .ok s ∧
      TopologyAgrees s.refreshOthers := by
  refine topology_agrees ⟨fun n hn => ?_, fun n n' h hn hn' => ?_⟩ ?_ rfl
  · obtain ⟨h, hmem⟩ | hmem := mem_insertAll.1 hn
    · simp only [List.mem_cons, Prod.mk.injEq, List.not_mem_nil, or_false] at hmem
      obtain ⟨rfl, -⟩ | ⟨rfl, -⟩ := hmem <;> decide
    · exact absurd hmem ExtTreeMap.not_mem_empty
  · simp [mem_valuesOf_insertAll, mem_valuesOf_empty] at hn hn'
    obtain ⟨rfl, rfl⟩ | ⟨rfl, rfl⟩ := hn <;> simp_all
  · decide

end NodeCpu

end LibVsf
