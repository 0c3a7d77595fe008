import LibVsf.Lib.LazyFill
import LibVsf.NodeCpuRefresh

/-!
# Queries of `NodeCpu` by several threads

A query refreshes and then reads, under a lock each. `refresh` looks at `has_data_` before it takes
the lock, and not again when it has it. Queries that are first at the same time all read the files,
one after the other, and each inserts what it reads into the maps it finds.

**Theorem (`queries_agree`).** As long as the files say the same, what a query reads are the maps of
a single refresh of a new instance, in every order of the steps of any number of threads. Refreshes
that throw on the way, and queries that have thrown, make no difference.

Sets do not remember how often an element is inserted, and the files say all that a refresh inserts
(`readFiles_writes`).
-/

namespace LibVsf

open Std MapOfSets Writing

namespace NodeCpu

/-! ## Steps -/

/-- The part of `refresh` that holds the lock. -/
def fill (s : NodeCpu) (files : HostFiles) : Result NodeCpu := do
  let s ← s.refreshNodeHpthread files
  let s ← s.refreshSocketCoreHpthread files
  return { s.refreshOthers with hasData := true }

theorem refresh_eq_fill (s : NodeCpu) (files : HostFiles) :
    s.refresh files = if s.hasData then .ok s else s.fill files := rfl

inductive Event where
  /-- `has_data_` is looked at. -/
  | check (g : Nat)
  | fill (g : Nat) (files : HostFiles)
  | read (g : Nat)

structure Queries where
  nodeCpu : NodeCpu := {}
  phase : Nat → LazyFill.Phase := fun _ => .idle

namespace Queries

def goTo (s : Queries) (g : Nat) (phase : LazyFill.Phase) : Queries :=
  { s with phase := Function.update s.phase g phase }

/-- A refresh that throws leaves what it has inserted, and ends the query. -/
def step (s : Queries) : Event → Queries
  | .check g =>
    if s.phase g = .idle then s.goTo g (if s.nodeCpu.hasData then .reading else .filling) else s
  | .fill g files =>
    if s.phase g = .filling then
      match s.nodeCpu.fill files with
      | .ok nodeCpu => { s with nodeCpu := nodeCpu }.goTo g .reading
      | .error (_, nodeCpu) => { s with nodeCpu := nodeCpu }.goTo g .idle
    else s
  | .read g => if s.phase g = .reading then s.goTo g .idle else s

def after (es : List Event) : Queries := Runs.run step {} es

end Queries

/-! ## What has been inserted -/

namespace Entry

def cursor : Entry → Option Cursor
  | .node _ | .cpu _ _ => none
  | .hpthread cur => some cur

end Entry

/-- What entries insert: themselves, and the entries of their nodes. -/
def said (es : List Entry) : Set Entry :=
  {e | e ∈ es ∨ ∃ nodeId, e = .node nodeId ∧ ∃ e' ∈ es, e'.nodeId = some nodeId}

theorem said_append (es es' : List Entry) : said (es ++ es') = said es ∪ said es' := by
  ext e
  simp only [said, List.mem_append, Set.mem_union, Set.mem_ofPred_eq, or_and_right, exists_or,
    and_or_left]
  exact or_or_or_comm

def socketPairs (es : List Entry) : List (SocketId × HpthreadId) :=
  (es.filterMap Entry.cursor).map fun cur => (cur.socketId, cur.hpthreadId)

def corePairs (es : List Entry) : List (CoreId × HpthreadId) :=
  (es.filterMap Entry.cursor).map fun cur => (cur.coreId, cur.hpthreadId)

def hpthreads (es : List Entry) : List HpthreadId :=
  (es.filterMap Entry.cursor).map Cursor.hpthreadId

theorem foldl_insertEntry (es : List Entry) (s : NodeCpu) :
    es.foldl insertEntry s = { s with
      nodeHpthread := es.foldl insertNode s.nodeHpthread
      socketHpthread := insertAll s.socketHpthread (socketPairs es)
      coreHpthread := insertAll s.coreHpthread (corePairs es)
      hpthread := (hpthreads es).foldl ExtTreeSet.insert s.hpthread } := by
  induction es generalizing s with
  | nil => rfl
  | cons e es ih =>
    rw [List.foldl_cons, ih]
    cases e <;> rfl

theorem mem_foldl_insert (hs : List HpthreadId) (t : ExtTreeSet HpthreadId) (h : HpthreadId) :
    h ∈ hs.foldl ExtTreeSet.insert t ↔ h ∈ hs ∨ h ∈ t := by
  induction hs generalizing t with
  | nil => simp
  | cons a hs ih =>
    rw [List.foldl_cons, ih, ExtTreeSet.mem_insert, LawfulEqOrd.compare_eq_iff_eq, List.mem_cons,
      eq_comm (a := a)]
    tauto

theorem said_mono {es es' : List Entry} (h : es ⊆ es') : said es ⊆ said es' := by
  rintro e (he | ⟨nodeId, rfl, e', he', hnodeId⟩)
  · exact .inl (h he)
  · exact .inr ⟨nodeId, rfl, e', h he', hnodeId⟩

/-- What is inserted and is not the entry of a node is an entry. -/
theorem mem_said {es : List Entry} {e : Entry} (he : ∀ nodeId, e ≠ .node nodeId) :
    e ∈ said es ↔ e ∈ es := or_iff_left fun ⟨nodeId, heq, _⟩ => he nodeId heq

theorem node_mem_said {es : List Entry} {nodeId : NodeId} :
    .node nodeId ∈ said es ↔ ∃ e ∈ es, e.nodeId = some nodeId := by
  constructor
  · rintro (h | ⟨nodeId', heq, h⟩)
    · exact ⟨_, h, rfl⟩
    · cases heq
      exact h
  · intro h
    exact .inr ⟨nodeId, rfl, h⟩

theorem foldl_insertNode_congr {es es' : List Entry} (h : said es = said es')
    (nodes : MapOfSets NodeId HpthreadId) :
    es.foldl insertNode nodes = es'.foldl insertNode nodes := by
  refine ext_valuesOf (fun nodeId => ?_) fun nodeId hpthreadId => ?_
  · rw [mem_foldl_insertNode, mem_foldl_insertNode, ← node_mem_said, h, node_mem_said]
  · have hcpu : ∀ nodeId', Entry.cpu nodeId hpthreadId ≠ .node nodeId' := by
      intro nodeId' heq
      cases heq
    rw [mem_valuesOf_foldl, mem_valuesOf_foldl, ← mem_said hcpu, h, mem_said hcpu]

/-- **Sets do not remember** in which order entries are inserted, nor how often. -/
theorem foldl_insertEntry_congr {es es' : List Entry} (h : said es = said es') (s : NodeCpu) :
    es.foldl insertEntry s = es'.foldl insertEntry s := by
  have hcursors (cur : Cursor) :
      cur ∈ es.filterMap Entry.cursor ↔ cur ∈ es'.filterMap Entry.cursor := by
    have hof (es : List Entry) : cur ∈ es.filterMap Entry.cursor ↔ .hpthread cur ∈ said es := by
      rw [mem_said (fun nodeId heq => by cases heq), List.mem_filterMap]
      constructor
      · rintro ⟨e, he, hcursor⟩
        cases e with
        | node nodeId | cpu nodeId hpthreadId => cases hcursor
        | hpthread cur' =>
          obtain rfl := Option.some.inj hcursor
          exact he
      · intro he
        exact ⟨_, he, rfl⟩
    rw [hof, hof, h]
  have hthreads : (hpthreads es).foldl ExtTreeSet.insert s.hpthread =
      (hpthreads es').foldl ExtTreeSet.insert s.hpthread := by
    refine ExtTreeSet.ext_mem fun a => ?_
    simp only [mem_foldl_insert, hpthreads, List.mem_map, hcursors]
  have hsockets (p : SocketId × HpthreadId) : p ∈ socketPairs es ↔ p ∈ socketPairs es' := by
    simp only [socketPairs, List.mem_map, hcursors]
  have hcores (p : CoreId × HpthreadId) : p ∈ corePairs es ↔ p ∈ corePairs es' := by
    simp only [corePairs, List.mem_map, hcursors]
  rw [foldl_insertEntry, foldl_insertEntry, foldl_insertNode_congr h, insertAll_congr hsockets,
    insertAll_congr hcores, hthreads]

/-- An instance that entries have been inserted into, by refreshes that have completed or not. -/
def built (hasData : Bool) (es : List Entry) : NodeCpu :=
  if hasData then { (es.foldl insertEntry {}).refreshOthers with hasData := true }
  else es.foldl insertEntry {}

theorem hasData_built (hasData : Bool) (es : List Entry) :
    (built hasData es).hasData = hasData := by
  cases hasData with
  | true => rfl
  | false =>
    show (es.foldl insertEntry {}).hasData = false
    rw [foldl_insertEntry]

theorem built_congr {es es' : List Entry} (h : said es = said es') (hasData : Bool) :
    built hasData es = built hasData es' := by
  rw [built, built, foldl_insertEntry_congr h]

/-- The maps that are not read from files are left. -/
theorem foldl_insertEntry_others (es : List Entry) (s t : NodeCpu) :
    es.foldl insertEntry { s with
        nodeSocket := t.nodeSocket, nodeCore := t.nodeCore, socketCore := t.socketCore
        hasData := t.hasData } =
      { es.foldl insertEntry s with
        nodeSocket := t.nodeSocket, nodeCore := t.nodeCore, socketCore := t.socketCore
        hasData := t.hasData } := by
  rw [foldl_insertEntry, foldl_insertEntry]

/-- **Inserting again** what a complete instance has changes nothing. -/
theorem foldl_built {es es' : List Entry} (h : said es' ⊆ said es) :
    es'.foldl insertEntry (built true es) = built true es := by
  have hagain : es'.foldl insertEntry (es.foldl insertEntry {}) = es.foldl insertEntry {} := by
    rw [← List.foldl_append]
    refine foldl_insertEntry_congr ?_ {}
    rw [said_append, Set.union_eq_left.2 h]
  refine (foldl_insertEntry_others es' (es.foldl insertEntry {}) (built true es)).trans ?_
  rw [hagain]
  rfl

theorem refreshOthers_built (es : List Entry) :
    { (built true es).refreshOthers with hasData := true } = built true es := by
  simp only [built, if_true, refreshOthers, groupBy_groupBy]

/-! ## One section -/

theorem fill_eq (s : NodeCpu) (files : HostFiles) :
    s.fill files =
      s.readFiles files >>= fun s => .ok { s.refreshOthers with hasData := true } := by
  simp only [fill, readFiles, bind_assoc]
  rfl

theorem fill_of_failure {files : HostFiles} {failure : ReadFailure}
    (h : files.contents.failure = some failure) (s : NodeCpu) :
    s.fill files = .error (failure, files.contents.entries.foldl insertEntry s) := by
  have hread : s.readFiles files = .error (failure, files.contents.entries.foldl insertEntry s) :=
    (readFiles_writes files s).trans ((Log.replay_eq_error insertEntry).2 ⟨h, rfl⟩)
  rw [fill_eq, hread]
  rfl

theorem fill_of_complete {files : HostFiles} (h : files.contents.failure = none) (s : NodeCpu) :
    s.fill files = .ok { (files.contents.entries.foldl insertEntry s).refreshOthers with
      hasData := true } := by
  have hread : s.readFiles files = .ok (files.contents.entries.foldl insertEntry s) :=
    (readFiles_writes files s).trans ((Log.replay_eq_ok insertEntry).2 ⟨h, rfl⟩)
  rw [fill_eq, hread]
  rfl

/-- A section inserts, and completes if nothing fails. -/
theorem fill_built {hasData : Bool} {es : List Entry} {files : HostFiles}
    (h : hasData = true → said files.contents.entries ⊆ said es) :
    (built hasData es).fill files =
      match files.contents.failure with
      | some failure => .error (failure, built hasData (es ++ files.contents.entries))
      | none => .ok (built true (es ++ files.contents.entries)) := by
  have hinserted : files.contents.entries.foldl insertEntry (built hasData es) =
      built hasData (es ++ files.contents.entries) := by
    cases hdata : hasData with
    | false => exact (List.foldl_append ..).symm
    | true =>
      rw [foldl_built (h hdata)]
      refine built_congr ?_ true
      rw [said_append, Set.union_eq_left.2 (h hdata)]
  cases hfailure : files.contents.failure with
  | some failure => rw [fill_of_failure hfailure, hinserted]
  | none =>
    rw [fill_of_complete hfailure, hinserted]
    cases hasData with
    | false => rfl
    | true => exact congrArg Except.ok (refreshOthers_built _)

/-! ## Runs -/

namespace Event

/-- The files say what they say in `whole`, as far as they can be read. -/
def Unchanged (whole : HostFiles) : Event → Prop
  | .fill _ files => said files.contents.entries ⊆ said whole.contents.entries ∧
      (files.contents.failure = none → said whole.contents.entries ⊆ said files.contents.entries)
  | _ => True

/-- What a step is to the set of all that has been inserted. -/
def known : Event → LazyFill.Event Nat Entry
  | .check g => .check g
  | .fill g files => .fill g (said files.contents.entries) files.contents.failure.isNone
  | .read g => .read g

theorem of_unchanged {whole : HostFiles} {e : Event} (h : e.Unchanged whole) :
    e.known.Of (said whole.contents.entries) := by
  cases e with
  | check g | read g => trivial
  | fill g files => exact ⟨h.1, fun hcomplete => h.2 (Option.isNone_iff_eq_none.1 hcomplete)⟩

end Event

namespace Queries

/-- The maps are those that the entries make which have been inserted. -/
def Known (s : Queries) (a : LazyFill.State Nat Entry) : Prop :=
  s.phase = a.phase ∧ ∃ es, said es = a.known ∧ s.nodeCpu = built a.flag es

variable {whole : HostFiles} {s : Queries} {a : LazyFill.State Nat Entry}

/-- **One step.** -/
theorem Known.step (h : s.Known a) (ha : LazyFill.Inv (said whole.contents.entries) a)
    {e : Event} (he : e.Unchanged whole) : (s.step e).Known (LazyFill.step a e.known) := by
  obtain ⟨hphase, es, hes, hnodeCpu⟩ := h
  cases e with
  | check g =>
    rw [Queries.step, Event.known, LazyFill.step, hphase, hnodeCpu, hasData_built]
    by_cases hidle : a.phase g = .idle
    · rw [if_pos hidle, if_pos hidle]
      exact ⟨congrArg (Function.update · g _) hphase, es, hes, hnodeCpu⟩
    · rw [if_neg hidle, if_neg hidle]
      exact ⟨hphase, es, hes, hnodeCpu⟩
  | fill g files =>
    rw [Queries.step, Event.known, LazyFill.step, hphase]
    by_cases hfilling : a.phase g = .filling
    · have hfull : a.flag = true → said files.contents.entries ⊆ said es := by
        intro hflag
        rw [hes, ha.full hflag]
        exact he.1
      have hunion : said (es ++ files.contents.entries) =
          a.known ∪ said files.contents.entries := by
        rw [said_append, hes]
      rw [if_pos hfilling, if_pos hfilling, hnodeCpu, fill_built hfull]
      cases hfailure : files.contents.failure with
      | some failure =>
        refine ⟨rfl, _, hunion, ?_⟩
        exact congrArg (built · _) (Bool.or_false a.flag).symm
      | none =>
        refine ⟨rfl, _, hunion, ?_⟩
        exact congrArg (built · _) (Bool.or_true a.flag).symm
    · rw [if_neg hfilling, if_neg hfilling]
      exact ⟨hphase, es, hes, hnodeCpu⟩
  | read g =>
    rw [Queries.step, Event.known, LazyFill.step, hphase]
    by_cases hreading : a.phase g = .reading
    · rw [if_pos hreading, if_pos hreading]
      exact ⟨congrArg (Function.update · g _) hphase, es, hes, hnodeCpu⟩
    · rw [if_neg hreading, if_neg hreading]
      exact ⟨hphase, es, hes, hnodeCpu⟩

theorem known_after {es : List Event} (hes : ∀ e ∈ es, e.Unchanged whole) :
    (after es).Known (Runs.run LazyFill.step {} (es.map Event.known)) := by
  have hrun {s : Queries} {a : LazyFill.State Nat Entry} (h : s.Known a)
      (ha : LazyFill.Inv (said whole.contents.entries) a) :
      (Runs.run Queries.step s es).Known (Runs.run LazyFill.step a (es.map Event.known)) := by
    induction es generalizing s a with
    | nil => exact h
    | cons e es ih =>
      rw [List.forall_mem_cons] at hes
      obtain ⟨he, hes⟩ := hes
      exact ih hes (h.step ha he) (ha.step (Event.of_unchanged he))
  have hnew : ({} : Queries).Known {} := by
    refine ⟨rfl, [], ?_, rfl⟩
    ext e
    simp [said]
  exact hrun hnew (LazyFill.inv_init _)

/-- **What a query reads** is what a single refresh of a new instance leaves. -/
theorem queries_agree (hwhole : whole.contents.failure = none) {es : List Event}
    (hes : ∀ e ∈ es, e.Unchanged whole) {g : Nat} (hreading : (after es).phase g = .reading) :
    ({} : NodeCpu).refresh whole = .ok (after es).nodeCpu := by
  have hof : ∀ e ∈ es.map Event.known, e.Of (said whole.contents.entries) := by
    intro e he
    obtain ⟨e', he', rfl⟩ := List.mem_map.1 he
    exact Event.of_unchanged (hes e' he')
  obtain ⟨hphase, inserted, hinserted, hnodeCpu⟩ := known_after hes
  rw [hphase] at hreading
  have hflag := (LazyFill.inv_run hof).reading g hreading
  rw [LazyFill.known_of_reading hof hreading] at hinserted
  have hnew : ({} : NodeCpu).refresh whole = .ok (built true whole.contents.entries) := by
    rw [refresh_eq_fill]
    exact fill_of_complete hwhole {}
  rw [hnew, hnodeCpu, hflag]
  exact congrArg Except.ok (built_congr hinserted.symm true)

/-- A host with one hardware thread. -/
def oneHpthread : HostFiles where
  nodeDir := some ["node0".toList]
  cpulist _ := some "0\n".toList
  cpuinfo := some "processor\t: 0\nphysical id\t: 0\ncore id\t\t: 0\n\n".toList

/-- Three queries find no data. One cannot open `/proc/cpuinfo`, and the others refresh. -/
def threeQueries : List Event :=
  [.check 0, .check 1, .check 2, .fill 0 { oneHpthread with cpuinfo := none },
    .fill 1 oneHpthread, .fill 2 oneHpthread]

theorem queries_agree_threeQueries :
    ({} : NodeCpu).refresh oneHpthread = .ok (after threeQueries).nodeCpu := by
  have hread : oneHpthread.contents.entries = [.cpu ⟨0⟩ ⟨0⟩, .hpthread ⟨⟨0⟩, ⟨0⟩, ⟨0, 0⟩⟩] := rfl
  have hunread : ({ oneHpthread with cpuinfo := none } : HostFiles).contents =
      ⟨[.cpu ⟨0⟩ ⟨0⟩], some (.fileOpenFailed "To open file: /proc/cpuinfo")⟩ := rfl
  have hes : ∀ e ∈ threeQueries, e.Unchanged oneHpthread := by
    have hsub : said [.cpu ⟨0⟩ ⟨0⟩] ⊆ said oneHpthread.contents.entries :=
      said_mono (by simp [hread])
    simpa [threeQueries, Event.Unchanged, hunread] using hsub
  exact queries_agree (g := 1) rfl hes rfl

end Queries

end NodeCpu

end LibVsf
